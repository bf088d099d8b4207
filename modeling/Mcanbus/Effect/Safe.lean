import Mcanbus.Effect.Process

/-! # Processes without panics

A safe process does not panic from states with an invariant; where it returns it
keeps the invariant, and its value has a property that what follows may use. The
states at the head of a loop are those that its body reaches by continuing.
-/

namespace Effect.Process

open Rust

variable {σ ε ω α β : Type}

/-! ### Safe processes -/

/-- The run does not panic, and a value comes with the property in a state with the invariant. -/
structure SafeRun (I : σ → Prop) (R : α → Prop) (r : Run σ ε ω α) : Prop where
  noPanic : ∀ p, r.outcome ≠ .halted (.panicked p)
  keeps : ∀ a, r.outcome = .done a → I r.state ∧ R a

/-- Every run from a state with the invariant is safe. -/
def Safe (I : σ → Prop) (m : Process σ ε ω α) (R : α → Prop) : Prop := ∀ s, I s → SafeRun I R (m s)

variable {I : σ → Prop} {R S : α → Prop} {m : Process σ ε ω α} {a : α} {h : Halt ε} {s : σ}
  {t : List ω}

namespace SafeRun

theorem done (hs : I s) (ha : R a) : SafeRun I R (⟨.done a, s, t⟩ : Run σ ε ω α) := by
  constructor
  · rintro p ⟨⟩
  · rintro b ⟨⟩
    exact ⟨hs, ha⟩

theorem halted (hh : ∀ p, h ≠ .panicked p) : SafeRun I R (⟨.halted h, s, t⟩ : Run σ ε ω α) := by
  constructor
  · rintro p ⟨⟩
    exact hh p rfl
  · rintro b ⟨⟩

theorem after {r : Run σ ε ω α} (hr : SafeRun I R r) : SafeRun I R (r.after t) :=
  ⟨hr.noPanic, hr.keeps⟩

end SafeRun

namespace Safe

theorem mono (hm : Safe I m R) (hRS : ∀ a, R a → S a) : Safe I m S := by
  intro s hs
  obtain ⟨hp, hk⟩ := hm s hs
  exact ⟨hp, fun a ha => ⟨(hk a ha).1, hRS a (hk a ha).2⟩⟩

theorem pure (ha : R a) : Safe I (Pure.pure a : Process σ ε ω α) R :=
  fun _ hs => .done hs ha

theorem halt (hh : ∀ p, h ≠ .panicked p) : Safe I (Process.halt h t : Process σ ε ω α) R :=
  fun _ _ => .halted hh

theorem ofChecked {c : Checked α} (hc : ∃ a, c = .ok a ∧ R a) :
    Safe I (Process.ofChecked c : Process σ ε ω α) R := by
  obtain ⟨a, rfl, ha⟩ := hc
  exact pure ha

theorem bind {f : α → Process σ ε ω β} {S : β → Prop} (hm : Safe I m R)
    (hf : ∀ a, R a → Safe I (f a) S) : Safe I (m >>= f) S := by
  intro s hs
  have hr := hm s hs
  obtain ⟨a, s', t, he, hb⟩ | ⟨h, s', t, he, hb⟩ := bind_cases m f s <;> rw [he] at hr <;> rw [hb]
  · obtain ⟨hs', ha⟩ := hr.keeps a rfl
    exact (hf a ha s' hs').after
  · apply SafeRun.halted
    rintro p rfl
    exact hr.noPanic p rfl

/-- The loop rule: what holds of the variables at the head of the loop is kept by the body. -/
theorem loop {μ : β → σ → ℕ} {body : β → Process σ ε ω (β ⊕ α)} {J : β → Prop}
    (hbody : ∀ b, J b → Safe I (body b) fun r => match r with
      | .inl b' => J b'
      | .inr a => R a)
    {b : β} (hb : J b) : Safe I (Process.loop μ body b) R := by
  have key : ∀ n b, J b → Safe I (loopFuel body n b) R := by
    intro n
    induction n with
    | zero => exact fun b _ => halt (by simp)
    | succ n ih =>
      intro b hb
      apply bind (hbody b hb)
      rintro (b' | a) hr
      · exact ih b' hr
      · exact pure hr
  exact fun s hs => key (μ b s + 1) b hb s hs

end Safe

/-! ### The heads of a loop -/

/-- The variables and the states at the head of a loop that the body reaches by continuing. -/
inductive Visits (body : β → Process σ ε ω (β ⊕ α)) (b : β) (s : σ) : β → σ → Prop
  | start : Visits body b s b s
  | next {b₁ b₂ : β} {s₁ s₂ : σ} {t : List ω} : Visits body b s b₁ s₁ →
      body b₁ s₁ = ⟨.done (.inl b₂), s₂, t⟩ → Visits body b s b₂ s₂

namespace Visits

variable {μ : β → σ → ℕ} {body : β → Process σ ε ω (β ⊕ α)} {b b' : β} {s s' : σ}

/-- What the body keeps holds at every head. -/
theorem invariant {J : β → Prop}
    (hbody : ∀ b s b' s' t, J b → body b s = ⟨.done (.inl b'), s', t⟩ → J b')
    (hb : J b) (h : Visits body b s b' s') : J b' := by
  induction h with
  | start => exact hb
  | next _ hstep ih => exact hbody _ _ _ _ _ ih hstep

/-- The loop goes on from each of its heads. -/
theorem loop_eq (hμ : Descends μ body) (h : Visits body b s b' s') :
    ∃ t, loop μ body b s = (loop μ body b' s').after t := by
  induction h with
  | start => exact ⟨[], rfl⟩
  | next _ hstep ih =>
    obtain ⟨t, ht⟩ := ih
    rw [ht, loop_continue hμ hstep, Run.after_after]
    exact ⟨_, rfl⟩

end Visits

end Effect.Process
