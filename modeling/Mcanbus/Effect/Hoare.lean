import Mcanbus.Effect.Process

/-! # Triples

An assertion is about a state and the events so far. A triple says that a process
takes a precondition to a postcondition of its value, or to one of its failure; it
is proved along the structure of the process.
-/

namespace Effect.Process

open Rust

/-- An assertion about the state and the events so far. -/
abbrev Assertion (σ ω : Type) := σ → List ω → Prop

variable {σ ε ω α β : Type}

/-- The run ends in a postcondition, after the given events. -/
structure Establishes (Q : α → Assertion σ ω) (X : Halt ε → Assertion σ ω) (t : List ω)
    (r : Run σ ε ω α) : Prop where
  done : ∀ a, r.outcome = .done a → Q a r.state (t ++ r.trace)
  halted : ∀ h, r.outcome = .halted h → X h r.state (t ++ r.trace)

/-- The process takes the precondition to one of the postconditions. -/
def Triple (P : Assertion σ ω) (m : Process σ ε ω α) (Q : α → Assertion σ ω)
    (X : Halt ε → Assertion σ ω) : Prop :=
  ∀ s t, P s t → Establishes Q X t (m s)

variable {P P' : Assertion σ ω} {Q Q' : α → Assertion σ ω} {R : β → Assertion σ ω}
  {X X' : Halt ε → Assertion σ ω} {m : Process σ ε ω α} {f : α → Process σ ε ω β} {a : α}
  {h : Halt ε} {s : σ} {t u : List ω}

namespace Establishes

theorem value (hq : Q a s (t ++ u)) :
    Establishes Q X t (⟨.done a, s, u⟩ : Run σ ε ω α) := by
  refine ⟨?_, nofun⟩
  rintro _ ⟨⟩
  exact hq

theorem failure (hx : X h s (t ++ u)) :
    Establishes Q X t (⟨.halted h, s, u⟩ : Run σ ε ω α) := by
  refine ⟨nofun, ?_⟩
  rintro _ ⟨⟩
  exact hx

theorem after {r : Run σ ε ω α} (hr : Establishes Q X (t ++ u) r) :
    Establishes Q X t (r.after u) := by
  refine ⟨fun a ha => ?_, fun h hh => ?_⟩
  · rw [Run.trace_after, ← List.append_assoc]
    exact hr.done a ha
  · rw [Run.trace_after, ← List.append_assoc]
    exact hr.halted h hh

end Establishes

namespace Triple

/-- The rule of consequence. -/
theorem mono (hm : Triple P m Q X) (hP : ∀ s t, P' s t → P s t)
    (hQ : ∀ a s t, Q a s t → Q' a s t) (hX : ∀ h s t, X h s t → X' h s t) : Triple P' m Q' X' :=
  fun s t hp => ⟨fun a ha => hQ a _ _ ((hm s t (hP s t hp)).done a ha),
    fun h hh => hX h _ _ ((hm s t (hP s t hp)).halted h hh)⟩

theorem pre (hm : Triple P m Q X) (hP : ∀ s t, P' s t → P s t) : Triple P' m Q X :=
  hm.mono hP (fun _ _ _ hq => hq) fun _ _ _ hx => hx

theorem post (hm : Triple P m Q X) (hQ : ∀ a s t, Q a s t → Q' a s t) : Triple P m Q' X :=
  hm.mono (fun _ _ hp => hp) hQ fun _ _ _ hx => hx

/-- A fact of the precondition that is not about the state. -/
theorem intro {φ : Prop} (hm : φ → Triple P m Q X) : Triple (fun s t => φ ∧ P s t) m Q X :=
  fun s t hp => hm hp.1 s t hp.2

/-- A value of which the precondition tells that it exists. -/
theorem exists_intro {ι : Type} {P : ι → Assertion σ ω} (hm : ∀ i, Triple (P i) m Q X) :
    Triple (fun s t => ∃ i, P i s t) m Q X := by
  rintro s t ⟨i, hp⟩
  exact hm i s t hp

theorem pure (hq : ∀ s t, P s t → Q a s t) :
    Triple P (Pure.pure a : Process σ ε ω α) Q X := by
  intro s t hp
  refine .value ?_
  rw [List.append_nil]
  exact hq s t hp

theorem halt (hx : ∀ s t, P s t → X h s (t ++ u)) :
    Triple P (Process.halt h u : Process σ ε ω α) Q X :=
  fun s t hp => .failure (hx s t hp)

theorem ofChecked {c : Checked α} (hok : ∀ a, c = .ok a → ∀ s t, P s t → Q a s t)
    (herr : ∀ p s t, P s t → X (.panicked p) s t) :
    Triple P (Process.ofChecked c : Process σ ε ω α) Q X := by
  cases hc : c with
  | ok a => exact pure (hok a hc)
  | error p => exact halt fun s t hp => (List.append_nil t).symm ▸ herr p s t hp

theorem bind (hm : Triple P m Q X) (hf : ∀ a, Triple (Q a) (f a) R X) :
    Triple P (m >>= f) R X := by
  intro s t hp
  have hr := hm s t hp
  obtain ⟨a, s', u, he, hb⟩ | ⟨h, s', u, he, hb⟩ := bind_cases m f s <;> rw [he] at hr <;> rw [hb]
  · exact (hf a s' (t ++ u) (hr.done a rfl)).after
  · exact .failure (hr.halted h rfl)

/-- The loop rule: what holds at the head of the loop is kept by a body that continues. -/
theorem loop {μ : β → σ → ℕ} {body : β → Process σ ε ω (β ⊕ α)} {J : β → Assertion σ ω}
    (hbody : ∀ b, Triple (J b) (body b) (Sum.elim J Q) X)
    (hfuel : ∀ b s t, J b s t → X .pending s t) (b : β) :
    Triple (J b) (Process.loop μ body b) Q X := by
  have key : ∀ n b, Triple (J b) (loopFuel body n b) Q X := by
    intro n
    induction n with
    | zero => exact fun b => halt fun s t hj => (List.append_nil t).symm ▸ hfuel b s t hj
    | succ n ih =>
      intro b
      refine (hbody b).bind ?_
      rintro (b' | a)
      · exact ih b'
      · exact pure fun _ _ hq => hq
  exact fun s => key (μ b s + 1) b s

end Triple

end Effect.Process
