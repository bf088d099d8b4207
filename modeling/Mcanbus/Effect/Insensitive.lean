import Mcanbus.Effect.Process

/-! # Two runs of one process

A relation between environments names what a process may depend on. From
related environments, two runs that avoid a given event end in the same way and
show the same observed events; the rules follow the structure of the process.
-/

namespace Effect

open Rust

variable {σ ε ω κ α β : Type}

/-- Two runs end in the same way and show the same observed events. -/
structure Agrees (R : σ → σ → Prop) (obs : ω → Option κ) (r r' : Run σ ε ω α) : Prop where
  outcome : r.outcome = r'.outcome
  observed : r.trace.filterMap obs = r'.trace.filterMap obs
  related : ∀ a, r.outcome = .done a → R r.state r'.state

namespace Process

/-- From related environments, runs without the given event agree. -/
def Insensitive (R : σ → σ → Prop) (bad : ω) (obs : ω → Option κ) (m : Process σ ε ω α) : Prop :=
  ∀ s s', R s s' → bad ∉ (m s).trace → bad ∉ (m s').trace → Agrees R obs (m s) (m s')

namespace Insensitive

variable {R : σ → σ → Prop} {bad : ω} {obs : ω → Option κ} {m : Process σ ε ω α}
  {f : α → Process σ ε ω β} {μ : β → σ → ℕ} {body : β → Process σ ε ω (β ⊕ α)}

theorem pure (a : α) : Insensitive R bad obs (pure a : Process σ ε ω α) :=
  fun _ _ hr _ _ => ⟨rfl, rfl, fun _ _ => hr⟩

theorem halt (h : Halt ε) (t : List ω) : Insensitive R bad obs (halt h t : Process σ ε ω α) :=
  fun _ _ _ _ _ => ⟨rfl, rfl, fun _ hd => nomatch hd⟩

theorem ofChecked (c : Checked α) : Insensitive R bad obs (ofChecked c : Process σ ε ω α) := by
  cases c with
  | ok a => exact pure a
  | error p => exact halt _ _

theorem bind (hm : Insensitive R bad obs m) (hf : ∀ a, Insensitive R bad obs (f a)) :
    Insensitive R bad obs (m >>= f) := by
  intro s s' hr hb hb'
  have hagree (h : bad ∉ (m s).trace) (h' : bad ∉ (m s').trace) := hm s s' hr h h'
  obtain ⟨a, r, t, he, hs⟩ | ⟨h, r, t, he, hs⟩ := bind_cases m f s <;>
    obtain ⟨a', r', t', he', hs'⟩ | ⟨h', r', t', he', hs'⟩ := bind_cases m f s' <;>
    rw [hs] at hb ⊢ <;> rw [hs'] at hb' ⊢ <;> rw [he, he'] at hagree
  · simp only [Run.trace_after, List.mem_append, not_or] at hb hb'
    obtain ⟨ho, ht, hrel⟩ := hagree hb.1 hb'.1
    obtain rfl := Outcome.done.inj ho
    obtain ⟨ho', ht', hrel'⟩ := hf a r r' (hrel a rfl) hb.2 hb'.2
    refine ⟨ho', ?_, hrel'⟩
    simp only [Run.trace_after, List.filterMap_append]
    exact congrArg₂ _ ht ht'
  · simp only [Run.trace_after, List.mem_append, not_or] at hb
    exact nomatch (hagree hb.1 hb').outcome
  · simp only [Run.trace_after, List.mem_append, not_or] at hb'
    exact nomatch (hagree hb hb'.1).outcome
  · obtain ⟨ho, ht, -⟩ := hagree hb hb'
    obtain rfl := Outcome.halted.inj ho
    exact ⟨rfl, ht, fun _ hd => nomatch hd⟩

/-- Loops run in step although their measures may differ in the two environments. -/
theorem loop (hμ : Descends μ body) (hbody : ∀ b, Insensitive R bad obs (body b)) (b : β) :
    Insensitive R bad obs (loop μ body b) := by
  have hfuel : ∀ n b, Insensitive R bad obs (loopFuel body n b) := by
    intro n
    induction n with
    | zero => exact fun b => halt _ _
    | succ n ih =>
      intro b
      apply bind (hbody b)
      rintro (b' | a)
      · exact ih b'
      · exact pure a
  intro s s' hr
  have hs : Process.loop μ body b s = loopFuel body (max (μ b s) (μ b s') + 1) b s :=
    loopFuel_congr hμ (Nat.lt_succ_self _) (Nat.lt_succ_of_le (Nat.le_max_left _ _))
  have hs' : Process.loop μ body b s' = loopFuel body (max (μ b s) (μ b s') + 1) b s' :=
    loopFuel_congr hμ (Nat.lt_succ_self _) (Nat.lt_succ_of_le (Nat.le_max_right _ _))
  rw [hs, hs']
  exact hfuel _ b s s' hr

end Insensitive

end Process

end Effect
