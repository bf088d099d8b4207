import Mcanbus.Effect.Trace
import Mcanbus.Transition.Basic

/-! # Processes and their peers

The events of a process are steps of a peer, which may have several ways to take
each of them. A relation between the outcome and the states of the peer before
and after is proved along the structure of the process.
-/

namespace Effect.Process

open Transition

variable {σ ε ω α β τ : Type} {step : τ → ω → τ → Prop} {m : Process σ ε ω α}
  {f : α → Process σ ε ω β} {a : α} {h : Halt ε} {t : List ω}

/-- Whatever the peer does on the events of a run, the outcome and its states are related. -/
def Drives (step : τ → ω → τ → Prop) (m : Process σ ε ω α) (Φ : Outcome ε α → τ → τ → Prop) :
    Prop :=
  Traces m fun o t => ∀ p q, Runs step p t q → Φ o p q

namespace Drives

variable {Φ Ψ : Outcome ε α → τ → τ → Prop}

theorem mono (hm : Drives step m Φ) (h : ∀ o p q, Φ o p q → Ψ o p q) : Drives step m Ψ :=
  Traces.mono hm fun o _ ht p q hr => h o p q (ht p q hr)

theorem pure (ha : ∀ p, Φ (.done a) p p) : Drives step (Pure.pure a : Process σ ε ω α) Φ := by
  refine Traces.pure fun p q hr => ?_
  cases hr
  exact ha p

theorem halt (hh : ∀ p, Φ (.halted h) p p) :
    Drives step (Process.halt h [] : Process σ ε ω α) Φ := by
  refine Traces.halt fun p q hr => ?_
  cases hr
  exact hh p

theorem ofChecked {c : Rust.Checked α} (hok : ∀ a, c = .ok a → ∀ p, Φ (.done a) p p)
    (herr : ∀ x p, Φ (.halted (.panicked x)) p p) :
    Drives step (Process.ofChecked c : Process σ ε ω α) Φ := by
  cases hc : c with
  | ok a => exact pure (hok a hc)
  | error x => exact halt (herr x)

/-- The peer goes on from where the first process left it. -/
theorem bind {Θ : α → Outcome ε β → τ → τ → Prop} {Ψ : Outcome ε β → τ → τ → Prop}
    (hm : Drives step m Φ) (hf : ∀ a, Drives step (f a) (Θ a))
    (hd : ∀ a o p q r, Φ (.done a) p q → Θ a o q r → Ψ o p r)
    (hh : ∀ h p q, Φ (.halted h) p q → Ψ (.halted h) p q) : Drives step (m >>= f) Ψ := by
  refine Traces.bind hm ?_ fun h t ht p q hr => hh h p q (ht p q hr)
  intro a t ht
  refine Traces.mono (hf a) fun o u hu p r hr => ?_
  obtain ⟨q, hpq, hqr⟩ := Runs.append_iff.mp hr
  exact hd a o p q r (ht p q hpq) (hu q r hqr)

end Drives

end Effect.Process
