import Mcanbus.Effect.Process

/-! # Properties of traces

A relation between the outcome and the trace of every run is proved along the
structure of the process. A guard says which event may follow which history; a
trace respects it when each of its events is allowed after those before it.
-/

namespace Effect

open Rust

variable {σ ε ω α β : Type}

/-! ### Guarded traces -/

/-- Every event of the second list is allowed after the first list and the events before it. -/
def Guarded (P : List ω → ω → Prop) : List ω → List ω → Prop
  | _, [] => True
  | h, e :: t => P h e ∧ Guarded P (h ++ [e]) t

namespace Guarded

variable {P : List ω → ω → Prop} {h t u : List ω} {e : ω}

@[simp] theorem nil : Guarded P h [] := trivial

@[simp] theorem singleton : Guarded P h [e] ↔ P h e := by
  simp [Guarded]

theorem append : Guarded P h (t ++ u) ↔ Guarded P h t ∧ Guarded P (h ++ t) u := by
  induction t generalizing h with
  | nil => simp
  | cons e t ih => simp [Guarded, ih, and_assoc]

theorem of_mid (ht : Guarded P h (t ++ e :: u)) : P (h ++ t) e := (append.mp ht).2.1

/-- What the allowed events keep holds of the whole history. -/
theorem invariant {I : List ω → Prop} (hI : ∀ h e, I h → P h e → I (h ++ [e])) (ht : Guarded P h t)
    (hh : I h) : I (h ++ t) := by
  induction t generalizing h with
  | nil => simpa using hh
  | cons e t ih => simpa using ih ht.2 (hI h e hh ht.1)

end Guarded

/-! ### Traces of processes -/

namespace Process

variable {m : Process σ ε ω α} {f : α → Process σ ε ω β} {t : List ω} {a : α} {h : Halt ε}
  {μ : β → σ → ℕ} {body : β → Process σ ε ω (β ⊕ α)}

/-- Every run of the process has an outcome and a trace in the relation. -/
def Traces (m : Process σ ε ω α) (Φ : Outcome ε α → List ω → Prop) : Prop :=
  ∀ s, Φ (m s).outcome (m s).trace

namespace Traces

variable {Φ Ψ : Outcome ε α → List ω → Prop}

theorem mono (hm : Traces m Φ) (h : ∀ o t, Φ o t → Ψ o t) : Traces m Ψ :=
  fun s => h _ _ (hm s)

theorem pure (h : Φ (.done a) []) : Traces (Pure.pure a : Process σ ε ω α) Φ := fun _ => h

theorem halt (hh : Φ (.halted h) t) : Traces (Process.halt h t : Process σ ε ω α) Φ :=
  fun _ => hh

theorem ofChecked {c : Checked α} (hok : ∀ a, c = .ok a → Φ (.done a) [])
    (herr : ∀ p, Φ (.halted (.panicked p)) []) :
    Traces (Process.ofChecked c : Process σ ε ω α) Φ := by
  cases hc : c with
  | ok a => exact pure (hok a hc)
  | error p => exact halt (herr p)

/-- What the second process adds is judged after what the first one left. -/
theorem bind {Ψ : Outcome ε β → List ω → Prop} (hm : Traces m Φ)
    (hf : ∀ a t, Φ (.done a) t → Traces (f a) fun o u => Ψ o (t ++ u))
    (hh : ∀ h t, Φ (.halted h) t → Ψ (.halted h) t) : Traces (m >>= f) Ψ := by
  intro s
  have hs := hm s
  obtain ⟨a, s', t, he, hb⟩ | ⟨h, s', t, he, hb⟩ := bind_cases m f s
  · rw [he] at hs
    rw [hb]
    exact hf a t hs s'
  · rw [he] at hs
    rw [hb]
    exact hh h t hs

/-- The loop rule: what holds of the trace at the head of the loop, and what its last
iteration adds. -/
theorem loop {J : β → List ω → Prop} {Ψ : Outcome ε α → List ω → Prop}
    (hbody : ∀ b t, J b t → Traces (body b) fun o u => match o with
      | .done (.inl b') => J b' (t ++ u)
      | .done (.inr a) => Ψ (.done a) (t ++ u)
      | .halted h => Ψ (.halted h) (t ++ u))
    (hfuel : ∀ b t, J b t → Ψ (.halted .pending) t) {b : β} (h₀ : J b []) :
    Traces (Process.loop μ body b) Ψ := by
  have key : ∀ n b t, J b t → Traces (loopFuel body n b) fun o u => Ψ o (t ++ u) := by
    intro n
    induction n with
    | zero =>
      intro b t hj
      exact halt (by simpa using hfuel b t hj)
    | succ n ih =>
      intro b t hj s
      have hs := hbody b t hj s
      unfold loopFuel
      rcases hb : body b s with ⟨(b' | a) | h, s', u⟩ <;> rw [hb] at hs
      · rw [bind_done hb]
        simpa [List.append_assoc] using ih b' (t ++ u) hs s'
      · rw [bind_done hb]
        simpa using hs
      · rw [bind_halted hb]
        exact hs
  exact fun s => key (μ b s + 1) b [] h₀ s

end Traces

end Process

end Effect
