import Mathlib.Data.Nat.Notation
import Mathlib.Data.List.Basic

/-! # Runs of labelled transition systems

A run is a finite sequence of labelled steps. Predicates that every step keeps
hold along every run, and a measure that every step lowers bounds its length.
-/

namespace Transition

variable {σ α : Type*} (step : σ → α → σ → Prop)

/-- Runs of the system, with the labels of their steps. -/
inductive Runs : σ → List α → σ → Prop
  | nil (s : σ) : Runs s [] s
  | cons {s t u : σ} {a : α} {as : List α} : step s a t → Runs t as u → Runs s (a :: as) u

/-- States at the end of a run from the given state. -/
def Reachable (s t : σ) : Prop := ∃ as, Runs step s as t

/-- No step leaves the state. -/
def Terminal (s : σ) : Prop := ∀ a t, ¬ step s a t

variable {step}

theorem Runs.append {s t u : σ} {as bs : List α} (h : Runs step s as t) (h' : Runs step t bs u) :
    Runs step s (as ++ bs) u := by
  induction h with
  | nil => exact h'
  | cons hs _ ih => exact .cons hs (ih h')

/-- A run takes its labels one part after the other. -/
theorem Runs.append_iff {s u : σ} {as bs : List α} :
    Runs step s (as ++ bs) u ↔ ∃ t, Runs step s as t ∧ Runs step t bs u := by
  constructor
  · intro h
    induction as generalizing s with
    | nil => exact ⟨s, .nil s, h⟩
    | cons a as ih =>
      cases h with
      | cons ha h =>
        obtain ⟨t, hs, ht⟩ := ih h
        exact ⟨t, .cons ha hs, ht⟩
  · rintro ⟨t, hs, ht⟩
    exact hs.append ht

theorem Runs.invariant {I : σ → Prop} (hI : ∀ s a t, I s → step s a t → I t) {s t : σ}
    {as : List α} (h : Runs step s as t) (hs : I s) : I t := by
  induction h with
  | nil => exact hs
  | cons ha _ ih => exact ih (hI _ _ _ hs ha)

/-- An invariant of states together with the labels of the run so far. -/
theorem Runs.history {I : List α → σ → Prop} {s t : σ} {as : List α}
    (hI : ∀ as s a t, I as s → step s a t → I (as ++ [a]) t) (h : Runs step s as t)
    (hs : I [] s) : I as t := by
  suffices hall : ∀ bs, I bs s → I (bs ++ as) t from hall [] hs
  clear hs
  induction h with
  | nil s =>
    intro bs hs
    rwa [List.append_nil]
  | @cons s t u a as ha _ ih =>
    intro bs hs
    rw [List.append_cons]
    exact ih _ (hI _ _ _ _ hs ha)

theorem Reachable.refl (s : σ) : Reachable step s s := ⟨[], .nil s⟩

/-- What holds at the start and is kept by every step holds of every reachable state. -/
theorem Reachable.invariant {I : σ → Prop} (hI : ∀ s a t, I s → step s a t → I t) {s t : σ}
    (h : Reachable step s t) (hs : I s) : I t := by
  obtain ⟨as, hr⟩ := h
  exact hr.invariant hI hs

/-- A measure that every step lowers bounds the length of every run. -/
theorem Runs.length_le {I : σ → Prop} {μ : σ → ℕ} (hI : ∀ s a t, I s → step s a t → I t)
    (hμ : ∀ s a t, I s → step s a t → μ t < μ s) {s t : σ} {as : List α}
    (h : Runs step s as t) (hs : I s) : as.length ≤ μ s := by
  induction h with
  | nil => exact Nat.zero_le _
  | cons ha _ ih =>
    have h₁ := ih (hI _ _ _ hs ha)
    have h₂ := hμ _ _ _ hs ha
    simp only [List.length_cons]
    omega

/-- A measure that every step lowers leads from every state to a terminal one. -/
theorem exists_terminal {I : σ → Prop} {μ : σ → ℕ} (hI : ∀ s a t, I s → step s a t → I t)
    (hμ : ∀ s a t, I s → step s a t → μ t < μ s) {s : σ} (hs : I s) :
    ∃ t, Reachable step s t ∧ Terminal step t := by
  induction hn : μ s using Nat.strongRecOn generalizing s with
  | ind n ih =>
    subst hn
    by_cases ht : Terminal step s
    · exact ⟨s, .refl s, ht⟩
    · simp only [Terminal, not_forall, not_not] at ht
      obtain ⟨a, t, ha⟩ := ht
      obtain ⟨u, ⟨as, hr⟩, hu⟩ := ih _ (hμ _ _ _ hs ha) (hI _ _ _ hs ha) rfl
      exact ⟨u, ⟨a :: as, .cons ha hr⟩, hu⟩

end Transition
