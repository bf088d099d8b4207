import Mathlib.Data.Finset.Basic
import Mathlib.Data.Finset.Lattice.Lemmas
import Mcanbus.Effect.Process

/-! # Processes that own resources

A state holds resources. A process is judged by those that it is given, those
that it keeps with a value and those that a failure leaves, while whatever else
is held stays as it was.
-/

namespace Effect.Process

variable {σ ε ω α β ρ : Type} [DecidableEq ρ]

/-- The run ends with the resources beside the others, and no event is bad. -/
structure OwnsRun (held : σ → Finset ρ) (bad : ω → Prop) (F : Finset ρ) (kept : α → Finset ρ)
    (lost : Finset ρ) (r : Run σ ε ω α) : Prop where
  proper : ∀ e ∈ r.trace, ¬ bad e
  done : ∀ a, r.outcome = .done a → held r.state = F ∪ kept a ∧ Disjoint F (kept a)
  halted : ∀ h, r.outcome = .halted h → h ≠ .pending → held r.state = F ∪ lost ∧ Disjoint F lost

/-- The process takes the given resources to those kept with a value, or to those that a failure
leaves, whatever else is held. -/
def Owns (held : σ → Finset ρ) (bad : ω → Prop) (given : Finset ρ) (m : Process σ ε ω α)
    (kept : α → Finset ρ) (lost : Finset ρ) : Prop :=
  ∀ s F, held s = F ∪ given → Disjoint F given → OwnsRun held bad F kept lost (m s)

variable {held : σ → Finset ρ} {bad : ω → Prop} {P R : Finset ρ} {Q : α → Finset ρ}
  {m : Process σ ε ω α} {a : α} {h : Halt ε} {t : List ω}

namespace OwnsRun

variable {F : Finset ρ} {s : σ}

theorem value (hs : held s = F ∪ Q a) (hd : Disjoint F (Q a)) (ht : ∀ e ∈ t, ¬ bad e) :
    OwnsRun held bad F Q R (⟨.done a, s, t⟩ : Run σ ε ω α) := by
  refine ⟨ht, ?_, nofun⟩
  rintro b ⟨⟩
  exact ⟨hs, hd⟩

theorem failure (hs : held s = F ∪ R) (hd : Disjoint F R) (ht : ∀ e ∈ t, ¬ bad e) :
    OwnsRun held bad F Q R (⟨.halted h, s, t⟩ : Run σ ε ω α) := by
  refine ⟨ht, nofun, ?_⟩
  rintro h' ⟨⟩ -
  exact ⟨hs, hd⟩

theorem pending (ht : ∀ e ∈ t, ¬ bad e) :
    OwnsRun held bad F Q R (⟨.halted .pending, s, t⟩ : Run σ ε ω α) := by
  refine ⟨ht, nofun, ?_⟩
  rintro h' ⟨⟩ hp
  exact absurd rfl hp

theorem after {r : Run σ ε ω α} (hr : OwnsRun held bad F Q R r) (ht : ∀ e ∈ t, ¬ bad e) :
    OwnsRun held bad F Q R (r.after t) :=
  ⟨fun e he => (List.mem_append.mp he).elim (ht e) (hr.proper e), hr.done, hr.halted⟩

end OwnsRun

namespace Owns

theorem pure (ha : Q a = P) : Owns held bad P (Pure.pure a : Process σ ε ω α) Q R := by
  subst ha
  exact fun _ _ hs hd => .value hs hd nofun

theorem halt (ht : ∀ e ∈ t, ¬ bad e) : Owns held bad R (Process.halt h t : Process σ ε ω α) Q R :=
  fun _ _ hs hd => .failure hs hd ht

theorem ofChecked {c : Rust.Checked α} (hc : ∀ a, c = .ok a → Q a = R) :
    Owns held bad R (Process.ofChecked c : Process σ ε ω α) Q R := by
  cases c with
  | ok a => exact pure (hc a rfl)
  | error => exact halt nofun

/-- What the first process keeps is given to the second one. -/
theorem bind {f : α → Process σ ε ω β} {Q' : β → Finset ρ} (hm : Owns held bad P m Q R)
    (hf : ∀ a, Owns held bad (Q a) (f a) Q' R) : Owns held bad P (m >>= f) Q' R := by
  intro s F hs hd
  have hr := hm s F hs hd
  obtain ⟨a, s', t, he, hb⟩ | ⟨h, s', t, he, hb⟩ := bind_cases m f s <;> rw [he] at hr <;> rw [hb]
  · obtain ⟨hs', hd'⟩ := hr.done a rfl
    exact (hf a s' F hs' hd').after hr.proper
  · refine ⟨hr.proper, nofun, ?_⟩
    rintro h' ⟨⟩
    exact hr.halted h rfl

/-- A process that gives back what it was given may borrow it from what is held. -/
theorem borrow {F : Finset ρ} {s : σ} (hm : Owns held bad P m (fun a => P ∪ Q a) P)
    (hP : P ⊆ F) (hs : held s = F) (hQ : ∀ a, (m s).outcome = .done a → Disjoint P (Q a)) :
    OwnsRun held bad F Q ∅ (m s) := by
  have hsplit : held s = (F \ P) ∪ P := by rw [hs, Finset.sdiff_union_of_subset hP]
  have hr := hm s (F \ P) hsplit Finset.sdiff_disjoint
  refine ⟨hr.proper, fun a ha => ?_, fun h hh hp => ?_⟩
  · obtain ⟨hs', hd⟩ := hr.done a ha
    rw [← Finset.union_assoc, Finset.sdiff_union_of_subset hP] at hs'
    rw [Finset.disjoint_union_right] at hd
    refine ⟨hs', ?_⟩
    rw [← Finset.sdiff_union_of_subset hP, Finset.disjoint_union_left]
    exact ⟨hd.2, hQ a ha⟩
  · obtain ⟨hs', -⟩ := hr.halted h hh hp
    rw [Finset.sdiff_union_of_subset hP] at hs'
    exact ⟨by rw [hs', Finset.union_empty], Finset.disjoint_empty_right F⟩

end Owns

end Effect.Process
