import Mcanbus.Socket.Filter

/-! # Filters of the constructors

The constructors of filters match identifier words bit by bit, and the receiver
reads the same words as identifiers. A list of constructed filters delivers the
words whose identifier one of the constructor calls names, in its own format.
-/

namespace Mcanbus

/-- A call of a constructor of filters. -/
inductive FilterEntry where
  | standardExact (id : UInt16)
  | extendedExact (id : UInt32)
  | standardMasked (pattern mask : UInt16)
  deriving DecidableEq, Repr

namespace FilterEntry

/-- The filter that the call returns. -/
def filter : FilterEntry → CanFilter
  | .standardExact id => .standardExact id
  | .extendedExact id => .extendedExact id
  | .standardMasked pattern mask => .standardMasked pattern mask

/-- The identifiers that the call names. -/
def Names : FilterEntry → CanId → Prop
  | .standardExact id, c => c = .standard id
  | .extendedExact id, c => c = .extended id
  | .standardMasked pattern mask, c =>
    ∃ r, c = .Standard r ∧ r &&& mask &&& 0x7FF = pattern &&& mask &&& 0x7FF

/-- The call is for extended identifiers. -/
def isExtended : FilterEntry → Bool
  | .extendedExact _ => true
  | _ => false

/-- An identifier that is named has the format of the call. -/
theorem Names.isExtended_eq {entry : FilterEntry} {c : CanId} (h : entry.Names c) :
    c.isExtended = entry.isExtended := by
  cases entry with
  | standardExact id =>
    obtain rfl : c = .standard id := h
    rfl
  | extendedExact id =>
    obtain rfl : c = .extended id := h
    rfl
  | standardMasked pattern mask =>
    obtain ⟨r, rfl, -⟩ := h
    rfl

end FilterEntry

section Words

variable {w : UInt32} {r id pattern mask : UInt16}

/-- A word is read as the standard identifier with the bits of the word. -/
theorem fromWire_eq_Standard : CanId.fromWire w = .Standard r ↔
    w &&& canEffFlag = 0 ∧ w &&& canSffMask = r.toUInt32 := by
  constructor
  · intro h
    have he : w &&& canEffFlag = 0 := by
      by_contra hc
      rw [CanId.fromWire_extended hc] at h
      cases h
    refine ⟨he, ?_⟩
    rw [← CanId.raw_fromWire_standard he, h]
    rfl
  · rintro ⟨he, hr⟩
    rw [CanId.fromWire_standard he, hr, UInt16.toUInt16_toUInt32]

theorem fromWire_eq_Extended {n : UInt32} : CanId.fromWire w = .Extended n ↔
    w &&& canEffFlag = canEffFlag ∧ w &&& canEffMask = n := by
  have hne : canEffFlag ≠ 0 := by decide
  constructor
  · intro h
    rcases CanId.and_eff_cases w with he | he
    · rw [CanId.fromWire_standard he] at h
      cases h
    · rw [CanId.fromWire_extended (by simp [he, hne])] at h
      exact ⟨he, CanId.Extended.inj h⟩
  · rintro ⟨he, rfl⟩
    exact CanId.fromWire_extended (by simp [he, hne])

theorem toUInt32_and_sff (id : UInt16) :
    (id &&& canSffMask.toUInt16).toUInt32 = id.toUInt32 &&& canSffMask := by
  rw [UInt16.toUInt32_and]
  rfl

/-- A standard pattern has no bits outside the standard mask. -/
theorem and_sff_and_eff (p : UInt32) : p &&& canSffMask &&& canEffFlag = 0 := by
  rw [UInt32.and_assoc, show canSffMask &&& canEffFlag = 0 by decide, UInt32.and_zero]

theorem standardExact_matches :
    (CanFilter.standardExact id).Matches w ↔ CanId.fromWire w = .standard id := by
  unfold CanFilter.Matches CanFilter.standardExact CanId.standard
  rw [and_or_eq_iff, fromWire_eq_Standard, toUInt32_and_sff, and_sff_and_eff]
  simp only [UInt32.and_assoc, UInt32.and_self]
  exact and_comm

theorem extendedExact_matches {n : UInt32} :
    (CanFilter.extendedExact n).Matches w ↔ CanId.fromWire w = .extended n := by
  unfold CanFilter.Matches CanFilter.extendedExact CanId.extended
  have hm : canEffFlag &&& canEffMask = 0 := by decide
  have hf : canEffMask &&& canEffFlag = 0 := by decide
  rw [and_or_eq_iff, fromWire_eq_Extended, or_and_right, or_and_right]
  simp only [UInt32.and_assoc, UInt32.and_self, hm, hf, UInt32.and_zero, UInt32.or_zero,
    UInt32.zero_or]
  exact and_comm

theorem and_sff_and_sff (p m : UInt32) :
    p &&& canSffMask &&& (m &&& canSffMask) = p &&& (m &&& canSffMask) := by
  rw [UInt32.and_comm m, UInt32.and_assoc, ← UInt32.and_assoc canSffMask, UInt32.and_self]

theorem toUInt32_and_mask (id mask : UInt16) :
    id.toUInt32 &&& (mask.toUInt32 &&& canSffMask) = (id &&& mask &&& 0x7FF).toUInt32 := by
  have hsff : (0x7FF : UInt16).toUInt32 = canSffMask := by decide
  rw [UInt16.toUInt32_and, UInt16.toUInt32_and, hsff, UInt32.and_assoc]

/-- The words under a mask of eleven bits agree when the standard numbers do. -/
theorem and_mask_eq_iff (hr : w &&& canSffMask = r.toUInt32) :
    w &&& (mask.toUInt32 &&& canSffMask) =
        pattern.toUInt32 &&& canSffMask &&& (mask.toUInt32 &&& canSffMask) ↔
      r &&& mask &&& 0x7FF = pattern &&& mask &&& 0x7FF := by
  have hw : w &&& (mask.toUInt32 &&& canSffMask) = (r &&& mask &&& 0x7FF).toUInt32 := by
    rw [← and_sff_and_sff, hr, toUInt32_and_mask]
  have hp : pattern.toUInt32 &&& canSffMask &&& (mask.toUInt32 &&& canSffMask) =
      (pattern &&& mask &&& 0x7FF).toUInt32 := by
    rw [and_sff_and_sff, toUInt32_and_mask]
  rw [hw, hp, UInt16.toUInt32_inj]

theorem standardMasked_matches : (CanFilter.standardMasked pattern mask).Matches w ↔
    ∃ r, CanId.fromWire w = .Standard r ∧
      r &&& mask &&& 0x7FF = pattern &&& mask &&& 0x7FF := by
  unfold CanFilter.Matches CanFilter.standardMasked
  rw [and_or_eq_iff, and_sff_and_eff]
  constructor
  · rintro ⟨hm, he⟩
    have hr := CanId.fromWire_standard he
    have hw := (fromWire_eq_Standard.mp hr).2
    exact ⟨_, hr, (and_mask_eq_iff hw).mp hm⟩
  · rintro ⟨r, hr, hm⟩
    obtain ⟨he, hw⟩ := fromWire_eq_Standard.mp hr
    exact ⟨(and_mask_eq_iff hw).mpr hm, he⟩

end Words

/-- The rule of the kernel on a constructed filter is the rule on identifiers. -/
theorem FilterEntry.matches_iff {entry : FilterEntry} {w : UInt32} :
    entry.filter.Matches w ↔ entry.Names (CanId.fromWire w) := by
  cases entry with
  | standardExact id => exact standardExact_matches
  | extendedExact id => exact extendedExact_matches
  | standardMasked pattern mask => exact standardMasked_matches

/-- Constructed filters deliver exactly the words whose identifier is named, and each of them
matches only words of its own format. -/
theorem delivers_entries_iff (entries : List FilterEntry) (w : UInt32) :
    (Delivers (entries.map FilterEntry.filter) w ↔
      (∃ id, .standardExact id ∈ entries ∧ CanId.fromWire w = .standard id) ∨
      (∃ id, .extendedExact id ∈ entries ∧ CanId.fromWire w = .extended id) ∨
      (∃ p m r, .standardMasked p m ∈ entries ∧ CanId.fromWire w = .Standard r ∧
        r &&& m &&& 0x7FF = p &&& m &&& 0x7FF)) ∧
    ∀ entry : FilterEntry, entry.filter.Matches w →
      (CanId.fromWire w).isExtended = entry.isExtended := by
  refine ⟨?_, fun entry h => (FilterEntry.matches_iff.mp h).isExtended_eq⟩
  simp only [Delivers, List.mem_map, exists_exists_and_eq_and, FilterEntry.matches_iff]
  constructor
  · rintro ⟨entry, he, hn⟩
    cases entry with
    | standardExact id => exact .inl ⟨id, he, hn⟩
    | extendedExact id => exact .inr (.inl ⟨id, he, hn⟩)
    | standardMasked p m =>
      obtain ⟨r, hr⟩ := hn
      exact .inr (.inr ⟨p, m, r, he, hr⟩)
  · rintro (⟨id, he, h⟩ | ⟨id, he, h⟩ | ⟨p, m, r, he, h⟩)
    · exact ⟨_, he, h⟩
    · exact ⟨_, he, h⟩
    · exact ⟨_, he, r, h⟩

end Mcanbus
