import Mcanbus.Frame.Wire

/-! # Receive filters and options of a socket

A filter compares an identifier word with a pattern under a mask. A socket
delivers the frames whose word matches one of the filters it was opened with.
-/

namespace Mcanbus

/-- An entry of `CAN_RAW_FILTER`. -/
structure CanFilter where
  id : UInt32
  mask : UInt32
  deriving DecidableEq, Repr

namespace CanFilter

/-- Match exactly one standard identifier. -/
def standardExact (id : UInt16) : CanFilter where
  id := id.toUInt32 &&& canSffMask
  mask := canSffMask ||| canEffFlag

/-- Match exactly one extended identifier. -/
def extendedExact (id : UInt32) : CanFilter where
  id := (id &&& canEffMask) ||| canEffFlag
  mask := canEffMask ||| canEffFlag

/-- Match the standard identifiers that agree with the pattern under the mask. -/
def standardMasked (pattern mask : UInt16) : CanFilter where
  id := pattern.toUInt32 &&& canSffMask
  mask := (mask.toUInt32 &&& canSffMask) ||| canEffFlag

/-- The rule of the kernel for one entry. -/
def Matches (filter : CanFilter) (canId : UInt32) : Prop :=
  canId &&& filter.mask = filter.id &&& filter.mask

instance (filter : CanFilter) : DecidablePred filter.Matches := fun canId =>
  inferInstanceAs (Decidable (canId &&& filter.mask = filter.id &&& filter.mask))

end CanFilter

/-- A frame with this identifier word is delivered. -/
def Delivers (filters : List CanFilter) (canId : UInt32) : Prop :=
  ∃ filter ∈ filters, filter.Matches canId

instance (filters : List CanFilter) : DecidablePred (Delivers filters) := fun canId =>
  inferInstanceAs (Decidable (∃ filter ∈ filters, filter.Matches canId))

/-- The source of the timestamps to request from the kernel. -/
inductive Timestamping
  | BestAvailable
  | Software
  | None
  deriving DecidableEq, Repr

/-- The options of `Socket::open`; the receive timeout is in nanoseconds. -/
structure OpenOpts where
  fd : Bool := true
  recvBufBytes : Option ℕ := some (8 * 1024 * 1024)
  sendBufBytes : Option ℕ := some (1024 * 1024)
  timestamping : Timestamping := .BestAvailable
  recvTimeout : Option ℕ := some 500000000
  filter : Option (List CanFilter) := none
  errorFilter : Option UInt32 := none
  clearFilter : Bool := false
  nonblocking : Bool := false
  deriving DecidableEq, Repr

/-! ### Masks -/

section Masks

variable {w p m n : UInt32}

theorem or_and_self_left (m n : UInt32) : (m ||| n) &&& m = m := by
  apply UInt32.toBitVec_inj.mp
  ext i
  simp
  grind

/-- Words agree under two masks together when they agree under each of them. -/
theorem and_or_eq_iff :
    w &&& (m ||| n) = p &&& (m ||| n) ↔ w &&& m = p &&& m ∧ w &&& n = p &&& n := by
  constructor
  · intro h
    have hm : ∀ x : UInt32, x &&& (m ||| n) &&& m = x &&& m := fun x => by
      rw [UInt32.and_assoc, or_and_self_left]
    have hn : ∀ x : UInt32, x &&& (m ||| n) &&& n = x &&& n := fun x => by
      rw [UInt32.and_assoc, UInt32.or_comm, or_and_self_left]
    constructor
    · rw [← hm w, h, hm p]
    · rw [← hn w, h, hn p]
  · rintro ⟨hm, hn⟩
    rw [UInt32.and_comm w, UInt32.and_comm p, or_and_right, or_and_right, UInt32.and_comm m w,
      UInt32.and_comm n w, UInt32.and_comm m p, UInt32.and_comm n p, hm, hn]

/-- A mask within another one sees only bits of the other. -/
theorem and_and_of_within (h : m &&& n = m) : w &&& n &&& m = w &&& m := by
  rw [UInt32.and_assoc, UInt32.and_comm n, h]

end Masks

/-! ### Identifier words -/

namespace CanId

theorem fromWire_extended {wire : UInt32} (h : wire &&& canEffFlag ≠ 0) :
    fromWire wire = .Extended (wire &&& canEffMask) :=
  if_pos (bne_iff_ne.mpr h)

theorem fromWire_standard {wire : UInt32} (h : wire &&& canEffFlag = 0) :
    fromWire wire = .Standard (wire &&& canSffMask).toUInt16 :=
  if_neg (by simp [h])

theorem isExtended_fromWire {wire : UInt32} :
    (fromWire wire).isExtended = true ↔ wire &&& canEffFlag ≠ 0 := by
  by_cases h : wire &&& canEffFlag = 0
  · simp [fromWire_standard h, isExtended, h]
  · simp [fromWire_extended h, isExtended, h]

theorem raw_fromWire_standard {wire : UInt32} (h : wire &&& canEffFlag = 0) :
    (fromWire wire).raw = wire &&& canSffMask := by
  rw [fromWire_standard h]
  apply UInt32.toNat_inj.mp
  have hlt : (wire &&& canSffMask).toNat < 2 ^ 11 :=
    Nat.lt_of_le_of_lt (by simpa using Nat.and_le_right) (show canSffMask.toNat < 2 ^ 11 by decide)
  simp only [raw, UInt16.toNat_toUInt32, UInt32.toNat_toUInt16]
  omega

theorem raw_fromWire_extended {wire : UInt32} (h : wire &&& canEffFlag ≠ 0) :
    (fromWire wire).raw = wire &&& canEffMask := by
  rw [fromWire_extended h]
  rfl

theorem canEffFlag_getElem {i : ℕ} (h : i < 32) :
    canEffFlag.toBitVec[i] = decide (i = 31) := by
  rw [← BitVec.getLsbD_eq_getElem]
  exact (by decide : ∀ i < 32, canEffFlag.toBitVec.getLsbD i = decide (i = 31)) i h

/-- Only the highest bit of a word matters under the flag. -/
theorem and_eff_eq (wire : UInt32) :
    wire &&& canEffFlag = if wire.toBitVec[31] then canEffFlag else 0 := by
  apply UInt32.toBitVec_inj.mp
  ext i hi
  simp only [UInt32.toBitVec_and, BitVec.getElem_and, canEffFlag_getElem hi]
  by_cases h : i = 31
  · subst h
    cases wire.toBitVec[31] <;> simp [canEffFlag_getElem hi]
  · cases wire.toBitVec[31] <;> simp [h, canEffFlag_getElem hi]

/-- The flag of a word is clear or set, whatever the other bits. -/
theorem and_eff_cases (wire : UInt32) :
    wire &&& canEffFlag = 0 ∨ wire &&& canEffFlag = canEffFlag := by
  rw [and_eff_eq]
  split
  · exact .inr rfl
  · exact .inl rfl

end CanId

end Mcanbus
