import Mcanbus.Isotp.Basic

/-! # Protocol control information

What the data of a received frame says, read without panics: each reader is
given by the frames it accepts, and every other frame is invalid data.
-/

namespace Mcanbus.Isotp

open Rust

variable {pci low : UInt8} {rest data : List UInt8} {total : ℕ} {s : CollectState}

/-- The length in the low nibble of a Single Frame. -/
def sfLength (pci : UInt8) : ℕ := (pci &&& 0x0F).toNat

/-- The 12-bit length of a First Frame. -/
def ffLength (pci low : UInt8) : ℕ := ((pci &&& 0x0F).toNat <<< 8) ||| low.toNat

theorem sfLength_def (pci : UInt8) : (pci &&& 0x0F).toNat = sfLength pci := rfl

theorem ffLength_def (pci low : UInt8) :
    ((pci &&& 0x0F).toNat <<< 8) ||| low.toNat = ffLength pci low := rfl

theorem ffLength_le (pci low : UInt8) : ffLength pci low ≤ maxFfLength := by
  have hn : (pci &&& 0x0F).toNat ≤ 15 := by
    rw [UInt8.toNat_and]
    exact Nat.and_le_right
  have hl := low.toNat_lt
  have hlt : ffLength pci low < 2 ^ 12 := by
    unfold ffLength
    rw [Nat.shiftLeft_eq]
    exact Nat.or_lt_two_pow (by omega) (by omega)
  exact Nat.le_of_lt_succ hlt

/-! ### The first frame of a response -/

/-- A Single Frame that carries the response. -/
structure IsSingle (pci : UInt8) (rest : List UInt8) : Prop where
  type_eq : pci &&& pciTypeMask = pciSf
  length_pos : 0 < sfLength pci
  length_le : sfLength pci ≤ sfMaxLen
  present : sfLength pci ≤ rest.length

/-- A First Frame that announces more than a Single Frame carries. -/
structure IsFirst (pci low : UInt8) : Prop where
  type_eq : pci &&& pciTypeMask = pciFf
  length_gt : sfMaxLen < ffLength pci low

theorem IsFirst.type_ne_sf (hf : IsFirst pci low) : pci &&& pciTypeMask ≠ pciSf := by
  rw [hf.type_eq]
  decide

theorem IsFirst.not_single (hf : IsFirst pci low) : ¬ IsSingle pci rest :=
  fun hs => hf.type_ne_sf hs.type_eq

theorem responseData_single (h : IsSingle pci rest) :
    responseData (pci :: rest) = .ok (.ok (.single (rest.take (sfLength pci)))) := by
  have hn : ¬ (sfLength pci = 0 ∨ sfLength pci > sfMaxLen ∨
      1 + sfLength pci > (pci :: rest).length) := by
    obtain ⟨-, h0, h7, hl⟩ := h
    rw [List.length_cons]
    omega
  have hs : slice (pci :: rest) 1 (1 + sfLength pci) = .ok (rest.take (sfLength pci)) := by
    have hl := h.present
    rw [slice_eq (by omega) (by rw [List.length_cons]; omega), Nat.add_sub_cancel_left]
    rfl
  unfold responseData
  simp only [List.isEmpty_cons, Bool.false_eq_true, if_false, index_zero_cons, ok_bind,
    if_pos h.type_eq, sfLength_def, if_neg hn, hs, pure_eq_ok]

theorem responseData_first (h : IsFirst pci low) :
    responseData (pci :: low :: rest) =
      .ok (.ok (.first (ffLength pci low) (rest.take (ffLength pci low)))) := by
  have hsf : ¬ pci &&& pciTypeMask = pciSf := by rw [h.type_eq]; decide
  have h2 : ¬ (pci :: low :: rest).length < 2 := by simp
  have hi : index (pci :: low :: rest) 1 = .ok low := rfl
  have ha : sub (pci :: low :: rest).length 2 = .ok rest.length := sub_eq (by simp)
  have hs : slice (pci :: low :: rest) 2 (2 + min rest.length (ffLength pci low)) =
      .ok (rest.take (ffLength pci low)) := by
    rw [slice_eq (by omega) (by simp only [List.length_cons]; omega), Nat.add_sub_cancel_left]
    congr 1
    apply List.take_eq_take_iff.mpr
    rw [List.drop_succ_cons, List.drop_succ_cons, List.drop_zero]
    omega
  unfold responseData
  simp only [List.isEmpty_cons, Bool.false_eq_true, if_false, index_zero_cons, ok_bind, if_neg hsf,
    if_pos h.type_eq, if_neg h2, hi, ffLength_def, if_neg (Nat.not_le.mpr h.length_gt), ha, hs,
    pure_eq_ok]

/-- Every frame is accepted as a Single Frame, accepted as a First Frame, or invalid data. -/
theorem responseData_cases (data : List UInt8) :
    (∃ message, responseData data = .ok (.error (invalidData message))) ∨
    (∃ pci rest, data = pci :: rest ∧ IsSingle pci rest) ∨
    (∃ pci low rest, data = pci :: low :: rest ∧ IsFirst pci low) := by
  rcases data with _ | ⟨pci, rest⟩
  · exact .inl ⟨_, rfl⟩
  unfold responseData
  simp only [List.isEmpty_cons, Bool.false_eq_true, if_false, index_zero_cons, ok_bind]
  by_cases hsf : pci &&& pciTypeMask = pciSf
  · by_cases h : 0 < sfLength pci ∧ sfLength pci ≤ sfMaxLen ∧ sfLength pci ≤ rest.length
    · exact .inr (.inl ⟨pci, rest, rfl, hsf, h.1, h.2.1, h.2.2⟩)
    · have hn : (pci &&& 0x0F).toNat = 0 ∨ (pci &&& 0x0F).toNat > sfMaxLen ∨
          1 + (pci &&& 0x0F).toNat > (pci :: rest).length := by
        rw [sfLength_def, List.length_cons]
        omega
      left
      simp only [if_pos hsf]
      rw [if_pos hn]
      exact ⟨_, rfl⟩
  by_cases hff : pci &&& pciTypeMask = pciFf
  · rcases rest with _ | ⟨low, rest⟩
    · left
      simp only [if_neg hsf, if_pos hff]
      exact ⟨_, rfl⟩
    by_cases hl : sfMaxLen < ffLength pci low
    · exact .inr (.inr ⟨pci, low, rest, rfl, hff, hl⟩)
    · have h2 : ¬ (pci :: low :: rest).length < 2 := by simp
      have hi : index (pci :: low :: rest) 1 = .ok low := rfl
      have ht : ((pci &&& 0x0F).toNat <<< 8) ||| low.toNat ≤ sfMaxLen := Nat.not_lt.mp hl
      left
      simp only [if_neg hsf, if_pos hff, if_neg h2, hi, ok_bind]
      rw [if_pos ht]
      exact ⟨_, rfl⟩
  left
  simp only [if_neg hsf, if_neg hff]
  split
  · exact ⟨_, rfl⟩
  · split <;> exact ⟨_, rfl⟩

/-- A longer response starts with a First Frame. -/
theorem responseData_eq_first {data out : List UInt8} {total : ℕ}
    (h : responseData data = .ok (.ok (.first total out))) :
    ∃ pci low rest, data = pci :: low :: rest ∧ IsFirst pci low ∧ total = ffLength pci low ∧
      out = rest.take (ffLength pci low) := by
  obtain ⟨message, hm⟩ | ⟨pci, rest, rfl, hs⟩ | ⟨pci, low, rest, rfl, hf⟩ := responseData_cases data
  · rw [hm] at h
    cases h
  · rw [responseData_single hs] at h
    cases h
  · rw [responseData_first hf] at h
    cases h
    exact ⟨pci, low, rest, rfl, hf, rfl, rfl⟩

/-- The data of a First Frame that announces 8 to 4095 bytes. -/
def AnnouncesLong (data : List UInt8) : Prop :=
  ∃ pci low rest, data = pci :: low :: rest ∧ pci &&& pciTypeMask = pciFf ∧
    sfMaxLen < ffLength pci low ∧ ffLength pci low ≤ maxFfLength

/-- Consecutive Frames are collected only after a First Frame that announces a long response. -/
theorem responseData_announces {total : ℕ} {out : List UInt8}
    (h : responseData data = .ok (.ok (.first total out))) : AnnouncesLong data := by
  obtain ⟨pci, low, rest, rfl, hf, -, -⟩ := responseData_eq_first h
  exact ⟨pci, low, rest, rfl, hf.type_eq, hf.length_gt, ffLength_le pci low⟩

/-! ### Consecutive Frames -/

theorem addU8_and (x : UInt8) : addU8 (x &&& 0x0F) 1 = .ok ((x &&& 0x0F) + 1) := by
  apply addU8_eq
  have hn : (x &&& 0x0F).toNat ≤ 15 := by
    rw [UInt8.toNat_and]
    exact Nat.and_le_right
  change _ + 1 < 256
  omega

theorem consecutiveData_ok (hp : pci &&& pciTypeMask = pciCf) (hs : pci &&& 0x0F = s.expectedSeq)
    (hl : s.out.length ≤ total) :
    consecutiveData total s (pci :: rest) = .ok (.ok ⟨(s.expectedSeq + 1) &&& 0x0F,
      s.out ++ rest.take (min (total - s.out.length) cfPayload)⟩) := by
  have hn : ¬ ((pci :: rest).isEmpty ∨ (pci :: rest).headD 0 &&& pciTypeMask ≠ pciCf) := by
    simp [hp]
  have hsub : sub (pci :: rest).length 1 = .ok rest.length := sub_eq (by simp)
  have hsl : slice (pci :: rest) 1 (1 + min (min (total - s.out.length) rest.length) cfPayload) =
      .ok (rest.take (min (total - s.out.length) cfPayload)) := by
    rw [slice_eq (by omega) (by rw [List.length_cons]; omega), Nat.add_sub_cancel_left]
    congr 1
    apply List.take_eq_take_iff.mpr
    rw [List.drop_succ_cons, List.drop_zero]
    omega
  have hadd : addU8 s.expectedSeq 1 = .ok (s.expectedSeq + 1) := by rw [← hs, addU8_and]
  unfold consecutiveData
  rw [if_neg hn]
  simp only [index_zero_cons, ok_bind, hs, ne_eq, not_true_eq_false, if_false, sub_eq hl, hsub,
    hsl, hadd, pure_eq_ok]

/-- Every frame is accepted as the next Consecutive Frame, or invalid data. -/
theorem consecutiveData_cases (total : ℕ) (s : CollectState) (data : List UInt8) :
    (∃ message, consecutiveData total s data = .ok (.error (invalidData message))) ∨
    (∃ pci rest, data = pci :: rest ∧ pci &&& pciTypeMask = pciCf ∧
      pci &&& 0x0F = s.expectedSeq) := by
  by_cases hn : data.isEmpty ∨ data.headD 0 &&& pciTypeMask ≠ pciCf
  · left
    unfold consecutiveData
    rw [if_pos hn]
    exact ⟨_, rfl⟩
  · rcases data with _ | ⟨pci, rest⟩
    · exact absurd (.inl rfl) hn
    · have hp : pci &&& pciTypeMask = pciCf := by
        by_contra hc
        exact hn (.inr hc)
      by_cases hs : pci &&& 0x0F = s.expectedSeq
      · exact .inr ⟨pci, rest, rfl, hp, hs⟩
      · left
        unfold consecutiveData
        rw [if_neg hn, index_zero_cons, ok_bind]
        simp only [ne_eq, hs, not_false_eq_true, if_true]
        exact ⟨_, rfl⟩

/-! ### Flow Control -/

/-- The data of a Flow Control frame that clears the sender to send. -/
def IsClearToSend (data : List UInt8) : Prop :=
  ∃ pci rest, data = pci :: rest ∧ pci &&& pciTypeMask = pciFc ∧ pci &&& 0x0F = fcCts

/-- The data of a Flow Control frame that asks the sender to wait. -/
def IsWait (data : List UInt8) : Prop :=
  ∃ pci rest, data = pci :: rest ∧ pci &&& pciTypeMask = pciFc ∧ pci &&& 0x0F = fcWait

/-- The data of a Flow Control frame behind its first byte: block size and separation time. -/
def ctsParams (data : List UInt8) : UInt8 × UInt8 :=
  (data.getD 1 0, decodeStMin (data.getD 2 0))

theorem flowControlData_empty (opts : Options) (waits : UInt8) :
    flowControlData opts waits [] = .ok (.ok (.inl waits)) := rfl

theorem flowControlData_cts {opts : Options} {waits : UInt8} (h : IsClearToSend data) :
    flowControlData opts waits data = .ok (.ok (.inr (ctsParams data))) := by
  obtain ⟨pci, rest, rfl, hfc, hcts⟩ := h
  unfold flowControlData
  simp only [List.isEmpty_cons, Bool.false_eq_true, if_false, index_zero_cons, ok_bind, hfc, hcts,
    ne_eq, not_true_eq_false, if_true]
  match rest with
  | [] => rfl
  | [bs] => rfl
  | bs :: st :: rest => rfl

theorem flowControlData_wait {opts : Options} {waits : UInt8} (h : IsWait data) :
    flowControlData opts waits data = (do
      let waits ← addU8 waits 1
      if waits > opts.maxWaits then
        return .error (.new .TimedOut
          s!"ECU sent more than {opts.maxWaits.toNat} Wait flow controls")
      else
        return .ok (.inl waits)) := by
  obtain ⟨pci, rest, rfl, hfc, hwait⟩ := h
  have hne : fcWait ≠ fcCts := by decide
  unfold flowControlData
  simp only [List.isEmpty_cons, Bool.false_eq_true, if_false, index_zero_cons, ok_bind, hfc, hwait,
    ne_eq, not_true_eq_false, if_true, if_neg hne]

/-- The wait for a Flow Control ends only with one that clears to send. -/
theorem flowControlData_clear {opts : Options} {waits : UInt8} {r : UInt8 × UInt8}
    (h : flowControlData opts waits data = .ok (.ok (.inr r))) : IsClearToSend data := by
  rcases data with _ | ⟨pci, rest⟩
  · cases h
  rw [flowControlData] at h
  simp only [List.isEmpty_cons, Bool.false_eq_true, if_false, index_zero_cons, ok_bind] at h
  by_cases hfc : pci &&& pciTypeMask = pciFc
  · by_cases hcts : pci &&& 0x0F = fcCts
    · exact ⟨pci, rest, rfl, hfc, hcts⟩
    · simp only [hfc, hcts, ne_eq, not_true_eq_false, if_false] at h
      split at h
      · rcases hw : addU8 waits 1 with p | w <;> rw [hw] at h
        · cases h
        · rw [ok_bind] at h
          split at h <;> cases h
      · split at h <;> cases h
  · simp only [ne_eq, hfc, not_false_eq_true, if_true] at h
    cases h

theorem toNat_addU8_one {x y : UInt8} (h : addU8 x 1 = .ok y) : y.toNat = x.toNat + 1 := by
  unfold addU8 at h
  split at h
  case isTrue hlt =>
    cases h
    rw [UInt8.toNat_add]
    exact Nat.mod_eq_of_lt hlt
  case isFalse => cases h

/-- A frame that the wait for a Flow Control skips or counts. -/
theorem flowControlData_continues {opts : Options} {waits waits' : UInt8}
    (h : flowControlData opts waits data = .ok (.ok (.inl waits'))) :
    data = [] ∧ waits' = waits ∨ IsWait data ∧ waits'.toNat = waits.toNat + 1 := by
  rcases data with _ | ⟨pci, rest⟩
  · cases h
    exact .inl ⟨rfl, rfl⟩
  by_cases hwait : IsWait (pci :: rest)
  · rw [flowControlData_wait hwait] at h
    rcases hadd : addU8 waits 1 with p | w <;> rw [hadd] at h
    · cases h
    · rw [ok_bind] at h
      split at h <;> cases h
      exact .inr ⟨hwait, toNat_addU8_one hadd⟩
  · exfalso
    unfold flowControlData at h
    simp only [List.isEmpty_cons, Bool.false_eq_true, if_false, index_zero_cons, ok_bind] at h
    split at h
    · cases h
    case isFalse hfc =>
      split at h
      · rcases rest with _ | ⟨b, _ | ⟨c, rest⟩⟩ <;> cases h
      · split at h
        case isTrue hw => exact hwait ⟨pci, rest, rfl, not_not.mp hfc, hw⟩
        case isFalse => split at h <;> cases h

/-- A Wait frame is counted while the limit is not reached. -/
theorem flowControlData_wait_ok {opts : Options} {waits : UInt8} (h : IsWait data)
    (hm : waits.toNat < opts.maxWaits.toNat) :
    flowControlData opts waits data = .ok (.ok (.inl (waits + 1))) := by
  have hlt := opts.maxWaits.toNat_lt
  have hadd : addU8 waits 1 = .ok (waits + 1) := addU8_eq (by change _ + 1 < 256; omega)
  have hle : ¬ waits + 1 > opts.maxWaits := by
    rw [gt_iff_lt, UInt8.lt_iff_toNat_lt, toNat_addU8_one hadd]
    omega
  rw [flowControlData_wait h, hadd, ok_bind, if_neg hle]
  rfl

theorem flowControlData_wait_lt {opts : Options} {waits : UInt8} {r : UInt8 ⊕ UInt8 × UInt8}
    (h : IsWait data) (hr : flowControlData opts waits data = .ok (.ok r)) :
    waits.toNat < opts.maxWaits.toNat := by
  rw [flowControlData_wait h] at hr
  rcases hadd : addU8 waits 1 with p | w <;> rw [hadd] at hr
  · cases hr
  · rw [ok_bind] at hr
    split at hr
    · cases hr
    case isFalse hle =>
      have hw := toNat_addU8_one hadd
      rw [gt_iff_lt, UInt8.lt_iff_toNat_lt] at hle
      omega

end Mcanbus.Isotp
