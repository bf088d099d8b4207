import Mcanbus.Frame.Wire
import Mcanbus.Rust.Radix

/-! # The text of a frame

A frame is printed as its identifier, a separator with the flags of an FD frame
and the payload, all in hexadecimal. The separator is not a digit, so the text
determines the frame up to its timestamp.
-/

namespace Mcanbus

open Rust

def CanId.display : CanId → String
  | .Standard id => upperHex 3 id.toNat
  | .Extended id => upperHex 8 id.toNat

/-- The mark of the kind of a frame between its identifier and its payload. -/
def FrameKind.display : FrameKind → String
  | .Classic => "#"
  | .Fd flags => "##" ++ upperHex 0 flags.toWire.toNat

/-- The digits of a payload. -/
def payloadText (data : List UInt8) : List Char :=
  data.flatMap fun b => (upperHex 2 b.toNat).toList

/-- The text of a frame in the style of `candump`. -/
def Frame.display (f : Frame) : Checked String := do
  let data ← f.data
  return f.id.display ++ f.kind.display ++ String.ofList (payloadText data)

example : (Frame.ofPayload (.Fd ⟨true, false⟩) (.standard 0x123) [0xDE, 0xAD]).display =
    .ok "123##1DEAD" := by decide

/-! ### Identifiers -/

namespace CanId

theorem notMem_display (id : CanId) : '#' ∉ id.display.toList := by
  cases id <;> exact notMem_upperHex (by decide)

theorem length_display_standard (n : UInt16) : (standard n).display.toList.length = 3 := by
  have h := toNat_and_sff_lt n
  exact length_upperHex (by decide) (by omega)

theorem length_display_extended (n : UInt32) : (extended n).display.toList.length = 8 :=
  length_upperHex (by decide) (n &&& canEffMask).toNat_lt

/-- The number of digits tells the format, and the digits tell the number. -/
theorem display_inj {i j : CanId} (hi : (∃ n, i = standard n) ∨ ∃ n, i = extended n)
    (hj : (∃ n, j = standard n) ∨ ∃ n, j = extended n)
    (h : i.display.toList = j.display.toList) : i = j := by
  rcases hi with ⟨m, rfl⟩ | ⟨m, rfl⟩ <;> rcases hj with ⟨n, rfl⟩ | ⟨n, rfl⟩
  · exact congrArg Standard (UInt16.toNat_inj.mp (upperHex_inj h))
  · have hl := congrArg List.length h
    simp only [length_display_standard, length_display_extended] at hl
    omega
  · have hl := congrArg List.length h
    simp only [length_display_standard, length_display_extended] at hl
    omega
  · exact congrArg Extended (UInt32.toNat_inj.mp (upperHex_inj h))

end CanId

/-! ### Payloads -/

theorem payloadText_injective : Function.Injective payloadText :=
  flatMap_injective (by decide) (fun b => length_upperHex (by decide) b.toNat_lt)
    fun _ _ h => UInt8.toNat_inj.mp (upperHex_inj h)

theorem notMem_payloadText (data : List UInt8) : '#' ∉ payloadText data := by
  simp only [payloadText, List.mem_flatMap, not_exists, not_and]
  exact fun b _ => notMem_upperHex (by decide)

/-! ### Frames -/

namespace FdFlags

theorem toWire_lt (flags : FdFlags) : flags.toWire.toNat < 16 := by
  obtain ⟨brs, esi⟩ := flags
  cases brs <;> cases esi <;> decide

theorem toWire_injective : Function.Injective toWire := by
  intro a b h
  rw [← fromWire_toWire a, h, fromWire_toWire]

/-- The flags are printed as one digit. -/
theorem toList_upperHex_toWire (flags : FdFlags) :
    (upperHex 0 flags.toWire.toNat).toList = [upperDigit flags.toWire.toNat] := by
  simp [toList_upperHex, upperDigits_of_lt flags.toWire_lt]

end FdFlags

/-- The text behind the first separator. -/
def FrameKind.tail : FrameKind → List Char
  | .Classic => []
  | .Fd flags => ['#', upperDigit flags.toWire.toNat]

namespace Frame

variable {f g : Frame}

theorem display_eq (h : f.len.toNat ≤ maxFdDataLen) :
    ∃ s, f.display = .ok s ∧
      s.toList = f.id.display.toList ++ '#' :: (f.kind.tail ++ payloadText f.payload) := by
  unfold display
  rw [data_eq h, ok_bind, pure_eq_ok]
  refine ⟨_, rfl, ?_⟩
  cases f.kind with
  | Classic => simp [FrameKind.display, FrameKind.tail]
  | Fd flags => simp [FrameKind.display, FrameKind.tail, FdFlags.toList_upperHex_toWire]

/-- The text behind the separator determines the kind and the payload. -/
theorem tail_inj {k l : FrameKind} {a b : List UInt8}
    (h : k.tail ++ payloadText a = l.tail ++ payloadText b) : k = l ∧ a = b := by
  cases k with
  | Classic =>
    cases l with
    | Classic => exact ⟨rfl, payloadText_injective h⟩
    | Fd flags =>
      have hm : '#' ∈ payloadText a := by
        rw [FrameKind.tail, List.nil_append] at h
        simp [h, FrameKind.tail]
      exact absurd hm (notMem_payloadText a)
  | Fd flags =>
    cases l with
    | Classic =>
      have hm : '#' ∈ payloadText b := by
        rw [FrameKind.tail.eq_1, List.nil_append] at h
        simp [← h, FrameKind.tail]
      exact absurd hm (notMem_payloadText b)
    | Fd flags' =>
      obtain ⟨ht, hp⟩ := List.append_inj h rfl
      have hw : (upperHex 0 flags.toWire.toNat).toList =
          (upperHex 0 flags'.toWire.toNat).toList := by
        simp only [FdFlags.toList_upperHex_toWire]
        exact (List.cons.inj ht).2
      have hf := FdFlags.toWire_injective (UInt8.toNat_inj.mp (upperHex_inj hw))
      exact ⟨congrArg _ hf, payloadText_injective hp⟩

/-- Frames with the same text have the same identifier, kind and data. -/
theorem display_injective (f g : Frame) (hf : f.Fits) (hg : g.Fits)
    (hfi : (∃ n, f.id = .standard n) ∨ ∃ n, f.id = .extended n)
    (hgi : (∃ n, g.id = .standard n) ∨ ∃ n, g.id = .extended n)
    (h : f.display = g.display) : f.id = g.id ∧ f.kind = g.kind ∧ f.data = g.data := by
  obtain ⟨s, hs, hsl⟩ := display_eq hf.len_le
  obtain ⟨s', hs', hsl'⟩ := display_eq hg.len_le
  obtain rfl : s = s' := Except.ok.inj (hs.symm.trans (h.trans hs'))
  rw [hsl] at hsl'
  obtain ⟨hid, ht⟩ := append_sep_inj f.id.notMem_display g.id.notMem_display hsl'
  obtain ⟨hk, hp⟩ := tail_inj ht
  refine ⟨CanId.display_inj hfi hgi hid, hk, ?_⟩
  rw [data_eq hf.len_le, data_eq hg.len_le, hp]

/-- A frame that is sent and the same frame as it is received with a timestamp. -/
theorem display_injective_stamped :
    let f := ofPayload (.Fd ⟨true, false⟩) (.standard 0x123) [0xDE, 0xAD]
    let g := { f with timestampNs := some 7 }
    f.display = g.display ∧ f.id = g.id ∧ f.kind = g.kind ∧ f.data = g.data :=
  ⟨rfl, display_injective _ _ (by decide) (by decide) (.inl ⟨0x123, rfl⟩) (.inl ⟨0x123, rfl⟩) rfl⟩

end Frame

end Mcanbus
