import Mcanbus.Rust.Checked

/-! # CAN frames

Identifiers, frame kinds and frames with their inline data buffer. The fields
of a frame are public, so a frame value may carry an identifier or a length
outside its format; `Frame.Fits` names the lengths that the constructors and
the decoder produce.
-/

namespace Mcanbus

open Rust

def maxDataLen : ℕ := 8
def maxFdDataLen : ℕ := 64

/-- Extended frame format. -/
def canEffFlag : UInt32 := 0x80000000
/-- Remote transmission request. -/
def canRtrFlag : UInt32 := 0x40000000
/-- Error message frame. -/
def canErrFlag : UInt32 := 0x20000000
def canEffMask : UInt32 := 0x1FFFFFFF
def canSffMask : UInt32 := 0x000007FF
def canErrMask : UInt32 := 0x1FFFFFFF

/-- Bit rate switch. -/
def canfdBrs : UInt8 := 0x01
/-- Error state indicator. -/
def canfdEsi : UInt8 := 0x02

/-- An 11-bit standard or a 29-bit extended identifier. -/
inductive CanId where
  | Standard (id : UInt16)
  | Extended (id : UInt32)
  deriving DecidableEq, Repr

namespace CanId

/-- A standard identifier masked to 11 bits. -/
def standard (id : UInt16) : CanId := .Standard (id &&& canSffMask.toUInt16)

/-- An extended identifier masked to 29 bits. -/
def extended (id : UInt32) : CanId := .Extended (id &&& canEffMask)

/-- Numeric value of the identifier, without flag bits. -/
def raw : CanId → UInt32
  | .Standard id => id.toUInt32
  | .Extended id => id

def isExtended : CanId → Bool
  | .Standard _ => false
  | .Extended _ => true

/-- Pack into the kernel identifier word. -/
def toWire : CanId → UInt32
  | .Standard id => id.toUInt32 &&& canSffMask
  | .Extended id => (id &&& canEffMask) ||| canEffFlag

/-- Read a kernel identifier word; the flags for remote and error frames are ignored. -/
def fromWire (wire : UInt32) : CanId :=
  if wire &&& canEffFlag != 0 then .Extended (wire &&& canEffMask)
  else .Standard (wire &&& canSffMask).toUInt16

/-- The identifier with its number masked to the width of its format. -/
def masked : CanId → CanId
  | .Standard id => standard id
  | .Extended id => extended id

theorem toNat_and_sff_lt (id : UInt16) : (id &&& canSffMask.toUInt16).toNat < 2 ^ 11 := by
  rw [UInt16.toNat_and]
  exact Nat.lt_succ_of_le Nat.and_le_right

theorem toNat_and_eff_lt (id : UInt32) : (id &&& canEffMask).toNat < 2 ^ 29 := by
  rw [UInt32.toNat_and]
  exact Nat.lt_succ_of_le Nat.and_le_right

end CanId

/-- CAN-FD flags of a frame. -/
structure FdFlags where
  brs : Bool
  esi : Bool
  deriving DecidableEq, Repr

namespace FdFlags

def toWire (flags : FdFlags) : UInt8 :=
  let f : UInt8 := if flags.brs then 0 ||| canfdBrs else 0
  if flags.esi then f ||| canfdEsi else f

def fromWire (wire : UInt8) : FdFlags where
  brs := wire &&& canfdBrs != 0
  esi := wire &&& canfdEsi != 0

@[simp] theorem fromWire_toWire (flags : FdFlags) : fromWire flags.toWire = flags := by
  obtain ⟨brs, esi⟩ := flags
  cases brs <;> cases esi <;> rfl

end FdFlags

inductive FrameKind where
  | Classic
  | Fd (flags : FdFlags)
  deriving DecidableEq, Repr

namespace FrameKind

def isFd : FrameKind → Bool
  | .Fd _ => true
  | .Classic => false

/-- The largest payload of a frame of this kind. -/
def maxLen : FrameKind → ℕ
  | .Classic => maxDataLen
  | .Fd _ => maxFdDataLen

theorem maxLen_le (kind : FrameKind) : kind.maxLen ≤ maxFdDataLen := by
  cases kind <;> simp [maxLen, maxDataLen, maxFdDataLen]

end FrameKind

/-- The reason for which a frame cannot be built. -/
inductive FrameError where
  | DataTooLong (len max : ℕ)
  deriving DecidableEq, Repr

def FrameError.display : FrameError → String
  | .DataTooLong len max => s!"payload {len} bytes exceeds maximum {max} bytes"

/-- A CAN or CAN-FD frame with its data in an inline buffer. -/
structure Frame where
  id : CanId
  kind : FrameKind
  len : UInt8
  dataBuf : Vector UInt8 maxFdDataLen
  timestampNs : Option UInt64
  deriving DecidableEq, Repr

namespace Frame

/-- Build a frame of the given kind, whose payload is at most `max` bytes. -/
def new (kind : FrameKind) (max : ℕ) (id : CanId) (data : List UInt8) :
    Checked (Except FrameError Frame) := do
  if data.length > max then
    return .error (.DataTooLong data.length max)
  let buf ← copyFromSlice (Vector.replicate maxFdDataLen 0) 0 data.length data
  return .ok { id, kind, len := .ofNat data.length, dataBuf := buf, timestampNs := none }

def newClassic (id : CanId) (data : List UInt8) : Checked (Except FrameError Frame) :=
  new .Classic maxDataLen id data

def newFd (id : CanId) (data : List UInt8) (flags : FdFlags) :
    Checked (Except FrameError Frame) :=
  new (.Fd flags) maxFdDataLen id data

/-- The valid prefix of the data buffer. -/
def data (f : Frame) : Checked (List UInt8) := slice f.dataBuf.toList 0 f.len.toNat

def isFd (f : Frame) : Bool := f.kind.isFd

/-- A placeholder for buffers that receive frames. -/
def zeroed : Frame where
  id := .Standard 0
  kind := .Classic
  len := 0
  dataBuf := Vector.replicate maxFdDataLen 0
  timestampNs := none

/-- The length of the frame is legal for its kind. -/
def Fits (f : Frame) : Prop := f.len.toNat ≤ f.kind.maxLen

instance : DecidablePred Fits := fun f =>
  inferInstanceAs (Decidable (f.len.toNat ≤ f.kind.maxLen))

/-- The bytes that `data` borrows when the length is within the buffer. -/
def payload (f : Frame) : List UInt8 := f.dataBuf.toList.take f.len.toNat

/-- The frame with the given payload and no timestamp. -/
def ofPayload (kind : FrameKind) (id : CanId) (data : List UInt8) : Frame where
  id := id
  kind := kind
  len := .ofNat data.length
  dataBuf := overwrite (Vector.replicate maxFdDataLen 0) 0 data
  timestampNs := none

variable {f : Frame} {kind : FrameKind} {id : CanId} {data : List UInt8}

theorem Fits.len_le (h : f.Fits) : f.len.toNat ≤ maxFdDataLen :=
  Nat.le_trans h f.kind.maxLen_le

theorem data_eq (h : f.len.toNat ≤ maxFdDataLen) : f.data = .ok f.payload :=
  slice_zero (by simpa using h)

/-- Data that can be read is within the buffer, and it is the payload. -/
theorem of_data_eq {data : List UInt8} (f : Frame) (h : f.data = .ok data) :
    f.len.toNat ≤ maxFdDataLen ∧ f.payload = data := by
  have hlen : f.len.toNat ≤ maxFdDataLen := by
    by_contra hc
    have hs : ¬ (0 ≤ f.len.toNat ∧ f.len.toNat ≤ f.dataBuf.toList.length) := by simpa using hc
    rw [Frame.data, slice, if_neg hs] at h
    cases h
  rw [data_eq hlen] at h
  exact ⟨hlen, Except.ok.inj h⟩

theorem length_payload (h : f.len.toNat ≤ maxFdDataLen) : f.payload.length = f.len.toNat := by
  simpa [payload] using Nat.min_eq_left h

theorem new_eq {max : ℕ} (h : data.length ≤ max) (hm : max ≤ maxFdDataLen) :
    new kind max id data = .ok (.ok (ofPayload kind id data)) := by
  have hc : copyFromSlice (Vector.replicate maxFdDataLen (0 : UInt8)) 0 data.length data =
      .ok (overwrite (Vector.replicate maxFdDataLen 0) 0 data) :=
    copyFromSlice_eq (Nat.zero_le _) (Nat.le_trans h hm) (by simp)
  simp [new, Nat.not_lt.mpr h, hc, ofPayload]

theorem newClassic_eq (h : data.length ≤ maxDataLen) :
    newClassic id data = .ok (.ok (ofPayload .Classic id data)) :=
  new_eq h (by decide)

theorem newFd_eq {flags : FdFlags} (h : data.length ≤ maxFdDataLen) :
    newFd id data flags = .ok (.ok (ofPayload (.Fd flags) id data)) :=
  new_eq h (Nat.le_refl _)

theorem len_ofPayload (h : data.length ≤ maxFdDataLen) :
    (ofPayload kind id data).len.toNat = data.length :=
  Nat.mod_eq_of_lt (Nat.lt_of_le_of_lt h (by decide))

@[simp] theorem payload_ofPayload (h : data.length ≤ maxFdDataLen) :
    (ofPayload kind id data).payload = data := by
  have hb := toList_overwrite (Vector.replicate maxFdDataLen (0 : UInt8)) 0 data
    (by simpa using h)
  unfold payload
  rw [len_ofPayload h]
  simp only [ofPayload, hb, List.take_zero, List.nil_append]
  exact List.take_left' rfl

end Frame

end Mcanbus
