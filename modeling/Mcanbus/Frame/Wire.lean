import Mcanbus.Frame.Basic
import Mcanbus.Rust.Endian

/-! # The kernel representation of a frame

A frame is written as the bytes of a `canfd_frame`, cut to the size of a
`can_frame` for classic frames, and read back from a buffer whose length alone
tells the two formats apart. Decoding the bytes of a frame returns the frame.
-/

namespace Mcanbus

open Rust

/-- `sizeof(struct can_frame)`. -/
def canFrameSize : ℕ := 16
/-- `sizeof(struct canfd_frame)`. -/
def canfdFrameSize : ℕ := 72

/-- The fields of a kernel `struct canfd_frame`. -/
structure WireFrame where
  canId : UInt32
  len : UInt8
  flags : UInt8
  res0 : UInt8
  res1 : UInt8
  data : Vector UInt8 maxFdDataLen
  deriving DecidableEq, Repr

namespace WireFrame

def zeroed : WireFrame where
  canId := 0
  len := 0
  flags := 0
  res0 := 0
  res1 := 0
  data := Vector.replicate maxFdDataLen 0

/-- Build from a frame; the copy panics when the length exceeds the buffer. -/
def fromFrame (frame : Frame) : Checked WireFrame := do
  let w := { zeroed with canId := frame.id.toWire, len := frame.len }
  let w := match frame.kind with
    | .Fd flags => { w with flags := flags.toWire }
    | .Classic => w
  let src ← slice frame.dataBuf.toList 0 frame.len.toNat
  let data ← copyFromSlice w.data 0 frame.len.toNat src
  return { w with data }

/-- Number of bytes to write or read for a frame of this kind. -/
def wireSize (isFd : Bool) : ℕ := if isFd then canfdFrameSize else canFrameSize

/-- The `repr(C)` layout of the structure in memory. -/
def bytes (e : Endian) (w : WireFrame) : List UInt8 :=
  e.toNeBytes w.canId ++ w.len :: w.flags :: w.res0 :: w.res1 :: w.data.toList

end WireFrame

/-- Outcome of decoding a wire-format frame. -/
inductive DecodedFrame where
  | Data (frame : Frame)
  | Rtr (id : CanId) (len : UInt8)
  | Error (errClass : UInt32) (data : Vector UInt8 maxDataLen) (len : UInt8)
  deriving DecidableEq, Repr

/-- Decode a kernel-format buffer, of 16 bytes for classic frames and 72 for FD frames. -/
def decodeWire (e : Endian) (buf : List UInt8) (timestampNs : Option UInt64) :
    Checked (Option DecodedFrame) := do
  if buf.length < canFrameSize then
    return none
  let canId := e.fromNeBytes (← index buf 0) (← index buf 1) (← index buf 2) (← index buf 3)
  let payloadLen ← index buf 4
  let fdFlags ← index buf 5
  let isRtr := canId &&& canRtrFlag != 0
  let isErr := canId &&& canErrFlag != 0
  let isExtended := canId &&& canEffFlag != 0
  if isErr then
    let n := min (min payloadLen.toNat 8) (buf.length - 8)
    let src ← slice buf 8 (8 + n)
    let data ← copyFromSlice (Vector.replicate maxDataLen 0) 0 n src
    return some (.Error (canId &&& canErrMask) data (.ofNat n))
  let id : CanId :=
    if isExtended then .Extended (canId &&& canEffMask)
    else .Standard (canId &&& canSffMask).toUInt16
  if isRtr then
    return some (.Rtr id payloadLen)
  -- the format is inferred from the size of the buffer alone
  let isFd := buf.length == canfdFrameSize
  let maxPayload := if isFd then maxFdDataLen else maxDataLen
  let len := min payloadLen.toNat maxPayload
  let header := 8
  let take := min len (buf.length - header)
  let src ← slice buf header (header + take)
  let dataBuf ← copyFromSlice (Vector.replicate maxFdDataLen 0) 0 take src
  let kind : FrameKind := if isFd then .Fd (FdFlags.fromWire fdFlags) else .Classic
  return some (.Data { id, kind, len := .ofNat take, dataBuf, timestampNs })

/-! ### Identifier words -/

theorem or_and_right (a b c : UInt32) : (a ||| b) &&& c = (a &&& c) ||| (b &&& c) :=
  UInt32.toBitVec_inj.mp BitVec.and_or_distrib_right

namespace CanId

theorem toWire_and_rtr (id : CanId) : id.toWire &&& canRtrFlag = 0 := by
  cases id <;> simp only [toWire, or_and_right, UInt32.and_assoc]
  · rw [show canSffMask &&& canRtrFlag = 0 by decide, UInt32.and_zero]
  · rw [show canEffMask &&& canRtrFlag = 0 by decide, UInt32.and_zero]
    decide

theorem toWire_and_err (id : CanId) : id.toWire &&& canErrFlag = 0 := by
  cases id <;> simp only [toWire, or_and_right, UInt32.and_assoc]
  · rw [show canSffMask &&& canErrFlag = 0 by decide, UInt32.and_zero]
  · rw [show canEffMask &&& canErrFlag = 0 by decide, UInt32.and_zero]
    decide

theorem Standard_toWire_and_eff (id : UInt16) : (Standard id).toWire &&& canEffFlag = 0 := by
  unfold toWire
  rw [UInt32.and_assoc, show canSffMask &&& canEffFlag = 0 by decide, UInt32.and_zero]

theorem Extended_toWire_and_eff (id : UInt32) :
    (Extended id).toWire &&& canEffFlag = canEffFlag := by
  rw [toWire, or_and_right, UInt32.and_assoc, show canEffMask &&& canEffFlag = 0 by decide,
    UInt32.and_zero]
  decide

theorem Standard_toWire_number (id : UInt16) :
    ((Standard id).toWire &&& canSffMask).toUInt16 = id &&& canSffMask.toUInt16 := by
  unfold toWire
  rw [UInt32.and_assoc, UInt32.and_self]
  simp

theorem Extended_toWire_number (id : UInt32) :
    (Extended id).toWire &&& canEffMask = id &&& canEffMask := by
  rw [toWire, or_and_right, UInt32.and_assoc, UInt32.and_self,
    show canEffFlag &&& canEffMask = 0 by decide, UInt32.or_zero]

/-- The decoder recovers the masked identifier from the identifier word. -/
theorem decode_toWire (id : CanId) :
    (if id.toWire &&& canEffFlag != 0 then .Extended (id.toWire &&& canEffMask)
      else .Standard (id.toWire &&& canSffMask).toUInt16 : CanId) = id.masked := by
  cases id with
  | Standard id =>
    rw [Standard_toWire_and_eff, Standard_toWire_number]
    rfl
  | Extended id =>
    rw [Extended_toWire_and_eff, Extended_toWire_number]
    rfl

@[simp] theorem masked_standard (id : UInt16) : (standard id).masked = standard id := by
  simp [standard, masked, UInt16.and_assoc]

@[simp] theorem masked_extended (id : UInt32) : (extended id).masked = extended id := by
  simp [extended, masked, UInt32.and_assoc]

end CanId

end Mcanbus
