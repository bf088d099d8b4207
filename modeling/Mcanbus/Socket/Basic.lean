import Mcanbus.Frame.RoundTrip
import Mcanbus.Rust.IoError

/-! # The CAN socket

Receiving and sending, one frame at a time or in batches of at most 64. The
result of a system call is an argument of the operation that makes it, and an
operation that transmits also returns the datagrams it put on the wire.
-/

namespace Mcanbus

open Rust

structure Timespec where
  tvSec : Int64
  tvNsec : Int64
  deriving DecidableEq

/-- The arithmetic wraps around, as in a build without overflow checks. -/
def timespecToNs (ts : Timespec) : UInt64 :=
  ts.tvSec.toUInt64 * 1000000000 + ts.tvNsec.toUInt64

def solSocket : ℤ := 1
def soTimestamping : ℤ := 37
def soTimestampns : ℤ := 35

/-- A control message, with its data read as an array of `timespec`. -/
structure Cmsg where
  level : ℤ
  type : ℤ
  /-- The space it takes in a control buffer. -/
  space : ℕ
  data : ℕ → Timespec

namespace Timespec

def isSet (ts : Timespec) : Bool := ts.tvSec != 0 || ts.tvNsec != 0

end Timespec

/-- The loop over the control messages, with the best stamp so far. -/
def extractTimestampLoop (best : Option UInt64) : List Cmsg → Option UInt64
  | [] => best
  | hdr :: rest =>
    if hdr.level = solSocket then
      if hdr.type = soTimestamping then
        -- the hardware stamp is the third, the software stamp the first
        if (hdr.data 2).isSet then some (timespecToNs (hdr.data 2))
        else if (hdr.data 0).isSet then extractTimestampLoop (some (timespecToNs (hdr.data 0))) rest
        else extractTimestampLoop best rest
      else if hdr.type = soTimestampns ∧ best.isNone then
        extractTimestampLoop (some (timespecToNs (hdr.data 0))) rest
      else extractTimestampLoop best rest
    else extractTimestampLoop best rest

def extractTimestampNs (control : List Cmsg) : Option UInt64 := extractTimestampLoop none control

/-- A message in the receive queue of the kernel. -/
structure Message where
  bytes : List UInt8
  control : List Cmsg

/-- How the kernel stores ancillary data in a control buffer of a given size. -/
structure Kernel where
  store : ℕ → List Cmsg → List Cmsg
  /-- Ancillary data that fits is stored whole. -/
  store_fits : ∀ size l, (l.map Cmsg.space).sum ≤ size → store size l = l

/-- A receive buffer with what `recvmsg` left in it. -/
structure Slot where
  buf : Vector UInt8 canfdFrameSize
  msgLen : ℕ
  control : List Cmsg

def Slot.zeroed : Slot where
  buf := Vector.replicate canfdFrameSize 0
  msgLen := 0
  control := []

/-- The kernel's delivery of a message into a zeroed buffer. -/
def Kernel.deliver (k : Kernel) (controlLen : ℕ) (m : Message) : Slot where
  buf := overwrite (Vector.replicate canfdFrameSize 0) 0 (m.bytes.take canfdFrameSize)
  msgLen := min m.bytes.length canfdFrameSize
  control := k.store controlLen m.control

section Receive

variable (k : Kernel) (e : Endian)

/-- Receive a single message; `now` is the wall clock, for messages without a stamp. -/
def recvDecoded (now : Option UInt64) (recvmsg : Except Errno Message) :
    Checked (Except IoError (Option DecodedFrame)) := do
  match recvmsg with
  | .error err =>
    if err = Errno.eagain ∨ err = Errno.eintr then return .ok none
    else return .error (.os err)
  | .ok m =>
    let slot := k.deliver 256 m
    if slot.msgLen < canFrameSize then
      return .ok none
    let timestampNs := (extractTimestampNs slot.control).or now
    let decoded ← decodeWire e (← slice slot.buf.toList 0 slot.msgLen) timestampNs
    return .ok decoded

/-- Receive a single data frame. -/
def recv (now : Option UInt64) (recvmsg : Except Errno Message) :
    Checked (Except IoError (Option Frame)) := do
  match ← recvDecoded k e now recvmsg with
  | .error err => return .error err
  | .ok (some (.Data frame)) => return .ok (some frame)
  | .ok (some (.Rtr _ _)) => return .ok none
  | .ok (some (.Error _ _ _)) => return .ok none
  | .ok none => return .ok none

def maxBatch : ℕ := 64

/-- The loop of `recvBatch` over the slots `is` of the batch. -/
def recvBatchLoop (now : ℕ → Option UInt64) (msgs : List Slot) :
    List ℕ → List Frame → ℕ → Checked (ℕ × List Frame)
  | [], out, delivered => return (delivered, out)
  | i :: is, out, delivered => do
    let slot ← index msgs i
    if slot.msgLen < canFrameSize then
      recvBatchLoop now msgs is out delivered
    else
      let timestampNs := (extractTimestampNs slot.control).or (now i)
      match ← decodeWire e (← slice slot.buf.toList 0 slot.msgLen) timestampNs with
      | some (.Data frame) =>
        recvBatchLoop now msgs is (← assign out delivered frame) (delivered + 1)
      | _ => recvBatchLoop now msgs is out delivered

/-- Receive up to `out.length` frames in one call; returns the count and the output slice. -/
def recvBatch (now : ℕ → Option UInt64) (recvmmsg : ℕ → Except Errno (List Message))
    (out : List Frame) : Checked (Except IoError ℕ × List Frame) := do
  if out.isEmpty then
    return (.ok 0, out)
  let count := min out.length maxBatch
  match recvmmsg count with
  | .error err =>
    if err = Errno.eagain ∨ err = Errno.eintr then return (.ok 0, out)
    else return (.error (.os err), out)
  | .ok received =>
    let n := received.length
    let msgs := received.map (k.deliver 128) ++ List.replicate (maxBatch - n) Slot.zeroed
    let (delivered, out) ← recvBatchLoop e now msgs (List.range n) out 0
    return (.ok delivered, out)

end Receive

section Send

variable (e : Endian)

/-- Send a single frame; `write` is the result of the system call. -/
def send (write : Except Errno ℕ) (frame : Frame) :
    Checked (Except IoError Unit × List (List UInt8)) := do
  let wire ← WireFrame.fromFrame frame
  let size := WireFrame.wireSize frame.isFd
  let datagram ← slice (wire.bytes e) 0 size
  match write with
  | .error err => return (.error (.os err), [])
  | .ok n =>
    if n ≠ size then return (.error (.new .WriteZero "short CAN frame write"), [])
    else return (.ok (), [datagram])

/-- The datagrams set up for `sendmmsg`, one for each index of the batch. -/
def sendBatchMsgs (frames : List Frame) : List ℕ → Checked (List (List UInt8))
  | [] => return []
  | i :: is => do
    let frame ← index frames i
    let wire ← WireFrame.fromFrame frame
    let datagram ← slice (wire.bytes e) 0 (WireFrame.wireSize frame.isFd)
    return datagram :: (← sendBatchMsgs frames is)

/-- Send up to 64 frames in one call; the kernel takes the first messages it is offered. -/
def sendBatch (sendmmsg : ℕ → Except Errno ℕ) (frames : List Frame) :
    Checked (Except IoError ℕ × List (List UInt8)) := do
  if frames.isEmpty then
    return (.ok 0, [])
  let count := min frames.length maxBatch
  let msgs ← sendBatchMsgs e frames (List.range count)
  match sendmmsg count with
  | .error err => return (.error (.os err), [])
  | .ok n => return (.ok n, msgs.take n)

end Send

end Mcanbus
