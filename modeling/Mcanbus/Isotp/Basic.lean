import Mcanbus.Effect.Process
import Mcanbus.Frame.Basic
import Mcanbus.Rust.Format
import Mcanbus.Rust.IoError

/-! # ISO 15765-2 segmented transport

A request is a process over a socket and a clock. The environment answers the
calls that receive and send, and says how long each call and each sleep takes;
the trace records what was sent and received, every expired deadline check and
the error that ends the request.
-/

namespace Mcanbus.Isotp

open Rust Effect Effect.Process

def pciSf : UInt8 := 0x00
def pciFf : UInt8 := 0x10
def pciCf : UInt8 := 0x20
def pciFc : UInt8 := 0x30
/-- Mask isolating the PCI type nibble. -/
def pciTypeMask : UInt8 := 0xF0

def fcCts : UInt8 := 0
def fcWait : UInt8 := 1
def fcOverflow : UInt8 := 2

def sfMaxLen : ℕ := 7
def ffFirstPayload : ℕ := 6
def cfPayload : ℕ := 7
def frameDlc : ℕ := 8
/-- The cap of the 12-bit length field. -/
def maxFfLength : ℕ := 0xFFF

/-- Options of a request; the timeout is in nanoseconds. -/
structure Options where
  padding : UInt8
  blockSize : UInt8
  stMinMs : UInt8
  timeout : ℕ
  maxWaits : UInt8
  deriving DecidableEq, Repr

instance : Inhabited Options where
  default :=
    { padding := 0xCC, blockSize := 0, stMinMs := 0, timeout := 1000000000, maxWaits := 8 }

/-! ### The environment -/

/-- The result of a call that receives, and how long the call took. -/
structure RecvAnswer where
  delay : ℕ
  outcome : Except IoError (Option Frame)

/-- The result of a call that sends, and how long the call took. -/
structure SendAnswer where
  delay : ℕ
  error : Option IoError

/-- The clock in nanoseconds and the answers to come. A call that receives blocks when there
is no answer left; further calls that send succeed at once, and further sleeps are exact. -/
structure Env where
  clock : ℕ
  recvs : List RecvAnswer
  sends : List SendAnswer
  oversleeps : List ℕ

inductive Event
  | sent (time : ℕ) (frame : Frame)
  | received (frame : Option Frame)
  | expired
  | raised (error : IoError)
  deriving DecidableEq

/-- The frames that were sent, in order. -/
def sentFrames (t : List Event) : List Frame :=
  t.filterMap fun
    | .sent _ frame => some frame
    | _ => none

/-- The frames that were received, in order. -/
def receivedFrames (t : List Event) : List Frame :=
  t.filterMap fun
    | .received frame => frame
    | _ => none

theorem mem_sentFrames {t : List Event} {frame : Frame} :
    frame ∈ sentFrames t ↔ ∃ time, .sent time frame ∈ t := by
  rw [sentFrames, List.mem_filterMap]
  constructor
  · rintro ⟨e, he, hf⟩
    cases e with
    | sent time frame' => exact ⟨time, Option.some.inj hf ▸ he⟩
    | received | expired | raised => cases hf
  · rintro ⟨time, he⟩
    exact ⟨_, he, rfl⟩

section Projections

variable (t u : List Event) (time : ℕ) (frame : Frame) (answer : Option Frame) (error : IoError)

@[simp] theorem sentFrames_nil : sentFrames [] = [] := rfl

@[simp] theorem sentFrames_append : sentFrames (t ++ u) = sentFrames t ++ sentFrames u :=
  List.filterMap_append

@[simp] theorem sentFrames_sent : sentFrames (.sent time frame :: t) = frame :: sentFrames t := rfl

@[simp] theorem sentFrames_received : sentFrames (.received answer :: t) = sentFrames t := rfl

@[simp] theorem sentFrames_expired : sentFrames (.expired :: t) = sentFrames t := rfl

@[simp] theorem sentFrames_raised : sentFrames (.raised error :: t) = sentFrames t := rfl

@[simp] theorem receivedFrames_nil : receivedFrames [] = [] := rfl

@[simp] theorem receivedFrames_append :
    receivedFrames (t ++ u) = receivedFrames t ++ receivedFrames u :=
  List.filterMap_append

@[simp] theorem receivedFrames_sent :
    receivedFrames (.sent time frame :: t) = receivedFrames t := rfl

@[simp] theorem receivedFrames_some :
    receivedFrames (.received (some frame) :: t) = frame :: receivedFrames t := rfl

@[simp] theorem receivedFrames_none :
    receivedFrames (.received none :: t) = receivedFrames t := rfl

@[simp] theorem receivedFrames_expired : receivedFrames (.expired :: t) = receivedFrames t := rfl

@[simp] theorem receivedFrames_raised :
    receivedFrames (.raised error :: t) = receivedFrames t := rfl

end Projections

abbrev IsotpM := Process Env IoError Event

/-- Stop with an error. -/
def raise {α : Type} (error : IoError) : IsotpM α := halt (.failed error) [.raised error]

/-- A checked operation whose error stops the request, like the operator `?`. -/
def attempt {α : Type} (c : Checked (Except IoError α)) : IsotpM α := do
  match ← c with
  | .error err => raise err
  | .ok a => return a

def invalidData (message : String) : IoError := .new .InvalidData message

/-- An instant is at most `i64::MAX` seconds after the epoch of the clock. -/
def addDuration (instant duration : ℕ) : Checked ℕ :=
  if instant + duration < 2 ^ 63 * 10 ^ 9 then .ok (instant + duration) else .error .overflow

def now : IsotpM ℕ := fun env => ⟨.done env.clock, env, []⟩

/-- The check `Instant::now() < deadline`. -/
def beforeDeadline (deadline : ℕ) : IsotpM Bool := fun env =>
  if env.clock < deadline then ⟨.done true, env, []⟩ else ⟨.done false, env, [.expired]⟩

def recv : IsotpM (Option Frame) := fun env =>
  match env.recvs with
  | [] => ⟨.halted .pending, env, []⟩
  | answer :: recvs =>
    let env := { env with clock := env.clock + answer.delay, recvs }
    match answer.outcome with
    | .ok frame => ⟨.done frame, env, [.received frame]⟩
    | .error err => ⟨.halted (.failed err), env, [.raised err]⟩

def send (frame : Frame) : IsotpM Unit := fun env =>
  match env.sends with
  | [] => ⟨.done (), env, [.sent env.clock frame]⟩
  | answer :: sends =>
    let env := { env with clock := env.clock + answer.delay, sends }
    match answer.error with
    | none => ⟨.done (), env, [.sent env.clock frame]⟩
    | some err => ⟨.halted (.failed err), env, [.raised err]⟩

def sleep (duration : ℕ) : IsotpM Unit := fun env =>
  ⟨.done (), { env with
    clock := env.clock + duration + env.oversleeps.headD 0
    oversleeps := env.oversleeps.tail }, []⟩

/-! ### Encoding helpers -/

def encodeSfFrame (payload : List UInt8) (padding : UInt8) : Checked (Vector UInt8 frameDlc) := do
  debugAssert (payload.length ≤ sfMaxLen)
  let buf := Vector.replicate frameDlc padding
  let buf := buf.set 0 (pciSf ||| .ofNat payload.length) (by decide)
  copyFromSlice buf 1 (1 + payload.length) payload

def encodeFfFrame (totalLen : UInt16) (firstChunk : List UInt8) (padding : UInt8) :
    Checked (Vector UInt8 frameDlc) := do
  debugAssert (firstChunk.length = ffFirstPayload)
  debugAssert (totalLen.toNat ≤ maxFfLength)
  let buf := Vector.replicate frameDlc padding
  let buf := buf.set 0 (pciFf ||| ((totalLen >>> 8).toUInt8 &&& 0x0F)) (by decide)
  let buf := buf.set 1 totalLen.toUInt8 (by decide)
  copyFromSlice buf 2 (2 + ffFirstPayload) firstChunk

def encodeCfFrame (seq : UInt8) (chunk : List UInt8) (padding : UInt8) :
    Checked (Vector UInt8 frameDlc) := do
  debugAssert (chunk.length ≤ cfPayload)
  let buf := Vector.replicate frameDlc padding
  let buf := buf.set 0 (pciCf ||| (seq &&& 0x0F)) (by decide)
  copyFromSlice buf 1 (1 + chunk.length) chunk

def encodeFcFrame (flowStatus blockSize stMinMs padding : UInt8) : Vector UInt8 frameDlc :=
  let buf := Vector.replicate frameDlc padding
  let buf := buf.set 0 (pciFc ||| (flowStatus &&& 0x0F)) (by decide)
  let buf := buf.set 1 blockSize (by decide)
  buf.set 2 (min stMinMs 0x7F) (by decide)

/-- Decode a separation time into milliseconds; the microsecond range rounds up. -/
def decodeStMin (byte : UInt8) : UInt8 :=
  if byte ≤ 0x7F then byte
  else if 0xF1 ≤ byte ∧ byte ≤ 0xF9 then 1
  else 0x7F

/-! ### Sending -/

/-- The conversion of a frame error into an error of input and output. -/
def frameError (e : FrameError) : IoError := .new .InvalidInput e.display

/-- Send a buffer as a classic frame. -/
def sendClassic (txId : CanId) (buf : Vector UInt8 frameDlc) : IsotpM Unit := do
  let frame ← attempt ((Frame.newClassic txId buf.toList).map (·.mapError frameError))
  send frame

def sendSf (txId : CanId) (payload : List UInt8) (opts : Options) : IsotpM Unit := do
  let buf ← encodeSfFrame payload opts.padding
  sendClassic txId buf

def sendFf (txId : CanId) (payload : List UInt8) (opts : Options) : IsotpM Unit := do
  let firstChunk ← slice payload 0 ffFirstPayload
  let buf ← encodeFfFrame (.ofNat payload.length) firstChunk opts.padding
  sendClassic txId buf

/-- The variables of the loop that sends Consecutive Frames. -/
structure SendState where
  seq : UInt8
  blockCount : UInt8
  offset : ℕ

/-- One iteration of the loop that sends Consecutive Frames. -/
def sendStep (txId : CanId) (rest : List UInt8) (bs stMinMs : UInt8) (opts : Options)
    (s : SendState) : IsotpM (SendState ⊕ Unit) := do
  if s.offset < rest.length then
    let stop := min (s.offset + cfPayload) rest.length
    let chunk ← slice rest s.offset stop
    let buf ← encodeCfFrame s.seq chunk opts.padding
    sendClassic txId buf
    let seq ← addU8 s.seq 1
    let next : SendState := ⟨seq &&& 0x0F, saturatingAddU8 s.blockCount 1, stop⟩
    if bs ≠ 0 ∧ next.blockCount = bs ∧ stop < rest.length then
      raise (.new .Unsupported "ECU's BlockSize > 0 not yet supported on the send path")
    else if stMinMs > 0 ∧ stop < rest.length then
      sleep (stMinMs.toNat * 1000000)
      return .inl next
    else
      return .inl next
  else
    return .inr ()

def sendConsecutiveFrames (txId : CanId) (rest : List UInt8) (bs stMinMs : UInt8)
    (opts : Options) : IsotpM Unit :=
  loop (fun s _ => rest.length - s.offset) (sendStep txId rest bs stMinMs opts) ⟨1, 0, 0⟩

def sendFc (txId : CanId) (opts : Options) : IsotpM Unit :=
  sendClassic txId (encodeFcFrame fcCts opts.blockSize opts.stMinMs opts.padding)

/-! ### Receiving -/

/-- One iteration of the loop that waits for a frame with the identifier. -/
def recvStep (expectedId : CanId) (deadline : ℕ) : IsotpM (Unit ⊕ Option Frame) := do
  if ← beforeDeadline deadline then
    match ← recv with
    | some frame => if frame.id = expectedId then return .inr (some frame) else return .inl ()
    | none => return .inl ()
  else
    return .inr none

/-- Receive a frame with the identifier, or nothing once the deadline has passed. -/
def recvWithId (expectedId : CanId) (deadline : ℕ) : IsotpM (Option Frame) :=
  loop (fun _ env => env.recvs.length) (fun _ => recvStep expectedId deadline) ()

/-- What a frame says to the loop that waits for a Flow Control. -/
def flowControlData (opts : Options) (waits : UInt8) (data : List UInt8) :
    Checked (Except IoError (UInt8 ⊕ UInt8 × UInt8)) := do
  if data.isEmpty then
    return .ok (.inl waits)
  else
    let pci ← index data 0
    if pci &&& pciTypeMask ≠ pciFc then
      return .error (invalidData
        s!"expected Flow Control, got PCI byte 0x{upperHex 2 pci.toNat}")
    else if pci &&& 0x0F = fcCts then
      let bs ← if data.length ≥ 2 then index data 1 else pure 0
      let st ← if data.length ≥ 3 then index data 2 else pure 0
      return .ok (.inr (bs, decodeStMin st))
    else if pci &&& 0x0F = fcWait then
      let waits ← addU8 waits 1
      if waits > opts.maxWaits then
        return .error (.new .TimedOut
          s!"ECU sent more than {opts.maxWaits.toNat} Wait flow controls")
      else
        return .ok (.inl waits)
    else if pci &&& 0x0F = fcOverflow then
      return .error (.new .Other "ECU returned Flow Control Overflow")
    else
      return .error (invalidData
        s!"unknown Flow Control flag 0x{upperHex 0 (pci &&& 0x0F).toNat}")

/-- One iteration of the loop that waits for a Flow Control. -/
def waitStep (rxId : CanId) (deadline : ℕ) (opts : Options) (waits : UInt8) :
    IsotpM (UInt8 ⊕ UInt8 × UInt8) := do
  match ← recvWithId rxId deadline with
  | none => raise (.new .TimedOut "timed out waiting for Flow Control")
  | some frame =>
    let data ← frame.data
    attempt (flowControlData opts waits data)

/-- Wait for a clear-to-send Flow Control; returns its block size and separation time. -/
def waitForFc (rxId : CanId) (deadline : ℕ) (opts : Options) : IsotpM (UInt8 × UInt8) :=
  loop (fun _ env => env.recvs.length) (waitStep rxId deadline opts) 0

/-- The variables of the loop that collects Consecutive Frames. -/
structure CollectState where
  expectedSeq : UInt8
  out : List UInt8
  deriving DecidableEq

/-- What a frame says to the loop that collects Consecutive Frames. -/
def consecutiveData (total : ℕ) (s : CollectState) (data : List UInt8) :
    Checked (Except IoError CollectState) := do
  if data.isEmpty ∨ data.headD 0 &&& pciTypeMask ≠ pciCf then
    return .error (invalidData
      s!"expected Consecutive Frame, got PCI 0x{upperHex 2 (data.headD 0).toNat}")
  else
    let pci ← index data 0
    let gotSeq := pci &&& 0x0F
    if gotSeq ≠ s.expectedSeq then
      let expected := upperHex 0 s.expectedSeq.toNat
      return .error (invalidData
        s!"CF sequence mismatch: expected {expected}, got {upperHex 0 gotSeq.toNat}")
    else
      let remaining ← sub total s.out.length
      let available ← sub data.length 1
      let take := min (min remaining available) cfPayload
      let chunk ← slice data 1 (1 + take)
      let seq ← addU8 s.expectedSeq 1
      return .ok ⟨seq &&& 0x0F, s.out ++ chunk⟩

/-- One iteration of the loop that collects Consecutive Frames. -/
def collectStep (rxId : CanId) (deadline total : ℕ) (s : CollectState) :
    IsotpM (CollectState ⊕ List UInt8) := do
  if s.out.length < total then
    match ← recvWithId rxId deadline with
    | none => raise (.new .TimedOut "timed out collecting Consecutive Frames")
    | some frame =>
      let data ← frame.data
      let next ← attempt (consecutiveData total s data)
      return .inl next
  else
    return .inr s.out

/-- The loop that collects Consecutive Frames. -/
def collect (rxId : CanId) (deadline total : ℕ) (s : CollectState) : IsotpM (List UInt8) :=
  loop (fun _ env => env.recvs.length) (collectStep rxId deadline total) s

/-- A response in one frame, or the announced length of a longer one with its first bytes. -/
inductive Response where
  | single (payload : List UInt8)
  | first (total : ℕ) (out : List UInt8)
  deriving DecidableEq

/-- What the first frame of a response says. -/
def responseData (data : List UInt8) : Checked (Except IoError Response) := do
  if data.isEmpty then
    return .error (invalidData "empty response frame")
  else
    let pci ← index data 0
    if pci &&& pciTypeMask = pciSf then
      let len := (pci &&& 0x0F).toNat
      if len = 0 ∨ len > sfMaxLen ∨ 1 + len > data.length then
        return .error (invalidData s!"invalid Single Frame length 0x{upperHex 0 pci.toNat}")
      else
        let payload ← slice data 1 (1 + len)
        return .ok (.single payload)
    else if pci &&& pciTypeMask = pciFf then
      if data.length < 2 then
        return .error (invalidData "First Frame too short")
      else
        let low ← index data 1
        let total := ((pci &&& 0x0F).toNat <<< 8) ||| low.toNat
        if total ≤ sfMaxLen then
          return .error (invalidData s!"First Frame with length {total} would have fit in SF")
        else
          let available ← sub data.length 2
          let firstChunkLen := min available total
          let out ← slice data 2 (2 + firstChunkLen)
          return .ok (.first total out)
    else if pci &&& pciTypeMask = pciCf then
      return .error (invalidData "received unsolicited Consecutive Frame as response start")
    else if pci &&& pciTypeMask = pciFc then
      return .error (invalidData "received Flow Control while expecting response data")
    else
      return .error (invalidData s!"unknown PCI type in response 0x{upperHex 2 pci.toNat}")

def receiveResponse (txId rxId : CanId) (deadline : ℕ) (opts : Options) :
    IsotpM (List UInt8) := do
  match ← recvWithId rxId deadline with
  | none => raise (.new .TimedOut "no response from ECU")
  | some first =>
    let data ← first.data
    match ← attempt (responseData data) with
    | .single payload => return payload
    | .first total out =>
      sendFc txId opts
      collect rxId deadline total ⟨1, out⟩

/-- The two phases of a request: send the payload, then receive the response. -/
def exchange (txId rxId : CanId) (payload : List UInt8) (deadline : ℕ) (opts : Options) :
    IsotpM (List UInt8) := do
  if payload.length ≤ sfMaxLen then
    sendSf txId payload opts
    receiveResponse txId rxId deadline opts
  else
    sendFf txId payload opts
    let (bs, stMinMs) ← waitForFc rxId deadline opts
    let rest ← slice payload ffFirstPayload payload.length
    sendConsecutiveFrames txId rest bs stMinMs opts
    receiveResponse txId rxId deadline opts

/-- Send a payload to `txId` and wait for a complete response on `rxId`. -/
def request (txId rxId : CanId) (payload : List UInt8) (opts : Options) :
    IsotpM (List UInt8) := do
  if payload.isEmpty then
    raise (.new .InvalidInput "payload must not be empty")
  else if payload.length > maxFfLength then
    raise (.new .InvalidInput
      s!"payload {payload.length} bytes exceeds 12-bit FF length cap (4095)")
  else
    let start ← now
    let deadline ← addDuration start opts.timeout
    exchange txId rxId payload deadline opts

end Mcanbus.Isotp
