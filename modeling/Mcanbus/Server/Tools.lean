import Mcanbus.Effect.Within
import Mcanbus.Iface.Basic
import Mcanbus.Isotp.Basic
import Mcanbus.Server.Codec
import Mcanbus.Server.Filters

/-! # The tools of the server

Every tool is a process over the sockets it opens and the queries it makes. The
environment answers each of them; the trace records every socket that is
opened, with its interface, and what happens on it.
-/

namespace Mcanbus.Server

open Rust Effect Effect.Process

/-- A CAN socket, bound to an interface. -/
structure Socket where
  iface : String
  deriving DecidableEq

/-- What the environment answers during a tool call, and how errors of the system and of the
runtime are displayed. Opening and cloning succeed when no answer is left. -/
structure World where
  bus : Isotp.Env
  opens : List (Option IoError)
  clones : List (Option IoError)
  dir : Except IoError (List (Except IoError Iface.DirEntry))
  links : String → Iface.LinkAnswers
  endian : Endian
  strerror : Errno → String
  joinError : Panic → String

inductive Event
  | opened (iface : String) (opts : OpenOpts) (error : Option IoError)
  | cloned (iface : String) (error : Option IoError)
  | bus (iface : String) (event : Isotp.Event)
  | queried (iface : String)

abbrev ServerM := Process World McpError Event

/-! ### Operations -/

def openSocket (iface : String) (opts : OpenOpts) : ServerM (Except IoError Socket) := fun w =>
  let w' := { w with opens := w.opens.tail }
  match w.opens.head?.join with
  | some err => ⟨.done (.error err), w', [.opened iface opts (some err)]⟩
  | none => ⟨.done (.ok ⟨iface⟩), w', [.opened iface opts none]⟩

def tryClone (sock : Socket) : ServerM (Except IoError Socket) := fun w =>
  let w' := { w with clones := w.clones.tail }
  match w.clones.head?.join with
  | some err => ⟨.done (.error err), w', [.cloned sock.iface (some err)]⟩
  | none => ⟨.done (.ok sock), w', [.cloned sock.iface none]⟩

/-- An operation on a socket. -/
def onSocket {α : Type} (sock : Socket) (m : Isotp.IsotpM α) : ServerM (Except IoError α) :=
  onPart World.bus (fun bus w => { w with bus }) (.bus sock.iface) m

def now : ServerM ℕ := gets fun w => w.bus.clock

def displayError (strerror : Errno → String) : IoError → String
  | .os errno => s!"{strerror errno} (os error {errno})"
  | .new _ message => message

/-- The conversion of an error of input and output into an internal error. -/
def orInternal {α : Type} (context : String) (m : ServerM (Except IoError α)) : ServerM α := do
  match ← m with
  | .ok a => return a
  | .error err =>
    let text ← gets fun w => displayError w.strerror err
    halt (.failed (.internalError s!"{context}: {text}")) []

/-- A task on the blocking pool, whose panic is an error of the call that joins it. -/
def spawnBlocking {α : Type} (m : ServerM α) : ServerM α :=
  catchPanic (fun w p => .internalError s!"join: {w.joinError p}") m

/-- One iteration of the loop that captures frames. -/
def captureStep (sock : Socket) (maxFrames deadline : ℕ) (out : List FrameJson) :
    ServerM (List FrameJson ⊕ List FrameJson) := do
  if out.length < maxFrames ∧ (← now) < deadline then
    match ← orInternal "recv" (onSocket sock Isotp.recv) with
    | some frame => return .inl (out ++ [← FrameJson.fromFrame frame])
    | none => return .inl out
  else
    return .inr out

/-- Capture until the deadline, or until enough frames have arrived. -/
def captureLoop (sock : Socket) (maxFrames deadline : ℕ) : ServerM (List FrameJson) :=
  loop (fun _ w => w.bus.recvs.length) (captureStep sock maxFrames deadline) []

/-- The hard cap of a capture. -/
def captureCap : ℕ := 4096

def milliseconds (ms : UInt64) : ℕ := ms.toNat * 1000000

/-- The filters of an optional specification. -/
def filtersOf (filter : Option FilterSpec) : Except McpError (Option (List CanFilter)) :=
  match filter with
  | none => .ok none
  | some spec => (buildFilters spec).map some

def runCapture (iface : String) (timeoutMs : UInt64) (maxFrames : ℕ) (filter : Option FilterSpec) :
    ServerM (List FrameJson) := do
  let maxFrames := min maxFrames captureCap
  let filter ← ofExcept (filtersOf filter)
  let opts : OpenOpts := { recvTimeout := some (milliseconds 100), filter }
  let sock ← orInternal s!"open {iface}" (openSocket iface opts)
  let start ← now
  let deadline ← Isotp.addDuration start (milliseconds timeoutMs)
  captureLoop sock maxFrames deadline

/-! ### Arguments and results -/

structure SendFrameArgs where
  iface : String
  id : String
  extended : Bool := false
  data : String := ""
  fd : Bool := false
  brs : Bool := false

structure CaptureArgs where
  iface : String
  timeoutMs : UInt64 := 1000
  maxFrames : ℕ := 256
  filter : Option FilterSpec := none

structure SendAndCaptureArgs where
  iface : String
  rxIface : Option String := none
  frame : SendFrameInline
  timeoutMs : UInt64 := 1000
  maxFrames : ℕ := 256
  filter : Option FilterSpec := none

structure IsoTpRequestArgs where
  iface : String
  txId : String
  rxId : String
  extended : Bool := false
  payload : String
  padding : String := "CC"
  timeoutMs : UInt64 := 1000
  blockSize : UInt8 := 0
  stMinMs : UInt8 := 0

structure IfaceSummary where
  name : String
  up : Option Bool
  state : Option Iface.CanState
  bitrate : Option UInt32
  deriving DecidableEq, Repr

/-- The content of a successful answer. -/
inductive ToolResult
  | interfaces (interfaces : List IfaceSummary) (allowlist : List String) (readonly : Bool)
  | summary (summary : IfaceSummary)
  | sent (frame : FrameJson)
  | frames (frames : List FrameJson) (count : ℕ)
  | response (hex ascii : String) (len : ℕ) (durationMs : UInt64)
  | replies (sent : FrameJson) (responses : List FrameJson) (count : ℕ)
  deriving DecidableEq, Repr

/-! ### The tools -/

def ifaceSummary (iface : Iface.Interface) : ServerM IfaceSummary := fun w =>
  let os := w.links iface.name
  let trace := [.queried iface.name]
  match iface.state w.endian os with
  | .error p => ⟨.halted (.panicked p), w, trace⟩
  | .ok state =>
    ⟨.done { name := iface.name, up := (Iface.Interface.isUp os.flags).toOption.join,
             state := state.toOption.join,
             bitrate := (Iface.Interface.bitrate os.ip).toOption.join }, w, trace⟩

def ifaceSummaries : List Iface.Interface → ServerM (List IfaceSummary)
  | [] => pure []
  | iface :: ifaces => do
    let summary ← ifaceSummary iface
    return summary :: (← ifaceSummaries ifaces)

def listInterfaces (config : Config) : ServerM ToolResult := do
  let ifaces ← orInternal "enumerate" (gets fun w => Iface.listCanInterfaces w.dir)
  return .interfaces (← ifaceSummaries ifaces) config.allowlist config.readonly

/-- The status of an interface; there is no check against the allowlist. -/
def ifaceState (iface : String) : ServerM ToolResult := do
  return .summary (← ifaceSummary ⟨iface⟩)

/-- The outcome of a checked operation that may refuse its arguments. -/
def accept {α : Type} (c : Checked (Except McpError α)) : ServerM α := do
  let r ← c
  ofExcept r

def sendFrame (config : Config) (args : SendFrameArgs) : ServerM ToolResult := do
  ofExcept (config.checkIface args.iface)
  ofExcept config.checkWritable
  let frame ← accept (buildFrame
    { id := args.id, extended := args.extended, data := args.data, fd := args.fd,
      brs := args.brs })
  let sock ← orInternal s!"open {args.iface}" (openSocket args.iface {})
  orInternal "send" (onSocket sock (Isotp.send frame))
  return .sent (← FrameJson.fromFrame frame)

def capture (config : Config) (args : CaptureArgs) : ServerM ToolResult := do
  ofExcept (config.checkIface args.iface)
  let frames ← spawnBlocking
    (runCapture args.iface args.timeoutMs args.maxFrames args.filter)
  return .frames frames frames.length

/-- The bytes as characters, with a dot for every byte outside of printable ASCII. -/
def asciiText (bytes : List UInt8) : String :=
  String.ofList (bytes.map fun b => if 0x20 ≤ b ∧ b ≤ 0x7E then .ofNat b.toNat else '.')

def isotpRequest (config : Config) (args : IsoTpRequestArgs) : ServerM ToolResult := do
  ofExcept (config.checkIface args.iface)
  ofExcept config.checkWritable
  let txId ← ofExcept (parseHexId args.txId args.extended)
  let rxId ← ofExcept (parseHexId args.rxId args.extended)
  let payload ← accept (parseHexBytes args.payload)
  let padding ← ofExcept (parseSingleHexByte args.padding)
  let started ← now
  let response ← spawnBlocking do
    let sock ← orInternal s!"open {args.iface}"
      (openSocket args.iface { recvTimeout := some (milliseconds 50) })
    let opts : Isotp.Options :=
      { padding, blockSize := args.blockSize, stMinMs := args.stMinMs,
        timeout := milliseconds args.timeoutMs, maxWaits := (default : Isotp.Options).maxWaits }
    orInternal "isotp" (onSocket sock (Isotp.request txId rxId payload opts))
  let elapsed := (← now) - started
  return .response (String.ofList (hexText response)) (asciiText response) response.length
    (.ofNat (elapsed / 1000000))

/-- The socket that transmits: a clone of the receiving one on the same interface. -/
def openTx (rx : Socket) (iface : String) : ServerM Socket :=
  if rx.iface = iface then orInternal "clone tx" (tryClone rx)
  else orInternal s!"open tx {iface}" (openSocket iface {})

def sendAndCapture (config : Config) (args : SendAndCaptureArgs) : ServerM ToolResult := do
  ofExcept (config.checkIface args.iface)
  ofExcept config.checkWritable
  let rxIface := args.rxIface.getD args.iface
  ofExcept (if rxIface ≠ args.iface then config.checkIface rxIface else .ok ())
  let frame ← accept (buildFrame args.frame)
  let (sent, captured) ← spawnBlocking do
    -- the receiving socket is open before the frame is sent
    let filter ← ofExcept (filtersOf args.filter)
    let rx ← orInternal s!"open rx {rxIface}"
      (openSocket rxIface { recvTimeout := some (milliseconds 50), filter })
    let tx ← openTx rx args.iface
    orInternal "send" (onSocket tx (Isotp.send frame))
    let start ← now
    let deadline ← Isotp.addDuration start (milliseconds args.timeoutMs)
    let out ← captureLoop rx (min args.maxFrames captureCap) deadline
    return (← FrameJson.fromFrame frame, out)
  return .replies sent captured captured.length

inductive ToolCall
  | listInterfaces
  | ifaceState (iface : String)
  | sendFrame (args : SendFrameArgs)
  | capture (args : CaptureArgs)
  | isotpRequest (args : IsoTpRequestArgs)
  | sendAndCapture (args : SendAndCaptureArgs)

def callTool (config : Config) : ToolCall → ServerM ToolResult
  | .listInterfaces => listInterfaces config
  | .ifaceState iface => ifaceState iface
  | .sendFrame args => sendFrame config args
  | .capture args => capture config args
  | .isotpRequest args => isotpRequest config args
  | .sendAndCapture args => sendAndCapture config args

/-! ### Runs of the server -/

/-- A tool call with its answer and the events during the call. -/
structure Reply where
  call : ToolCall
  outcome : Outcome McpError ToolResult
  trace : List Event

/-- Serve tool calls in order, each with the answers of its environment. -/
def serve (config : Config) (calls : List (ToolCall × World)) : List Reply :=
  calls.map fun (call, world) =>
    let run := callTool config call world
    ⟨call, run.outcome, run.trace⟩

/-- All events of a run of the server. -/
def log (replies : List Reply) : List Event := replies.flatMap Reply.trace

end Mcanbus.Server
