import Mcanbus.Isotp.Dialogue
import Mcanbus.Server.Report

/-! # Diagnosis through the server

A call of `isotp_request` takes and gives hexadecimal text, and what is between the
two is a request to an ECU. The text of the answer is what the ECU has answered to
the bytes of the arguments.
-/

namespace Mcanbus.Server

open Rust Effect Effect.Process

/-- The arguments denote the request. -/
structure IsoTpRequestArgs.Denotes (args : IsoTpRequestArgs) (c : Isotp.Call) : Prop where
  txId : parseHexId args.txId args.extended = .ok c.txId
  rxId : parseHexId args.rxId args.extended = .ok c.rxId
  payload : parseHexBytes args.payload = .ok (.ok c.payload)
  padding : parseSingleHexByte args.padding = .ok c.opts.padding
  opts : c.opts =
    ⟨c.opts.padding, args.blockSize, args.stMinMs, milliseconds args.timeoutMs, 8⟩

/-- The call may be made, and its socket can be opened. -/
structure Granted (config : Config) (args : IsoTpRequestArgs) (w : World) : Prop where
  iface : args.iface ∈ config.allowlist
  writable : config.readonly = false
  opens : w.opens.head?.join = none

/-- The request in a task of its own. -/
def requestTask (args : IsoTpRequestArgs) (c : Isotp.Call) : ServerM (List UInt8) := do
  let sock ← orInternal s!"open {args.iface}"
    (openSocket args.iface { recvTimeout := some (milliseconds 50) })
  orInternal "isotp" (onSocket sock (Isotp.request c.txId c.rxId c.payload c.opts))

/-- The answer of the tool to a response that took some time. -/
def responseAnswer (response : List UInt8) (elapsed : ℕ) : ToolResult :=
  .response (String.ofList (hexText response)) (asciiText response) response.length
    (.ofNat (elapsed / 1000000))

/-- The events of a call that makes a request on its socket. -/
def requestTrace (iface : String) (events : List Isotp.Event) : List Event :=
  .opened iface { recvTimeout := some (milliseconds 50) } none :: events.map (.bus iface)

variable {config : Config} {args : IsoTpRequestArgs} {w : World} {c : Isotp.Call}
  {bus : Isotp.Env} {events : List Isotp.Event} {response : List UInt8} {err : IoError}

theorem ofExcept_ok {α : Type} (a : α) : (ofExcept (.ok a) : ServerM α) = pure a := rfl

theorem accept_ok {α : Type} (a : α) : accept (.ok (.ok a)) = pure a := rfl

theorem isotpRequest_eq (ha : args.Denotes c) (hg : Granted config args w) :
    isotpRequest config args = do
      let started ← now
      let response ← spawnBlocking (requestTask args c)
      return responseAnswer response ((← now) - started) := by
  have hiface : config.checkIface args.iface = .ok () := Config.checkIface_ok.mpr hg.iface
  have hwritable : config.checkWritable = .ok () := Config.checkWritable_ok.mpr hg.writable
  unfold isotpRequest requestTask
  simp only [hiface, hwritable, ha.txId, ha.rxId, ha.payload, ha.padding, ofExcept_ok, accept_ok,
    Process.pure_bind]
  rw [ha.opts]
  rfl

theorem open_granted (hg : Granted config args w) (context : String) (opts : OpenOpts) :
    orInternal context (openSocket args.iface opts) w =
      ⟨.done ⟨args.iface⟩, { w with opens := w.opens.tail }, [.opened args.iface opts none]⟩ := by
  have ho : openSocket args.iface opts w = ⟨.done (.ok ⟨args.iface⟩),
      { w with opens := w.opens.tail }, [.opened args.iface opts none]⟩ := by
    unfold openSocket
    rw [hg.opens]
  unfold orInternal
  rw [bind_done ho]
  rfl

section Socket

variable {α : Type} {a : α} {m : Isotp.IsotpM α} {sock : Socket}

theorem onSocket_done (hm : m w.bus = ⟨.done a, bus, events⟩) (context : String) :
    orInternal context (onSocket sock m) w =
      ⟨.done a, { w with bus }, events.map (.bus sock.iface)⟩ := by
  have hs : onSocket sock m w =
      ⟨.done (.ok a), { w with bus }, events.map (.bus sock.iface)⟩ := by
    unfold onSocket onPart
    rw [hm]
  unfold orInternal
  rw [bind_done hs]
  exact congrArg _ (List.append_nil _)

theorem onSocket_failed (hm : m w.bus = ⟨.halted (.failed err), bus, events⟩) (context : String) :
    orInternal context (onSocket sock m) w =
      ⟨.halted (.failed (.internalError s!"{context}: {displayError w.strerror err}")),
        { w with bus }, events.map (.bus sock.iface)⟩ := by
  have hs : onSocket sock m w =
      ⟨.done (.error err), { w with bus }, events.map (.bus sock.iface)⟩ := by
    unfold onSocket onPart
    rw [hm]
  unfold orInternal
  rw [bind_done hs]
  exact congrArg _ (List.append_nil _)

end Socket

/-- A task whose socket opens makes its request in the world with the socket. -/
theorem requestTask_eq (hg : Granted config args w) :
    requestTask args c w =
      .after [.opened args.iface { recvTimeout := some (milliseconds 50) } none]
        (orInternal "isotp" (onSocket ⟨args.iface⟩ c.run) { w with opens := w.opens.tail }) := by
  unfold requestTask
  rw [bind_done (open_granted hg _ _)]
  rfl

theorem requestTask_done (hg : Granted config args w)
    (hr : c.run w.bus = ⟨.done response, bus, events⟩) :
    requestTask args c w = ⟨.done response, { w with opens := w.opens.tail, bus },
      requestTrace args.iface events⟩ := by
  have hm : c.run ({ w with opens := w.opens.tail } : World).bus = ⟨.done response, bus, events⟩ :=
    hr
  rw [requestTask_eq hg, onSocket_done hm]
  rfl

theorem requestTask_failed (hg : Granted config args w)
    (hr : c.run w.bus = ⟨.halted (.failed err), bus, events⟩) :
    requestTask args c w =
      ⟨.halted (.failed (.internalError s!"isotp: {displayError w.strerror err}")),
        { w with opens := w.opens.tail, bus }, requestTrace args.iface events⟩ := by
  have hm : c.run ({ w with opens := w.opens.tail } : World).bus =
      ⟨.halted (.failed err), bus, events⟩ := hr
  rw [requestTask_eq hg, onSocket_failed hm]
  rfl

/-- A call ends as its request does. -/
theorem isotpRequest_done (ha : args.Denotes c) (hg : Granted config args w)
    (hr : c.run w.bus = ⟨.done response, bus, events⟩) :
    isotpRequest config args w = ⟨.done (responseAnswer response (bus.clock - w.bus.clock)),
      { w with opens := w.opens.tail, bus }, requestTrace args.iface events⟩ := by
  have ht : spawnBlocking (requestTask args c) w = ⟨.done response,
      { w with opens := w.opens.tail, bus }, requestTrace args.iface events⟩ := by
    unfold spawnBlocking catchPanic
    rw [requestTask_done hg hr]
  have hn : now w = ⟨.done w.bus.clock, w, []⟩ := rfl
  rw [isotpRequest_eq ha hg, bind_done hn, bind_done ht]
  exact congrArg _ (List.append_nil _)

theorem isotpRequest_failed (ha : args.Denotes c) (hg : Granted config args w)
    (hr : c.run w.bus = ⟨.halted (.failed err), bus, events⟩) :
    isotpRequest config args w =
      ⟨.halted (.failed (.internalError s!"isotp: {displayError w.strerror err}")),
        { w with opens := w.opens.tail, bus }, requestTrace args.iface events⟩ := by
  have ht : spawnBlocking (requestTask args c) w =
      ⟨.halted (.failed (.internalError s!"isotp: {displayError w.strerror err}")),
        { w with opens := w.opens.tail, bus }, requestTrace args.iface events⟩ := by
    unfold spawnBlocking catchPanic
    rw [requestTask_failed hg hr]
  have hn : now w = ⟨.done w.bus.clock, w, []⟩ := rfl
  rw [isotpRequest_eq ha hg, bind_done hn, bind_halted ht]
  rfl

/-! ### The dialogue with an ECU -/

/-- How a call ends whose ECU gives the response. -/
inductive Diagnosed (iface : String) (d : Isotp.Dialogue) (w : World)
    (run : Run World McpError Event ToolResult) : Prop
  | answered (hex : String) (events : List Isotp.Event) :
      run.outcome = .done (.response hex (asciiText d.response) d.response.length
        (.ofNat ((run.state.bus.clock - w.bus.clock) / 1000000))) →
      parseHexBytes hex = .ok (.ok d.response) → run.trace = requestTrace iface events →
      Isotp.sentFrames events = d.requests → Diagnosed iface d w run
  | expired (message : String) (events : List Isotp.Event) :
      run.outcome = .halted (.failed (.internalError s!"isotp: {message}")) →
      run.trace = requestTrace iface events → .expired ∈ events →
      Isotp.sentFrames events <+: d.requests → Diagnosed iface d w run

/-- A call of `isotp_request` answers with what the ECU answers to the payload of its arguments,
and makes it do so, unless the time is over before: then it fails. -/
theorem isotpRequest_diagnoses (d : Isotp.Dialogue) (config : Config) (args : IsoTpRequestArgs)
    (w : World) (ha : args.Denotes d.call) (hg : Granted config args w) (he : w.bus.Accepts)
    (ht : w.bus.clock + milliseconds args.timeoutMs < 2 ^ 63 * 10 ^ 9)
    (later : List (Except IoError (Option Frame)))
    (hr : Isotp.relevant d.call.rxId w.bus.recvs =
      d.replies.map (fun frame => .ok (some frame)) ++ later) :
    Diagnosed args.iface d w (callTool config (.isotpRequest args) w) ∧
    d.ecu.machine.after (.listening .idle) d.requests = .finished d.call.payload ∧
    d.ecu.machine.sends (.listening .idle) d.requests = d.replies := by
  refine ⟨?_, d.ecu_requests⟩
  have htimeout : d.call.opts.timeout = milliseconds args.timeoutMs := by rw [ha.opts]
  have hfollows := d.follows_replies he (htimeout ▸ ht) hr
  rcases hrun : d.call.run w.bus with ⟨o, bus, events⟩
  rw [hrun] at hfollows
  rw [callTool]
  cases hfollows with
  | inTime ho hs =>
    obtain rfl : o = .done d.response := ho
    rw [isotpRequest_done ha hg hrun]
    exact .answered _ events rfl (parseHexBytes_hexText d.response) rfl hs
  | expired message hx ho hs =>
    obtain rfl : o = .halted (.failed (.new .TimedOut message)) := ho
    rw [isotpRequest_failed ha hg hrun]
    exact .expired message events rfl rfl hx hs

/-- A call that makes the request of `Isotp.Dialogue.echo`. -/
def echoArgs : IsoTpRequestArgs :=
  { iface := "vcan0", txId := "7E0", rxId := "7E8",
    payload := String.ofList (hexText Isotp.twentyBytes) }

theorem isotpRequest_diagnoses_echo :
    Diagnosed "vcan0" .echo { replyWorld with bus := Isotp.Dialogue.echoEnv }
      (callTool ⟨["vcan0"], false⟩ (.isotpRequest echoArgs)
        { replyWorld with bus := Isotp.Dialogue.echoEnv }) := by
  refine (isotpRequest_diagnoses .echo ⟨["vcan0"], false⟩ echoArgs
    { replyWorld with bus := Isotp.Dialogue.echoEnv } ?_ ?_ nofun (by decide) []
    Isotp.Dialogue.relevant_echoEnv).1
  · exact ⟨rfl, rfl, parseHexBytes_hexText Isotp.twentyBytes, rfl, rfl⟩
  · exact ⟨List.mem_singleton.mpr rfl, rfl, rfl⟩

end Mcanbus.Server
