import Mcanbus.Server.Tools

/-! # Access control of the server

A tool call opens and uses sockets on allowed interfaces only, transmits only
when the configuration permits it and the tool is one that transmits, and
refuses its arguments before it does anything. So does every run of the server.
-/

namespace Mcanbus.Server

open Rust Effect Effect.Process

/-- A frame was transmitted. -/
def IsSent (event : Isotp.Event) : Prop := ∃ time frame, event = .sent time frame

/-- What the event needs: an allowed interface, and the permission to transmit. -/
def Event.Allowed (allow : String → Prop) (write : Prop) : Event → Prop
  | .opened iface _ _ => allow iface
  | .cloned iface _ => allow iface
  | .bus iface event => allow iface ∧ (IsSent event → write)
  | .queried _ => True

/-- The tools that may transmit. -/
def ToolCall.Transmits : ToolCall → Prop
  | .listInterfaces | .ifaceState _ | .capture _ => False
  | .sendFrame _ | .isotpRequest _ | .sendAndCapture _ => True

/-- The error refuses the arguments of the call. -/
def Refuses (err : McpError) : Prop := err.code = .invalidParams

theorem not_refuses_internal (message : String) : ¬ Refuses (.internalError message) :=
  fun h => nomatch h

/-! ### Operations -/

section Operations

variable {α β : Type} {P : Event → Prop} {allow : String → Prop} {write : Prop} {iface : String}
  {sock : Socket} {opts : OpenOpts} {context : String}

/-- The errors of the operations are internal. -/
abbrev Acts (P : Event → Prop) (m : ServerM α) : Prop := Within P (fun err => ¬ Refuses err) m

theorem acts_orInternal {m : ServerM (Except IoError α)} (hm : Acts P m) :
    Acts P (orInternal context m) := by
  apply Within.bind hm
  rintro (err | a)
  · exact (Within.gets _).bind fun text => Within.fail (not_refuses_internal _)
  · exact Within.pure a

theorem acts_openSocket (h : ∀ error, P (.opened iface opts error)) :
    Acts P (openSocket iface opts) := by
  intro w
  unfold openSocket
  cases w.opens.head?.join with
  | none => exact ⟨by simpa using h none, nofun⟩
  | some err => exact ⟨by simpa using h (some err), nofun⟩

theorem acts_tryClone (h : ∀ error, P (.cloned sock.iface error)) : Acts P (tryClone sock) := by
  intro w
  unfold tryClone
  cases w.clones.head?.join with
  | none => exact ⟨by simpa using h none, nofun⟩
  | some err => exact ⟨by simpa using h (some err), nofun⟩

/-- A process that opens a socket returns one on that interface. -/
theorem returns_orInternal {m : ServerM (Except IoError Socket)}
    (hm : Returns m fun r => ∀ sock, r = .ok sock → sock.iface = iface) :
    Returns (orInternal context m) fun sock => sock.iface = iface := by
  refine Returns.bind hm ?_
  rintro (err | sock) hr
  · exact Returns.bind (fun _ _ _ => trivial) fun _ _ => Returns.halt
  · exact Returns.pure (hr sock rfl)

theorem returns_openSocket :
    Returns (openSocket iface opts) fun r => ∀ sock, r = .ok sock → sock.iface = iface := by
  intro w r h sock hr
  subst hr
  unfold openSocket at h
  cases ho : w.opens.head?.join with
  | none =>
    rw [ho] at h
    cases h
    rfl
  | some err =>
    rw [ho] at h
    cases h

theorem returns_tryClone :
    Returns (tryClone sock) fun r => ∀ sock', r = .ok sock' → sock'.iface = sock.iface := by
  intro w r h sock' hr
  subst hr
  unfold tryClone at h
  cases ho : w.clones.head?.join with
  | none =>
    rw [ho] at h
    cases h
    rfl
  | some err =>
    rw [ho] at h
    cases h

theorem within_recv : Within (fun event => ¬ IsSent event) (fun _ => True) Isotp.recv := by
  intro env
  unfold Isotp.recv
  rcases env.recvs with _ | ⟨⟨d, err | frame⟩, recvs⟩
  · exact ⟨nofun, fun _ _ => trivial⟩
  · refine ⟨?_, fun _ _ => trivial⟩
    rintro e he ⟨time, frame, rfl⟩
    cases List.mem_singleton.mp he
  · refine ⟨?_, fun _ _ => trivial⟩
    rintro e he ⟨time, frame, rfl⟩
    cases List.mem_singleton.mp he

theorem acts_recv (h : allow sock.iface) :
    Acts (Event.Allowed allow write) (onSocket sock Isotp.recv) :=
  within_recv.onPart fun _ hs => ⟨h, fun hsent => absurd hsent hs⟩

/-- Any operation on an allowed socket, with the permission to transmit. -/
theorem acts_onSocket {m : Isotp.IsotpM α} (h : allow sock.iface) (hw : write) :
    Acts (Event.Allowed allow write) (onSocket sock m) :=
  (Within.trivial m).onPart fun _ _ => ⟨h, fun _ => hw⟩

theorem acts_captureLoop {maxFrames deadline : ℕ} (h : allow sock.iface) :
    Acts (Event.Allowed allow write) (captureLoop sock maxFrames deadline) := by
  apply Within.loop
  intro out
  unfold captureStep
  apply (Within.gets _).bind
  intro time
  split
  · apply (acts_orInternal (acts_recv h)).bind
    rintro (_ | frame)
    · exact Within.pure _
    · exact (Within.ofChecked _).bind fun j => Within.pure _
  · exact Within.pure _

theorem acts_openTx {rx : Socket} (hrx : allow rx.iface) (h : allow iface) :
    Acts (Event.Allowed allow write) (openTx rx iface) := by
  unfold openTx
  split
  · exact acts_orInternal (acts_tryClone fun _ => hrx)
  · exact acts_orInternal (acts_openSocket fun _ => h)

theorem returns_openTx {rx : Socket} :
    Returns (openTx rx iface) fun tx => tx.iface = iface := by
  unfold openTx
  split
  case isTrue he => exact he ▸ returns_orInternal returns_tryClone
  case isFalse => exact returns_orInternal returns_openSocket

/-- What follows an open acts on a socket of an allowed interface. -/
theorem acts_withSocket {f : Socket → ServerM α} (h : allow iface)
    (hf : ∀ sock, allow sock.iface → Acts (Event.Allowed allow write) (f sock)) :
    Acts (Event.Allowed allow write) (orInternal context (openSocket iface opts) >>= f) := by
  apply Within.bind_returns (acts_orInternal (acts_openSocket fun _ => h))
    (returns_orInternal returns_openSocket)
  rintro sock rfl
  exact hf sock h

/-- Checked arguments before the rest of a tool. -/
theorem failsFirst_accept {c : Checked (Except McpError α)} {f : α → ServerM β}
    (hf : ∀ a, c = .ok (.ok a) → FailsFirst P Refuses (f a)) :
    FailsFirst P Refuses (accept c >>= f) := by
  rcases c with p | (err | a)
  · have he : (accept (.error p) : ServerM α) = halt (.panicked p) [] := rfl
    rw [he]
    exact FailsFirst.halt_bind _
  · have he : (accept (.ok (.error err)) : ServerM α) = halt (.failed err) [] := rfl
    rw [he]
    exact FailsFirst.halt_bind _
  · exact hf a rfl

theorem failsFirst_spawnBlocking {m : ServerM α} (hm : FailsFirst P Refuses m) :
    FailsFirst P Refuses (spawnBlocking m) :=
  hm.catchPanic fun _ _ => not_refuses_internal _

end Operations

/-! ### Tools -/

section Tools

variable {config : Config} {write : Prop}

/-- The events that the configuration allows a call. -/
def Config.Allows (config : Config) (call : ToolCall) : Event → Prop :=
  Event.Allowed (· ∈ config.allowlist) (config.readonly = false ∧ call.Transmits)

theorem acts_ifaceSummary (iface : Iface.Interface) :
    Acts (Event.Allowed (· ∈ config.allowlist) write) (ifaceSummary iface) := by
  intro w
  unfold ifaceSummary
  dsimp only
  split
  · exact ⟨by simp [Event.Allowed], nofun⟩
  · exact ⟨by simp [Event.Allowed], nofun⟩

theorem acts_ifaceSummaries (ifaces : List Iface.Interface) :
    Acts (Event.Allowed (· ∈ config.allowlist) write) (ifaceSummaries ifaces) := by
  induction ifaces with
  | nil => exact Within.pure _
  | cons iface ifaces ih =>
    exact (acts_ifaceSummary iface).bind fun _ => ih.bind fun _ => Within.pure _

theorem failsFirst_runCapture {iface : String} {timeoutMs : UInt64} {maxFrames : ℕ}
    {filter : Option FilterSpec} (h : iface ∈ config.allowlist) :
    FailsFirst (Event.Allowed (· ∈ config.allowlist) write) Refuses
      (runCapture iface timeoutMs maxFrames filter) := by
  apply FailsFirst.check
  intro filter _
  apply FailsFirst.of_within
  apply acts_withSocket h
  intro sock hs
  apply (Within.gets _).bind
  intro start
  apply (Within.ofChecked _).bind
  intro deadline
  exact acts_captureLoop hs

theorem failsFirst_sendFrame (args : SendFrameArgs) :
    FailsFirst (config.Allows (.sendFrame args)) Refuses (sendFrame config args) := by
  apply FailsFirst.check
  intro _ hi
  have h := Config.checkIface_ok.mp hi
  apply FailsFirst.check
  intro _ hw
  have hwrite := Config.checkWritable_ok.mp hw
  apply failsFirst_accept
  intro frame _
  apply FailsFirst.of_within
  apply acts_withSocket h
  intro sock hs
  apply (acts_orInternal (acts_onSocket hs ⟨hwrite, trivial⟩)).bind
  intro _
  exact (Within.ofChecked _).bind fun _ => Within.pure _

theorem failsFirst_capture (args : CaptureArgs) :
    FailsFirst (config.Allows (.capture args)) Refuses (capture config args) := by
  apply FailsFirst.check
  intro _ hi
  apply FailsFirst.bind (failsFirst_spawnBlocking
    (failsFirst_runCapture (Config.checkIface_ok.mp hi)))
  intro frames
  exact Within.pure _

theorem failsFirst_isotpRequest (args : IsoTpRequestArgs) :
    FailsFirst (config.Allows (.isotpRequest args)) Refuses (isotpRequest config args) := by
  apply FailsFirst.check
  intro _ hi
  have h := Config.checkIface_ok.mp hi
  apply FailsFirst.check
  intro _ hw
  have hwrite := Config.checkWritable_ok.mp hw
  apply FailsFirst.check
  intro txId _
  apply FailsFirst.check
  intro rxId _
  apply failsFirst_accept
  intro payload _
  apply FailsFirst.check
  intro padding _
  apply FailsFirst.gets
  intro started
  apply FailsFirst.bind
  · apply failsFirst_spawnBlocking
    apply FailsFirst.of_within
    apply acts_withSocket h
    intro sock hs
    exact acts_orInternal (acts_onSocket hs ⟨hwrite, trivial⟩)
  · intro response
    exact (Within.gets _).bind fun _ => Within.pure _

theorem failsFirst_sendAndCapture (args : SendAndCaptureArgs) :
    FailsFirst (config.Allows (.sendAndCapture args)) Refuses (sendAndCapture config args) := by
  apply FailsFirst.check
  intro _ hi
  have h := Config.checkIface_ok.mp hi
  apply FailsFirst.check
  intro _ hw
  have hwrite := Config.checkWritable_ok.mp hw
  apply FailsFirst.check
  intro _ hrx
  have h' : args.rxIface.getD args.iface ∈ config.allowlist := by
    split at hrx
    case isTrue => exact Config.checkIface_ok.mp hrx
    case isFalse he =>
      rw [Decidable.not_not.mp he]
      exact h
  apply failsFirst_accept
  intro frame _
  apply FailsFirst.bind
  · apply failsFirst_spawnBlocking
    apply FailsFirst.check
    intro filter _
    apply FailsFirst.of_within
    apply acts_withSocket h'
    intro rx hrx'
    apply Within.bind_returns (acts_openTx hrx' h) returns_openTx
    intro tx ht
    apply (acts_orInternal (acts_onSocket (show tx.iface ∈ config.allowlist from ht ▸ h)
      ⟨hwrite, trivial⟩)).bind
    intro _
    apply (Within.gets _).bind
    intro start
    apply (Within.ofChecked _).bind
    intro deadline
    apply (acts_captureLoop hrx').bind
    intro out
    exact (Within.ofChecked _).bind fun _ => Within.pure _
  · rintro ⟨sent, captured⟩
    exact Within.pure _

/-- A tool call stays within what the configuration allows, and refuses its arguments before
any event. -/
theorem failsFirst_callTool (call : ToolCall) :
    FailsFirst (config.Allows call) Refuses (callTool config call) := by
  cases call with
  | listInterfaces =>
    apply FailsFirst.of_within
    apply (acts_orInternal (Within.gets _)).bind
    intro ifaces
    exact (acts_ifaceSummaries ifaces).bind fun _ => Within.pure _
  | ifaceState iface =>
    apply FailsFirst.of_within
    exact (acts_ifaceSummary _).bind fun _ => Within.pure _
  | sendFrame args => exact failsFirst_sendFrame args
  | capture args => exact failsFirst_capture args
  | isotpRequest args => exact failsFirst_isotpRequest args
  | sendAndCapture args => exact failsFirst_sendAndCapture args

end Tools

/-! ### Runs -/

section Runs

variable {config : Config} {calls : List (ToolCall × World)} {reply : Reply}

theorem serve_reply (h : reply ∈ serve config calls) :
    (∀ e ∈ reply.trace, config.Allows reply.call e) ∧
      ∀ err, reply.outcome = .halted (.failed err) → Refuses err → reply.trace = [] := by
  obtain ⟨⟨call, world⟩, -, rfl⟩ := List.mem_map.mp h
  exact failsFirst_callTool call world

/-- In every run of the server, sockets are opened and frames transmitted on permitted interfaces
only, nothing is transmitted while the configuration is read-only or by a tool that only
observes, and a refused call has no effect. -/
theorem serve_access (interfaces readonly : Option String) (calls : List (ToolCall × World)) :
    let config := Config.fromEnv interfaces readonly
    let replies := serve config calls
    (∀ iface opts error, .opened iface opts error ∈ log replies →
      Config.Permits interfaces iface) ∧
    (∀ iface time frame, .bus iface (.sent time frame) ∈ log replies →
      Config.Permits interfaces iface ∧ config.readonly = false) ∧
    ∀ reply ∈ replies,
      (∀ iface time frame, .bus iface (.sent time frame) ∈ reply.trace →
        reply.call.Transmits) ∧
      (∀ err, reply.outcome = .halted (.failed err) → err.code = .invalidParams →
        reply.trace = []) := by
  intro config replies
  have hlog : ∀ e ∈ log replies, ∃ reply ∈ replies, config.Allows reply.call e := by
    intro e he
    obtain ⟨reply, hr, he'⟩ := List.mem_flatMap.mp he
    exact ⟨reply, hr, (serve_reply hr).1 e he'⟩
  refine ⟨?_, ?_, ?_⟩
  · intro iface opts error he
    obtain ⟨reply, -, h⟩ := hlog _ he
    exact Config.mem_allowlist.mp h
  · intro iface time frame he
    obtain ⟨reply, -, h, hw⟩ := hlog _ he
    exact ⟨Config.mem_allowlist.mp h, (hw ⟨time, frame, rfl⟩).1⟩
  · intro reply hr
    refine ⟨fun iface time frame he => ?_, (serve_reply hr).2⟩
    exact (((serve_reply hr).1 _ he).2 ⟨time, frame, rfl⟩).2

end Runs

end Mcanbus.Server
