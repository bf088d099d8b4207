import Mathlib.Data.List.Forall2
import Mcanbus.Server.Access
import Mcanbus.Server.HexId

/-! # What the answers of the server report

A tool that succeeds reports what it did: the frame that it transmitted and the
frames that its socket received since, in order, up to the limit or for the whole
time. The events of the call are determined by its answer.
-/

namespace Mcanbus.Server

open Rust Effect Effect.Process

/-- The reports of the frames, in order. -/
abbrev Reported (frames : List Frame) (js : List FrameJson) : Prop :=
  List.Forall₂ (fun frame j => FrameJson.fromFrame frame = .ok j) frames js

/-- What a capture received between two times, and what it reports: all of it, up to the limit or
until the time is over. -/
structure Captured (maxFrames : ℕ) (timeoutMs : UInt64) (start stop : ℕ)
    (events : List Isotp.Event) (js : List FrameJson) : Prop where
  received : ∀ e ∈ events, ∃ answer, e = .received answer
  reported : Reported (Isotp.receivedFrames events) js
  length_le : js.length ≤ min maxFrames captureCap
  complete : js.length < min maxFrames captureCap → start + milliseconds timeoutMs ≤ stop

/-- The answers of the system about an interface, as they are reported. -/
def Summarises (w : World) (iface : Iface.Interface) (summary : IfaceSummary) : Prop :=
  ∃ state, iface.state w.endian (w.links iface.name) = .ok state ∧
    summary = { name := iface.name,
                up := (Iface.Interface.isUp (w.links iface.name).flags).toOption.join,
                state := state.toOption.join,
                bitrate := (Iface.Interface.bitrate (w.links iface.name).ip).toOption.join }

/-- The events of a call with an answer, in the world before and after it. -/
inductive Reports (config : Config) (w w' : World) : ToolCall → ToolResult → List Event → Prop
  | interfaces {ifaces : List Iface.Interface} {summaries : List IfaceSummary} :
      Iface.listCanInterfaces w.dir = .ok ifaces →
      List.Forall₂ (Summarises w) ifaces summaries →
      Reports config w w' .listInterfaces
        (.interfaces summaries config.allowlist config.readonly)
        (ifaces.map fun iface => .queried iface.name)
  | summary {iface : String} {summary : IfaceSummary} : Summarises w ⟨iface⟩ summary →
      Reports config w w' (.ifaceState iface) (.summary summary) [.queried iface]
  | sent {args : SendFrameArgs} {frame : Frame} {j : FrameJson} :
      buildFrame ⟨args.id, args.extended, args.data, args.fd, args.brs⟩ = .ok (.ok frame) →
      FrameJson.fromFrame frame = .ok j →
      Reports config w w' (.sendFrame args) (.sent j)
        [.opened args.iface {} none, .bus args.iface (.sent w'.bus.clock frame)]
  | frames {args : CaptureArgs} {filter : Option (List CanFilter)} {events : List Isotp.Event}
      {js : List FrameJson} : filtersOf args.filter = .ok filter →
      Captured args.maxFrames args.timeoutMs w.bus.clock w'.bus.clock events js →
      Reports config w w' (.capture args) (.frames js js.length)
        (.opened args.iface { recvTimeout := some (milliseconds 100), filter } none ::
          events.map (.bus args.iface))
  | response {args : IsoTpRequestArgs} {txId rxId : CanId} {payload response : List UInt8}
      {padding : UInt8} {events : List Isotp.Event} {hex : String} :
      parseHexId args.txId args.extended = .ok txId →
      parseHexId args.rxId args.extended = .ok rxId →
      parseHexBytes args.payload = .ok (.ok payload) →
      parseSingleHexByte args.padding = .ok padding →
      Isotp.request txId rxId payload
        ⟨padding, args.blockSize, args.stMinMs, milliseconds args.timeoutMs, 8⟩ w.bus =
        ⟨.done response, w'.bus, events⟩ →
      parseHexBytes hex = .ok (.ok response) →
      Reports config w w' (.isotpRequest args)
        (.response hex (asciiText response) response.length
          (.ofNat ((w'.bus.clock - w.bus.clock) / 1000000)))
        (.opened args.iface { recvTimeout := some (milliseconds 50) } none ::
          events.map (.bus args.iface))
  | replies {args : SendAndCaptureArgs} {filter : Option (List CanFilter)} {frame : Frame}
      {j : FrameJson} {events : List Isotp.Event} {js : List FrameJson} {start : ℕ} :
      filtersOf args.filter = .ok filter → buildFrame args.frame = .ok (.ok frame) →
      FrameJson.fromFrame frame = .ok j →
      Captured args.maxFrames args.timeoutMs start w'.bus.clock events js →
      Reports config w w' (.sendAndCapture args) (.replies j js js.length)
        (.opened (args.rxIface.getD args.iface)
            { recvTimeout := some (milliseconds 50), filter } none ::
          (if args.rxIface.getD args.iface = args.iface then
            .cloned (args.rxIface.getD args.iface) none
          else .opened args.iface {} none) ::
          .bus args.iface (.sent start frame) ::
          events.map (.bus (args.rxIface.getD args.iface)))

variable {config : Config} {w w' : World} {t : List Event} {iface context : String}
  {opts : OpenOpts} {sock : Socket}

/-! ### Operations that succeed -/

section Operations

variable {α : Type} {a : α}

theorem orInternal_eq_done {m : ServerM (Except IoError α)}
    (h : orInternal context m w = ⟨.done a, w', t⟩) : m w = ⟨.done (.ok a), w', t⟩ := by
  obtain ⟨r, w₁, u, v, hm, hr, rfl⟩ := bind_eq_done h
  cases r with
  | ok b =>
    cases hr
    rw [hm, List.append_nil]
  | error err =>
    obtain ⟨_, _, _, _, _, hr, _⟩ := bind_eq_done hr
    cases hr

theorem gets_eq_done {g : World → α} (h : (gets g : ServerM α) w = ⟨.done a, w', t⟩) :
    g w = a ∧ w' = w ∧ t = [] := by
  obtain ⟨ha, rfl, rfl⟩ := Run.mk.inj h
  exact ⟨Outcome.done.inj ha, rfl, rfl⟩

theorem ofExcept_eq_done {c : Except McpError α}
    (h : (ofExcept c : ServerM α) w = ⟨.done a, w', t⟩) : c = .ok a ∧ w' = w ∧ t = [] := by
  cases c with
  | ok b =>
    cases h
    exact ⟨rfl, rfl, rfl⟩
  | error err => cases h

theorem accept_eq_done {c : Checked (Except McpError α)}
    (h : accept c w = ⟨.done a, w', t⟩) : c = .ok (.ok a) ∧ w' = w ∧ t = [] := by
  obtain ⟨r, w₁, u, v, hc, hr, rfl⟩ := bind_eq_done h
  obtain ⟨rfl, rfl, rfl⟩ := ofChecked_eq_done hc
  obtain ⟨rfl, rfl, rfl⟩ := ofExcept_eq_done hr
  exact ⟨rfl, rfl, rfl⟩

/-- A step that changes and emits nothing comes before the rest of a process. -/
theorem bind_quiet {β : Type} {P : α → Prop} {m : ServerM α} {f : α → ServerM β} {b : β}
    (hm : ∀ a w' t, m w = ⟨.done a, w', t⟩ → P a ∧ w' = w ∧ t = [])
    (h : (m >>= f) w = ⟨.done b, w', t⟩) : ∃ a, P a ∧ f a w = ⟨.done b, w', t⟩ := by
  obtain ⟨a, w₁, u, v, ha, hf, rfl⟩ := bind_eq_done h
  obtain ⟨hp, rfl, rfl⟩ := hm a w₁ u ha
  exact ⟨a, hp, hf⟩

theorem spawnBlocking_eq_done {m : ServerM α}
    (h : spawnBlocking m w = ⟨.done a, w', t⟩) : m w = ⟨.done a, w', t⟩ := by
  unfold spawnBlocking catchPanic at h
  rcases hm : m w with ⟨b | err | p | _, w₁, u⟩ <;> rw [hm] at h <;> cases h
  rfl

theorem openSocket_eq_done
    (h : orInternal context (openSocket iface opts) w = ⟨.done sock, w', t⟩) :
    sock = ⟨iface⟩ ∧ w'.bus = w.bus ∧ t = [.opened iface opts none] := by
  have ho := orInternal_eq_done h
  unfold openSocket at ho
  rcases hw : w.opens.head?.join with _ | err <;> rw [hw] at ho <;> cases ho
  exact ⟨rfl, rfl, rfl⟩

theorem openTx_eq_done {rx tx : Socket} (h : openTx rx iface w = ⟨.done tx, w', t⟩) :
    tx = ⟨iface⟩ ∧ w'.bus = w.bus ∧
      t = [if rx.iface = iface then .cloned rx.iface none else .opened iface {} none] := by
  unfold openTx at h
  split at h
  case isTrue he =>
    have hc := orInternal_eq_done h
    unfold tryClone at hc
    rcases hw : w.clones.head?.join with _ | err <;> rw [hw] at hc <;> cases hc
    subst he
    exact ⟨rfl, rfl, by rw [if_pos rfl]⟩
  case isFalse he =>
    obtain ⟨hs, hb, ht⟩ := openSocket_eq_done h
    exact ⟨hs, hb, by rw [ht, if_neg he]⟩

theorem onSocket_eq_done {m : Isotp.IsotpM α}
    (h : orInternal context (onSocket sock m) w = ⟨.done a, w', t⟩) :
    ∃ u, m w.bus = ⟨.done a, w'.bus, u⟩ ∧ t = u.map (.bus sock.iface) := by
  have hm := orInternal_eq_done h
  unfold onSocket onPart at hm
  rcases hr : m w.bus with ⟨b | err | p | _, bus, u⟩ <;> rw [hr] at hm <;> cases hm
  exact ⟨u, rfl, rfl⟩

theorem recv_eq_done {bus bus' : Isotp.Env} {answer : Option Frame} {u : List Isotp.Event}
    (h : Isotp.recv bus = ⟨.done answer, bus', u⟩) : u = [.received answer] := by
  unfold Isotp.recv at h
  rcases hb : bus.recvs with _ | ⟨⟨d, err | answer'⟩, recvs⟩ <;> rw [hb] at h <;> cases h
  rfl

theorem send_eq_done {bus bus' : Isotp.Env} {frame : Frame} {u : List Isotp.Event}
    (h : Isotp.send frame bus = ⟨.done (), bus', u⟩) : u = [.sent bus'.clock frame] := by
  unfold Isotp.send at h
  rcases hb : bus.sends with _ | ⟨⟨d, _ | err⟩, sends⟩ <;> rw [hb] at h <;> cases h <;> rfl

end Operations

/-! ### Captures -/

/-- The frames that were received are reported. -/
def Capturing (iface : String) (maxFrames : ℕ) (js : List FrameJson) (t : List Event) : Prop :=
  ∃ events : List Isotp.Event, t = events.map (.bus iface) ∧
    (∀ e ∈ events, ∃ answer, e = .received answer) ∧
    Reported (Isotp.receivedFrames events) js ∧ js.length ≤ maxFrames

theorem Capturing.concat {maxFrames : ℕ} {js js' : List FrameJson} {answer : Option Frame}
    (h : Capturing iface maxFrames js t) (hr : Reported answer.toList js')
    (hl : (js ++ js').length ≤ maxFrames) :
    Capturing iface maxFrames (js ++ js') (t ++ [.bus iface (.received answer)]) := by
  obtain ⟨events, rfl, hq, hrep, -⟩ := h
  refine ⟨events ++ [.received answer], by simp, ?_, ?_, hl⟩
  · intro e he
    rcases List.mem_append.mp he with he | he
    · exact hq e he
    · exact ⟨answer, List.mem_singleton.mp he⟩
  · rw [Isotp.receivedFrames_append]
    refine List.rel_append hrep ?_
    cases answer <;> exact hr

theorem captureLoop_eq_done {maxFrames deadline : ℕ} {js : List FrameJson}
    (h : captureLoop sock maxFrames deadline w = ⟨.done js, w', t⟩) :
    Capturing sock.iface maxFrames js t ∧
      (js.length < maxFrames → deadline ≤ w'.bus.clock) := by
  refine loop_eq_done (J := fun js _ t => Capturing sock.iface maxFrames js t)
    (Q := fun js w t => Capturing sock.iface maxFrames js t ∧
      (js.length < maxFrames → deadline ≤ w.bus.clock)) ?_ ⟨[], rfl, nofun, .nil, Nat.zero_le _⟩ h
  intro out w t r w' u hj hs
  obtain ⟨time, w₁, v, v', hnow, hbody, rfl⟩ := bind_eq_done hs
  cases hnow
  clear hs
  split at hbody
  case isFalse hc =>
    cases hbody
    rw [List.append_nil, List.append_nil]
    exact ⟨hj, fun hlt => Nat.not_lt.mp fun hd => hc ⟨hlt, hd⟩⟩
  case isTrue hc =>
    obtain ⟨answer, w₂, v, v', hrecv, hs, rfl⟩ := bind_eq_done hbody
    obtain ⟨u, hu, rfl⟩ := onSocket_eq_done hrecv
    obtain rfl := recv_eq_done hu
    cases answer with
    | none =>
      cases hs
      have hnone : Reported (none : Option Frame).toList [] := .nil
      simpa using hj.concat hnone (by simpa using Nat.le_of_lt hc.1)
    | some frame =>
      obtain ⟨j, w₃, v, v', hframe, hret, rfl⟩ := bind_eq_done hs
      obtain ⟨hj', rfl, rfl⟩ := ofChecked_eq_done hframe
      cases hret
      have hsome : Reported (some frame).toList [j] := .cons hj' .nil
      simpa using hj.concat hsome (by simpa using Nat.succ_le_of_lt hc.1)

/-- A capture from a given time on. -/
theorem captured_of_loop {args : ℕ} {timeoutMs : UInt64} {start deadline : ℕ}
    {js : List FrameJson}
    (h : captureLoop sock (min args captureCap) deadline w = ⟨.done js, w', t⟩)
    (hd : Isotp.addDuration start (milliseconds timeoutMs) = .ok deadline) :
    ∃ events, t = events.map (.bus sock.iface) ∧
      Captured args timeoutMs start w'.bus.clock events js := by
  obtain ⟨⟨events, ht, hq, hrep, hl⟩, hcomplete⟩ := captureLoop_eq_done h
  refine ⟨events, ht, hq, hrep, hl, fun hlt => ?_⟩
  unfold Isotp.addDuration at hd
  split at hd <;> cases hd
  exact hcomplete hlt

/-! ### Tools -/

theorem ifaceSummary_eq_done {iface : Iface.Interface} {summary : IfaceSummary}
    (h : ifaceSummary iface w = ⟨.done summary, w', t⟩) :
    Summarises w iface summary ∧ w' = w ∧ t = [.queried iface.name] := by
  unfold ifaceSummary at h
  dsimp only at h
  split at h
  · cases h
  case h_2 state hs =>
    cases h
    exact ⟨⟨state, hs, rfl⟩, rfl, rfl⟩

theorem ifaceSummaries_eq_done {ifaces : List Iface.Interface} {summaries : List IfaceSummary}
    (h : ifaceSummaries ifaces w = ⟨.done summaries, w', t⟩) :
    List.Forall₂ (Summarises w) ifaces summaries ∧ w' = w ∧
      t = ifaces.map fun iface => .queried iface.name := by
  induction ifaces generalizing summaries t with
  | nil =>
    cases h
    exact ⟨.nil, rfl, rfl⟩
  | cons iface ifaces ih =>
    obtain ⟨summary, w₁, u, v, hone, hrest, rfl⟩ := bind_eq_done h
    obtain ⟨hs, rfl, rfl⟩ := ifaceSummary_eq_done hone
    obtain ⟨rest, w₂, u, v, hall, hret, rfl⟩ := bind_eq_done hrest
    cases hret
    obtain ⟨hr, rfl, rfl⟩ := ih hall
    exact ⟨.cons hs hr, rfl, by simp⟩

theorem reports_listInterfaces {result : ToolResult}
    (h : listInterfaces config w = ⟨.done result, w', t⟩) :
    Reports config w w' .listInterfaces result t := by
  obtain ⟨ifaces, w₁, u, v, hlist, hrest, rfl⟩ := bind_eq_done h
  obtain ⟨hd, rfl, rfl⟩ := gets_eq_done (orInternal_eq_done hlist)
  obtain ⟨summaries, w₂, u', v', hall, hret, rfl⟩ := bind_eq_done hrest
  cases hret
  obtain ⟨hs, rfl, rfl⟩ := ifaceSummaries_eq_done hall
  rw [List.nil_append, List.append_nil]
  exact .interfaces hd hs

theorem reports_ifaceState {result : ToolResult}
    (h : ifaceState iface w = ⟨.done result, w', t⟩) :
    Reports config w w' (.ifaceState iface) result t := by
  obtain ⟨summary, w₁, u, v, hone, hret, rfl⟩ := bind_eq_done h
  cases hret
  obtain ⟨hs, rfl, rfl⟩ := ifaceSummary_eq_done hone
  exact .summary hs

section Checks

variable {α β : Type} {a : α} {b : β} {f : α → ServerM β}

theorem check_bind {c : Except McpError α} (h : (ofExcept c >>= f) w = ⟨.done b, w', t⟩) :
    ∃ a, c = .ok a ∧ f a w = ⟨.done b, w', t⟩ :=
  bind_quiet (fun _ _ _ => ofExcept_eq_done) h

theorem accept_bind {c : Checked (Except McpError α)}
    (h : (accept c >>= f) w = ⟨.done b, w', t⟩) :
    ∃ a, c = .ok (.ok a) ∧ f a w = ⟨.done b, w', t⟩ :=
  bind_quiet (fun _ _ _ => accept_eq_done) h

theorem ofChecked_bind {c : Checked α} (h : ((ofChecked c : ServerM α) >>= f) w =
    ⟨.done b, w', t⟩) : ∃ a, c = .ok a ∧ f a w = ⟨.done b, w', t⟩ :=
  bind_quiet (fun _ _ _ => ofChecked_eq_done) h

theorem now_bind {f : ℕ → ServerM β} (h : (now >>= f) w = ⟨.done b, w', t⟩) :
    f w.bus.clock w = ⟨.done b, w', t⟩ := by
  obtain ⟨a, rfl, hf⟩ := bind_quiet (fun _ _ _ => gets_eq_done) h
  exact hf

end Checks

theorem reports_sendFrame {args : SendFrameArgs} {result : ToolResult}
    (h : sendFrame config args w = ⟨.done result, w', t⟩) :
    Reports config w w' (.sendFrame args) result t := by
  obtain ⟨-, -, h₁⟩ := check_bind h
  obtain ⟨-, -, h₂⟩ := check_bind h₁
  obtain ⟨frame, hframe, h₃⟩ := accept_bind h₂
  obtain ⟨sock, _, _, _, hopen, h₄, rfl⟩ := bind_eq_done h₃
  obtain ⟨rfl, -, rfl⟩ := openSocket_eq_done hopen
  obtain ⟨_, _, _, _, hsend, h₅, rfl⟩ := bind_eq_done h₄
  obtain ⟨u, hu, rfl⟩ := onSocket_eq_done hsend
  obtain rfl := send_eq_done hu
  obtain ⟨j, hj, h₆⟩ := ofChecked_bind h₅
  cases h₆
  exact .sent hframe hj

theorem reports_capture {args : CaptureArgs} {result : ToolResult}
    (h : capture config args w = ⟨.done result, w', t⟩) :
    Reports config w w' (.capture args) result t := by
  obtain ⟨-, -, h₁⟩ := check_bind h
  obtain ⟨js, _, _, _, hrun, hret, rfl⟩ := bind_eq_done h₁
  cases hret
  obtain ⟨filter, hfilter, h₂⟩ := check_bind (spawnBlocking_eq_done hrun)
  obtain ⟨sock, w₁, _, _, hopen, h₃, rfl⟩ := bind_eq_done h₂
  obtain ⟨rfl, hbus, rfl⟩ := openSocket_eq_done hopen
  obtain ⟨deadline, hd, h₄⟩ := ofChecked_bind (now_bind h₃)
  obtain ⟨events, rfl, hcap⟩ := captured_of_loop h₄ hd
  rw [hbus] at hcap
  simpa using @Reports.frames config w w' args filter _ _ hfilter hcap

theorem reports_isotpRequest {args : IsoTpRequestArgs} {result : ToolResult}
    (h : isotpRequest config args w = ⟨.done result, w', t⟩) :
    Reports config w w' (.isotpRequest args) result t := by
  obtain ⟨-, -, h₁⟩ := check_bind h
  obtain ⟨-, -, h₂⟩ := check_bind h₁
  obtain ⟨txId, htx, h₃⟩ := check_bind h₂
  obtain ⟨rxId, hrx, h₄⟩ := check_bind h₃
  obtain ⟨payload, hpayload, h₅⟩ := accept_bind h₄
  obtain ⟨padding, hpadding, h₆⟩ := check_bind h₅
  obtain ⟨response, w₁, _, _, hrun, h₇, rfl⟩ := bind_eq_done (now_bind h₆)
  obtain ⟨sock, w₂, _, _, hopen, hrequest, rfl⟩ := bind_eq_done (spawnBlocking_eq_done hrun)
  obtain ⟨rfl, hbus, rfl⟩ := openSocket_eq_done hopen
  obtain ⟨u, hu, rfl⟩ := onSocket_eq_done hrequest
  have h₈ := now_bind h₇
  cases h₈
  rw [hbus] at hu
  simpa using @Reports.response config w w' args _ _ _ _ _ _ _ htx hrx hpayload hpadding hu
    (parseHexBytes_hexText response)

theorem reports_sendAndCapture {args : SendAndCaptureArgs} {result : ToolResult}
    (h : sendAndCapture config args w = ⟨.done result, w', t⟩) :
    Reports config w w' (.sendAndCapture args) result t := by
  obtain ⟨-, -, h₁⟩ := check_bind h
  obtain ⟨-, -, h₂⟩ := check_bind h₁
  obtain ⟨-, -, h₃⟩ := check_bind h₂
  obtain ⟨frame, hframe, h₄⟩ := accept_bind h₃
  obtain ⟨⟨sent, captured⟩, _, _, _, hrun, h₅, rfl⟩ := bind_eq_done h₄
  obtain ⟨filter, hfilter, h₆⟩ := check_bind (spawnBlocking_eq_done hrun)
  obtain ⟨rx, _, _, _, hopen, h₇, rfl⟩ := bind_eq_done h₆
  obtain ⟨rfl, -, rfl⟩ := openSocket_eq_done hopen
  obtain ⟨tx, _, _, _, htx, h₈, rfl⟩ := bind_eq_done h₇
  obtain ⟨rfl, -, rfl⟩ := openTx_eq_done htx
  obtain ⟨_, _, _, _, hsend, h₉, rfl⟩ := bind_eq_done h₈
  obtain ⟨u, hu, rfl⟩ := onSocket_eq_done hsend
  obtain rfl := send_eq_done hu
  obtain ⟨deadline, hd, h₁₀⟩ := ofChecked_bind (now_bind h₉)
  obtain ⟨js, _, _, _, hloop, h₁₁, rfl⟩ := bind_eq_done h₁₀
  obtain ⟨events, rfl, hcap⟩ := captured_of_loop hloop hd
  obtain ⟨j, hj, hret⟩ := ofChecked_bind h₁₁
  cases hret
  cases h₅
  simpa using @Reports.replies config w w' args _ _ _ _ _ _ hfilter hframe hj hcap

/-- The answer of a call that succeeds determines what was done on its sockets: every transmission
and every frame that was received is reported, in order and as it was. -/
theorem callTool_reports (config : Config) (call : ToolCall) (w w' : World) (result : ToolResult)
    (t : List Event) (h : callTool config call w = ⟨.done result, w', t⟩) :
    Reports config w w' call result t := by
  cases call with
  | listInterfaces => exact reports_listInterfaces h
  | ifaceState iface => exact reports_ifaceState h
  | sendFrame args => exact reports_sendFrame h
  | capture args => exact reports_capture h
  | isotpRequest args => exact reports_isotpRequest h
  | sendAndCapture args => exact reports_sendAndCapture h

/-- A frame arrives 5 ns after the first transmission. -/
def replyWorld : World :=
  { bus := ⟨0, [⟨5, .ok (some (.ofPayload .Classic (.standard 0x321) [1, 2]))⟩], [], []⟩,
    opens := [], clones := [], dir := .ok [],
    links := fun _ => ⟨.error (.os 2), .error 2,
      ⟨.error 1, .error 1, fun _ => .error 1, .error 1⟩, none⟩,
    endian := .little, strerror := fun _ => "", joinError := fun _ => "" }

theorem callTool_reports_reply :
    let args : SendAndCaptureArgs :=
      { iface := "vcan0", frame := { id := "123", data := "0A" }, maxFrames := 1 }
    let sent : FrameJson := ⟨"123", false, false, false, false, 1, "0A", none⟩
    let reply : FrameJson := ⟨"321", false, false, false, false, 2, "0102", none⟩
    ∃ w' t, Reports ⟨["vcan0"], false⟩ replyWorld w' (.sendAndCapture args)
      (.replies sent [reply] 1) t :=
  ⟨_, _, callTool_reports ⟨["vcan0"], false⟩ (.sendAndCapture _) replyWorld _ _ _ rfl⟩

/-! ### Calls that fail -/

/-- The event transmits nothing. -/
def Quiet (e : Event) : Prop := ∀ iface time frame, e ≠ .bus iface (.sent time frame)

/-- The process returns a value, or it has transmitted nothing. -/
def Reliable {α : Type} (m : ServerM α) : Prop :=
  Traces m fun o t => (∃ a, o = .done a) ∨ ∀ e ∈ t, Quiet e

section Reliable

variable {α β : Type} {m : ServerM α} {f : α → ServerM β}

/-- What transmits nothing comes before the rest. -/
theorem reliable_bind (hm : Traces m fun _ t => ∀ e ∈ t, Quiet e) (hf : ∀ a, Reliable (f a)) :
    Reliable (m >>= f) := by
  intro w
  have hq := hm w
  obtain ⟨a, w₁, t, he, hb⟩ | ⟨h, w₁, t, he, hb⟩ := bind_cases m f w <;> rw [he] at hq <;> rw [hb]
  · rcases hf a w₁ with hdone | hu
    · exact .inl hdone
    · exact .inr fun e hmem => (List.mem_append.mp hmem).elim (hq e) (hu e)
  · exact .inr hq

theorem reliable_halt (h : Halt McpError) :
    Reliable ((halt h [] : ServerM α) >>= f) := by
  intro w
  have hs : (halt h [] : ServerM α) w = ⟨.halted h, w, []⟩ := rfl
  rw [bind_halted hs]
  exact .inr fun _ he => absurd he List.not_mem_nil

theorem reliable_check {c : Except McpError α} (hf : ∀ a, c = .ok a → Reliable (f a)) :
    Reliable (ofExcept c >>= f) := by
  cases c with
  | ok a => exact hf a rfl
  | error err => exact reliable_halt _

theorem reliable_accept {c : Checked (Except McpError α)}
    (hf : ∀ a, c = .ok (.ok a) → Reliable (f a)) : Reliable (accept c >>= f) := by
  rcases c with p | (err | a)
  · exact reliable_halt (.panicked p)
  · exact reliable_halt (.failed err)
  · exact hf a rfl

/-- An operation that transmits at most when it succeeds. -/
theorem reliable_orInternal {m : ServerM (Except IoError α)}
    (hm : Traces m fun o t => (∃ a, o = .done (.ok a)) ∨ ∀ e ∈ t, Quiet e) :
    Reliable (orInternal context m) := by
  intro w
  have hr := hm w
  unfold orInternal
  obtain ⟨r, w₁, t, he, hb⟩ | ⟨h, w₁, t, he, hb⟩ := bind_cases m _ w <;> rw [he] at hr <;> rw [hb]
  · cases r with
    | ok a => exact .inl ⟨a, rfl⟩
    | error err =>
      refine .inr fun e hmem => hr.resolve_left nofun e ?_
      change e ∈ t ++ [] at hmem
      rwa [List.append_nil] at hmem
  · exact .inr (hr.resolve_left nofun)

theorem quiet_open : Traces (orInternal context (openSocket iface opts)) fun _ t =>
    ∀ e ∈ t, Quiet e := by
  refine fun w => (acts_orInternal (P := Quiet) (acts_openSocket fun _ => ?_) w).1
  rintro _ _ _ ⟨⟩

theorem reliable_send {frame : Frame} :
    Reliable (orInternal context (onSocket sock (Isotp.send frame))) := by
  refine reliable_orInternal fun w => ?_
  unfold onSocket onPart Isotp.send
  rcases w.bus.sends with _ | ⟨⟨d, _ | err⟩, sends⟩
  · exact .inl ⟨(), rfl⟩
  · exact .inl ⟨(), rfl⟩
  · refine .inr fun e he => ?_
    obtain rfl := List.mem_singleton.mp he
    rintro _ _ _ ⟨⟩

end Reliable

/-- A frame that is built has a length for its kind. -/
theorem fits_of_buildFrame {args : SendFrameInline} {frame : Frame}
    (h : buildFrame args = .ok (.ok frame)) : frame.Fits := by
  have hid := buildFrame_id h
  rcases hd : parseHexBytes args.data with p | (err | data)
  · simp [buildFrame, hid, hd] at h
    cases h
  · simp [buildFrame, hid, hd] at h
  · rw [buildFrame_new hid hd] at h
    by_cases hl : data.length ≤ args.kind.maxLen
    · rw [Frame.new_eq hl args.kind.maxLen_le] at h
      generalize frame.id = id at h
      cases h
      have hlen : (Frame.ofPayload args.kind id data).len.toNat = data.length :=
        Frame.len_ofPayload (Nat.le_trans hl args.kind.maxLen_le)
      exact Nat.le_trans (Nat.le_of_eq hlen) hl
    · have hn : Frame.new args.kind args.kind.maxLen frame.id data =
          .ok (.error (.DataTooLong data.length args.kind.maxLen)) := by
        simp [Frame.new, Nat.not_le.mp hl]
      rw [hn] at h
      cases h

theorem reliable_sendFrame (config : Config) (args : SendFrameArgs) :
    Reliable (sendFrame config args) := by
  refine reliable_check fun _ _ => reliable_check fun _ _ => reliable_accept fun frame hframe => ?_
  refine reliable_bind quiet_open fun sock w => ?_
  obtain ⟨j, hj, -⟩ := fromFrame_inline (fits_of_buildFrame hframe)
  have hsend : (∃ a, _) ∨ _ :=
    (reliable_send : Reliable (orInternal "send" (onSocket sock (Isotp.send frame)))) w
  obtain ⟨_, w₁, t, he, hb⟩ | ⟨h, w₁, t, he, hb⟩ := bind_cases
    (orInternal "send" (onSocket sock (Isotp.send frame)))
    (fun _ => do return ToolResult.sent (← FrameJson.fromFrame frame)) w <;>
    rw [he] at hsend <;> rw [hb]
  · refine .inl ⟨.sent j, ?_⟩
    rw [hj]
    rfl
  · exact .inr (hsend.resolve_left nofun)

/-- A call of `send_frame` transmits its frame if it succeeds, and nothing if it does not. -/
theorem sendFrame_transmits_iff (config : Config) (args : SendFrameArgs) (w : World) :
    (∃ result, (sendFrame config args w).outcome = .done result) ↔
      ∃ iface time frame, .bus iface (.sent time frame) ∈ (sendFrame config args w).trace := by
  rcases hr : sendFrame config args w with ⟨o, w', t⟩
  constructor
  · rintro ⟨result, ho⟩
    obtain rfl : o = .done result := ho
    have hreport := reports_sendFrame hr
    generalize htool : ToolCall.sendFrame args = call at hreport
    cases hreport <;> cases htool
    exact ⟨_, _, _, List.mem_cons_of_mem _ List.mem_cons_self⟩
  · rintro ⟨iface, time, frame, hmem⟩
    have hrel := reliable_sendFrame config args w
    rw [hr] at hrel
    exact hrel.resolve_right fun hq => hq _ hmem iface time frame rfl

end Mcanbus.Server
