import Mcanbus.Isotp.Transmit
import Mcanbus.Server.Report
import Mcanbus.Socket.Transfer
import Mcanbus.Sys.Delivery

/-! # Servers on one bus

Whatever the tools transmit are legal frames, which every receiver decodes as they
were sent. A capture reports the frames that servers and other nodes have put on
the bus, in order, and as those that sent them report them.
-/

namespace Mcanbus.Server

open Rust Effect Effect.Process Transfer

/-- A tool call of some server transmits the frame on the interface. -/
def Transmitted (iface : String) (frame : Frame) : Prop :=
  ∃ config call w time, .bus iface (.sent time frame) ∈ (callTool config call w).trace

/-- The frames on the bus that the kernel queues for a socket with the options. -/
def queued (opts : OpenOpts) (sock : Sys.Socket) (ifindex : ℕ) (bus : List Frame) : List Frame :=
  bus.filter fun frame => Sys.Wanted opts sock ifindex ⟨ifindex, frame.id.toWire, frame.isFd⟩

/-- The options of the socket of a capture. -/
def captureOpts (filter : Option (List CanFilter)) : OpenOpts :=
  { recvTimeout := some (milliseconds 100), filter }

/-- The answers to calls that receive while the frames are queued: timeouts, and each of the frames
in order, read from the bytes that were sent for it. -/
inductive Hears (k : Kernel) (e : Endian) : List Frame → List Isotp.RecvAnswer → Prop
  | pending {frames : List Frame} : Hears k e frames []
  | silence {frames : List Frame} {delay : ℕ} {answers : List Isotp.RecvAnswer} :
      Hears k e frames answers → Hears k e frames (⟨delay, .ok none⟩ :: answers)
  | frame {frame : Frame} {frames : List Frame} {m : Message} {now : Option UInt64}
      {outcome : Except IoError (Option Frame)} {delay : ℕ} {answers : List Isotp.RecvAnswer} :
      m.bytes = frame.datagram e → Mcanbus.recv k e now (.ok m) = .ok outcome →
      Hears k e frames answers → Hears k e (frame :: frames) (⟨delay, outcome⟩ :: answers)

/-- The report is that of the frame as it was sent, with a timestamp of its own, and agrees with
the answer of a call that has sent the frame. -/
structure Relayed (frame : Frame) (j : FrameJson) : Prop where
  report : FrameJson.fromFrame { frame with timestampNs := j.timestampNs } = .ok j
  answer : ∀ config args w iface time j',
    (sendFrame config args w).outcome = .done (.sent j') →
    .bus iface (.sent time frame) ∈ (sendFrame config args w).trace →
    j = { j' with timestampNs := j.timestampNs }

variable {config : Config} {w w' : World} {t : List Event} {iface context : String}
  {opts : OpenOpts} {sock : Socket} {frame : Frame} {frames : List Frame} {k : Kernel} {e : Endian}

/-! ### What is transmitted is legal -/

/-- A frame that the event transmits is legal. -/
def Event.Legal (event : Event) : Prop :=
  ∀ iface time frame, event = .bus iface (.sent time frame) → Sendable frame

section Legal

variable {α : Type}

theorem constructed_of_parseHexId {s : String} {extended : Bool} {id : CanId}
    (h : parseHexId s extended = .ok id) : (∃ n, id = .standard n) ∨ ∃ n, id = .extended n := by
  unfold parseHexId at h
  cases hp : parseU32 (stripHexPrefix s) with
  | error err =>
    simp only [hp] at h
    cases h
  | ok raw =>
    simp only [hp] at h
    cases h
    cases extended with
    | false => exact .inl ⟨_, rfl⟩
    | true => exact .inr ⟨_, rfl⟩

theorem sendable_buildFrame {args : SendFrameInline} (h : buildFrame args = .ok (.ok frame)) :
    Sendable frame :=
  ⟨fits_of_buildFrame h, constructed_of_parseHexId (buildFrame_id h)⟩

theorem sendable_classicFrame {id : CanId} {data : List UInt8}
    (hid : (∃ n, id = .standard n) ∨ ∃ n, id = .extended n) (hd : data.length = Isotp.frameDlc) :
    Sendable (Isotp.classicFrame id data) := by
  refine ⟨?_, hid⟩
  unfold Frame.Fits
  rw [Frame.len_ofPayload (by rw [hd]; decide), hd]
  exact (by decide : Isotp.frameDlc ≤ FrameKind.Classic.maxLen)

/-- Every frame of a request is legal. -/
theorem sendable_request {txId rxId : CanId} {payload : List UInt8} {opts : Isotp.Options}
    {env : Isotp.Env} {time : ℕ} (hid : (∃ n, txId = .standard n) ∨ ∃ n, txId = .extended n)
    (h : .sent time frame ∈ (Isotp.request txId rxId payload opts env).trace) :
    Sendable frame := by
  have hmem := (Isotp.sentFrames_request txId rxId payload opts env).subset
    (Isotp.mem_sentFrames.mpr ⟨time, h⟩)
  rcases List.mem_append.mp hmem with hmem | hmem
  · obtain ⟨data, hd, rfl⟩ := List.mem_map.mp hmem
    exact sendable_classicFrame hid (Isotp.length_of_mem_segments hd)
  · obtain rfl := List.mem_singleton.mp hmem
    exact sendable_classicFrame hid Isotp.length_clearToSend

/-- An operation on a socket is legal when what it sends is. -/
theorem legal_onSocket {m : Isotp.IsotpM α}
    (hm : ∀ env time frame, .sent time frame ∈ (m env).trace → Sendable frame) :
    Acts Event.Legal (orInternal context (onSocket sock m)) := by
  refine acts_orInternal ?_
  have hw : Within (fun event => ∀ time frame, event = .sent time frame → Sendable frame)
      (fun _ => True) m := by
    refine fun env => ⟨?_, fun _ _ => trivial⟩
    rintro event he time frame rfl
    exact hm env time frame he
  refine hw.onPart ?_
  rintro event he iface time frame ⟨⟩
  exact he time frame rfl

theorem legal_send (h : Sendable frame) :
    Acts Event.Legal (orInternal context (onSocket sock (Isotp.send frame))) := by
  refine legal_onSocket fun env time frame' he => ?_
  unfold Isotp.send at he
  rcases hs : env.sends with _ | ⟨⟨d, _ | err⟩, sends⟩ <;> rw [hs] at he
  · cases List.mem_singleton.mp he
    exact h
  · cases List.mem_singleton.mp he
    exact h
  · cases List.mem_singleton.mp he

theorem legal_recv : Acts Event.Legal (orInternal context (onSocket sock Isotp.recv)) := by
  refine legal_onSocket fun env time frame he => ?_
  exact absurd ⟨time, frame, rfl⟩ ((within_recv env).1 _ he)

theorem legal_open : Acts Event.Legal (orInternal context (openSocket iface opts)) := by
  refine acts_orInternal (acts_openSocket fun error => ?_)
  rintro _ _ _ ⟨⟩

theorem legal_openTx {rx : Socket} : Acts Event.Legal (openTx rx iface) := by
  unfold openTx
  split
  · refine acts_orInternal (acts_tryClone fun error => ?_)
    rintro _ _ _ ⟨⟩
  · exact legal_open

theorem legal_captureLoop {maxFrames deadline : ℕ} :
    Acts Event.Legal (captureLoop sock maxFrames deadline) := by
  refine Within.loop (fun out => ?_) []
  refine (Within.gets _).bind fun time => ?_
  split
  · refine legal_recv.bind ?_
    rintro (_ | frame)
    · exact Within.pure _
    · exact (Within.ofChecked _).bind fun j => Within.pure _
  · exact Within.pure _

theorem legal_queried {event : Event} (h : event = .queried iface) : event.Legal := by
  rintro _ _ _ rfl
  cases h

theorem legal_ifaceSummary (iface : Iface.Interface) : Acts Event.Legal (ifaceSummary iface) := by
  intro w
  unfold ifaceSummary
  dsimp only
  split <;>
  · refine ⟨fun event he => legal_queried (List.mem_singleton.mp he), ?_⟩
    rintro _ ⟨⟩

theorem legal_ifaceSummaries (ifaces : List Iface.Interface) :
    Acts Event.Legal (ifaceSummaries ifaces) := by
  induction ifaces with
  | nil => exact Within.pure _
  | cons iface ifaces ih =>
    exact (legal_ifaceSummary iface).bind fun _ => ih.bind fun _ => Within.pure _

/-- What follows an open is legal when it is on every socket. -/
theorem legal_withSocket {f : Socket → ServerM α} (hf : ∀ sock, Acts Event.Legal (f sock)) :
    Acts Event.Legal (orInternal context (openSocket iface opts) >>= f) :=
  legal_open.bind hf

theorem legal_sendFrame (args : SendFrameArgs) :
    FailsFirst Event.Legal Refuses (sendFrame config args) := by
  refine FailsFirst.check fun _ _ => FailsFirst.check fun _ _ => ?_
  refine failsFirst_accept fun frame hframe => FailsFirst.of_within ?_
  refine legal_withSocket fun sock => (legal_send (sendable_buildFrame hframe)).bind fun _ => ?_
  exact (Within.ofChecked _).bind fun _ => Within.pure _

theorem legal_capture (args : CaptureArgs) :
    FailsFirst Event.Legal Refuses (capture config args) := by
  refine FailsFirst.check fun _ _ => FailsFirst.bind (failsFirst_spawnBlocking ?_) fun _ =>
    Within.pure _
  refine FailsFirst.check fun filter _ => FailsFirst.of_within (legal_withSocket fun sock => ?_)
  exact (Within.gets _).bind fun start => (Within.ofChecked _).bind fun deadline =>
    legal_captureLoop

theorem legal_isotpRequest (args : IsoTpRequestArgs) :
    FailsFirst Event.Legal Refuses (isotpRequest config args) := by
  refine FailsFirst.check fun _ _ => FailsFirst.check fun _ _ => ?_
  refine FailsFirst.check fun txId htx => FailsFirst.check fun rxId _ => ?_
  refine failsFirst_accept fun payload _ => FailsFirst.check fun padding _ => ?_
  refine FailsFirst.gets fun started => FailsFirst.bind (failsFirst_spawnBlocking ?_) fun _ =>
    (Within.gets _).bind fun _ => Within.pure _
  refine FailsFirst.of_within (legal_withSocket fun sock => legal_onSocket ?_)
  exact fun env time frame he => sendable_request (constructed_of_parseHexId htx) he

theorem legal_sendAndCapture (args : SendAndCaptureArgs) :
    FailsFirst Event.Legal Refuses (sendAndCapture config args) := by
  refine FailsFirst.check fun _ _ => FailsFirst.check fun _ _ => FailsFirst.check fun _ _ => ?_
  refine failsFirst_accept fun frame hframe => FailsFirst.bind (failsFirst_spawnBlocking ?_) ?_
  · refine FailsFirst.check fun filter _ => FailsFirst.of_within (legal_withSocket fun rx => ?_)
    refine legal_openTx.bind fun tx => (legal_send (sendable_buildFrame hframe)).bind fun _ => ?_
    refine (Within.gets _).bind fun start => (Within.ofChecked _).bind fun deadline => ?_
    exact legal_captureLoop.bind fun out => (Within.ofChecked _).bind fun _ => Within.pure _
  · rintro ⟨sent, captured⟩
    exact Within.pure _

/-- A tool call transmits legal frames only. -/
theorem legal_callTool (call : ToolCall) :
    FailsFirst Event.Legal Refuses (callTool config call) := by
  cases call with
  | listInterfaces =>
    refine FailsFirst.of_within ((acts_orInternal (Within.gets _)).bind fun ifaces => ?_)
    exact (legal_ifaceSummaries ifaces).bind fun _ => Within.pure _
  | ifaceState iface =>
    exact FailsFirst.of_within ((legal_ifaceSummary _).bind fun _ => Within.pure _)
  | sendFrame args => exact legal_sendFrame args
  | capture args => exact legal_capture args
  | isotpRequest args => exact legal_isotpRequest args
  | sendAndCapture args => exact legal_sendAndCapture args

theorem Transmitted.sendable (h : Transmitted iface frame) : Sendable frame := by
  obtain ⟨config, call, w, time, he⟩ := h
  exact (legal_callTool call w).1 _ he iface time frame rfl

end Legal

/-! ### Reports of received frames -/

/-- The timestamp of a frame is that of its report, and matters for nothing else. -/
theorem fromFrame_timestamp (frame : Frame) (stamp : Option UInt64) :
    FrameJson.fromFrame { frame with timestampNs := stamp } =
      (FrameJson.fromFrame frame).map fun j => { j with timestampNs := stamp } := by
  have hdata : ({ frame with timestampNs := stamp } : Frame).data = frame.data := rfl
  unfold FrameJson.fromFrame
  rw [hdata]
  cases frame.data <;> rfl

theorem timestampNs_fromFrame {j : FrameJson} (h : FrameJson.fromFrame frame = .ok j) :
    j.timestampNs = frame.timestampNs := by
  have hj := fromFrame_timestamp frame frame.timestampNs
  rw [h] at hj
  exact congrArg FrameJson.timestampNs (Except.ok.inj hj)

/-- A receiver reports a legal frame as it was sent. -/
theorem fromFrame_received (h : Sendable frame) (stamp : Option UInt64) :
    FrameJson.fromFrame (frame.received stamp) =
      FrameJson.fromFrame { frame with timestampNs := stamp } := by
  have hdata : (frame.received stamp).data =
      ({ frame with timestampNs := stamp } : Frame).data := received_data h.fits stamp
  obtain ⟨hid, hkind, -⟩ := h.same_received stamp
  unfold FrameJson.fromFrame
  rw [hdata, hid, hkind]
  rfl

theorem relayed_received {stamp : Option UInt64} {j : FrameJson} (h : Sendable frame)
    (hj : FrameJson.fromFrame (frame.received stamp) = .ok j) : Relayed frame j := by
  have hstamp : j.timestampNs = stamp := timestampNs_fromFrame hj
  rw [fromFrame_received h, ← hstamp] at hj
  refine ⟨hj, fun config args w iface time j' ho he => ?_⟩
  rcases hr : sendFrame config args w with ⟨o, w', t⟩
  rw [hr] at ho he
  obtain rfl : o = .done (.sent j') := ho
  have hreport := reports_sendFrame hr
  generalize htool : ToolCall.sendFrame args = call at hreport
  cases hreport
  cases htool
  case sent frame' hframe _ =>
    rcases List.mem_cons.mp he with he | he
    · cases he
    · obtain he := List.mem_singleton.mp he
      cases he
      rw [fromFrame_timestamp, hframe] at hj
      exact (Except.ok.inj hj).symm

/-! ### Captures -/

/-- What a call that receives returns. -/
theorem Hears.recv {bus bus' : Isotp.Env} {answer : Option Frame} {u : List Isotp.Event}
    (hs : ∀ frame ∈ frames, Sendable frame) (h : Hears k e frames bus.recvs)
    (hr : Isotp.recv bus = ⟨.done answer, bus', u⟩) :
    (answer = none ∧ Hears k e frames bus'.recvs) ∨
      ∃ frame rest stamp, frames = frame :: rest ∧ answer = some (frame.received stamp) ∧
        Hears k e rest bus'.recvs := by
  unfold Isotp.recv at hr
  rcases bus with ⟨clock, recvs, sends, oversleeps⟩
  cases h with
  | pending => cases hr
  | silence h =>
    cases hr
    exact .inl ⟨rfl, h⟩
  | @frame frame rest m now outcome delay answers hm hrecv h =>
    have hf := hs frame List.mem_cons_self
    obtain ⟨stamp, hat⟩ := frameAt_datagram (k := k) hf.fits hm 256 now
    rw [recv_eq (by rw [hm]; exact length_datagram_le frame), hat] at hrecv
    cases hrecv
    cases hr
    exact .inr ⟨frame, rest, stamp, rfl, rfl, h⟩

/-- A capture reports the first of the frames. -/
theorem captureLoop_relays {maxFrames deadline : ℕ} {js : List FrameJson}
    (hs : ∀ frame ∈ frames, Sendable frame) (hh : Hears k e frames w.bus.recvs)
    (h : captureLoop sock maxFrames deadline w = ⟨.done js, w', t⟩) :
    List.Forall₂ Relayed (frames.take js.length) js := by
  have hsplit : ∃ done rest, frames = done ++ rest ∧ List.Forall₂ Relayed done js := by
    refine loop_eq_done (J := fun js w _ => ∃ done rest, frames = done ++ rest ∧
      List.Forall₂ Relayed done js ∧ Hears k e rest w.bus.recvs)
      (Q := fun js _ _ => ∃ done rest, frames = done ++ rest ∧ List.Forall₂ Relayed done js) ?_
      ⟨[], frames, rfl, .nil, hh⟩ h
    rintro out w t r w' u ⟨done, rest, rfl, hd, hrest⟩ hs'
    obtain ⟨time, w₁, v, v', hnow, hbody, rfl⟩ := bind_eq_done hs'
    cases hnow
    split at hbody
    case isFalse hc =>
      cases hbody
      exact ⟨done, rest, rfl, hd⟩
    case isTrue hc =>
      obtain ⟨answer, w₂, v, v', hrecv, hret, rfl⟩ := bind_eq_done hbody
      obtain ⟨u, hu, rfl⟩ := onSocket_eq_done hrecv
      have hsrest : ∀ frame ∈ rest, Sendable frame := fun frame hf =>
        hs frame (List.mem_append_right _ hf)
      obtain ⟨rfl, hrest'⟩ | ⟨frame, rest', stamp, rfl, rfl, hrest'⟩ := hrest.recv hsrest hu
      · cases hret
        exact ⟨done, rest, rfl, hd, hrest'⟩
      · obtain ⟨j, hj, hret⟩ := ofChecked_bind hret
        cases hret
        have hrelayed := relayed_received (hsrest frame List.mem_cons_self) hj
        refine ⟨done ++ [frame], rest', List.append_cons done frame rest', ?_, hrest'⟩
        exact List.rel_append hd (.cons hrelayed .nil)
  obtain ⟨done, rest, rfl, hd⟩ := hsplit
  rw [← hd.length_eq, List.take_left]
  exact hd

/-- A capture reports the frames on the bus that it asks for, in order and as their senders report
them, up to its limit or until its time is over. -/
theorem capture_relays (k : Kernel) (config : Config) (args : CaptureArgs) (w w' : World)
    (js : List FrameJson) (count : ℕ) (t : List Event) (bus : List Frame)
    (filter : Option (List CanFilter)) (rx : Sys.Socket) (ifindex : ℕ)
    (hbus : ∀ frame ∈ bus, Transmitted args.iface frame ∨ Sendable frame)
    (hf : filtersOf args.filter = .ok filter)
    (hh : Hears k w.endian (queued (captureOpts filter) rx ifindex bus) w.bus.recvs)
    (h : callTool config (.capture args) w = ⟨.done (.frames js count), w', t⟩) :
    .opened args.iface (captureOpts filter) none ∈ t ∧
    List.Forall₂ Relayed ((queued (captureOpts filter) rx ifindex bus).take js.length) js ∧
    (js.length < min args.maxFrames captureCap →
      w.bus.clock + milliseconds args.timeoutMs ≤ w'.bus.clock) := by
  have hs : ∀ frame ∈ queued (captureOpts filter) rx ifindex bus, Sendable frame :=
    fun frame hframe => (hbus frame (List.mem_filter.mp hframe).1).elim Transmitted.sendable id
  obtain ⟨-, -, h₁⟩ := check_bind h
  obtain ⟨js', _, _, _, hrun, hret, rfl⟩ := bind_eq_done h₁
  cases hret
  obtain ⟨filter', hfilter, h₂⟩ := check_bind (spawnBlocking_eq_done hrun)
  obtain rfl : filter' = filter := Except.ok.inj (hfilter.symm.trans hf)
  obtain ⟨sock, w₁, _, _, hopen, h₃, rfl⟩ := bind_eq_done h₂
  obtain ⟨rfl, hclock, rfl⟩ := openSocket_eq_done hopen
  obtain ⟨deadline, hd, h₄⟩ := ofChecked_bind (now_bind h₃)
  rw [← hclock] at hh ⊢
  obtain ⟨events, -, hcap⟩ := captured_of_loop h₄ hd
  refine ⟨?_, captureLoop_relays hs hh h₄, hcap.complete⟩
  exact List.mem_append_left _ (List.mem_append_left _ List.mem_cons_self)

/-- The frame that the call below transmits. -/
def relayedFrame : Frame := .ofPayload .Classic (.standard 0x123) [0x0A]

/-- The bus is silent at first, then the frame arrives. -/
def relayWorld : World :=
  { replyWorld with
    bus := ⟨0, [⟨5, .ok none⟩, ⟨1, .ok (some (relayedFrame.received (some 7)))⟩], [], []⟩ }

theorem capture_relays_filtered :
    List.Forall₂ Relayed [relayedFrame] [⟨"123", false, false, false, false, 1, "0A", some 7⟩] := by
  have hsent : Transmitted "vcan0" relayedFrame :=
    ⟨⟨["vcan0"], false⟩, .sendFrame { iface := "vcan0", id := "123", data := "0A" }, replyWorld, 0,
      List.mem_cons_of_mem _ List.mem_cons_self⟩
  refine (capture_relays .allOrNothing ⟨["vcan0"], false⟩
    { iface := "vcan0", maxFrames := 1, filter := some ⟨[{ id := "123", mask := "7FF" }]⟩ }
    relayWorld _ _ 1 _ [relayedFrame, .ofPayload .Classic (.standard 0x321) [1, 2]]
    (some [⟨0x123, 0x7FF⟩]) ⟨3, true⟩ 5 ?_ (by decide) ?_ rfl).2.1
  · intro frame hframe
    rcases List.mem_cons.mp hframe with rfl | hframe
    · exact .inl hsent
    · obtain rfl := List.mem_singleton.mp hframe
      exact .inr ⟨by decide, .inl ⟨0x321, rfl⟩⟩
  · exact .silence (@Hears.frame _ _ _ _ ⟨relayedFrame.datagram .little, []⟩ (some 7) _ _ _ rfl rfl
      .pending)

end Mcanbus.Server
