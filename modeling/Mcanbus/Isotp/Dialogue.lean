import Mcanbus.Isotp.Automaton
import Mcanbus.Isotp.BlockFlow
import Mcanbus.Isotp.Bounds
import Mcanbus.Transition.Network

/-! # A request and its response

An ECU that reassembles the request, clears its sender after some Wait frames
and answers with the segments of a response, joined to the automaton of the
request by queues in both directions. Whatever the order of the deliveries, the
two come to the same end: the ECU has the payload and the request the response.
-/

namespace Mcanbus.Isotp

open Rust Effect Effect.Process Transition

/-- An ECU, with the number of Wait frames and the parameters with which it clears a sender, and
its response to every request. -/
structure Ecu where
  rxId : CanId
  txId : CanId
  padding : UInt8
  waits : ℕ
  blockSize : UInt8
  stMin : UInt8
  serve : List UInt8 → List UInt8

/-- An ECU receives a request, waits for a Flow Control to go on with its response, or is done. -/
inductive EcuState where
  | listening (rx : Rx)
  | responding (request : List UInt8) (left : List (List UInt8))
  | finished (request : List UInt8)

namespace Ecu

variable (e : Ecu)

def waitFrame : Frame := classicFrame e.txId (padded e.padding [pciFc ||| fcWait, 0, 0])

def clearFrame : Frame :=
  classicFrame e.txId (padded e.padding [pciFc ||| fcCts, e.blockSize, e.stMin])

/-- The answer to a First Frame. -/
def clearance : List Frame := List.replicate e.waits e.waitFrame ++ [e.clearFrame]

/-- The frames of the response to a request. -/
def responses (request : List UInt8) : List (List UInt8) := segments (e.serve request) e.padding

/-- The response starts with its first frame. -/
def begin (request : List UInt8) : EcuState × List Frame :=
  (match (e.responses request).drop 1 with
    | [] => .finished request
    | left => .responding request left,
    ((e.responses request).take 1).map (classicFrame e.txId))

/-- What the ECU answers when a frame takes its receiver from one state to another. -/
def reply : Rx → Rx → List Frame
  | .idle, .collecting .. => e.clearance
  | _, _ => []

/-- What a frame of the request does. -/
def listen (rx : Rx) (data : List UInt8) : EcuState × List Frame :=
  match rx.feed data with
  | .accepted request => e.begin request
  | rx' => (.listening rx', e.reply rx rx')

/-- What a frame with the identifier of the ECU does. -/
def react : EcuState → Frame → EcuState × List Frame
  | .listening rx, frame => e.listen rx frame.payload
  | .responding request left, frame =>
    match clearedBlock frame with
    | some blockSize =>
      let n := if blockSize = 0 then left.length else blockSize.toNat
      (if left.length ≤ n then .finished request else .responding request (left.drop n),
        (left.take n).map (classicFrame e.txId))
    | none => (.responding request left, [])
  | .finished request, _ => (.finished request, [])

/-- The ECU over its queue of frames. -/
def machine : Machine EcuState Frame Frame := fun s frame =>
  if frame.id = e.rxId then e.react s frame else (s, [])

end Ecu

/-- The automaton of a request over its queue of frames. -/
def Call.machine (c : Call) : Machine Stage Frame Frame := fun p frame =>
  (c.step p frame, c.emits p frame)

variable {c : Call} {e : Ecu} {payload : List UInt8} {padding : UInt8} {slept i : ℕ} {rx : Rx}
  {datas : List (List UInt8)} {request : List UInt8}

/-! ### The tester -/

theorem Call.machine_apply (p : Stage) (frame : Frame) :
    c.machine p frame = (c.step p frame, c.emits p frame) := rfl

theorem Rx.settle_ne_idle {total : ℕ} {s : CollectState} : settle total s ≠ .idle := by
  unfold settle
  split <;> rintro ⟨⟩

theorem collected_ne_idle : collected payload i ≠ .idle := Rx.settle_ne_idle

/-- A receiver that has begun does not answer. -/
theorem Rx.repliesAll_begun (txId : CanId) (opts : Options) (h : rx ≠ .idle) :
    rx.repliesAll txId opts datas = [] := by
  induction datas generalizing rx with
  | nil => rfl
  | cons data datas ih =>
    have hf : rx.feed data ≠ .idle := by
      cases rx with
      | idle => exact absurd rfl h
      | collecting total s hs =>
        rw [feed]
        rcases consecutiveData total s data with p | (err | next)
        · rintro ⟨⟩
        · rintro ⟨⟩
        · exact settle_ne_idle
      | accepted | stopped => rintro ⟨⟩
    rw [repliesAll, ih hf, List.append_nil]
    cases rx with
    | idle => exact absurd rfl h
    | collecting | accepted | stopped => rfl

/-- What the tester transmits while it receives frames of eight bytes. -/
theorem Call.sends_receiving (hl : ∀ data ∈ datas, data.length = frameDlc) :
    c.machine.sends (.receiving slept rx) (datas.map (classicFrame c.rxId)) =
      rx.repliesAll c.txId c.opts datas := by
  induction datas generalizing rx with
  | nil => rfl
  | cons data datas ih =>
    obtain ⟨hd, hds⟩ := List.forall_mem_cons.mp hl
    have hdata : (classicFrame c.rxId data).data = .ok data := data_classicFrame hd
    rw [List.map_cons, Machine.sends_cons, Call.machine_apply, emits_ok rfl hdata,
      step_receiving rfl, Rx.take_ok hdata]
    exact congrArg _ (ih hds)

theorem Call.after_receiving (hl : ∀ data ∈ datas, data.length = frameDlc) :
    c.machine.after (.receiving slept rx) (datas.map (classicFrame c.rxId)) =
      .receiving slept (rx.feedAll datas) := by
  induction datas generalizing rx with
  | nil => rfl
  | cons data datas ih =>
    obtain ⟨hd, hds⟩ := List.forall_mem_cons.mp hl
    rw [List.map_cons, Machine.after_cons, Call.machine_apply, step_receiving rfl,
      Rx.take_ok (data_classicFrame hd), ih hds]
    rfl

/-- The tester answers the First Frame of a response with a Flow Control. -/
theorem Rx.replies_firstFrame (txId : CanId) (opts : Options) (hl : sfMaxLen < payload.length)
    (hm : payload.length ≤ maxFfLength) :
    Rx.idle.replies txId opts (firstFrame payload) = [flowControl txId opts] := by
  rw [replies, firstFrame, responseData_first (isFirst_firstFrame hl hm)]

theorem Rx.replies_singleFrame (txId : CanId) (opts : Options) (h0 : payload ≠ [])
    (hl : payload.length ≤ sfMaxLen) :
    Rx.idle.replies txId opts (singleFrame payload padding) = [] := by
  obtain ⟨hp, hn⟩ := sf_pci (Nat.lt_succ_of_le hl)
  have hs : IsSingle (.ofNat payload.length)
      (payload ++ List.replicate (frameDlc - (payload.length + 1)) padding) := by
    refine ⟨hp, ?_, ?_, ?_⟩ <;> rw [hn]
    · exact List.length_pos_iff.mpr h0
    · exact hl
    · rw [List.length_append]
      exact Nat.le_add_right _ _
  rw [singleFrame, padded, List.cons_append, List.length_cons, replies, responseData_single hs]

/-- A receiver answers the frames of a payload with at most one Flow Control. -/
theorem Rx.repliesAll_segments (txId : CanId) (opts : Options) (h0 : payload ≠ [])
    (hm : payload.length ≤ maxFfLength) :
    Rx.idle.repliesAll txId opts (segments payload padding) =
      if payload.length ≤ sfMaxLen then [] else [flowControl txId opts] := by
  unfold segments
  split
  case isTrue hl =>
    rw [repliesAll, repliesAll, replies_singleFrame txId opts h0 hl, List.nil_append]
  case isFalse hl =>
    have hl' := Nat.lt_of_not_le hl
    rw [repliesAll, replies_firstFrame txId opts hl' hm, feed_firstFrame hl' hm,
      repliesAll_begun txId opts collected_ne_idle, List.append_nil]

/-- A Wait frame within the limit is counted. -/
theorem flowControlData_tolerated {opts : Options} {waits : UInt8} {data : List UInt8}
    (hw : IsWait data) (hm : waits.toNat < opts.maxWaits.toNat) :
    flowControlData opts waits data = .ok (.ok (.inl (waits + 1))) := by
  have hlt := opts.maxWaits.toNat_lt
  have hadd : addU8 waits 1 = .ok (waits + 1) := addU8_eq (by change _ + 1 < 256; omega)
  have hle : ¬ waits + 1 > opts.maxWaits := by
    simp only [gt_iff_lt, UInt8.lt_iff_toNat_lt, UInt8.toNat_add]
    change ¬ _ < (_ + 1) % 256
    omega
  rw [flowControlData_wait hw, hadd, ok_bind, if_neg hle]
  rfl

section Clearance

theorem data_waitFrame : e.waitFrame.data = .ok (padded e.padding [pciFc ||| fcWait, 0, 0]) :=
  data_classicFrame (length_padded (by decide))

theorem data_clearFrame : e.clearFrame.data =
    .ok (padded e.padding [pciFc ||| fcCts, e.blockSize, e.stMin]) :=
  data_classicFrame (length_padded (show 3 ≤ frameDlc by decide))

theorem isWait_padded (padding : UInt8) : IsWait (padded padding [pciFc ||| fcWait, 0, 0]) :=
  ⟨_, _, rfl, by decide, by decide⟩

theorem isClearToSend_padded (padding bs st : UInt8) :
    IsClearToSend (padded padding [pciFc ||| fcCts, bs, st]) :=
  ⟨_, _, rfl, by decide, by decide⟩

theorem ctsParams_padded (padding bs st : UInt8) :
    ctsParams (padded padding [pciFc ||| fcCts, bs, st]) = (bs, decodeStMin st) := rfl

variable (hid : e.txId = c.rxId) {waits : UInt8} {k : ℕ}

include hid

theorem machine_waitFrame (hm : waits.toNat < c.opts.maxWaits.toNat) :
    c.machine (.waiting waits) e.waitFrame = (.waiting (waits + 1), []) := by
  have htol := flowControlData_tolerated (isWait_padded e.padding) hm
  rw [Call.machine_apply, Call.emits_ok hid data_waitFrame, Call.step_waiting hid, data_waitFrame,
    ok_bind, Call.answers, htol]
  rfl

theorem machine_clearFrame :
    c.machine (.waiting waits) e.clearFrame =
      (c.cleared e.blockSize (decodeStMin e.stMin), c.block e.blockSize) := by
  have hcts : flowControlData c.opts waits
      (padded e.padding [pciFc ||| fcCts, e.blockSize, e.stMin]) =
        .ok (.ok (.inr (ctsParams _))) :=
    flowControlData_cts (isClearToSend_padded e.padding e.blockSize e.stMin)
  rw [Call.machine_apply, Call.emits_ok hid data_clearFrame, Call.step_waiting hid,
    data_clearFrame, ok_bind, Call.answers, hcts, ctsParams_padded]
  rfl

/-- The tester takes the clearance after a tolerated number of Wait frames. -/
theorem machine_clearance (hm : waits.toNat + k ≤ c.opts.maxWaits.toNat) :
    let frames := List.replicate k e.waitFrame ++ [e.clearFrame]
    c.machine.after (.waiting waits) frames = c.cleared e.blockSize (decodeStMin e.stMin) ∧
      c.machine.sends (.waiting waits) frames = c.block e.blockSize := by
  induction k generalizing waits with
  | zero =>
    simp only [List.replicate_zero, List.nil_append, Machine.after_cons, Machine.sends_cons,
      machine_clearFrame hid]
    exact ⟨rfl, List.append_nil _⟩
  | succ k ih =>
    have hlt := c.opts.maxWaits.toNat_lt
    have hadd : (waits + 1).toNat = waits.toNat + 1 := by
      rw [UInt8.toNat_add]
      change (_ + 1) % 256 = _
      omega
    simp only [List.replicate_succ, List.cons_append, Machine.after_cons, Machine.sends_cons,
      machine_waitFrame hid (show waits.toNat < c.opts.maxWaits.toNat by omega), List.nil_append]
    exact ih (by omega)

end Clearance

/-! ### The ECU -/

namespace Ecu

variable {txId : CanId}

theorem machine_apply (he : e.rxId = txId) (s : EcuState) (data : List UInt8) :
    e.machine s (classicFrame txId data) = e.react s (classicFrame txId data) := if_pos he.symm

theorem react_listening {data : List UInt8} (hd : data.length = frameDlc) :
    e.react (.listening rx) (classicFrame txId data) = e.listen rx data := by
  rw [react, Frame.payload_ofPayload (by rw [hd]; decide)]

theorem listen_accepted {data : List UInt8} (h : rx.feed data = .accepted request) :
    e.listen rx data = e.begin request := by
  unfold listen
  rw [h]

theorem exists_collecting (payload : List UInt8) (i : ℕ)
    (hi : ffFirstPayload + 7 * i < payload.length) :
    ∃ total s h, collected payload i = .collecting total s h :=
  ⟨_, _, _, Rx.settle_collecting (by rw [length_collected hi]; exact hi)⟩

/-- The First Frame of a request is answered with the clearance. -/
theorem listen_firstFrame (hl : sfMaxLen < payload.length) (hm : payload.length ≤ maxFfLength) :
    e.listen .idle (firstFrame payload) = (.listening (collected payload 0), e.clearance) := by
  obtain ⟨total, s, h, hc⟩ := exists_collecting payload 0
    (Nat.lt_of_lt_of_le (by decide) hl)
  unfold listen
  rw [feed_firstFrame hl hm, hc]
  rfl

/-- A Consecutive Frame of a request, before the last one, is not answered. -/
theorem listen_consecutiveFrame (hi : ffFirstPayload + 7 * (i + 1) < payload.length) :
    e.listen (collected payload i)
      (consecutiveFrame (payload.drop ffFirstPayload) padding i) =
        (.listening (collected payload (i + 1)), []) := by
  obtain ⟨total, s, h, hc⟩ := exists_collecting payload (i + 1) hi
  obtain ⟨total', s', h', hc'⟩ := exists_collecting payload i (by omega)
  unfold listen
  rw [feed_consecutiveFrame (by omega), hc, hc']
  rfl

/-- The last Consecutive Frame of a request. -/
theorem listen_lastFrame (hi : ffFirstPayload + 7 * i < payload.length)
    (hl : payload.length ≤ ffFirstPayload + 7 * (i + 1)) :
    e.listen (collected payload i)
      (consecutiveFrame (payload.drop ffFirstPayload) padding i) = e.begin payload :=
  listen_accepted ((feed_consecutiveFrame hi).trans (collected_all hl))

theorem drop_consecutiveFrames {rest : List UInt8} (hi : i < cfCount rest) :
    (consecutiveFrames rest padding).drop i =
      consecutiveFrame rest padding i :: (consecutiveFrames rest padding).drop (i + 1) := by
  have hl : i < (consecutiveFrames rest padding).length := by rwa [length_consecutiveFrames]
  rw [List.drop_eq_getElem_cons hl]
  simp [consecutiveFrames]

/-- What the ECU comes to and sends on frames with the given data. -/
def hears (e : Ecu) (s : EcuState) (datas : List (List UInt8)) : EcuState × List Frame :=
  (e.machine.after s (datas.map (classicFrame e.rxId)),
    e.machine.sends s (datas.map (classicFrame e.rxId)))

theorem hears_cons {data : List UInt8} (hd : data.length = frameDlc) :
    e.hears (.listening rx) (data :: datas) = ((e.hears (e.listen rx data).1 datas).1,
      (e.listen rx data).2 ++ (e.hears (e.listen rx data).1 datas).2) := by
  unfold hears
  rw [List.map_cons, Machine.after_cons, Machine.sends_cons, machine_apply rfl, react_listening hd]

theorem length_consecutiveFrame {rest : List UInt8} :
    (consecutiveFrame rest padding i).length = frameDlc :=
  length_padded (Nat.succ_le_succ length_chunk_le)

theorem length_singleFrame (hl : payload.length ≤ sfMaxLen) :
    (singleFrame payload padding).length = frameDlc :=
  length_padded (Nat.succ_le_succ hl)

/-- The Consecutive Frames of a request, from any of them on. -/
theorem hears_drop (e : Ecu) (padding : UInt8) {k : ℕ}
    (hk : cfCount (payload.drop ffFirstPayload) = i + (k + 1)) :
    e.hears (.listening (collected payload i))
      ((consecutiveFrames (payload.drop ffFirstPayload) padding).drop i) = e.begin payload := by
  induction k generalizing i with
  | zero =>
    have hi : i < cfCount (payload.drop ffFirstPayload) := by omega
    have hb := lt_cfCount.mp hi
    have hlast : payload.length ≤ ffFirstPayload + 7 * (i + 1) := by
      unfold cfCount at hk
      rw [List.length_drop] at hk
      omega
    have hall : (consecutiveFrames (payload.drop ffFirstPayload) padding).drop (i + 1) = [] := by
      rw [List.drop_eq_nil_iff, length_consecutiveFrames, hk]
    rw [List.length_drop] at hb
    rw [drop_consecutiveFrames hi, hall, hears_cons length_consecutiveFrame,
      listen_lastFrame (by omega) hlast]
    exact Prod.ext rfl (List.append_nil _)
  | succ k ih =>
    have hi : i < cfCount (payload.drop ffFirstPayload) := by omega
    have hb : 7 * (i + 1) < (payload.drop ffFirstPayload).length := lt_cfCount.mp (by omega)
    rw [List.length_drop] at hb
    rw [drop_consecutiveFrames hi, hears_cons length_consecutiveFrame,
      listen_consecutiveFrame (by omega)]
    exact ih (by omega)

/-- The request of one frame. -/
theorem hears_single (h0 : payload ≠ []) (hl : payload.length ≤ sfMaxLen) :
    e.hears (.listening .idle) [singleFrame payload padding] = e.begin payload := by
  rw [hears_cons (length_singleFrame hl), listen_accepted (feed_singleFrame h0 hl)]
  exact Prod.ext rfl (List.append_nil _)

theorem hears_first (hl : sfMaxLen < payload.length) (hm : payload.length ≤ maxFfLength) :
    e.hears (.listening .idle) [firstFrame payload] =
      (.listening (collected payload 0), e.clearance) := by
  have hlen : (firstFrame payload).length = frameDlc := by
    simp only [firstFrame, List.length_cons, List.length_take, ffFirstPayload, frameDlc]
    simp only [sfMaxLen] at hl
    omega
  rw [hears_cons hlen, listen_firstFrame hl hm]
  exact Prod.ext rfl (List.append_nil _)

theorem hears_append (e : Ecu) (s : EcuState) (datas datas' : List (List UInt8)) :
    e.hears s (datas ++ datas') =
      ((e.hears (e.hears s datas).1 datas').1,
        (e.hears s datas).2 ++ (e.hears (e.hears s datas).1 datas').2) := by
  unfold hears
  rw [List.map_append, Machine.after_append, Machine.sends_append]

/-- The frames of a request. -/
theorem hears_segments (e : Ecu) (padding : UInt8) (h0 : payload ≠ [])
    (hm : payload.length ≤ maxFfLength) :
    e.hears (.listening .idle) (segments payload padding) =
      ((e.begin payload).1,
        (if payload.length ≤ sfMaxLen then [] else e.clearance) ++ (e.begin payload).2) := by
  unfold segments
  split
  case isTrue hl => exact hears_single h0 hl
  case isFalse hl =>
    have hl' := Nat.lt_of_not_le hl
    have hblocks : 0 < cfCount (payload.drop ffFirstPayload) := by
      rw [lt_cfCount, List.length_drop]
      exact Nat.sub_pos_of_lt (Nat.lt_trans (by decide) hl')
    have hcount : cfCount (payload.drop ffFirstPayload) =
        0 + (cfCount (payload.drop ffFirstPayload) - 1 + 1) := by omega
    have hdrop := e.hears_drop padding hcount
    rw [List.drop_zero] at hdrop
    rw [← List.singleton_append, hears_append, hears_first hl' hm, hdrop]

theorem begin_single {data : List UInt8} (h : e.responses request = [data]) :
    e.begin request = (.finished request, [data].map (classicFrame e.txId)) := by
  unfold begin
  rw [h]
  rfl

theorem begin_long {data : List UInt8} (h : e.responses request = data :: datas)
    (hd : datas ≠ []) :
    e.begin request = (.responding request datas, [data].map (classicFrame e.txId)) := by
  unfold begin
  rw [h]
  cases datas with
  | nil => exact absurd rfl hd
  | cons => rfl

/-- A Flow Control that clears the rest of the response. -/
theorem machine_flowControl (e : Ecu) (request : List UInt8) (opts : Options)
    (left : List (List UInt8))
    (hb : opts.blockSize = 0 ∨ left.length ≤ opts.blockSize.toNat) :
    e.machine (.responding request left) (flowControl e.rxId opts) =
      (.finished request, left.map (classicFrame e.txId)) := by
  have hid : e.machine (.responding request left) (flowControl e.rxId opts) =
      e.react (.responding request left) (flowControl e.rxId opts) := if_pos rfl
  rw [hid, react, Session.clearedBlock_flowControl]
  dsimp only
  split
  case isTrue => rw [if_pos (Nat.le_refl _), List.take_length]
  case isFalse h0 =>
    have hle := hb.resolve_left h0
    rw [if_pos hle, List.take_of_length_le hle]

end Ecu

/-! ### The dialogue -/

/-- A request and an ECU that talk to each other within the limits that both support: the ECU
clears the whole payload at once after a tolerated number of Wait frames, and its response fits
in one block. -/
structure Dialogue where
  call : Call
  ecu : Ecu
  toEcu : ecu.rxId = call.txId
  toTester : ecu.txId = call.rxId
  valid : call.Valid
  serves : ecu.serve call.payload ≠ [] ∧ (ecu.serve call.payload).length ≤ maxFfLength
  budget : ecu.waits ≤ call.opts.maxWaits.toNat
  clears : ecu.blockSize = 0 ∨ cfCount call.rest ≤ ecu.blockSize.toNat
  oneBlock : call.opts.blockSize = 0 ∨
    cfCount ((ecu.serve call.payload).drop ffFirstPayload) ≤ call.opts.blockSize.toNat

namespace Dialogue

variable (d : Dialogue)

abbrev State := Network Stage EcuState Frame Frame

/-- The first frame of the payload is on its way. -/
def start : State := ⟨d.call.start, .listening .idle, [], d.call.opening⟩

abbrev Step : State → Delivery → State → Prop := Network.Step d.call.machine d.ecu.machine

def response : List UInt8 := d.ecu.serve d.call.payload

/-- The ECU has the payload, and the tester waits for the response. -/
def requested (slept : ℕ) : State :=
  ⟨.receiving slept .idle, (d.ecu.begin d.call.payload).1, (d.ecu.begin d.call.payload).2, []⟩

/-- Both are done, and nothing is under way. -/
structure Completed (s : State) : Prop where
  tester : ∃ slept, s.left = .receiving slept (.accepted d.response)
  ecu : s.right = .finished d.call.payload
  quiet : s.toLeft = [] ∧ s.toRight = []

variable {d}

variable (d) in
/-- The frames of the payload that are under way reach the ECU. -/
theorem runs_heard (p : Stage) {s : EcuState} {datas : List (List UInt8)}
    {r : EcuState × List Frame} (h : d.ecu.hears s datas = r) :
    Runs d.Step ⟨p, s, [], datas.map (classicFrame d.call.txId)⟩
      (List.replicate datas.length .right) ⟨p, r.1, r.2, []⟩ := by
  have hrun := Network.runs_right (m := d.call.machine) (n := d.ecu.machine) p s []
    (datas.map (classicFrame d.call.txId))
  rw [List.length_map, List.nil_append] at hrun
  rw [← h, Ecu.hears, d.toEcu]
  exact hrun

theorem exists_requested_single (hl : d.call.payload.length ≤ sfMaxLen) :
    Runs d.Step d.start [.right] (d.requested 0) := by
  have hopening : d.call.opening =
      [singleFrame d.call.payload d.call.opts.padding].map (classicFrame d.call.txId) := by
    rw [Call.opening, Call.segmented, segmentation, segments, if_pos hl]
    rfl
  rw [start, Call.start, if_pos hl, hopening]
  exact runs_heard d _ (Ecu.hears_single d.valid.1 hl)

/-- The clearance makes the tester send the rest of the payload at once. -/
theorem tester_clearance (d : Dialogue) : ∃ slept,
    d.call.machine.after (.waiting 0) d.ecu.clearance = .receiving slept .idle ∧
    d.call.machine.sends (.waiting 0) d.ecu.clearance =
      (consecutiveFrames d.call.rest d.call.opts.padding).map (classicFrame d.call.txId) := by
  have hclears : ¬ (d.ecu.blockSize ≠ 0 ∧ d.ecu.blockSize.toNat < cfCount d.call.rest) := by
    rintro ⟨h0, hlt⟩
    exact absurd (d.clears.resolve_left h0) (Nat.not_le.mpr hlt)
  have hblock : d.call.block d.ecu.blockSize =
      (consecutiveFrames d.call.rest d.call.opts.padding).map (classicFrame d.call.txId) := by
    rw [Call.block, blockLimit_of_not hclears, show cfCount d.call.rest =
        (consecutiveFrames d.call.rest d.call.opts.padding).length from
          length_consecutiveFrames.symm, List.take_length]
  have hbudget : (0 : UInt8).toNat + d.ecu.waits ≤ d.call.opts.maxWaits.toNat := by
    rw [UInt8.toNat_zero, Nat.zero_add]
    exact d.budget
  obtain ⟨hafter, hsends⟩ := machine_clearance d.toTester hbudget
  rw [Call.cleared_of_not hclears] at hafter
  exact ⟨_, hafter, hsends.trans hblock⟩

theorem runs_cleared (d : Dialogue) (r : EcuState) : ∃ slept, Runs d.Step
    ⟨.waiting 0, r, d.ecu.clearance, []⟩ (List.replicate d.ecu.clearance.length .left)
    ⟨.receiving slept .idle, r, [],
      (consecutiveFrames d.call.rest d.call.opts.padding).map (classicFrame d.call.txId)⟩ := by
  obtain ⟨slept, hafter, hsends⟩ := d.tester_clearance
  refine ⟨slept, ?_⟩
  have hrun : Runs d.Step ⟨.waiting 0, r, d.ecu.clearance, []⟩
      (List.replicate d.ecu.clearance.length .left)
      ⟨d.call.machine.after (.waiting 0) d.ecu.clearance, r, [],
        [] ++ d.call.machine.sends (.waiting 0) d.ecu.clearance⟩ :=
    Network.runs_left _ _ _ _
  rw [hafter, hsends] at hrun
  exact hrun

theorem exists_requested_long (hl : sfMaxLen < d.call.payload.length) :
    ∃ as slept, Runs d.Step d.start as (d.requested slept) := by
  have hopening : d.call.opening = [firstFrame d.call.payload].map (classicFrame d.call.txId) := by
    rw [Call.opening, Call.segmented, segmentation_long hl]
    rfl
  have hstart : d.start = ⟨.waiting 0, .listening .idle, [],
      [firstFrame d.call.payload].map (classicFrame d.call.txId)⟩ := by
    rw [start, Call.start, if_neg (Nat.not_le.mpr hl), hopening]
  have hfirst := runs_heard d (.waiting 0) (Ecu.hears_first hl d.valid.2)
  obtain ⟨slept, hclear⟩ := runs_cleared d (.listening (collected d.call.payload 0))
  have hcount : cfCount (d.call.payload.drop ffFirstPayload) =
      0 + (cfCount d.call.rest - 1 + 1) := by
    have hblocks : 0 < cfCount d.call.rest := by
      rw [lt_cfCount, Call.rest, List.length_drop]
      exact Nat.sub_pos_of_lt (Nat.lt_trans (by decide) hl)
    rw [Nat.sub_add_cancel hblocks, Nat.zero_add]
    rfl
  have hrest := runs_heard d (.receiving slept .idle) (d.ecu.hears_drop d.call.opts.padding hcount)
  rw [hstart]
  exact ⟨_, _, hfirst.append (hclear.append hrest)⟩

/-- The request reaches the ECU, and the tester waits for the response. -/
theorem exists_requested : ∃ as slept, Runs d.Step d.start as (d.requested slept) := by
  rcases Nat.lt_or_ge sfMaxLen d.call.payload.length with hl | hl
  · exact exists_requested_long hl
  · exact ⟨_, _, exists_requested_single hl⟩

section Answer

variable (d) (slept : ℕ)

/-- The frames that are under way reach the tester. -/
theorem runs_received (rx : Rx) (r : EcuState) {datas : List (List UInt8)}
    (hl : ∀ data ∈ datas, data.length = frameDlc) :
    Runs d.Step ⟨.receiving slept rx, r, datas.map (classicFrame d.ecu.txId), []⟩
      (List.replicate datas.length .left)
      ⟨.receiving slept (rx.feedAll datas), r, [],
        rx.repliesAll d.call.txId d.call.opts datas⟩ := by
  have hrun := Network.runs_left (m := d.call.machine) (n := d.ecu.machine)
    (.receiving slept rx) r (datas.map (classicFrame d.call.rxId)) []
  rw [Call.after_receiving hl, Call.sends_receiving hl, List.length_map, List.nil_append] at hrun
  rw [d.toTester]
  exact hrun

theorem exists_answered_single (hl : d.response.length ≤ sfMaxLen) :
    ∃ as s, Runs d.Step (d.requested slept) as s ∧ d.Completed s := by
  have hresponses : d.ecu.responses d.call.payload = [singleFrame d.response d.ecu.padding] :=
    if_pos hl
  have hfeed : Rx.idle.feed (singleFrame d.response d.ecu.padding) = .accepted d.response :=
    feed_singleFrame d.serves.1 hl
  have hreplies : Rx.idle.replies d.call.txId d.call.opts
      (singleFrame d.response d.ecu.padding) = [] := Rx.replies_singleFrame _ _ d.serves.1 hl
  have hlen : ∀ data ∈ [singleFrame d.response d.ecu.padding], data.length = frameDlc :=
    fun data hm => List.mem_singleton.mp hm ▸ Ecu.length_singleFrame hl
  have hrun := runs_received d slept .idle (.finished d.call.payload) hlen
  rw [Rx.feedAll_cons, Rx.feedAll_nil, hfeed, Rx.repliesAll,
    hreplies] at hrun
  rw [requested, Ecu.begin_single hresponses]
  exact ⟨_, _, hrun, ⟨slept, rfl⟩, rfl, rfl, rfl⟩

theorem responses_long (hl : sfMaxLen < d.response.length) :
    let left := consecutiveFrames (d.response.drop ffFirstPayload) d.ecu.padding
    d.ecu.responses d.call.payload = firstFrame d.response :: left ∧ left ≠ [] ∧
      (d.call.opts.blockSize = 0 ∨ left.length ≤ d.call.opts.blockSize.toNat) := by
  have hleft : (consecutiveFrames (d.response.drop ffFirstPayload) d.ecu.padding).length =
      cfCount (d.response.drop ffFirstPayload) := length_consecutiveFrames
  refine ⟨if_neg (Nat.not_le.mpr hl), ?_, hleft ▸ d.oneBlock⟩
  rw [← List.length_pos_iff, hleft, lt_cfCount, List.length_drop]
  exact Nat.sub_pos_of_lt (Nat.lt_trans (by decide) hl)

theorem exists_answered_long (hl : sfMaxLen < d.response.length) :
    ∃ as s, Runs d.Step (d.requested slept) as s ∧ d.Completed s := by
  have hm : d.response.length ≤ maxFfLength := d.serves.2
  obtain ⟨hresponses, hblocks, hblock⟩ := responses_long d hl
  generalize hleft : consecutiveFrames (d.response.drop ffFirstPayload) d.ecu.padding = left at *
  have hlen : ∀ data ∈ firstFrame d.response :: left, data.length = frameDlc :=
    fun data hd => length_of_mem_segments (hresponses.symm ▸ hd)
  have hfirst := runs_received d slept .idle (.responding d.call.payload left)
    (show ∀ data ∈ [firstFrame d.response], data.length = frameDlc from
      fun data hd => hlen data (List.mem_singleton.mp hd ▸ List.mem_cons_self))
  rw [Rx.feedAll_cons, Rx.feedAll_nil, feed_firstFrame hl hm, Rx.repliesAll, Rx.repliesAll,
    Rx.replies_firstFrame _ _ hl hm, List.append_nil] at hfirst
  have hclear : Runs d.Step ⟨.receiving slept (collected d.response 0),
      .responding d.call.payload left, [], [flowControl d.call.txId d.call.opts]⟩ [.right]
      ⟨.receiving slept (collected d.response 0), .finished d.call.payload,
        left.map (classicFrame d.ecu.txId), []⟩ := by
    have hflow := d.ecu.machine_flowControl d.call.payload d.call.opts left hblock
    have hrun := Network.runs_right (m := d.call.machine) (n := d.ecu.machine)
      (.receiving slept (collected d.response 0)) (.responding d.call.payload left) []
      [flowControl d.ecu.rxId d.call.opts]
    rw [Machine.after_cons, Machine.after_nil, Machine.sends_cons, Machine.sends_nil, hflow,
      List.append_nil, d.toEcu] at hrun
    exact hrun
  have hrest := runs_received d slept (collected d.response 0) (.finished d.call.payload)
    fun data hd => hlen data (List.mem_cons_of_mem _ hd)
  have hall : (collected d.response 0).feedAll left = .accepted d.response := by
    have hfed : Rx.idle.feedAll (firstFrame d.response :: left) = .accepted d.response :=
      hresponses ▸ feedAll_segments d.serves.1 hm
    rwa [Rx.feedAll_cons, feed_firstFrame hl hm] at hfed
  rw [hall, Rx.repliesAll_begun _ _ collected_ne_idle] at hrest
  rw [requested, Ecu.begin_long hresponses hblocks]
  exact ⟨_, _, hfirst.append (hclear.append hrest), ⟨slept, rfl⟩, rfl, rfl, rfl⟩

end Answer

/-- The response reaches the tester. -/
theorem exists_answered (slept : ℕ) :
    ∃ as s, Runs d.Step (d.requested slept) as s ∧ d.Completed s := by
  rcases Nat.lt_or_ge sfMaxLen d.response.length with hl | hl
  · exact exists_answered_long d slept hl
  · exact exists_answered_single d slept hl

/-- In whatever order the frames are delivered, the dialogue goes on to one end, in which both
sides are done, after the same number of deliveries. -/
theorem completes (d : Dialogue) : ∃ n final, d.Completed final ∧ Terminal d.Step final ∧
    ∀ as s, Runs d.Step d.start as s →
      ∃ cs, Runs d.Step s cs final ∧ as.length + cs.length = n := by
  obtain ⟨as, slept, hrequested⟩ := d.exists_requested
  obtain ⟨bs, final, hanswered, hfinal⟩ := d.exists_answered slept
  have hrun := hrequested.append hanswered
  have hterminal : Terminal d.Step final := Network.terminal_iff.mpr hfinal.quiet
  refine ⟨(as ++ bs).length, final, hfinal, hterminal, fun cs s hs => ?_⟩
  exact hrun.extends (Network.deterministic _ _) (Network.independent _ _) hterminal hs

/-! ### The code in a dialogue -/

/-- The frames that the tester transmits. -/
def requests (d : Dialogue) : List Frame := d.call.segmented ++
  if d.response.length ≤ sfMaxLen then [] else [flowControl d.call.txId d.call.opts]

/-- The frames that the ECU transmits. -/
def replies (d : Dialogue) : List Frame :=
  (if d.call.payload.length ≤ sfMaxLen then [] else d.ecu.clearance) ++
    (d.ecu.responses d.call.payload).map (classicFrame d.ecu.txId)

end Dialogue

namespace Call

theorem emits_not_waiting {p : Stage} (hw : ¬ p.Waiting) (frame : Frame) :
    c.emits p frame = [] := by
  cases p with
  | waiting => exact absurd trivial hw
  | receiving slept rx =>
    unfold emits
    split
    case isFalse => rfl
    split
    case h_2 => rfl
    cases rx with
    | idle | collecting => exact absurd trivial hw
    | accepted | stopped => rfl

/-- Only the answers that matter make a difference. -/
theorem replay_relevant (p : Stage) (recvs : List RecvAnswer) :
    c.replay p (recvs.map RecvAnswer.outcome) = c.replay p (relevant c.rxId recvs) := by
  induction recvs generalizing p with
  | nil => rfl
  | cons a recvs ih =>
    by_cases hw : p.Waiting
    case neg => rw [replay_ended hw, replay_ended hw]
    obtain ⟨d, outcome⟩ := a
    by_cases hrelevant : Relevant c.rxId outcome
    · rw [relevant_keep hrelevant, List.map_cons]
      rcases outcome with err | (_ | frame)
      · rw [replay_error hw, replay_error hw]
      · rw [replay_none hw, replay_none hw, ih]
      · rw [replay_some hw, replay_some hw, ih]
    · rcases outcome with err | answer
      · exact absurd trivial hrelevant
      · have hforeign : Foreign c.rxId answer := not_not.mp hrelevant
        rw [relevant_skip hforeign, List.map_cons, replay_foreign hw _ hforeign, ih]

/-- Frames that end the request are all that matters. -/
theorem replay_frames {p : Stage} {frames : List Frame}
    (hw : ¬ (c.machine.after p frames).Waiting) (later : List (Except IoError (Option Frame))) :
    c.replay p (frames.map (fun frame => .ok (some frame)) ++ later) =
      ((c.machine.after p frames).verdict, c.machine.sends p frames) := by
  induction frames generalizing p with
  | nil => exact replay_ended hw later
  | cons frame frames ih =>
    rw [Machine.after_cons, machine_apply] at hw ⊢
    rw [Machine.sends_cons, machine_apply, List.map_cons, List.cons_append]
    by_cases hp : p.Waiting
    · rw [replay_some hp, ih hw]
      rfl
    · rw [replay_ended hp, emits_not_waiting hp]
      rw [step_not_waiting hp] at hw ⊢
      have hended := ih hw
      rw [replay_ended hp] at hended
      exact hended

end Call

namespace Dialogue

/-- The tester receives the response. -/
theorem tester_responses (d : Dialogue) (slept : ℕ) :
    d.call.machine.after (.receiving slept .idle)
      ((d.ecu.responses d.call.payload).map (classicFrame d.ecu.txId)) =
        .receiving slept (.accepted d.response) ∧
    d.call.machine.sends (.receiving slept .idle)
      ((d.ecu.responses d.call.payload).map (classicFrame d.ecu.txId)) =
        if d.response.length ≤ sfMaxLen then [] else [flowControl d.call.txId d.call.opts] := by
  have hl : ∀ data ∈ d.ecu.responses d.call.payload, data.length = frameDlc :=
    fun _ => length_of_mem_segments
  have hfed : Rx.idle.feedAll (d.ecu.responses d.call.payload) = .accepted d.response :=
    feedAll_segments d.serves.1 d.serves.2
  rw [d.toTester, Call.after_receiving hl, Call.sends_receiving hl, hfed]
  exact ⟨rfl, Rx.repliesAll_segments _ _ d.serves.1 d.serves.2⟩

/-- The tester on the frames of the ECU. -/
theorem tester_replies (d : Dialogue) :
    (∃ slept, d.call.machine.after d.call.start d.replies =
      .receiving slept (.accepted d.response)) ∧
    d.call.opening ++ d.call.machine.sends d.call.start d.replies = d.requests := by
  unfold replies requests Call.start
  split
  case isTrue hl =>
    obtain ⟨hafter, hsends⟩ := d.tester_responses 0
    have hopening : d.call.opening = d.call.segmented := by
      rw [Call.opening, Call.segmented, segmentation, segments, if_pos hl]
      rfl
    rw [List.nil_append, hopening, hsends]
    exact ⟨⟨0, hafter⟩, rfl⟩
  case isFalse hl =>
    obtain ⟨slept, hclear, hblock⟩ := d.tester_clearance
    obtain ⟨hafter, hsends⟩ := d.tester_responses slept
    have hsegmented : d.call.segmented = d.call.opening ++
        (consecutiveFrames d.call.rest d.call.opts.padding).map (classicFrame d.call.txId) := by
      rw [Call.opening, Call.segmented, segmentation_long (Nat.lt_of_not_le hl)]
      rfl
    rw [Machine.after_append, Machine.sends_append, hclear, hblock, hsends, hsegmented,
      List.append_assoc]
    exact ⟨⟨slept, hafter⟩, rfl⟩

/-- The ECU sends its response when it has the request. -/
theorem ecu_begin (d : Dialogue) :
    let cleared := if d.response.length ≤ sfMaxLen then []
      else [flowControl d.call.txId d.call.opts]
    d.ecu.machine.after (d.ecu.begin d.call.payload).1 cleared = .finished d.call.payload ∧
    (d.ecu.begin d.call.payload).2 ++
      d.ecu.machine.sends (d.ecu.begin d.call.payload).1 cleared =
        (d.ecu.responses d.call.payload).map (classicFrame d.ecu.txId) := by
  dsimp only
  split
  case isTrue hl =>
    have hresponses : d.ecu.responses d.call.payload = [singleFrame d.response d.ecu.padding] :=
      if_pos hl
    rw [Ecu.begin_single hresponses, hresponses]
    exact ⟨rfl, rfl⟩
  case isFalse hl =>
    obtain ⟨hresponses, hblocks, hblock⟩ := d.responses_long (Nat.lt_of_not_le hl)
    have hflow := d.ecu.machine_flowControl d.call.payload d.call.opts _ hblock
    rw [d.toEcu] at hflow
    rw [Ecu.begin_long hresponses hblocks, hresponses, Machine.after_cons, Machine.sends_cons,
      hflow]
    exact ⟨rfl, by simp⟩

/-- The ECU on the frames of the tester. -/
theorem ecu_requests (d : Dialogue) :
    d.ecu.machine.after (.listening .idle) d.requests = .finished d.call.payload ∧
    d.ecu.machine.sends (.listening .idle) d.requests = d.replies := by
  have hheard := d.ecu.hears_segments d.call.opts.padding d.valid.1 d.valid.2
  have hbegun := d.ecu_begin
  obtain ⟨hafter, hsends⟩ := Prod.ext_iff.mp hheard
  simp only [Ecu.hears, d.toEcu] at hafter hsends
  unfold requests replies Call.segmented segmentation
  rw [Machine.after_append, Machine.sends_append, hafter, hsends, List.append_assoc, hbegun.2]
  exact ⟨hbegun.1, rfl⟩

theorem follows_replies (d : Dialogue) {env : Env} (he : env.Accepts)
    (ht : env.clock + d.call.opts.timeout < 2 ^ 63 * 10 ^ 9)
    {later : List (Except IoError (Option Frame))}
    (hr : relevant d.call.rxId env.recvs =
      d.replies.map (fun frame => .ok (some frame)) ++ later) :
    Call.Follows (.done d.response, d.requests) (d.call.run env) := by
  obtain ⟨⟨slept, hafter⟩, hsends⟩ := d.tester_replies
  have hw : ¬ (d.call.machine.after d.call.start d.replies).Waiting := hafter ▸ id
  have hfollows := Call.run_follows d.valid he ht
  rw [Call.replay_relevant, hr, Call.replay_frames hw, hafter, Call.sending, hsends] at hfollows
  exact hfollows

/-- A request whose socket has the frames of the ECU in order, among foreign frames and timeouts,
returns the response of the ECU and transmits what makes the ECU send these frames, unless the
deadline passes first: then it times out and has transmitted a part of it. -/
theorem run_replies (d : Dialogue) (env : Env) (he : env.Accepts)
    (ht : env.clock + d.call.opts.timeout < 2 ^ 63 * 10 ^ 9)
    (later : List (Except IoError (Option Frame)))
    (hr : relevant d.call.rxId env.recvs =
      d.replies.map (fun frame => .ok (some frame)) ++ later) :
    Call.Follows (.done d.response, d.requests) (d.call.run env) ∧
    d.ecu.machine.after (.listening .idle) d.requests = .finished d.call.payload ∧
    d.ecu.machine.sends (.listening .idle) d.requests = d.replies :=
  ⟨d.follows_replies he ht hr, d.ecu_requests⟩

/-- Twenty bytes to an ECU that waits once, and answers with a byte more. -/
def echo : Dialogue where
  call := ⟨.standard 0x7E0, .standard 0x7E8, twentyBytes, default⟩
  ecu := ⟨.standard 0x7E0, .standard 0x7E8, 0xAA, 1, 0, 0, fun request => 0x62 :: request⟩
  toEcu := rfl
  toTester := rfl
  valid := ⟨by decide, by decide⟩
  serves := by decide
  budget := by decide
  clears := .inl rfl
  oneBlock := .inl rfl

theorem completes_echo : sfMaxLen < echo.call.payload.length ∧ sfMaxLen < echo.response.length ∧
    ∃ n final, echo.Completed final ∧ Terminal echo.Step final ∧
      ∀ as s, Runs echo.Step echo.start as s →
        ∃ cs, Runs echo.Step s cs final ∧ as.length + cs.length = n :=
  ⟨by decide, by decide, completes echo⟩

/-- The frames of the ECU behind a foreign frame, with a timeout between any two of them. -/
def echoEnv : Env := ⟨10,
  Call.queued (classicFrame (.standard 0x123) [1]) ::
    echo.replies.flatMap fun frame => [⟨5, .ok none⟩, Call.queued frame], [], []⟩

theorem relevant_echoEnv : relevant echo.call.rxId echoEnv.recvs =
    echo.replies.map (fun frame => .ok (some frame)) ++ [] := by
  decide

theorem run_replies_echo : echoEnv.Accepts ∧ echo.replies.length = 6 ∧
    Call.Follows (.done echo.response, echo.requests) (echo.call.run echoEnv) :=
  ⟨nofun, by decide,
    (run_replies echo echoEnv nofun (by decide) [] relevant_echoEnv).1⟩

end Dialogue

end Mcanbus.Isotp
