import Mathlib.Data.List.ReduceOption
import Mcanbus.Isotp.Deadline

/-! # The stages of a request

A request as an automaton over the frames that the socket returns: it waits for
a Flow Control and then receives the response. Run on frames that have arrived,
the code is in the stage that the automaton computes.
-/

namespace Mcanbus.Isotp

open Rust Effect Effect.Process

/-! ### What the receiver keeps of a frame -/

namespace Rx

/-- The state after a frame, whose length may be out of range. -/
def take (rx : Rx) (frame : Frame) : Rx :=
  match frame.data with
  | .ok data => rx.feed data
  | .error p =>
    match rx with
    | .idle | .collecting .. => .stopped (.panicked p)
    | rx => rx

/-- The bytes that a frame with the given data contributes to the response. -/
def contribution : Rx → List UInt8 → List UInt8
  | .idle, data =>
    match responseData data with
    | .ok (.ok (.single payload)) => payload
    | .ok (.ok (.first _ out)) => out
    | _ => []
  | .collecting total s _, data =>
    match consecutiveData total s data with
    | .ok (.ok next) => next.out.drop s.out.length
    | _ => []
  | _, _ => []

/-- The bytes of the response so far. -/
def held : Rx → List UInt8
  | .collecting _ s _ => s.out
  | .accepted payload => payload
  | _ => []

theorem take_ok {rx : Rx} {frame : Frame} {data : List UInt8} (h : frame.data = .ok data) :
    rx.take frame = rx.feed data := by
  unfold take
  rw [h]

theorem take_not_waiting {rx : Rx} (h : ¬ rx.Waiting) (frame : Frame) : rx.take frame = rx := by
  unfold take
  cases rx with
  | idle | collecting => exact absurd trivial h
  | accepted | stopped => cases frame.data <;> rfl

theorem held_settle (total : ℕ) (s : CollectState) : (settle total s).held = s.out := by
  unfold settle
  split <;> rfl

/-- The response is made of the contributions. -/
theorem held_feed {rx : Rx} {data : List UInt8} (hs : ∀ h, rx.feed data ≠ .stopped h) :
    (rx.feed data).held = rx.held ++ rx.contribution data := by
  cases rx with
  | idle =>
    obtain ⟨message, hf⟩ | ⟨pci, rest, rfl, h, hf⟩ | ⟨pci, low, rest, rfl, h, hf⟩ :=
      feed_idle_cases data
    · exact absurd hf (hs _)
    · rw [hf, contribution, responseData_single h]
      rfl
    · rw [hf, contribution, responseData_first h, held_settle]
      rfl
  | collecting total s hlt =>
    obtain ⟨message, hf⟩ | ⟨pci, rest, rfl, hp, hseq, hf⟩ := feed_collecting_cases hlt data
    · exact absurd hf (hs _)
    · rw [hf, contribution, consecutiveData_ok hp hseq (Nat.le_of_lt hlt), held_settle]
      simp only [List.drop_left, held]
  | accepted payload => exact (List.append_nil _).symm
  | stopped h => exact absurd rfl (hs h)

end Rx

/-! ### The automaton -/

/-- What a request is called with, apart from the socket. -/
structure Call where
  txId : CanId
  rxId : CanId
  payload : List UInt8
  opts : Options

/-- The stages in which a request receives frames, with the time slept before the response. -/
inductive Stage where
  | waiting (waits : UInt8)
  | receiving (slept : ℕ) (rx : Rx)

namespace Stage

/-- Another frame is needed. -/
def Waiting : Stage → Prop
  | .waiting _ => True
  | .receiving _ rx => rx.Waiting

def Stopped : Stage → Prop
  | .receiving _ (.stopped _) => True
  | _ => False

/-- The time since the first frame of the payload when no step but the sleeps takes time. -/
def clock : Stage → ℕ
  | .waiting _ => 0
  | .receiving slept _ => slept

/-- The bytes of the response so far. -/
def held : Stage → List UInt8
  | .waiting _ => []
  | .receiving _ rx => rx.held

/-- The bytes that a frame contributes to the response. -/
def contribution : Stage → Frame → List UInt8
  | .waiting _, _ => []
  | .receiving _ rx, frame => rx.contribution frame.payload

/-- A Flow Control frame is obeyed. -/
def Heeds (opts : Options) : Stage → Frame → Prop
  | .waiting waits, frame => frame.payload ≠ [] ∧
    ∃ r, flowControlData opts waits frame.payload = .ok (.ok r)
  | .receiving .., _ => False

end Stage

namespace Call

variable (c : Call)

/-- The bytes behind the First Frame. -/
def rest : List UInt8 := c.payload.drop ffFirstPayload

/-- The payload can be sent. -/
def Valid : Prop := c.payload ≠ [] ∧ c.payload.length ≤ maxFfLength

/-- The stage after the first frame of the payload. -/
def start : Stage := if c.payload.length ≤ sfMaxLen then .receiving 0 .idle else .waiting 0

/-- The stage after a Flow Control that clears to send. -/
def cleared (bs stMinMs : UInt8) : Stage :=
  .receiving (pause stMinMs [] (blockLimit bs c.rest - 1))
    (if bs ≠ 0 ∧ bs.toNat < cfCount c.rest then .stopped (.failed blockSizeError) else .idle)

/-- The stage after what a frame says to the wait for a Flow Control. -/
def answered : Checked (Except IoError (UInt8 ⊕ UInt8 × UInt8)) → Stage
  | .ok (.ok (.inl waits)) => .waiting waits
  | .ok (.ok (.inr (bs, stMinMs))) => c.cleared bs stMinMs
  | .ok (.error err) => .receiving 0 (.stopped (.failed err))
  | .error p => .receiving 0 (.stopped (.panicked p))

/-- The stage after a frame; frames with other identifiers make no difference. -/
def step (p : Stage) (frame : Frame) : Stage :=
  if frame.id = c.rxId then
    match p with
    | .waiting waits => c.answered (frame.data >>= flowControlData c.opts waits)
    | .receiving slept rx => .receiving slept (rx.take frame)
  else p

def steps (p : Stage) (frames : List Frame) : Stage := frames.foldl c.step p

/-- The request obeys the frame, or takes a byte of the response from it. -/
def Uses (p : Stage) (frame : Frame) : Prop :=
  frame.id = c.rxId ∧ (p.Heeds c.opts frame ∨ p.contribution frame ≠ [])

/-- The rest of the request from a stage. -/
def resume (deadline : ℕ) : Stage → IsotpM (List UInt8)
  | .waiting waits => do
    let (bs, stMinMs) ← waitLoop c.rxId deadline c.opts waits
    sendConsecutiveFrames c.txId c.rest bs stMinMs c.opts
    receiveResponse c.txId c.rxId deadline c.opts
  | .receiving _ rx => rx.resume c.txId c.rxId deadline c.opts

def run (env : Env) : Run Env IoError Event (List UInt8) :=
  request c.txId c.rxId c.payload c.opts env

variable {c} {p : Stage} {frame : Frame} {frames : List Frame} {answers : List (Option Frame)}
  {deadline : ℕ} {env : Env}

@[simp] theorem steps_nil (p : Stage) : c.steps p [] = p := rfl

@[simp] theorem steps_cons (p : Stage) (frame : Frame) (frames : List Frame) :
    c.steps p (frame :: frames) = c.steps (c.step p frame) frames := rfl

theorem steps_append (p : Stage) (f g : List Frame) :
    c.steps p (f ++ g) = c.steps (c.steps p f) g := List.foldl_append

theorem step_foreign (h : frame.id ≠ c.rxId) : c.step p frame = p := if_neg h

theorem step_waiting (h : frame.id = c.rxId) (waits : UInt8) : c.step (.waiting waits) frame =
    c.answered (frame.data >>= flowControlData c.opts waits) := if_pos h

theorem step_receiving (h : frame.id = c.rxId) (slept : ℕ) (rx : Rx) :
    c.step (.receiving slept rx) frame = .receiving slept (rx.take frame) := if_pos h

/-- A stage that needs no other frame does not change. -/
theorem step_not_waiting (h : ¬ p.Waiting) (frame : Frame) : c.step p frame = p := by
  unfold step
  cases p with
  | waiting => exact absurd trivial h
  | receiving slept rx =>
    dsimp only
    rw [Rx.take_not_waiting h, ite_self]

theorem steps_not_waiting (h : ¬ p.Waiting) (frames : List Frame) : c.steps p frames = p := by
  induction frames with
  | nil => rfl
  | cons frame frames ih => rw [steps_cons, step_not_waiting h, ih]

theorem steps_foreign (h : ∀ frame ∈ frames, frame.id ≠ c.rxId) : c.steps p frames = p := by
  induction frames with
  | nil => rfl
  | cons frame frames ih =>
    obtain ⟨hf, hfs⟩ := List.forall_mem_cons.mp h
    rw [steps_cons, step_foreign hf, ih hfs]

/-- The reception of a response feeds the automaton the payloads of the frames with the
identifier. -/
theorem steps_receiving (slept : ℕ) (rx : Rx)
    (h : ∀ frame ∈ frames, frame.id = c.rxId → frame.len.toNat ≤ maxFdDataLen) :
    c.steps (.receiving slept rx) frames =
      .receiving slept (rx.feedAll ((frames.filter (·.id = c.rxId)).map Frame.payload)) := by
  induction frames generalizing rx with
  | nil => rfl
  | cons frame frames ih =>
    obtain ⟨hf, hfs⟩ := List.forall_mem_cons.mp h
    rw [steps_cons]
    by_cases hid : frame.id = c.rxId
    · rw [step_receiving hid, List.filter_cons_of_pos (by simpa using hid), List.map_cons,
        Rx.feedAll_cons, ← Rx.take_ok (Frame.data_eq (hf hid))]
      exact ih _ hfs
    · rw [step_foreign hid, List.filter_cons_of_neg (by simpa using hid)]
      exact ih rx hfs

/-- A stage that stops stays stopped. -/
theorem not_stopped_of_steps (h : ¬ (c.steps p frames).Stopped) : ¬ p.Stopped := by
  intro hs
  have hw : ¬ p.Waiting := by
    cases p with
    | waiting => exact hs.elim
    | receiving slept rx =>
      cases rx with
      | stopped => exact fun hw => hw
      | idle | collecting | accepted => exact hs.elim
  rw [steps_not_waiting hw] at h
  exact h hs

theorem not_stopped_of_accepted {slept : ℕ} {v : List UInt8}
    (h : c.steps p frames = .receiving slept (.accepted v)) : ¬ (c.steps p frames).Stopped := by
  rw [h]
  exact fun hs => hs

theorem clock_start : c.start.clock = 0 := by
  unfold start
  split <;> rfl

theorem held_start : c.start.held = [] := by
  unfold start
  split <;> rfl

theorem clock_le_step (p : Stage) (frame : Frame) : p.clock ≤ (c.step p frame).clock := by
  unfold step
  split
  · cases p with
    | waiting => exact Nat.zero_le _
    | receiving => exact Nat.le_refl _
  · exact Nat.le_refl _

theorem clock_le_steps (p : Stage) (frames : List Frame) : p.clock ≤ (c.steps p frames).clock := by
  induction frames generalizing p with
  | nil => exact Nat.le_refl _
  | cons frame frames ih => exact Nat.le_trans (clock_le_step p frame) (ih _)

/-! ### Frames that have arrived -/

/-- A frame that is returned at once. -/
def queued (frame : Frame) : RecvAnswer := ⟨0, .ok (some frame)⟩

/-- What the datagrams decode to has arrived, and no step but the sleeps takes time. -/
def mailbox (clock : ℕ) (answers : List (Option Frame)) : Env :=
  ⟨clock, answers.map fun answer => ⟨0, .ok answer⟩, [], []⟩

/-- The frames have arrived, and no step but the sleeps takes time. -/
def queue (clock : ℕ) (frames : List Frame) : Env := mailbox clock (frames.map some)

theorem mailbox_paused (clock : ℕ) (answers : List (Option Frame)) (stMinMs : UInt8) (n : ℕ) :
    (mailbox clock answers).paused stMinMs n = mailbox (clock + pause stMinMs [] n) answers := by
  unfold Env.paused mailbox
  simp only [List.drop_nil, ite_self]

/-- A stage that waits starts with the wait for a frame. -/
theorem exists_recv (deadline : ℕ) (hw : p.Waiting) :
    ∃ f, c.resume deadline p = recvWithId c.rxId deadline >>= f := by
  cases p with
  | waiting waits =>
    rw [resume, waitLoop, loop_eq waitStep_descends, waitStep, Process.bind_assoc,
      Process.bind_assoc]
    exact ⟨_, rfl⟩
  | receiving slept rx => exact Rx.exists_recv c.txId c.rxId deadline c.opts hw

theorem receivedFrames_sentAt (txId : CanId) (rest : List UInt8) (padding stMinMs : UInt8)
    (env : Env) (l : List ℕ) :
    receivedFrames (l.map (sentAt txId rest padding stMinMs env)) = [] := by
  induction l with
  | nil => rfl
  | cons i l ih => rw [List.map_cons, sentAt, receivedFrames_sent, ih]

/-- After the Flow Control the request sends the rest of the payload and waits for a response. -/
theorem resume_cleared (clock deadline : ℕ) (answers : List (Option Frame))
    (bs stMinMs : UInt8) :
    ∃ t, (do
        sendConsecutiveFrames c.txId c.rest bs stMinMs c.opts
        receiveResponse c.txId c.rxId deadline c.opts : IsotpM (List UInt8))
          (mailbox clock answers) =
      (c.resume deadline (c.cleared bs stMinMs)
        (mailbox (clock + (c.cleared bs stMinMs).clock) answers)).after t ∧
      receivedFrames t = [] := by
  have hinstant : (mailbox clock answers).sends = [] := rfl
  have hs := sendConsecutiveFrames_times c.txId c.rest bs stMinMs c.opts hinstant
  rw [mailbox_paused] at hs
  refine ⟨_, ?_, receivedFrames_sentAt c.txId c.rest c.opts.padding stMinMs
    (mailbox clock answers) (List.range (blockLimit bs c.rest))⟩
  unfold cleared
  by_cases hb : bs ≠ 0 ∧ bs.toNat < cfCount c.rest
  · rw [sendOutcome, blocked, if_pos hb, if_pos hb] at hs
    rw [bind_halted hs, if_pos hb]
    rfl
  · rw [sendOutcome, blocked, if_neg hb, if_neg hb, List.append_nil] at hs
    rw [bind_done hs, if_neg hb]
    rfl

theorem resume_wait {waits : UInt8} (hc : 0 < deadline)
    (hid : frame.id = c.rxId)
    (hs : ¬ (c.answered (frame.data >>= flowControlData c.opts waits)).Stopped) :
    ∃ t, c.resume deadline (.waiting waits) (mailbox 0 (some frame :: answers)) =
        (c.resume deadline (c.answered (frame.data >>= flowControlData c.opts waits))
          (mailbox (c.answered (frame.data >>= flowControlData c.opts waits)).clock
            answers)).after t ∧
      receivedFrames t = [frame] := by
  rcases hd : frame.data with panic | data
  · rw [hd] at hs
    exact absurd trivial hs
  obtain ⟨hlen, rfl⟩ := frame.of_data_eq hd
  rw [hd, ok_bind] at hs
  rw [ok_bind]
  have hfits : Arrival.Fits c.rxId ⟨0, frame⟩ := ⟨hid, hlen⟩
  have hstep : waitStep c.rxId deadline c.opts waits (mailbox 0 (some frame :: answers)) =
      (attempt (flowControlData c.opts waits frame.payload) (mailbox 0 answers)).after
        [.received (some frame)] := waitStep_frame c.opts waits hc rfl hfits
  rcases hf : flowControlData c.opts waits frame.payload with
    panic | (err | (waits' | ⟨bs, st⟩)) <;>
    rw [hf] at hs hstep
  · exact absurd trivial hs
  · exact absurd trivial hs
  · rw [attempt_ok] at hstep
    have hloop : waitLoop c.rxId deadline c.opts waits (mailbox 0 (some frame :: answers)) =
        (waitLoop c.rxId deadline c.opts waits' (mailbox 0 answers)).after
          [.received (some frame)] := loop_continue waitStep_descends hstep
    have hrun : c.resume deadline (.waiting waits) (mailbox 0 (some frame :: answers)) =
        (c.resume deadline (.waiting waits') (mailbox 0 answers)).after [.received (some frame)] :=
      bind_after hloop _
    exact ⟨[.received (some frame)], hrun, rfl⟩
  · rw [attempt_ok] at hstep
    have hloop : waitLoop c.rxId deadline c.opts waits (mailbox 0 (some frame :: answers)) =
        ⟨.done (bs, st), mailbox 0 answers, [.received (some frame)]⟩ :=
      loop_exit waitStep_descends hstep
    obtain ⟨t, ht, hrec⟩ := resume_cleared (c := c) 0 deadline answers bs st
    refine ⟨.received (some frame) :: t, ?_, by rw [receivedFrames_some, hrec]⟩
    rw [Nat.zero_add] at ht
    rw [resume, bind_done hloop]
    exact (congrArg (Run.after [.received (some frame)]) ht).trans (Run.after_after _ _ _)

theorem resume_receive {slept : ℕ} {rx : Rx} (hw : rx.Waiting) (hc : slept < deadline)
    (hid : frame.id = c.rxId) (hs : ∀ h, rx.take frame ≠ .stopped h) :
    ∃ t, rx.resume c.txId c.rxId deadline c.opts (mailbox slept (some frame :: answers)) =
        ((rx.take frame).resume c.txId c.rxId deadline c.opts (mailbox slept answers)).after t ∧
      receivedFrames t = [frame] := by
  rcases hd : frame.data with panic | data
  · refine absurd ?_ (hs (.panicked panic))
    unfold Rx.take
    rw [hd]
    cases rx with
    | idle | collecting => rfl
    | accepted | stopped => exact hw.elim
  obtain ⟨hlen, rfl⟩ := frame.of_data_eq hd
  have hfits : Arrival.Fits c.rxId ⟨0, frame⟩ := ⟨hid, hlen⟩
  have hc' : (mailbox slept (some frame :: answers)).clock < deadline := hc
  have hrecvs : (mailbox slept (some frame :: answers)).recvs =
      Arrival.answer ⟨0, frame⟩ :: (mailbox slept answers).recvs := rfl
  have haccepts : (mailbox slept (some frame :: answers)).Accepts :=
    fun _ h => absurd h List.not_mem_nil
  obtain ⟨env', t, hrun, htook, hrec, -⟩ :=
    Rx.resume_frame c.txId c.opts hw hc' hrecvs haccepts hfits
  rw [hrun, htook.instant rfl, Rx.take_ok hd]
  exact ⟨t, rfl, hrec⟩

/-- A stage that waits skips what is no frame of the peer. -/
theorem resume_foreign {answer : Option Frame} (ha : Foreign c.rxId answer) (hw : p.Waiting)
    (hc : p.clock < deadline) :
    c.resume deadline p (mailbox p.clock (answer :: answers)) =
      (c.resume deadline p (mailbox p.clock answers)).after [.received answer] := by
  obtain ⟨f, hf⟩ := exists_recv (c := c) deadline hw
  have hrecvs : (mailbox p.clock (answer :: answers)).recvs =
      ⟨0, .ok answer⟩ :: (mailbox p.clock answers).recvs := rfl
  have hskip : recvWithId c.rxId deadline (mailbox p.clock (answer :: answers)) =
      (recvWithId c.rxId deadline (mailbox p.clock answers)).after [.received answer] :=
    recvWithId_skip hc hrecvs ha
  rw [hf, bind_after hskip]

/-- The next frame takes the code to the stage that the automaton computes. -/
theorem resume_step (answers : List (Option Frame)) (hw : p.Waiting) (hc : p.clock < deadline)
    (hs : ¬ (c.step p frame).Stopped) :
    ∃ t, c.resume deadline p (mailbox p.clock (some frame :: answers)) =
        (c.resume deadline (c.step p frame) (mailbox (c.step p frame).clock answers)).after t ∧
      receivedFrames t = [frame] := by
  by_cases hid : frame.id = c.rxId
  case neg =>
    have hforeign : Foreign c.rxId (some frame) := by
      intro frame' he
      cases he
      exact hid
    rw [step_foreign hid]
    exact ⟨_, resume_foreign hforeign hw hc, rfl⟩
  cases p with
  | waiting waits =>
    rw [step_waiting hid] at hs ⊢
    exact resume_wait hc hid hs
  | receiving slept rx =>
    rw [step_receiving hid] at hs ⊢
    refine resume_receive hw hc hid fun h he => hs ?_
    rw [he]
    trivial

/-- The code uses up datagrams that have arrived until the automaton needs no other. -/
theorem resume_steps (hc : (c.steps p answers.reduceOption).clock < deadline)
    (hs : ¬ (c.steps p answers.reduceOption).Stopped) :
    ∃ used left t, answers = used ++ left ∧
      c.resume deadline p (mailbox p.clock answers) =
        (c.resume deadline (c.steps p used.reduceOption)
          (mailbox (c.steps p used.reduceOption).clock left)).after t ∧
      receivedFrames t = used.reduceOption ∧
      ((c.steps p used.reduceOption).Waiting → left = []) := by
  induction answers generalizing p with
  | nil => exact ⟨[], [], [], rfl, rfl, rfl, fun _ => rfl⟩
  | cons answer answers ih =>
    by_cases hw : p.Waiting
    case neg => exact ⟨[], answer :: answers, [], rfl, rfl, rfl, fun h => absurd h hw⟩
    cases answer with
    | none =>
      rw [List.reduceOption_cons_of_none] at hc hs
      have hclock := Nat.lt_of_le_of_lt (clock_le_steps p answers.reduceOption) hc
      have hforeign : Foreign c.rxId none := by
        rintro frame ⟨⟩
      have hstep : c.resume deadline p (mailbox p.clock (none :: answers)) =
          (c.resume deadline p (mailbox p.clock answers)).after [.received none] :=
        resume_foreign hforeign hw hclock
      obtain ⟨used, left, u, rfl, hrun, hrec, hleft⟩ := ih hc hs
      refine ⟨none :: used, left, .received none :: u, rfl, ?_, hrec, hleft⟩
      rw [hstep, hrun, Run.after_after]
      rfl
    | some frame =>
      rw [List.reduceOption_cons_of_some, steps_cons] at hc hs
      have hclock := Nat.lt_of_le_of_lt (Nat.le_trans (clock_le_step p frame)
        (clock_le_steps (c.step p frame) answers.reduceOption)) hc
      obtain ⟨t, hstep, hrec⟩ := resume_step answers hw hclock (not_stopped_of_steps hs)
      obtain ⟨used, left, u, rfl, hrun, hrec', hleft⟩ := ih hc hs
      refine ⟨some frame :: used, left, t ++ u, rfl, ?_, ?_, hleft⟩
      · rw [hstep, hrun, Run.after_after]
        rfl
      · rw [receivedFrames_append, hrec, hrec']
        rfl

end Call

end Mcanbus.Isotp
