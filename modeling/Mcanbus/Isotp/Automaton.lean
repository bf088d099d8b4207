import Mcanbus.Isotp.Stale
import Mcanbus.Isotp.Foreign

/-! # A request as a reactive automaton

The stages of a request together with the frames that it transmits in answer to
each frame. Over a socket that accepts what is sent, the code ends and transmits
as the automaton does on the answers of the socket, unless the deadline passes:
then it times out, and it has transmitted what the automaton transmits first.
-/

namespace Mcanbus.Isotp

open Rust Effect Effect.Process

/-- How a request ends that is left in the stage. -/
def Stage.verdict : Stage → Outcome IoError (List UInt8)
  | .receiving _ (.accepted payload) => .done payload
  | .receiving _ (.stopped h) => .halted h
  | _ => .halted .pending

instance (p : Stage) : Decidable p.Waiting :=
  match p with
  | .waiting _ | .receiving _ .idle | .receiving _ (.collecting ..) => isTrue trivial
  | .receiving _ (.accepted _) | .receiving _ (.stopped _) => isFalse id

theorem Stage.not_waiting_stopped {slept : ℕ} {h : Halt IoError} :
    ¬ (receiving slept (.stopped h)).Waiting := id

namespace Call

variable (c : Call)

/-- The frames of the payload. -/
def segmented : List Frame := segmentation c.txId c.payload c.opts

/-- The frame that opens a request. -/
def opening : List Frame := c.segmented.take 1

/-- The Consecutive Frames that follow a Flow Control with the block size. -/
def block (bs : UInt8) : List Frame :=
  ((consecutiveFrames c.rest c.opts.padding).take (blockLimit bs c.rest)).map (classicFrame c.txId)

/-- The frames that are transmitted in answer to a frame with the given data. -/
def answers : Stage → List UInt8 → List Frame
  | .waiting waits, data =>
    match flowControlData c.opts waits data with
    | .ok (.ok (.inr (bs, _))) => c.block bs
    | _ => []
  | .receiving _ rx, data => rx.replies c.txId c.opts data

/-- The frames that are transmitted in answer to a frame. -/
def emits (p : Stage) (frame : Frame) : List Frame :=
  if frame.id = c.rxId then
    match frame.data with
    | .ok data => c.answers p data
    | .error _ => []
  else []

/-- What is transmitted first, before the rest of a request. -/
def sending (out : List Frame) (r : Outcome IoError (List UInt8) × List Frame) :
    Outcome IoError (List UInt8) × List Frame := (r.1, out ++ r.2)

/-- How the request ends on the answers of the socket, and what it transmits on the way. -/
def replay (p : Stage) : List (Except IoError (Option Frame)) →
    Outcome IoError (List UInt8) × List Frame
  | [] => (p.verdict, [])
  | answer :: answers =>
    if p.Waiting then
      match answer with
      | .error err => (.halted (.failed err), [])
      | .ok none => replay p answers
      | .ok (some frame) => sending (c.emits p frame) (replay (c.step p frame) answers)
    else (p.verdict, [])

/-- How a request ends that starts at the time with the answers of the socket, and what it
transmits. -/
def behaviour (clock : ℕ) (answers : List (Except IoError (Option Frame))) :
    Outcome IoError (List UInt8) × List Frame :=
  if c.payload = [] then (.halted (.failed (.new .InvalidInput "payload must not be empty")), [])
  else if maxFfLength < c.payload.length then
    (.halted (.failed (.new .InvalidInput
      s!"payload {c.payload.length} bytes exceeds 12-bit FF length cap (4095)")), [])
  else
    match addDuration clock c.opts.timeout with
    | .error p => (.halted (.panicked p), [])
    | .ok _ => sending c.opening (c.replay c.start answers)

/-- The run ends and transmits as the automaton, or times out on the way. -/
inductive Follows (r : Outcome IoError (List UInt8) × List Frame)
    (run : Run Env IoError Event (List UInt8)) : Prop
  | inTime : run.outcome = r.1 → sentFrames run.trace = r.2 → Follows r run
  | expired (message : String) : .expired ∈ run.trace →
      run.outcome = .halted (.failed (.new .TimedOut message)) →
      sentFrames run.trace <+: r.2 → Follows r run

variable {c} {p : Stage} {frame : Frame} {env env' : Env} {deadline : ℕ} {t : List Event}
  {r : Outcome IoError (List UInt8) × List Frame}
  {run : Run Env IoError Event (List UInt8)} {out : List Frame}

/-- Nothing is transmitted first. -/
theorem Follows.quiet (h : Follows r run) (ht : sentFrames t = []) : Follows r (run.after t) := by
  have hs : sentFrames (run.after t).trace = sentFrames run.trace := by
    rw [Run.trace_after, sentFrames_append, ht, List.nil_append]
  cases h with
  | inTime ho hr => exact .inTime ho (hs.trans hr)
  | expired message hx ho hr => exact .expired message (List.mem_append_right t hx) ho (hs ▸ hr)

theorem Follows.after (h : Follows r run) (ht : sentFrames t = out) :
    Follows (sending out r) (run.after t) := by
  cases h with
  | inTime ho hs =>
    refine .inTime ho ?_
    rw [Run.trace_after, sentFrames_append, ht, hs]
    rfl
  | expired message hx ho hs =>
    refine .expired message (List.mem_append_right t hx) ho ?_
    rw [Run.trace_after, sentFrames_append, ht]
    exact (List.prefix_append_right_inj out).mpr hs

theorem emits_ok {data : List UInt8} (hid : frame.id = c.rxId) (hd : frame.data = .ok data) :
    c.emits p frame = c.answers p data := by
  rw [emits, if_pos hid, hd]

theorem replay_ended (hw : ¬ p.Waiting) (answers : List (Except IoError (Option Frame))) :
    c.replay p answers = (p.verdict, []) := by
  cases answers with
  | nil => rfl
  | cons answer answers => exact if_neg hw

section Replay

variable (hw : p.Waiting) (answers : List (Except IoError (Option Frame)))

include hw

theorem replay_error (err : IoError) :
    c.replay p (.error err :: answers) = (.halted (.failed err), []) := if_pos hw

theorem replay_none : c.replay p (.ok none :: answers) = c.replay p answers := if_pos hw

theorem replay_some (frame : Frame) : c.replay p (.ok (some frame) :: answers) =
    sending (c.emits p frame) (c.replay (c.step p frame) answers) := if_pos hw

/-- Timeouts and foreign frames make no difference. -/
theorem replay_foreign {answer : Option Frame} (h : Foreign c.rxId answer) :
    c.replay p (.ok answer :: answers) = c.replay p answers := by
  cases answer with
  | none => exact replay_none hw answers
  | some frame =>
    have hid : frame.id ≠ c.rxId := h frame rfl
    rw [replay_some hw, step_foreign hid, emits, if_neg hid]
    rfl

theorem verdict_waiting : p.verdict = .halted .pending := by
  cases p with
  | waiting => rfl
  | receiving slept rx =>
    cases rx with
    | idle | collecting => rfl
    | accepted | stopped => exact hw.elim

end Replay

/-! ### The stages and the code -/

/-- A stage that waits starts with the wait for a frame. It times out without one, and a frame
that cannot be read is a panic. -/
theorem exists_recv_cases (c : Call) (deadline : ℕ) (hw : p.Waiting) :
    ∃ f message, c.resume deadline p = recvWithId c.rxId deadline >>= f ∧
      f none = raise (.new .TimedOut message) ∧
      ∀ frame panic, frame.data = .error panic → f (some frame) = halt (.panicked panic) [] := by
  cases p with
  | waiting waits =>
    rw [resume, waitLoop, loop_eq waitStep_descends, waitStep, Process.bind_assoc,
      Process.bind_assoc]
    refine ⟨_, _, rfl, rfl, fun frame panic hd => ?_⟩
    simp only [hd]
    rfl
  | receiving slept rx =>
    cases rx with
    | idle =>
      refine ⟨_, _, rfl, rfl, fun frame panic hd => ?_⟩
      simp only [hd]
      rfl
    | collecting total s hs =>
      rw [resume, Rx.resume, collect, loop_eq collectStep_descends, collectStep, if_pos hs,
        Process.bind_assoc]
      refine ⟨_, _, rfl, rfl, fun frame panic hd => ?_⟩
      simp only [hd]
      rfl
    | accepted => exact hw.elim
    | stopped => exact hw.elim

/-- A stage that needs no other frame ends the request. -/
theorem resume_ended (hw : ¬ p.Waiting) : Follows (p.verdict, []) (c.resume deadline p env) := by
  cases p with
  | waiting => exact absurd trivial hw
  | receiving slept rx =>
    cases rx with
    | idle | collecting => exact absurd trivial hw
    | accepted payload => exact .inTime rfl rfl
    | stopped h => cases h <;> exact .inTime rfl rfl

/-- The code follows the automaton from every stage on the answers that are left. -/
def FollowsOn (c : Call) (deadline : ℕ) (recvs : List RecvAnswer) : Prop :=
  ∀ p env, env.recvs = recvs → env.Accepts →
    Follows (c.replay p (recvs.map RecvAnswer.outcome)) (c.resume deadline p env)

variable {recvs : List RecvAnswer} {d : ℕ}

/-- After the Flow Control the request sends a block and waits for a response. -/
theorem follows_block (h : c.FollowsOn deadline recvs) (he : env.Accepts) (hr : env.recvs = recvs)
    (bs stMinMs : UInt8) :
    Follows (sending (c.block bs)
      (c.replay (c.cleared bs stMinMs) (recvs.map RecvAnswer.outcome))) ((do
        sendConsecutiveFrames c.txId c.rest bs stMinMs c.opts
        receiveResponse c.txId c.rxId deadline c.opts : IsotpM (List UInt8)) env) := by
  obtain ⟨env', t, hs, he', ht⟩ := sendConsecutiveFrames_eq c.txId c.rest bs stMinMs c.opts he
  by_cases hb : bs ≠ 0 ∧ bs.toNat < cfCount c.rest
  · have hstopped : c.cleared bs stMinMs = .receiving (pause stMinMs [] (blockLimit bs c.rest - 1))
        (.stopped (.failed blockSizeError)) := by
      unfold cleared
      rw [if_pos hb]
    rw [sendOutcome, if_pos hb] at hs
    rw [bind_halted hs, hstopped, replay_ended Stage.not_waiting_stopped, sending, List.append_nil]
    exact .inTime rfl ht
  · rw [sendOutcome, if_neg hb] at hs
    obtain ⟨-, hrecvs, -⟩ := sendConsecutiveFrames_done hs
    have hresume : c.resume deadline (c.cleared bs stMinMs) =
        receiveResponse c.txId c.rxId deadline c.opts := by
      unfold cleared
      rw [if_neg hb]
      rfl
    rw [bind_done hs, ← hresume]
    exact (h _ env' (hrecvs.trans hr) he').after ht

section Frame

variable (h : c.FollowsOn deadline recvs) (hc : env.clock < deadline)
  (hr : env.recvs = ⟨d, .ok (some frame)⟩ :: recvs) (he : env.Accepts) (hid : frame.id = c.rxId)

include hc hr hid

/-- A frame that cannot be read ends the request with a panic. -/
theorem follows_panic (hw : p.Waiting) {panic : Panic} (hd : frame.data = .error panic) :
    Follows (sending (c.emits p frame) (c.replay (c.step p frame) (recvs.map RecvAnswer.outcome)))
      (c.resume deadline p env) := by
  obtain ⟨f, -, hf, -, hpanic⟩ := exists_recv_cases c deadline hw
  have hstep : ∃ slept, c.step p frame = .receiving slept (.stopped (.panicked panic)) := by
    cases p with
    | waiting waits => exact ⟨0, by rw [step_waiting hid, hd]; rfl⟩
    | receiving slept rx =>
      refine ⟨slept, ?_⟩
      rw [step_receiving hid, Rx.take, hd]
      cases rx with
      | idle | collecting => rfl
      | accepted | stopped => exact hw.elim
  obtain ⟨slept, hstep⟩ := hstep
  rw [hstep, replay_ended Stage.not_waiting_stopped, emits, if_pos hid, hd, hf,
    bind_done (recvWithId_match hc hr hid), hpanic frame panic hd]
  exact .inTime rfl rfl

include h he

theorem follows_waiting (waits : UInt8) {data : List UInt8} (hd : frame.data = .ok data) :
    Follows (sending (c.emits (.waiting waits) frame)
      (c.replay (c.step (.waiting waits) frame) (recvs.map RecvAnswer.outcome)))
      (c.resume deadline (.waiting waits) env) := by
  have he' : (env.advance d recvs).Accepts := he
  have hstep : waitStep c.rxId deadline c.opts waits env =
      (attempt (flowControlData c.opts waits data) (env.advance d recvs)).after
        [.received (some frame)] := by
    unfold waitStep
    rw [bind_done (recvWithId_match hc hr hid)]
    simp only [hd, liftM_eq, ofChecked_ok, Process.pure_bind]
  rw [step_waiting hid, emits, if_pos hid, resume, waitLoop, hd]
  simp only [answers, ok_bind]
  rcases hf : flowControlData c.opts waits data with panic | (err | (waits' | ⟨bs, stMinMs⟩)) <;>
    rw [hf] at hstep
  · rw [bind_halted (loop_halted waitStep_descends hstep)]
    exact (replay_ended (c := c) Stage.not_waiting_stopped _) ▸ .inTime rfl rfl
  · rw [bind_halted (loop_halted waitStep_descends hstep)]
    exact (replay_ended (c := c) Stage.not_waiting_stopped _) ▸ .inTime rfl rfl
  · rw [bind_after (loop_continue waitStep_descends hstep)]
    exact (h (.waiting waits') _ rfl he').quiet rfl
  · rw [bind_done (loop_exit waitStep_descends hstep)]
    exact (follows_block h he' rfl bs stMinMs).quiet rfl

theorem follows_receiving (slept : ℕ) {rx : Rx} (hw : rx.Waiting) {data : List UInt8}
    (hd : frame.data = .ok data) :
    Follows (sending (c.emits (.receiving slept rx) frame)
      (c.replay (c.step (.receiving slept rx) frame) (recvs.map RecvAnswer.outcome)))
      (c.resume deadline (.receiving slept rx) env) := by
  rw [step_receiving hid, Rx.take_ok hd, emits, if_pos hid, hd]
  obtain ⟨hlen, rfl⟩ := frame.of_data_eq hd
  have hfits : Arrival.Fits c.rxId ⟨d, frame⟩ := ⟨hid, hlen⟩
  obtain ⟨env', t, hrun, htook, -, hsent⟩ :=
    Rx.resume_frame (a := ⟨d, frame⟩) c.txId c.opts hw hc hr he hfits
  rw [resume, hrun]
  exact (h (.receiving slept _) env' htook.recvs htook.accepts).after hsent

theorem follows_frame (hw : p.Waiting) :
    Follows (sending (c.emits p frame) (c.replay (c.step p frame) (recvs.map RecvAnswer.outcome)))
      (c.resume deadline p env) := by
  cases hd : frame.data with
  | error panic => exact follows_panic hc hr hid hw hd
  | ok data =>
    cases p with
    | waiting waits => exact follows_waiting h hc hr he hid waits hd
    | receiving slept rx => exact follows_receiving h hc hr he hid slept hw hd

end Frame

/-- The code follows the automaton from every stage. -/
theorem resume_follows (c : Call) (deadline : ℕ) (recvs : List RecvAnswer) :
    c.FollowsOn deadline recvs := by
  induction recvs with
  | nil =>
    intro p env hr he
    by_cases hw : p.Waiting
    case neg => exact resume_ended hw
    obtain ⟨f, message, hf, hnone, -⟩ := exists_recv_cases c deadline hw
    rw [hf]
    rcases Nat.lt_or_ge env.clock deadline with hc | hc
    · rw [bind_halted (recvWithId_pending hc hr)]
      exact .inTime (verdict_waiting hw).symm rfl
    · rw [bind_done (recvWithId_expired hc), hnone]
      exact .expired message List.mem_cons_self rfl List.nil_prefix
  | cons a recvs ih =>
    intro p env hr he
    by_cases hw : p.Waiting
    case neg =>
      rw [replay_ended hw]
      exact resume_ended hw
    obtain ⟨f, message, hf, hnone, -⟩ := exists_recv_cases c deadline hw
    rcases Nat.lt_or_ge env.clock deadline with hc | hc
    case inr =>
      rw [hf, bind_done (recvWithId_expired hc), hnone]
      exact .expired message List.mem_cons_self rfl List.nil_prefix
    obtain ⟨d, outcome⟩ := a
    rw [List.map_cons]
    rcases outcome with err | answer
    · rw [hf, bind_halted (recvWithId_error hc hr), replay_error hw]
      exact .inTime rfl rfl
    by_cases hforeign : Foreign c.rxId answer
    · have hskip : c.resume deadline p env =
          (c.resume deadline p (env.advance d recvs)).after [.received answer] := by
        rw [hf]
        exact bind_after (recvWithId_skip hc hr hforeign) f
      rw [hskip, replay_foreign hw _ hforeign]
      exact (ih p (env.advance d recvs) rfl he).quiet (t := [.received answer]) rfl
    · obtain ⟨frame, rfl, hid⟩ := not_foreign_iff.mp hforeign
      rw [replay_some hw]
      exact follows_frame ih hc hr he hid hw

/-- A request opens with the first frame of its payload. -/
theorem run_opening (hv : c.Valid) (he : env.Accepts)
    (ht : env.clock + c.opts.timeout < 2 ^ 63 * 10 ^ 9) :
    ∃ env' t, c.run env = (c.resume (env.clock + c.opts.timeout) c.start env').after t ∧
      env'.recvs = env.recvs ∧ env'.Accepts ∧ sentFrames t = c.opening := by
  have hadd : addDuration env.clock c.opts.timeout = .ok (env.clock + c.opts.timeout) := if_pos ht
  unfold run start opening segmented
  rw [request_eq c.txId c.rxId c.opts hv.1 hv.2, hadd, ofChecked_ok, Process.pure_bind]
  rcases Nat.lt_or_ge sfMaxLen c.payload.length with hl | hl
  · obtain ⟨env', time, hs, he'⟩ := send_accepts he (classicFrame c.txId (firstFrame c.payload))
    rw [exchange_segmented c.txId c.rxId _ c.opts hl hv.2, bind_done hs,
      if_neg (Nat.not_le.mpr hl), segmentation_long hl]
    exact ⟨env', _, rfl, (send_done hs).2.1, he', rfl⟩
  · obtain ⟨env', time, hs, he'⟩ :=
      send_accepts he (classicFrame c.txId (singleFrame c.payload c.opts.padding))
    rw [exchange_single c.txId c.rxId _ c.opts hl, bind_done hs, if_pos hl, segmentation, segments,
      if_pos hl]
    exact ⟨env', _, rfl, (send_done hs).2.1, he', rfl⟩

/-- Over a socket that accepts what is sent, a request ends and transmits as its automaton does
on the answers of the socket, or the deadline passes on the way and it times out. -/
theorem run_follows (hv : c.Valid) (he : env.Accepts)
    (ht : env.clock + c.opts.timeout < 2 ^ 63 * 10 ^ 9) :
    Follows (sending c.opening (c.replay c.start (env.recvs.map RecvAnswer.outcome)))
      (c.run env) := by
  obtain ⟨env', t, hrun, hr, he', hsent⟩ := run_opening hv he ht
  rw [hrun, ← hr]
  exact (resume_follows c _ _ c.start env' rfl he').after hsent

/-- Over a socket that accepts what is sent, every request ends and transmits as its automaton
says for the answers of the socket, or the deadline passes and it times out on the way. -/
theorem request_refines (c : Call) (env : Env) (he : env.Accepts) :
    Follows (c.behaviour env.clock (env.recvs.map RecvAnswer.outcome)) (c.run env) := by
  unfold behaviour
  split
  case isTrue h0 =>
    unfold run request
    rw [if_pos (List.isEmpty_iff.mpr h0)]
    exact .inTime rfl rfl
  case isFalse h0 =>
    split
    case isTrue hm =>
      unfold run request
      rw [if_neg (fun h => h0 (List.isEmpty_iff.mp h)), if_pos hm]
      exact .inTime rfl rfl
    case isFalse hm =>
      have hv : c.Valid := ⟨h0, Nat.not_lt.mp hm⟩
      cases hadd : addDuration env.clock c.opts.timeout with
      | ok deadline =>
        refine run_follows hv he ?_
        by_contra hlt
        rw [addDuration, if_neg hlt] at hadd
        exact nomatch hadd
      | error p =>
        unfold run
        rw [request_eq c.txId c.rxId c.opts hv.1 hv.2, hadd]
        exact .inTime rfl rfl

/-- The response comes after a Wait frame of another ECU. -/
theorem request_refines_testerPresent :
    let env : Env := ⟨10, [queued (classicFrame (.standard 0x7E9) [0x31, 0, 0]),
      queued lateResponse], [], []⟩
    env.Accepts ∧ Follows (testerPresent.behaviour env.clock (env.recvs.map RecvAnswer.outcome))
      (testerPresent.run env) :=
  ⟨nofun, request_refines testerPresent _ nofun⟩

end Call

end Mcanbus.Isotp
