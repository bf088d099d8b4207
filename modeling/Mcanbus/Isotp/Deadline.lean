import Mcanbus.Isotp.Reassembly
import Mcanbus.Isotp.Transmit
import Mcanbus.Isotp.WaitBudget

/-! # The deadline of a segmented request

The loop that sends Consecutive Frames does not look at the clock: the time of
each frame follows from the separation time and the sleeps before it. The
deadline bounds the frames if and only if it bounds the last of them.
-/

namespace Mcanbus.Isotp

open Rust Effect Effect.Process

variable {txId rxId : CanId} {deadline i n : ℕ} {opts : Options} {env : Env}
  {payload rest : List UInt8} {bs stMinMs : UInt8}

/-! ### The times of Consecutive Frames -/

/-- The time that the given number of sleeps between Consecutive Frames takes. -/
def pause (stMinMs : UInt8) (oversleeps : List ℕ) (n : ℕ) : ℕ :=
  if stMinMs > 0 then n * (stMinMs.toNat * 1000000) + (oversleeps.take n).sum else 0

/-- The environment after the given number of sleeps between Consecutive Frames. -/
def Env.paused (env : Env) (stMinMs : UInt8) (n : ℕ) : Env :=
  { env with
    clock := env.clock + pause stMinMs env.oversleeps n
    oversleeps := if stMinMs > 0 then env.oversleeps.drop n else env.oversleeps }

theorem Env.paused_zero (env : Env) (stMinMs : UInt8) : env.paused stMinMs 0 = env := by
  unfold Env.paused pause
  simp

theorem Env.paused_of_not (env : Env) (h : ¬ stMinMs > 0) : env.paused stMinMs n = env := by
  unfold Env.paused pause
  simp only [if_neg h, Nat.add_zero]

theorem sum_take_succ (l : List ℕ) (n : ℕ) :
    (l.take (n + 1)).sum = (l.take n).sum + (l.drop n).headD 0 := by
  induction l generalizing n with
  | nil => simp
  | cons a l ih =>
    cases n with
    | zero => simp
    | succ n =>
      rw [List.take_succ_cons, List.sum_cons, ih, List.take_succ_cons, List.sum_cons,
        List.drop_succ_cons, Nat.add_assoc]

theorem sleep_paused (env : Env) (h : stMinMs > 0) (n : ℕ) :
    sleep (stMinMs.toNat * 1000000) (env.paused stMinMs n) =
      ⟨.done (), env.paused stMinMs (n + 1), []⟩ := by
  unfold sleep Env.paused pause
  simp only [if_pos h, sum_take_succ, List.tail_drop]
  congr 2
  rw [Nat.succ_mul]
  omega

theorem pause_mono (stMinMs : UInt8) (oversleeps : List ℕ) {m : ℕ} (h : n ≤ m) :
    pause stMinMs oversleeps n ≤ pause stMinMs oversleeps m := by
  induction h with
  | refl => exact Nat.le_refl _
  | step _ ih =>
    refine Nat.le_trans ih ?_
    unfold pause
    split
    · simp only [sum_take_succ, Nat.succ_mul]
      omega
    · exact Nat.le_refl _

/-- The event that sends the Consecutive Frame at the given position. -/
def sentAt (txId : CanId) (rest : List UInt8) (padding stMinMs : UInt8) (env : Env) (i : ℕ) :
    Event :=
  .sent (env.clock + pause stMinMs env.oversleeps i)
    (classicFrame txId (consecutiveFrame rest padding i))

theorem send_instant (hs : env.sends = []) (frame : Frame) :
    send frame env = ⟨.done (), env, [.sent env.clock frame]⟩ := by
  unfold send
  rw [hs]

/-- What follows the last Consecutive Frame that is sent. -/
def blocked (bs : UInt8) (rest : List UInt8) : List Event :=
  if bs ≠ 0 ∧ bs.toNat < cfCount rest then [.raised blockSizeError] else []

/-- One iteration sends its frame at the time that the sleeps before it give. -/
theorem sendStep_paused (txId : CanId) (stMinMs : UInt8) (opts : Options) (hs : env.sends = [])
    (hi : i < cfCount rest) (hb : bs ≠ 0 → i < bs.toNat) :
    sendStep txId rest bs stMinMs opts (.sent rest i) (env.paused stMinMs i) =
      if bs ≠ 0 ∧ bs.toNat = i + 1 ∧ i + 1 < cfCount rest then
        ⟨.halted (.failed blockSizeError), env.paused stMinMs i,
          [sentAt txId rest opts.padding stMinMs env i, .raised blockSizeError]⟩
      else
        ⟨.done (.inl (.sent rest (i + 1))),
          if i + 1 < cfCount rest then env.paused stMinMs (i + 1) else env.paused stMinMs i,
          [sentAt txId rest opts.padding stMinMs env i]⟩ := by
  have hs' : (env.paused stMinMs i).sends = [] := hs
  have hsend : send (classicFrame txId (consecutiveFrame rest opts.padding i))
      (env.paused stMinMs i) = ⟨.done (), env.paused stMinMs i,
        [sentAt txId rest opts.padding stMinMs env i]⟩ := send_instant hs' _
  rw [sendStep_eq hi, bind_done hsend]
  simp only [blockCount_eq_iff hb]
  split
  · rfl
  by_cases hst : stMinMs > 0
  · by_cases hn : i + 1 < cfCount rest
    · rw [if_pos ⟨hst, hn⟩, bind_done (sleep_paused env hst i), if_pos hn]
      rfl
    · rw [if_neg (fun h => hn h.2), if_neg hn]
      rfl
  · rw [if_neg (fun h => hst h.1), Env.paused_of_not env hst, Env.paused_of_not env hst, ite_self]
    rfl

/-- The loop that sends Consecutive Frames, from any of its iterations on, with the times. -/
theorem sendLoop_times (txId : CanId) (stMinMs : UInt8) (opts : Options) (hs : env.sends = [])
    (hi : i < cfCount rest) (hb : bs ≠ 0 → i < bs.toNat) :
    loop (fun s _ => rest.length - s.offset) (sendStep txId rest bs stMinMs opts)
        (.sent rest i) (env.paused stMinMs i) =
      ⟨sendOutcome bs rest, env.paused stMinMs (blockLimit bs rest - 1),
        (List.range' i (blockLimit bs rest - i)).map
          (sentAt txId rest opts.padding stMinMs env) ++ blocked bs rest⟩ := by
  have hl : blockLimit bs rest ≤ cfCount rest := blockLimit_le
  induction h : cfCount rest - i generalizing i with
  | zero => omega
  | succ k ih =>
    have hstep := sendStep_paused txId stMinMs opts hs hi hb
    rw [range'_blockLimit hi hb, List.map_cons]
    by_cases hstop : bs ≠ 0 ∧ bs.toNat = i + 1 ∧ i + 1 < cfCount rest
    · rw [if_pos hstop] at hstep
      obtain ⟨h0, hbs, hn⟩ := hstop
      have hlim : blockLimit bs rest = i + 1 := by
        unfold blockLimit
        rw [if_neg h0]
        omega
      have hgo : bs ≠ 0 ∧ bs.toNat < cfCount rest := ⟨h0, by omega⟩
      rw [loop_halted sendStep_descends hstep, sendOutcome, blocked, if_pos hgo, if_pos hgo, hlim,
        Nat.sub_self]
      rfl
    · rw [if_neg hstop] at hstep
      rw [loop_continue sendStep_descends hstep]
      rcases Nat.lt_or_ge (i + 1) (cfCount rest) with hn | hn
      · have hb' : bs ≠ 0 → i + 1 < bs.toNat := by
          intro h0
          have hne : ¬ (bs.toNat = i + 1 ∧ i + 1 < cfCount rest) := fun hc => hstop ⟨h0, hc⟩
          have := hb h0
          omega
        rw [if_pos hn, ih hn hb' (by omega)]
        rfl
      · have hlim : blockLimit bs rest = i + 1 := by
          have := lt_blockLimit hi hb
          omega
        have hgo : ¬ (bs ≠ 0 ∧ bs.toNat < cfCount rest) := by
          rintro ⟨h0, hlt⟩
          have := hb h0
          omega
        rw [if_neg (Nat.not_lt.mpr hn), loop_eq sendStep_descends, sendStep_exit hn, sendOutcome,
          blocked, if_neg hgo, if_neg hgo, hlim, Nat.sub_self]
        rfl

/-- Without bytes there is nothing to send. -/
theorem sendConsecutiveFrames_nil (txId : CanId) (bs stMinMs : UInt8) (opts : Options) (env : Env) :
    sendConsecutiveFrames txId [] bs stMinMs opts env = ⟨.done (), env, []⟩ := by
  rw [sendConsecutiveFrames, ← SendState.sent_zero [], loop_eq sendStep_descends,
    sendStep_exit (Nat.le_refl 0)]
  rfl

/-- The send path of Consecutive Frames over a socket that accepts them at once. -/
theorem sendConsecutiveFrames_times (txId : CanId) (rest : List UInt8) (bs stMinMs : UInt8)
    (opts : Options) (hs : env.sends = []) :
    sendConsecutiveFrames txId rest bs stMinMs opts env =
      ⟨sendOutcome bs rest, env.paused stMinMs (blockLimit bs rest - 1),
        (List.range (blockLimit bs rest)).map (sentAt txId rest opts.padding stMinMs env) ++
          blocked bs rest⟩ := by
  by_cases hr : rest = []
  case pos =>
    subst hr
    have hb : ¬ (bs ≠ 0 ∧ bs.toNat < cfCount []) := fun h => Nat.not_lt_zero _ h.2
    have hlim : blockLimit bs [] = 0 := Nat.le_zero.mp blockLimit_le
    rw [sendConsecutiveFrames_nil, sendOutcome, blocked, if_neg hb, if_neg hb, hlim,
      Env.paused_zero]
    rfl
  have hpos : 0 < cfCount rest := lt_cfCount.mpr (List.length_pos_iff.mpr hr)
  have hb : bs ≠ 0 → 0 < bs.toNat := UInt8.pos_iff_ne_zero.mpr
  have h := sendLoop_times txId stMinMs opts hs hpos hb
  simp only [Env.paused_zero, SendState.sent_zero] at h
  rw [sendConsecutiveFrames, h, List.range_eq_range', Nat.sub_zero]

/-! ### A request that is cleared to send -/

/-- The frame has the type of a Consecutive Frame. -/
def isConsecutive (frame : Frame) : Bool :=
  match frame.payload with
  | [] => false
  | pci :: _ => pci &&& pciTypeMask = pciCf

theorem isConsecutive_consecutiveFrame (txId : CanId) (rest : List UInt8) (padding : UInt8)
    (i : ℕ) : isConsecutive (classicFrame txId (consecutiveFrame rest padding i)) = true := by
  have hl : (consecutiveFrame rest padding i).length = frameDlc :=
    length_padded (Nat.succ_le_succ length_chunk_le)
  have hn := Nat.mod_lt (i + 1) (by decide : 0 < 16)
  unfold isConsecutive
  rw [Frame.payload_ofPayload (by rw [hl]; decide)]
  exact decide_eq_true (cf_pci hn).1

theorem isConsecutive_firstFrame (txId : CanId) (hl : sfMaxLen < payload.length)
    (hm : payload.length ≤ maxFfLength) :
    isConsecutive (classicFrame txId (firstFrame payload)) = false := by
  have hfirst := (isFirst_firstFrame hl hm).type_eq
  have hlen : (firstFrame payload).length ≤ maxFdDataLen := by
    have h6 : (payload.take ffFirstPayload).length ≤ ffFirstPayload := List.length_take_le _ _
    exact Nat.le_trans (Nat.succ_le_succ (Nat.succ_le_succ h6)) (by decide)
  unfold isConsecutive
  rw [Frame.payload_ofPayload hlen]
  apply decide_eq_false
  rw [hfirst]
  decide

theorem isConsecutive_flowControl (txId : CanId) (opts : Options) :
    isConsecutive (flowControl txId opts) = false := by
  unfold isConsecutive
  rw [payload_flowControl]
  rfl

/-- The ECU answers the First Frame with frames that delay the sender within its limit and a frame
that clears it; the socket accepts at once what is sent. -/
structure Obeys (rxId : CanId) (opts : Options) (frames : List Arrival) (cts : Arrival)
    (later : List RecvAnswer) (env : Env) : Prop extends
    Clearance rxId frames cts later env where
  budget : waitCount frames ≤ opts.maxWaits.toNat
  instant : env.sends = []

/-- No Consecutive Frame is sent after the deadline; a request that sends fewer of them than the
ECU has cleared times out instead. -/
structure MeetsDeadline (deadline cleared : ℕ) (run : Run Env IoError Event (List UInt8)) :
    Prop where
  inTime : ∀ time frame, .sent time frame ∈ run.trace → isConsecutive frame = true →
    time ≤ deadline
  timedOut : ((sentFrames run.trace).filter isConsecutive).length < cleared →
    ∃ message, run.outcome = .halted (.failed (.new .TimedOut message))

variable {frames : List Arrival} {cts : Arrival} {later : List RecvAnswer}

/-- When the First Frame was sent, the request waits for the Flow Control. -/
theorem request_waits (txId rxId : CanId) (hs : env.sends = [])
    (hl : sfMaxLen < payload.length) (hm : payload.length ≤ maxFfLength)
    (ht : env.clock + opts.timeout < 2 ^ 63 * 10 ^ 9) :
    request txId rxId payload opts env =
      ((do
        let (bs, stMinMs) ← waitForFc rxId (env.clock + opts.timeout) opts
        sendConsecutiveFrames txId (payload.drop ffFirstPayload) bs stMinMs opts
        receiveResponse txId rxId (env.clock + opts.timeout) opts : IsotpM (List UInt8)) env).after
          [.sent env.clock (classicFrame txId (firstFrame payload))] := by
  have h0 : payload ≠ [] := List.ne_nil_of_length_pos (Nat.zero_lt_of_lt hl)
  have hadd : addDuration env.clock opts.timeout = .ok (env.clock + opts.timeout) := if_pos ht
  rw [request_eq txId rxId opts h0 hm, hadd, ofChecked_ok, Process.pure_bind,
    exchange_segmented txId rxId _ opts hl hm, bind_done (send_instant hs _)]

/-- A request that is cleared too late times out. -/
theorem request_late (txId : CanId) (h : Obeys rxId opts frames cts later env)
    (hl : sfMaxLen < payload.length) (hm : payload.length ≤ maxFfLength)
    (ht : env.clock + opts.timeout < 2 ^ 63 * 10 ^ 9)
    (hc : env.clock + opts.timeout ≤ env.clock + (frames.map Arrival.delay).sum) :
    MeetsDeadline (env.clock + opts.timeout) n (request txId rxId payload opts env) := by
  obtain ⟨message, env', t, hrun, hsent⟩ := h.toClearance.waitForFc_late h.budget hc
  rw [request_waits txId rxId h.instant hl hm ht, bind_halted hrun]
  constructor
  · intro time frame hm' hcf
    rcases List.mem_cons.mp hm' with he | hmem
    · obtain ⟨rfl, rfl⟩ := Event.sent.inj he
      exact Nat.le_add_right _ _
    · have hmem' : frame ∈ sentFrames t := mem_sentFrames.mpr ⟨time, hmem⟩
      rw [hsent] at hmem'
      exact absurd hmem' List.not_mem_nil
  · exact fun _ => ⟨message, rfl⟩

theorem sentFrames_arrivals (arrivals : List Arrival) :
    sentFrames (arrivals.map fun a => .received (some a.frame)) = [] := by
  induction arrivals with
  | nil => rfl
  | cons a arrivals ih => rw [List.map_cons, sentFrames_received, ih]

/-- Every Consecutive Frame is sent when the block size does not end the send path. -/
theorem blockLimit_of_not (h : ¬ (bs ≠ 0 ∧ bs.toNat < cfCount rest)) :
    blockLimit bs rest = cfCount rest := by
  unfold blockLimit
  split
  case isTrue => rfl
  case isFalse h0 => exact Nat.min_eq_left (Nat.not_lt.mp fun hlt => h ⟨h0, hlt⟩)

/-- The frames sent after the Consecutive Frames are Flow Controls. -/
theorem sentFrames_after {u w : List Event} {events : List Event} {time : ℕ}
    (hl : sfMaxLen < payload.length)
    (ht : (request txId rxId payload opts env).trace =
      .sent time (classicFrame txId (firstFrame payload)) :: (w ++ (events ++ u)))
    (hw : sentFrames w = [])
    (he : sentFrames events =
      (consecutiveFrames (payload.drop ffFirstPayload) opts.padding).map (classicFrame txId)) :
    ∀ frame ∈ sentFrames u, frame = flowControl txId opts := by
  have hpre := sentFrames_request txId rxId payload opts env
  rw [ht, sentFrames_sent, sentFrames_append, hw, List.nil_append, sentFrames_append, he, script,
    segmentation_long hl, List.cons_append, List.cons_prefix_cons,
    List.prefix_append_right_inj] at hpre
  exact fun frame hf => List.mem_singleton.mp (hpre.2.subset hf)

theorem sentFrames_sentAt (txId : CanId) (rest : List UInt8) (padding stMinMs : UInt8) (env : Env)
    (l : List ℕ) : sentFrames (l.map (sentAt txId rest padding stMinMs env)) =
      l.map fun i => classicFrame txId (consecutiveFrame rest padding i) := by
  induction l with
  | nil => rfl
  | cons i l ih =>
    rw [List.map_cons, sentAt, sentFrames_sent, ih]
    rfl

/-- The Consecutive Frames of a request that is cleared in time, and what follows them. -/
theorem request_cleared (txId : CanId) (h : Obeys rxId opts frames cts later env)
    (hl : sfMaxLen < payload.length) (hm : payload.length ≤ maxFfLength)
    (ht : env.clock + opts.timeout < 2 ^ 63 * 10 ^ 9)
    (hc : env.clock + (frames.map Arrival.delay).sum < env.clock + opts.timeout) :
    let rest := payload.drop ffFirstPayload
    let params := ctsParams cts.frame.payload
    let cleared := env.advance ((frames.map Arrival.delay).sum + cts.delay) later
    ∃ w u, (request txId rxId payload opts env).trace =
        .sent env.clock (classicFrame txId (firstFrame payload)) :: (w ++
          ((List.range (blockLimit params.1 rest)).map
            (sentAt txId rest opts.padding params.2 cleared) ++ u)) ∧
      sentFrames w = [] ∧ ∀ frame ∈ sentFrames u, frame = flowControl txId opts := by
  intro rest params cleared
  let w : List Event :=
    frames.map (fun a => .received (some a.frame)) ++ [.received (some cts.frame)]
  have hw : sentFrames w = [] := by
    rw [sentFrames_append, sentFrames_arrivals]
    rfl
  have hwait := (Flow.mk h.toClearance hc).waitForFc_eq h.budget
  have hrun := request_waits txId rxId h.instant hl hm ht
  rw [bind_done hwait, Run.after_after] at hrun
  have hrun' : request txId rxId payload opts env =
      ((sendConsecutiveFrames txId rest params.1 params.2 opts >>= fun _ =>
        receiveResponse txId rxId (env.clock + opts.timeout) opts) cleared).after
        (.sent env.clock (classicFrame txId (firstFrame payload)) :: w) := hrun
  have hinstant : cleared.sends = [] := h.instant
  have hsend := sendConsecutiveFrames_times txId rest params.1 params.2 opts hinstant
  by_cases hb : params.1 ≠ 0 ∧ params.1.toNat < cfCount rest
  · rw [sendOutcome, blocked, if_pos hb, if_pos hb] at hsend
    rw [bind_halted hsend] at hrun'
    refine ⟨w, [.raised blockSizeError], ?_, hw, fun _ hf => absurd hf List.not_mem_nil⟩
    rw [hrun']
    rfl
  · rw [sendOutcome, blocked, if_neg hb, if_neg hb, List.append_nil] at hsend
    rw [bind_done hsend, Run.after_after] at hrun'
    have htrace := congrArg Run.trace hrun'
    simp only [Run.trace_after, List.append_assoc] at htrace
    refine ⟨w, _, htrace, hw, sentFrames_after hl htrace hw ?_⟩
    rw [sentFrames_sentAt, blockLimit_of_not hb, consecutiveFrames, List.map_map]
    rfl

theorem blockLimit_pos (bs : UInt8) (hr : rest ≠ []) : 0 < blockLimit bs rest := by
  have hpos : 0 < cfCount rest := lt_cfCount.mpr (List.length_pos_iff.mpr hr)
  exact lt_blockLimit hpos UInt8.pos_iff_ne_zero.mpr

section Trace

variable {padding : UInt8} {time : ℕ} {w u : List Event} {run : Run Env IoError Event (List UInt8)}
  (ht : run.trace = .sent time (classicFrame txId (firstFrame payload)) ::
    (w ++ ((List.range n).map (sentAt txId rest padding stMinMs env) ++ u)))
  (hw : sentFrames w = []) (hu : ∀ frame ∈ sentFrames u, frame = flowControl txId opts)

include ht

/-- All of the Consecutive Frames were sent. -/
theorem length_consecutive : n ≤ ((sentFrames run.trace).filter isConsecutive).length := by
  have hall : ((List.range n).map fun i =>
      classicFrame txId (consecutiveFrame rest padding i)).filter isConsecutive =
        (List.range n).map fun i => classicFrame txId (consecutiveFrame rest padding i) := by
    rw [List.filter_eq_self]
    intro frame hf
    obtain ⟨i, -, rfl⟩ := List.mem_map.mp hf
    exact isConsecutive_consecutiveFrame txId rest padding i
  have hsub : ((List.range n).map fun i =>
      classicFrame txId (consecutiveFrame rest padding i)).Sublist
        ((sentFrames run.trace).filter isConsecutive) := by
    rw [← hall, ht, sentFrames_sent, sentFrames_append, sentFrames_append, sentFrames_sentAt]
    apply List.Sublist.filter
    apply List.Sublist.cons
    exact (List.sublist_append_left _ _).trans (List.sublist_append_right _ _)
  have hlen := hsub.length_le
  rwa [List.length_map, List.length_range] at hlen

include hw hu

/-- A Consecutive Frame in the trace is one of those of the loop. -/
theorem consecutive_mem (hl : sfMaxLen < payload.length) (hm : payload.length ≤ maxFfLength)
    {frame : Frame} {time' : ℕ} (he : .sent time' frame ∈ run.trace)
    (hc : isConsecutive frame = true) :
    ∃ i < n, time' = env.clock + pause stMinMs env.oversleeps i := by
  rw [ht] at he
  rcases List.mem_cons.mp he with he | he
  · obtain ⟨-, rfl⟩ := Event.sent.inj he
    rw [isConsecutive_firstFrame txId hl hm] at hc
    cases hc
  rcases List.mem_append.mp he with he | he
  · have hmem := mem_sentFrames.mpr ⟨time', he⟩
    rw [hw] at hmem
    exact absurd hmem List.not_mem_nil
  rcases List.mem_append.mp he with he | he
  · obtain ⟨i, hi, he⟩ := List.mem_map.mp he
    exact ⟨i, List.mem_range.mp hi, (Event.sent.inj he).1.symm⟩
  · rw [hu frame (mem_sentFrames.mpr ⟨time', he⟩), isConsecutive_flowControl] at hc
    cases hc

/-- The deadline bounds the frames if and only if it bounds the last of them. -/
theorem meetsDeadline_iff (hl : sfMaxLen < payload.length) (hm : payload.length ≤ maxFfLength)
    (hn : 0 < n) : MeetsDeadline deadline n run ↔
      env.clock + pause stMinMs env.oversleeps (n - 1) ≤ deadline := by
  constructor
  · intro h
    apply h.inTime _ _ _ (isConsecutive_consecutiveFrame txId rest padding (n - 1))
    rw [ht]
    apply List.mem_cons_of_mem
    apply List.mem_append_right
    apply List.mem_append_left
    exact List.mem_map_of_mem (List.mem_range.mpr (Nat.sub_lt hn Nat.one_pos))
  · intro h
    constructor
    · intro time' frame he hc
      obtain ⟨i, hi, rfl⟩ := consecutive_mem ht hw hu hl hm he hc
      have hmono := pause_mono stMinMs env.oversleeps (Nat.le_sub_one_of_lt hi)
      omega
    · exact fun hlt => absurd hlt (Nat.not_lt.mpr (length_consecutive ht))

end Trace

/-- The deadline of a request bounds its Consecutive Frames if and only if it can be represented,
and the ECU clears the sender too late or early enough for the last of them. -/
theorem request_meetsDeadline_iff (txId : CanId) {rxId : CanId} {payload : List UInt8}
    {opts : Options} {frames : List Arrival} {cts : Arrival} {later : List RecvAnswer} {env : Env}
    (hl : sfMaxLen < payload.length) (hm : payload.length ≤ maxFfLength)
    (h : Obeys rxId opts frames cts later env) :
    let deadline := env.clock + opts.timeout
    let params := ctsParams cts.frame.payload
    let cleared := blockLimit params.1 (payload.drop ffFirstPayload)
    let wait := (frames.map Arrival.delay).sum
    MeetsDeadline deadline cleared (request txId rxId payload opts env) ↔
      deadline < 2 ^ 63 * 10 ^ 9 ∧ (deadline ≤ env.clock + wait ∨
        env.clock + (wait + cts.delay) + pause params.2 env.oversleeps (cleared - 1) ≤
          deadline) := by
  intro deadline params cleared wait
  have hrest : payload.drop ffFirstPayload ≠ [] := by
    rw [← List.length_pos_iff, List.length_drop]
    exact Nat.sub_pos_of_lt (Nat.lt_trans (by decide) hl)
  have hpos : 0 < cleared := blockLimit_pos params.1 hrest
  by_cases ht : deadline < 2 ^ 63 * 10 ^ 9
  · rcases Nat.lt_or_ge (env.clock + wait) deadline with hc | hc
    · obtain ⟨w, u, htrace, hw, hu⟩ := request_cleared txId h hl hm ht hc
      rw [meetsDeadline_iff htrace hw hu hl hm hpos]
      constructor
      · exact fun hle => ⟨ht, .inr hle⟩
      · rintro ⟨-, hle | hle⟩
        · omega
        · exact hle
    · exact iff_of_true (request_late txId h hl hm ht hc) ⟨ht, .inl hc⟩
  · refine iff_of_false ?_ (fun hf => ht hf.1)
    intro hmeets
    have h0 : payload ≠ [] := List.ne_nil_of_length_pos (Nat.zero_lt_of_lt hl)
    have hadd : addDuration env.clock opts.timeout = .error .overflow := if_neg ht
    have hrun : request txId rxId payload opts env = ⟨.halted (.panicked .overflow), env, []⟩ := by
      rw [request_eq txId rxId opts h0 hm, hadd]
      rfl
    obtain ⟨message, ho⟩ := hmeets.timedOut (by rw [hrun]; exact hpos)
    rw [hrun] at ho
    cases ho

theorem obeys_emptyWait : Obeys (.standard 0x7E8) default [emptyArrival, waitArrival] ctsArrival []
    (flowEnv [emptyArrival, waitArrival]) where
  toClearance := flow_emptyWait.toClearance
  budget := by decide
  instant := rfl

theorem request_meetsDeadline_iff_twentyBytes :
    MeetsDeadline 1000000000 2 (request (.standard 0x7E0) (.standard 0x7E8) twentyBytes default
        (flowEnv [emptyArrival, waitArrival])) ↔
      1000000000 < 2 ^ 63 * 10 ^ 9 ∧ (1000000000 ≤ 2 ∨ 3 + 20000000 ≤ 1000000000) := by
  have hl : sfMaxLen < twentyBytes.length := by decide
  have hm : twentyBytes.length ≤ maxFfLength := by decide
  exact request_meetsDeadline_iff (.standard 0x7E0) hl hm obeys_emptyWait

/-- A Flow Control with the longest separation time. -/
def slowArrival : Arrival := ⟨0, classicFrame (.standard 0x7E8) [0x30, 0, 0x7F]⟩

def slowEnv : Env := ⟨0, [slowArrival.answer], [], []⟩

theorem obeys_slowEnv : Obeys (.standard 0x7E8) default [] slowArrival [] slowEnv where
  recvs := rfl
  fits := fun _ h => absurd h List.not_mem_nil
  delays := fun _ h => absurd h List.not_mem_nil
  cts_fits := ⟨rfl, by decide⟩
  clears := ⟨0x30, [0, 0x7F], rfl, rfl, rfl⟩
  budget := by decide
  instant := rfl

/-- Fourteen Consecutive Frames at a distance of 127 milliseconds do not fit in one second. -/
theorem not_meetsDeadline_slowArrival :
    let payload : List UInt8 := List.replicate 100 0
    Obeys (.standard 0x7E8) default [] slowArrival [] slowEnv ∧
      ¬ MeetsDeadline (default : Options).timeout
        (blockLimit (ctsParams slowArrival.frame.payload).1 (payload.drop ffFirstPayload))
        (request (.standard 0x7E0) (.standard 0x7E8) payload default slowEnv) := by
  intro payload
  have hl : sfMaxLen < payload.length := by decide
  have hm : payload.length ≤ maxFfLength := by decide
  refine ⟨obeys_slowEnv, ?_⟩
  obtain ⟨w, u, htrace, hw, hu⟩ := request_cleared (.standard 0x7E0) obeys_slowEnv hl hm (by decide)
    (by decide)
  rw [meetsDeadline_iff htrace hw hu hl hm (by decide)]
  decide

end Mcanbus.Isotp
