import Mcanbus.Isotp.Pci
import Mcanbus.Isotp.Receiver

/-! # The budget of Wait frames

The wait for a Flow Control counts Wait frames in a counter of eight bits and
compares it with a limit of the same width. The limit is exact below 255; at
255 the next Wait overflows the counter instead of ending the wait.
-/

namespace Mcanbus.Isotp

open Rust Effect Effect.Process

instance (data : List UInt8) : Decidable (IsWait data) :=
  match data with
  | [] => isFalse fun h => by
      obtain ⟨_, _, h, -⟩ := h
      cases h
  | pci :: rest =>
    decidable_of_iff (pci &&& pciTypeMask = pciFc ∧ pci &&& 0x0F = fcWait) <| by
      constructor
      · exact fun h => ⟨pci, rest, rfl, h⟩
      · rintro ⟨_, _, he, h⟩
        cases he
        exact h

/-- The frames among the arrivals that ask to wait. -/
def waitCount (arrivals : List Arrival) : ℕ :=
  arrivals.countP fun a => decide (IsWait a.frame.payload)

/-- The wait for a Flow Control after the given number of Wait frames. -/
def waitLoop (rxId : CanId) (deadline : ℕ) (opts : Options) (waits : UInt8) :
    IsotpM (UInt8 × UInt8) :=
  loop (fun _ env => env.recvs.length) (waitStep rxId deadline opts) waits

/-- An empty frame, or one that asks to wait. -/
def Delays (a : Arrival) : Prop := a.frame.payload = [] ∨ IsWait a.frame.payload

variable {rxId : CanId} {deadline : ℕ} {opts : Options} {env : Env} {a : Arrival}
  {recvs : List RecvAnswer} {waits : UInt8} {frames : List Arrival}

/-! ### One frame -/

section Step

variable (hc : env.clock < deadline) (hr : env.recvs = a.answer :: recvs) (ha : a.Fits rxId)

include hc hr ha

variable (opts waits) in
theorem waitStep_frame : waitStep rxId deadline opts waits env =
    (attempt (flowControlData opts waits a.frame.payload) (env.advance a.delay recvs)).after
      [.received (some a.frame)] := by
  unfold waitStep
  rw [bind_done (recvWithId_match hc hr ha.id_eq)]
  simp only [Frame.data_eq ha.len_le, liftM_eq, ofChecked_ok, Process.pure_bind]

/-- The wait goes on after a frame that changes the count only. -/
theorem waitLoop_continue {waits' : UInt8}
    (hd : flowControlData opts waits a.frame.payload = .ok (.ok (.inl waits'))) :
    waitLoop rxId deadline opts waits env =
      (waitLoop rxId deadline opts waits' (env.advance a.delay recvs)).after
        [.received (some a.frame)] := by
  have hs := waitStep_frame opts waits hc hr ha
  rw [hd, attempt_ok] at hs
  exact loop_continue waitStep_descends hs

theorem waitLoop_empty (he : a.frame.payload = []) :
    waitLoop rxId deadline opts waits env =
      (waitLoop rxId deadline opts waits (env.advance a.delay recvs)).after
        [.received (some a.frame)] :=
  waitLoop_continue hc hr ha (by rw [he, flowControlData_empty])

theorem waitLoop_wait (hw : IsWait a.frame.payload) (hm : waits.toNat < opts.maxWaits.toNat) :
    waitLoop rxId deadline opts waits env =
      (waitLoop rxId deadline opts (waits + 1) (env.advance a.delay recvs)).after
        [.received (some a.frame)] :=
  waitLoop_continue hc hr ha (flowControlData_wait_ok hw hm)

theorem waitLoop_limit (hw : IsWait a.frame.payload) (hm : waits.toNat = opts.maxWaits.toNat)
    (hlt : waits.toNat < 255) :
    waitLoop rxId deadline opts waits env =
      let err : IoError := .new .TimedOut
        s!"ECU sent more than {opts.maxWaits.toNat} Wait flow controls"
      ⟨.halted (.failed err), env.advance a.delay recvs,
        [.received (some a.frame), .raised err]⟩ := by
  have hadd : addU8 waits 1 = .ok (waits + 1) := addU8_eq (by change _ + 1 < 256; omega)
  have hgt : waits + 1 > opts.maxWaits := by
    simp only [gt_iff_lt, UInt8.lt_iff_toNat_lt, UInt8.toNat_add]
    change _ < (_ + 1) % 256
    omega
  have hs := waitStep_frame opts waits hc hr ha
  rw [flowControlData_wait hw, hadd, ok_bind, if_pos hgt] at hs
  exact loop_halted waitStep_descends hs

theorem waitLoop_overflow (hw : IsWait a.frame.payload) (hm : waits.toNat = 255) :
    waitLoop rxId deadline opts waits env =
      ⟨.halted (.panicked .overflow), env.advance a.delay recvs, [.received (some a.frame)]⟩ := by
  have hadd : addU8 waits 1 = .error .overflow := if_neg (by change ¬ _ + 1 < 256; omega)
  have hs := waitStep_frame opts waits hc hr ha
  rw [flowControlData_wait hw, hadd] at hs
  exact loop_halted waitStep_descends hs

theorem waitLoop_cts (hcts : IsClearToSend a.frame.payload) :
    waitLoop rxId deadline opts waits env =
      ⟨.done (ctsParams a.frame.payload), env.advance a.delay recvs,
        [.received (some a.frame)]⟩ := by
  have hs := waitStep_frame opts waits hc hr ha
  rw [flowControlData_cts hcts, attempt_ok] at hs
  exact loop_exit waitStep_descends hs

end Step

theorem waitLoop_expired (hc : deadline ≤ env.clock) :
    waitLoop rxId deadline opts waits env =
      let err : IoError := .new .TimedOut "timed out waiting for Flow Control"
      ⟨.halted (.failed err), env, [.expired, .raised err]⟩ := by
  apply loop_halted waitStep_descends
  unfold waitStep
  rw [bind_done (recvWithId_expired hc)]
  rfl

/-! ### Runs -/

@[simp] theorem waitCount_nil : waitCount [] = 0 := rfl

theorem waitCount_cons_wait (h : IsWait a.frame.payload) :
    waitCount (a :: frames) = waitCount frames + 1 :=
  List.countP_cons_of_pos (decide_eq_true h)

theorem waitCount_cons_empty (h : a.frame.payload = []) :
    waitCount (a :: frames) = waitCount frames := by
  apply List.countP_cons_of_neg
  rw [decide_eq_true_eq, h]
  rintro ⟨_, _, he, -⟩
  cases he

/-- Within the limit, the wait goes on after a frame with the frame counted. -/
theorem waitLoop_delays (hc : env.clock < deadline) (hr : env.recvs = a.answer :: recvs)
    (ha : a.Fits rxId) (hd : Delays a)
    (hm : waits.toNat + waitCount (a :: frames) ≤ opts.maxWaits.toNat) :
    ∃ waits', waitLoop rxId deadline opts waits env =
        (waitLoop rxId deadline opts waits' (env.advance a.delay recvs)).after
          [.received (some a.frame)] ∧
      waits'.toNat + waitCount frames = waits.toNat + waitCount (a :: frames) := by
  rcases hd with he | hw
  · exact ⟨waits, waitLoop_empty hc hr ha he, by rw [waitCount_cons_empty he]⟩
  · rw [waitCount_cons_wait hw] at hm ⊢
    have hlt := opts.maxWaits.toNat_lt
    have hsucc : (waits + 1).toNat = waits.toNat + 1 := by
      rw [UInt8.toNat_add]
      change (_ + 1) % 256 = _
      omega
    exact ⟨waits + 1, waitLoop_wait hc hr ha hw (by omega), by omega⟩

/-- Within the limit, the wait goes on after the frames with all of them counted. -/
theorem waitLoop_run (hd : ∀ a ∈ frames, Delays a) (ha : ∀ a ∈ frames, a.Fits rxId)
    (hr : env.recvs = frames.map Arrival.answer ++ recvs)
    (hc : env.clock + (frames.map Arrival.delay).sum < deadline)
    (hm : waits.toNat + waitCount frames ≤ opts.maxWaits.toNat) :
    ∃ waits', waitLoop rxId deadline opts waits env =
        (waitLoop rxId deadline opts waits'
          (env.advance (frames.map Arrival.delay).sum recvs)).after
          (frames.map fun a => .received (some a.frame)) ∧
      waits'.toNat = waits.toNat + waitCount frames := by
  induction frames generalizing env waits with
  | nil =>
    have hadv : env.advance (([] : List Arrival).map Arrival.delay).sum recvs = env :=
      Env.advance_zero hr
    refine ⟨waits, ?_, rfl⟩
    rw [hadv]
    rfl
  | cons a frames ih =>
    obtain ⟨hda, hds⟩ := List.forall_mem_cons.mp hd
    obtain ⟨haa, has⟩ := List.forall_mem_cons.mp ha
    rw [List.map_cons, List.sum_cons, ← Nat.add_assoc] at hc
    have hr' : env.recvs = a.answer :: (frames.map Arrival.answer ++ recvs) := hr
    have hclock : env.clock < deadline := by omega
    obtain ⟨waits₁, hrun₁, hcount₁⟩ := waitLoop_delays hclock hr' haa hda hm
    obtain ⟨waits', hrun, hcount⟩ :=
      @ih (env.advance a.delay (frames.map Arrival.answer ++ recvs)) waits₁ hds has rfl hc
        (Nat.le_trans (Nat.le_of_eq hcount₁) hm)
    refine ⟨waits', ?_, hcount.trans hcount₁⟩
    rw [hrun₁, hrun, Run.after_after, Env.advance_advance]
    rfl

/-- The deadline passes before all of the frames were read. -/
theorem waitLoop_late (hd : ∀ a ∈ frames, Delays a) (ha : ∀ a ∈ frames, a.Fits rxId)
    (hr : env.recvs = frames.map Arrival.answer ++ recvs)
    (hc : deadline ≤ env.clock + (frames.map Arrival.delay).sum)
    (hm : waits.toNat + waitCount frames ≤ opts.maxWaits.toNat) :
    ∃ message env' t, waitLoop rxId deadline opts waits env =
        ⟨.halted (.failed (.new .TimedOut message)), env', t⟩ ∧ sentFrames t = [] := by
  induction frames generalizing env waits with
  | nil => exact ⟨_, _, _, waitLoop_expired hc, rfl⟩
  | cons a frames ih =>
    obtain ⟨hda, hds⟩ := List.forall_mem_cons.mp hd
    obtain ⟨haa, has⟩ := List.forall_mem_cons.mp ha
    rw [List.map_cons, List.sum_cons, ← Nat.add_assoc] at hc
    rcases Nat.lt_or_ge env.clock deadline with hclock | hclock
    · have hr' : env.recvs = a.answer :: (frames.map Arrival.answer ++ recvs) := hr
      obtain ⟨waits₁, hrun₁, hcount₁⟩ := waitLoop_delays hclock hr' haa hda hm
      obtain ⟨message, env', t, hrun, hsent⟩ :=
        @ih (env.advance a.delay (frames.map Arrival.answer ++ recvs)) waits₁ hds has rfl hc
          (Nat.le_trans (Nat.le_of_eq hcount₁) hm)
      refine ⟨message, env', .received (some a.frame) :: t, ?_, hsent⟩
      rw [hrun₁, hrun]
      rfl
    · exact ⟨_, _, _, waitLoop_expired hclock, rfl⟩

/-- The frames up to the Wait frame that follows the given number of others. -/
theorem exists_wait {n : ℕ} (hd : ∀ a ∈ frames, Delays a) (hn : n < waitCount frames) :
    ∃ before wait after, frames = before ++ wait :: after ∧ waitCount before = n ∧
      IsWait wait.frame.payload := by
  induction frames generalizing n with
  | nil => exact absurd hn (Nat.not_lt_zero n)
  | cons a frames ih =>
    obtain ⟨hda, hds⟩ := List.forall_mem_cons.mp hd
    rcases hda with he | hw
    · rw [waitCount_cons_empty he] at hn
      obtain ⟨before, wait, after, rfl, hb, hw⟩ := ih hds hn
      exact ⟨a :: before, wait, after, rfl, by rw [waitCount_cons_empty he, hb], hw⟩
    · rw [waitCount_cons_wait hw] at hn
      cases n with
      | zero => exact ⟨[], a, frames, rfl, rfl, hw⟩
      | succ n =>
        obtain ⟨before, wait, after, rfl, hb, hw'⟩ := ih hds (Nat.lt_of_succ_lt_succ hn)
        exact ⟨a :: before, wait, after, rfl, by rw [waitCount_cons_wait hw, hb], hw'⟩

/-! ### The budget -/

theorem receivedFrames_arrivals (arrivals : List Arrival) :
    receivedFrames (arrivals.map fun a => .received (some a.frame)) =
      arrivals.map Arrival.frame := by
  induction arrivals with
  | nil => rfl
  | cons a arrivals ih => rw [List.map_cons, receivedFrames_some, ih, List.map_cons]

/-- Frames that delay the sender, and a frame that clears it. -/
structure Clearance (rxId : CanId) (frames : List Arrival) (cts : Arrival)
    (later : List RecvAnswer) (env : Env) : Prop where
  recvs : env.recvs = frames.map Arrival.answer ++ (cts.answer :: later)
  fits : ∀ a ∈ frames, a.Fits rxId
  delays : ∀ a ∈ frames, Delays a
  cts_fits : cts.Fits rxId
  clears : IsClearToSend cts.frame.payload

/-- The frame that clears the sender is awaited before the deadline. -/
structure Flow (rxId : CanId) (deadline : ℕ) (frames : List Arrival) (cts : Arrival)
    (later : List RecvAnswer) (env : Env) : Prop extends
    Clearance rxId frames cts later env where
  inTime : env.clock + (frames.map Arrival.delay).sum < deadline

/-- The limit is exact: that many Wait frames are tolerated, the next one ends the wait without
reading further, and the counter does not overflow. -/
structure BudgetExact (maxWaits : UInt8) (frames : List Arrival) (cts : Arrival)
    (later : List RecvAnswer) (run : Run Env IoError Event (UInt8 × UInt8)) : Prop where
  tolerated : waitCount frames ≤ maxWaits.toNat →
    run.outcome = .done (ctsParams cts.frame.payload) ∧ run.state.recvs = later
  exceeded : maxWaits.toNat < waitCount frames →
    ∃ before wait after message, frames = before ++ wait :: after ∧
      waitCount before = maxWaits.toNat ∧ IsWait wait.frame.payload ∧
      run.outcome = .halted (.failed (.new .TimedOut message)) ∧
      receivedFrames run.trace = (before ++ [wait]).map Arrival.frame ∧
      run.state.recvs = after.map Arrival.answer ++ (cts.answer :: later)
  no_overflow : run.outcome ≠ .halted (.panicked .overflow)

variable {cts : Arrival} {later : List RecvAnswer}

theorem waitForFc_def : waitForFc rxId deadline opts = waitLoop rxId deadline opts 0 := rfl

/-- Within the limit, the wait ends with the frame that clears the sender. -/
theorem Flow.waitForFc_eq (h : Flow rxId deadline frames cts later env)
    (hk : waitCount frames ≤ opts.maxWaits.toNat) :
    waitForFc rxId deadline opts env = ⟨.done (ctsParams cts.frame.payload),
      env.advance ((frames.map Arrival.delay).sum + cts.delay) later,
      (frames.map fun a => .received (some a.frame)) ++ [.received (some cts.frame)]⟩ := by
  have hm : (0 : UInt8).toNat + waitCount frames ≤ opts.maxWaits.toNat := by
    change 0 + _ ≤ _
    omega
  obtain ⟨waits', hrun, -⟩ := waitLoop_run h.delays h.fits h.recvs h.inTime hm
  rw [waitForFc_def, hrun, waitLoop_cts h.inTime rfl h.cts_fits h.clears, Env.advance_advance]
  rfl

theorem Flow.waitForFc_tolerated (h : Flow rxId deadline frames cts later env)
    (hk : waitCount frames ≤ opts.maxWaits.toNat) :
    (waitForFc rxId deadline opts env).outcome = .done (ctsParams cts.frame.payload) ∧
      (waitForFc rxId deadline opts env).state.recvs = later := by
  rw [h.waitForFc_eq hk]
  exact ⟨rfl, rfl⟩

/-- Within the limit, the wait for a frame that comes too late ends with the deadline. -/
theorem Clearance.waitForFc_late (h : Clearance rxId frames cts later env)
    (hk : waitCount frames ≤ opts.maxWaits.toNat)
    (hc : deadline ≤ env.clock + (frames.map Arrival.delay).sum) :
    ∃ message env' t, waitForFc rxId deadline opts env =
        ⟨.halted (.failed (.new .TimedOut message)), env', t⟩ ∧ sentFrames t = [] := by
  have hm : (0 : UInt8).toNat + waitCount frames ≤ opts.maxWaits.toNat := by
    change 0 + _ ≤ _
    omega
  exact waitLoop_late h.delays h.fits h.recvs hc hm

/-- The run up to the Wait frame that finds the limit reached. -/
theorem Flow.exists_exceeded (h : Flow rxId deadline frames cts later env)
    (hk : opts.maxWaits.toNat < waitCount frames) :
    ∃ before wait after waits env' t, frames = before ++ wait :: after ∧
      waitCount before = opts.maxWaits.toNat ∧ IsWait wait.frame.payload ∧
      waitForFc rxId deadline opts env = (waitLoop rxId deadline opts waits env').after t ∧
      waits.toNat = opts.maxWaits.toNat ∧ wait.Fits rxId ∧ env'.clock < deadline ∧
      env'.recvs = wait.answer :: (after.map Arrival.answer ++ (cts.answer :: later)) ∧
      receivedFrames t = before.map Arrival.frame := by
  obtain ⟨before, wait, after, rfl, hb, hw⟩ := exists_wait h.delays hk
  have hfit := h.fits
  have hdel := h.delays
  have htime := h.inTime
  simp only [List.forall_mem_append, List.forall_mem_cons] at hfit hdel
  simp only [List.map_append, List.sum_append] at htime
  have hr : env.recvs = before.map Arrival.answer ++
      (wait.answer :: (after.map Arrival.answer ++ (cts.answer :: later))) := by
    rw [h.recvs]
    simp
  have hm : (0 : UInt8).toNat + waitCount before ≤ opts.maxWaits.toNat := by
    change 0 + _ ≤ _
    omega
  have hc : env.clock + (before.map Arrival.delay).sum < deadline := by omega
  obtain ⟨waits', hrun, hcount⟩ := waitLoop_run hdel.1 hfit.1 hr hc hm
  have hwaits : waits'.toNat = opts.maxWaits.toNat := by
    rw [hcount, hb]
    exact Nat.zero_add _
  refine ⟨before, wait, after, waits', _, _, rfl, hb, hw, hrun, hwaits, hfit.2.1, hc, rfl, ?_⟩
  exact receivedFrames_arrivals before

/-- At the limit of 255 the next Wait frame overflows the counter. -/
theorem Flow.waitForFc_overflow (h : Flow rxId deadline frames cts later env)
    (hm : opts.maxWaits.toNat = 255) (hk : 255 < waitCount frames) :
    (waitForFc rxId deadline opts env).outcome = .halted (.panicked .overflow) := by
  obtain ⟨before, wait, after, waits, env', t, -, -, hw, hrun, hwaits, hfit, hc, hr, -⟩ :=
    h.exists_exceeded (hm ▸ hk)
  rw [hrun, waitLoop_overflow hc hr hfit hw (hwaits.trans hm)]
  rfl

/-- Below the limit of 255 the Wait frame past the limit ends the wait. -/
theorem Flow.waitForFc_exceeded (h : Flow rxId deadline frames cts later env)
    (hm : opts.maxWaits.toNat < 255) (hk : opts.maxWaits.toNat < waitCount frames) :
    BudgetExact opts.maxWaits frames cts later (waitForFc rxId deadline opts env) := by
  obtain ⟨before, wait, after, waits, env', t, hf, hb, hw, hrun, hwaits, hfit, hc, hr, hrec⟩ :=
    h.exists_exceeded hk
  rw [waitLoop_limit hc hr hfit hw hwaits (by omega)] at hrun
  rw [hrun]
  refine ⟨fun hle => absurd hle (Nat.not_le.mpr hk), fun _ => ?_, nofun⟩
  refine ⟨before, wait, after, _, hf, hb, hw, rfl, ?_, rfl⟩
  rw [Run.trace_after, receivedFrames_append, hrec, List.map_append]
  rfl

/-- The budget of Wait frames is exact if and only if the limit is below 255 or the Wait frames
are at most 255. -/
theorem waitForFc_budget_iff {rxId : CanId} {deadline : ℕ} {frames : List Arrival} {cts : Arrival}
    {later : List RecvAnswer} {env : Env} (opts : Options)
    (h : Flow rxId deadline frames cts later env) :
    BudgetExact opts.maxWaits frames cts later (waitForFc rxId deadline opts env) ↔
      opts.maxWaits < 255 ∨ waitCount frames ≤ 255 := by
  have hlt := opts.maxWaits.toNat_lt
  have h255 : opts.maxWaits < 255 ↔ opts.maxWaits.toNat < 255 := UInt8.lt_iff_toNat_lt
  rw [h255]
  rcases Nat.lt_or_ge opts.maxWaits.toNat (waitCount frames) with hk | hk
  · by_cases hm : opts.maxWaits.toNat < 255
    · exact ⟨fun _ => .inl hm, fun _ => h.waitForFc_exceeded hm hk⟩
    · constructor
      · intro hexact
        exact absurd (h.waitForFc_overflow (by omega) (by omega)) hexact.no_overflow
      · omega
  · have hdone := h.waitForFc_tolerated hk
    refine ⟨fun _ => .inr (by omega), fun _ => ⟨fun _ => hdone, fun hgt => ?_, ?_⟩⟩
    · exact absurd hgt (Nat.not_lt.mpr hk)
    · rw [hdone.1]
      exact nofun

/-! ### Concrete runs -/

def emptyArrival : Arrival := ⟨1, classicFrame (.standard 0x7E8) []⟩

def waitArrival : Arrival := ⟨1, classicFrame (.standard 0x7E8) [0x31, 0, 0]⟩

def ctsArrival : Arrival := ⟨1, classicFrame (.standard 0x7E8) [0x30, 4, 20]⟩

/-- The frames and a frame that clears to send arrive, each after one nanosecond. -/
def flowEnv (frames : List Arrival) : Env :=
  ⟨0, frames.map Arrival.answer ++ [ctsArrival.answer], [], []⟩

theorem delays_waitArrival : Delays waitArrival := .inr ⟨0x31, [0, 0], rfl, rfl, rfl⟩

theorem clears_ctsArrival : IsClearToSend ctsArrival.frame.payload :=
  ⟨0x30, [4, 20], rfl, rfl, rfl⟩

theorem flow_emptyWait :
    Flow (.standard 0x7E8) 1000 [emptyArrival, waitArrival] ctsArrival []
      (flowEnv [emptyArrival, waitArrival]) where
  recvs := rfl
  inTime := by decide
  fits := List.forall_mem_cons.mpr ⟨⟨rfl, by decide⟩,
    List.forall_mem_singleton.mpr ⟨rfl, by decide⟩⟩
  delays := List.forall_mem_cons.mpr ⟨.inl rfl, List.forall_mem_singleton.mpr delays_waitArrival⟩
  cts_fits := ⟨rfl, by decide⟩
  clears := clears_ctsArrival

theorem waitForFc_budget_iff_emptyWait :
    BudgetExact (default : Options).maxWaits [emptyArrival, waitArrival] ctsArrival []
        (waitForFc (.standard 0x7E8) 1000 default (flowEnv [emptyArrival, waitArrival])) ↔
      (default : Options).maxWaits < 255 ∨ waitCount [emptyArrival, waitArrival] ≤ 255 :=
  waitForFc_budget_iff default flow_emptyWait

theorem waitCount_replicate (k : ℕ) : waitCount (List.replicate k waitArrival) = k := by
  induction k with
  | zero => rfl
  | succ k ih =>
    have hw : IsWait waitArrival.frame.payload := ⟨0x31, [0, 0], rfl, rfl, rfl⟩
    rw [List.replicate_succ, waitCount_cons_wait hw, ih]

theorem flow_replicate (k : ℕ) :
    Flow (.standard 0x7E8) (k + 1) (List.replicate k waitArrival) ctsArrival []
      (flowEnv (List.replicate k waitArrival)) where
  recvs := rfl
  inTime := by
    simp only [List.map_replicate, List.sum_replicate_nat]
    change 0 + k * 1 < k + 1
    omega
  fits := fun a ha => List.eq_of_mem_replicate ha ▸ ⟨rfl, by decide⟩
  delays := fun a ha => List.eq_of_mem_replicate ha ▸ delays_waitArrival
  cts_fits := ⟨rfl, by decide⟩
  clears := clears_ctsArrival

/-- With a limit of 255 the counter overflows on the 256th Wait frame. -/
theorem not_budgetExact_allWaits :
    let waits := List.replicate 256 waitArrival
    let opts : Options := { (default : Options) with maxWaits := 255 }
    Flow (.standard 0x7E8) 257 waits ctsArrival [] (flowEnv waits) ∧
      ¬ BudgetExact opts.maxWaits waits ctsArrival []
        (waitForFc (.standard 0x7E8) 257 opts (flowEnv waits)) := by
  have hk : 255 < waitCount (List.replicate 256 waitArrival) := by
    rw [waitCount_replicate]
    decide
  refine ⟨flow_replicate 256, fun h => h.no_overflow ?_⟩
  exact (flow_replicate 256).waitForFc_overflow rfl hk

end Mcanbus.Isotp
