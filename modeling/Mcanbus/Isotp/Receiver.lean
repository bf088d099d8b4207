import Mcanbus.Isotp.Pci
import Mcanbus.Isotp.Receive
import Mcanbus.Isotp.Segmentation

/-! # The receiver as an automaton

The states that the reception of a response passes through, and the frame that
takes one to the next. Run on frames that arrive before the deadline, the code
is in the state that the automaton computes from their data.
-/

namespace Mcanbus.Isotp

open Rust Effect Effect.Process

/-- The states of the reception of a response. -/
inductive Rx where
  | idle
  | collecting (total : ℕ) (s : CollectState) (short : s.out.length < total)
  | accepted (payload : List UInt8)
  | stopped (h : Halt IoError)

namespace Rx

/-- The state at the head of the loop that collects Consecutive Frames. -/
def settle (total : ℕ) (s : CollectState) : Rx :=
  if h : s.out.length < total then .collecting total s h else .accepted s.out

theorem settle_collecting {total : ℕ} {s : CollectState} (h : s.out.length < total) :
    settle total s = .collecting total s h := dif_pos h

theorem settle_accepted {total : ℕ} {s : CollectState} (h : total ≤ s.out.length) :
    settle total s = .accepted s.out := dif_neg (Nat.not_lt.mpr h)

/-- The state after a frame with the given data. -/
def feed : Rx → List UInt8 → Rx
  | .idle, data =>
    match responseData data with
    | .ok (.ok (.single payload)) => .accepted payload
    | .ok (.ok (.first total out)) => settle total ⟨1, out⟩
    | .ok (.error err) => .stopped (.failed err)
    | .error p => .stopped (.panicked p)
  | .collecting total s _, data =>
    match consecutiveData total s data with
    | .ok (.ok next) => settle total next
    | .ok (.error err) => .stopped (.failed err)
    | .error p => .stopped (.panicked p)
  | rx, _ => rx

/-- The receiver needs another frame. -/
def Waiting : Rx → Prop
  | .idle | .collecting .. => True
  | _ => False

theorem not_waiting_accepted {payload : List UInt8} : ¬ (accepted payload).Waiting := fun h => h

theorem not_waiting_stopped {h : Halt IoError} : ¬ (stopped h).Waiting := fun h => h

/-- The frames that are sent in answer to a frame with the given data. -/
def replies (txId : CanId) (opts : Options) : Rx → List UInt8 → List Frame
  | .idle, data =>
    match responseData data with
    | .ok (.ok (.first _ _)) => [flowControl txId opts]
    | _ => []
  | _, _ => []

/-- The rest of the reception from a state. -/
def resume (txId rxId : CanId) (deadline : ℕ) (opts : Options) : Rx → IsotpM (List UInt8)
  | .idle => receiveResponse txId rxId deadline opts
  | .collecting total s _ => collect rxId deadline total s
  | .accepted payload => pure payload
  | .stopped h => halt h (match h with
    | .failed err => [.raised err]
    | _ => [])

end Rx

/-- A frame that the socket returns, and how long the call took. -/
structure Arrival where
  delay : ℕ
  frame : Frame

namespace Arrival

def answer (a : Arrival) : RecvAnswer := ⟨a.delay, .ok (some a.frame)⟩

/-- The frame has the identifier, and a length that the buffer holds. -/
structure Fits (rxId : CanId) (a : Arrival) : Prop where
  id_eq : a.frame.id = rxId
  len_le : a.frame.len.toNat ≤ maxFdDataLen

/-- Frames whose data can be read are within the buffer, and the data is their payload. -/
theorem payload_of_data {arrivals : List Arrival} {datas : List (List UInt8)}
    (h : arrivals.map (·.frame.data) = datas.map .ok) :
    arrivals.map (·.frame.payload) = datas ∧ ∀ a ∈ arrivals, a.frame.len.toNat ≤ maxFdDataLen := by
  induction arrivals generalizing datas with
  | nil =>
    rw [List.map_nil, eq_comm, List.map_eq_nil_iff] at h
    subst h
    exact ⟨rfl, fun _ ha => absurd ha List.not_mem_nil⟩
  | cons a arrivals ih =>
    rcases datas with _ | ⟨data, datas⟩
    · cases h
    · obtain ⟨hd, ht⟩ := List.cons.inj h
      obtain ⟨hp, hl⟩ := ih ht
      obtain ⟨hlen, rfl⟩ := a.frame.of_data_eq hd
      rw [List.map_cons, hp]
      exact ⟨rfl, List.forall_mem_cons.mpr ⟨hlen, hl⟩⟩

end Arrival

/-- The socket returns the given frames before the deadline and the later answers after them,
and it accepts what is sent. -/
structure Delivers (deadline : ℕ) (arrivals : List Arrival) (later : List RecvAnswer)
    (env : Env) : Prop where
  recvs : env.recvs = arrivals.map Arrival.answer ++ later
  accepts : env.Accepts
  inTime : env.clock + (arrivals.map Arrival.delay).sum + (env.sends.map SendAnswer.delay).sum <
    deadline

variable {txId rxId : CanId} {deadline total : ℕ} {opts : Options} {env : Env} {a : Arrival}
  {arrivals : List Arrival} {later : List RecvAnswer} {s : CollectState} {rx : Rx}

namespace Delivers

theorem clock_lt (h : Delivers deadline arrivals later env) : env.clock < deadline := by
  have := h.inTime
  omega

end Delivers

/-- The environment after the next frame was received and perhaps answered. -/
structure Took (env : Env) (a : Arrival) (left : List RecvAnswer) (env' : Env) : Prop where
  recvs : env'.recvs = left
  accepts : env'.Accepts
  clock_le : env.clock + a.delay ≤ env'.clock
  slack : env'.clock + (env'.sends.map SendAnswer.delay).sum ≤
    env.clock + a.delay + (env.sends.map SendAnswer.delay).sum
  instant : env.sends = [] → env' = env.advance a.delay left

variable {recvs : List RecvAnswer} {env₁ : Env}

namespace Took

theorem advance (he : env.Accepts) : Took env a recvs (env.advance a.delay recvs) :=
  ⟨rfl, he, Nat.le_refl _, Nat.le_refl _, fun _ => rfl⟩

/-- An answer is sent. -/
theorem send (h : Took env a recvs env₁) (frame : Frame) :
    ∃ env' time, Isotp.send frame env₁ = ⟨.done (), env', [.sent time frame]⟩ ∧
      Took env a recvs env' := by
  obtain ⟨hr, ha, hc, ht, hi⟩ := h
  unfold Isotp.send
  rcases hs : env₁.sends with _ | ⟨⟨delay, error⟩, sends⟩
  · exact ⟨env₁, env₁.clock, rfl, hr, ha, hc, ht, hi⟩
  · rw [Env.Accepts, hs] at ha
    obtain ⟨he, hrest⟩ := List.forall_mem_cons.mp ha
    obtain rfl : error = none := he
    refine ⟨_, _, rfl, hr, hrest, Nat.le_trans hc (Nat.le_add_right _ _), ?_, fun h0 => ?_⟩
    · rw [hs, List.map_cons, List.sum_cons, ← Nat.add_assoc] at ht
      exact ht
    · rw [hi h0] at hs
      exact absurd (hs.symm.trans h0) (List.cons_ne_nil _ _)

theorem delivers (h : Took env a (arrivals.map Arrival.answer ++ later) env₁)
    (hd : Delivers deadline (a :: arrivals) later env) :
    Delivers deadline arrivals later env₁ := by
  have ht := hd.inTime
  have hs := h.slack
  rw [List.map_cons, List.sum_cons] at ht
  exact ⟨h.recvs, h.accepts, by omega⟩

end Took

theorem collect_settle (rxId : CanId) (deadline total : ℕ) (s : CollectState) :
    collect rxId deadline total s = (Rx.settle total s).resume txId rxId deadline opts := by
  unfold Rx.settle
  split
  case isTrue => rfl
  case isFalse h =>
    have hs : collectStep rxId deadline total s = pure (.inr s.out) := if_neg h
    unfold collect
    rw [loop_eq collectStep_descends, hs]
    rfl

namespace Rx

/-- A waiting receiver starts with the wait for a frame. -/
theorem exists_recv (txId rxId : CanId) (deadline : ℕ) (opts : Options) (hw : rx.Waiting) :
    ∃ f, rx.resume txId rxId deadline opts = recvWithId rxId deadline >>= f := by
  cases rx with
  | idle => exact ⟨_, rfl⟩
  | collecting total s hs =>
    rw [resume, collect, loop_eq collectStep_descends, collectStep, if_pos hs, Process.bind_assoc]
    exact ⟨_, rfl⟩
  | accepted => exact hw.elim
  | stopped => exact hw.elim

/-- The next frame takes the code to the state that the automaton computes. -/
theorem resume_frame (txId : CanId) (opts : Options) (hw : rx.Waiting) (hc : env.clock < deadline)
    (hr : env.recvs = a.answer :: recvs) (he : env.Accepts) (ha : a.Fits rxId) :
    ∃ env' t, rx.resume txId rxId deadline opts env =
        ((rx.feed a.frame.payload).resume txId rxId deadline opts env').after t ∧
      Took env a recvs env' ∧ receivedFrames t = [a.frame] ∧
      sentFrames t = rx.replies txId opts a.frame.payload := by
  have hrecv := recvWithId_match hc hr ha.id_eq
  have hdata := Frame.data_eq ha.len_le
  have htook : Took env a recvs (env.advance a.delay recvs) := .advance he
  cases rx with
  | idle =>
    rw [resume, receiveResponse, bind_done hrecv, feed, replies]
    simp only [hdata, liftM_eq, ofChecked_ok, Process.pure_bind]
    rcases responseData a.frame.payload with p | (err | (payload | ⟨total, out⟩))
    · exact ⟨_, _, rfl, htook, rfl, rfl⟩
    · exact ⟨_, _, rfl, htook, rfl, rfl⟩
    · exact ⟨_, _, rfl, htook, rfl, rfl⟩
    · simp only [attempt_ok, Process.pure_bind, sendFc_eq]
      obtain ⟨env', time, hs, htook'⟩ := htook.send (flowControl txId opts)
      rw [bind_done hs, ← collect_settle]
      exact ⟨env', _, Run.after_after _ _ _, htook', rfl, rfl⟩
  | collecting total s hs =>
    have hstep : collectStep rxId deadline total s env = ((do
        let next ← attempt (consecutiveData total s a.frame.payload)
        return .inl next : IsotpM (CollectState ⊕ List UInt8)) (env.advance a.delay recvs)).after
          [.received (some a.frame)] := by
      unfold collectStep
      rw [if_pos hs, bind_done hrecv]
      simp only [hdata, liftM_eq, ofChecked_ok, Process.pure_bind]
    rw [resume, collect, feed]
    rcases hn : consecutiveData total s a.frame.payload with p | (err | next) <;>
      rw [hn] at hstep
    · exact ⟨_, _, loop_halted collectStep_descends hstep, htook, rfl, rfl⟩
    · exact ⟨_, _, loop_halted collectStep_descends hstep, htook, rfl, rfl⟩
    · refine ⟨_, [.received (some a.frame)], ?_, htook, rfl, rfl⟩
      rw [loop_continue collectStep_descends hstep]
      dsimp only
      rw [← collect_settle]
      rfl
  | accepted => exact hw.elim
  | stopped => exact hw.elim

/-! ### Runs over frames that arrive in time -/

/-- The state after frames with the given data. -/
def feedAll (rx : Rx) (datas : List (List UInt8)) : Rx := datas.foldl feed rx

/-- The frames that are sent in answer to frames with the given data. -/
def repliesAll (txId : CanId) (opts : Options) : Rx → List (List UInt8) → List Frame
  | _, [] => []
  | rx, data :: datas => rx.replies txId opts data ++ (rx.feed data).repliesAll txId opts datas

@[simp] theorem feedAll_nil (rx : Rx) : rx.feedAll [] = rx := rfl

@[simp] theorem feedAll_cons (rx : Rx) (data : List UInt8) (datas : List (List UInt8)) :
    rx.feedAll (data :: datas) = (rx.feed data).feedAll datas := rfl

/-- Each of the frames is needed when it comes. -/
def Needs (rx : Rx) (datas : List (List UInt8)) : Prop :=
  ∀ j < datas.length, (rx.feedAll (datas.take j)).Waiting

theorem needs_nil : rx.Needs [] := fun _ h => absurd h (Nat.not_lt_zero _)

theorem needs_cons {data : List UInt8} {datas : List (List UInt8)} :
    rx.Needs (data :: datas) ↔ rx.Waiting ∧ (rx.feed data).Needs datas := by
  constructor
  · intro h
    exact ⟨h 0 (Nat.zero_lt_succ _), fun j hj => h (j + 1) (Nat.succ_lt_succ hj)⟩
  · rintro ⟨hw, h⟩ j hj
    cases j with
    | zero => exact hw
    | succ j => exact h j (Nat.lt_of_succ_lt_succ hj)

theorem feedAll_append (rx : Rx) (d e : List (List UInt8)) :
    rx.feedAll (d ++ e) = (rx.feedAll d).feedAll e := List.foldl_append

theorem repliesAll_append (txId : CanId) (opts : Options) (rx : Rx) (d e : List (List UInt8)) :
    rx.repliesAll txId opts (d ++ e) =
      rx.repliesAll txId opts d ++ (rx.feedAll d).repliesAll txId opts e := by
  induction d generalizing rx with
  | nil => rfl
  | cons data d ih => simp only [List.cons_append, repliesAll, ih, feedAll_cons, List.append_assoc]

theorem needs_concat {data : List UInt8} {datas : List (List UInt8)} :
    rx.Needs (datas ++ [data]) ↔ rx.Needs datas ∧ (rx.feedAll datas).Waiting := by
  induction datas generalizing rx with
  | nil =>
    constructor
    · intro h
      exact ⟨needs_nil, (needs_cons.mp h).1⟩
    · rintro ⟨-, hw⟩
      exact needs_cons.mpr ⟨hw, needs_nil⟩
  | cons data' datas ih =>
    rw [List.cons_append, needs_cons, ih, needs_cons, feedAll_cons, and_assoc]

/-- The code uses up the frames in order until the automaton needs no other. -/
theorem resume_run (txId : CanId) (opts : Options) (rx : Rx)
    (h : Delivers deadline arrivals later env)
    (ha : ∀ a ∈ arrivals, a.Fits rxId) :
    ∃ used left env' t, arrivals = used ++ left ∧
      rx.resume txId rxId deadline opts env = ((rx.feedAll (used.map (·.frame.payload))).resume
        txId rxId deadline opts env').after t ∧
      Delivers deadline left later env' ∧
      env.clock + (used.map Arrival.delay).sum ≤ env'.clock ∧
      receivedFrames t = used.map Arrival.frame ∧
      sentFrames t = rx.repliesAll txId opts (used.map (·.frame.payload)) ∧
      rx.Needs (used.map (·.frame.payload)) ∧
      ((rx.feedAll (used.map (·.frame.payload))).Waiting → left = []) := by
  induction arrivals generalizing rx env with
  | nil => exact ⟨[], [], env, [], rfl, rfl, h, Nat.le_refl _, rfl, rfl, needs_nil, fun _ => rfl⟩
  | cons a arrivals ih =>
    obtain ⟨hfit, hfits⟩ := List.forall_mem_cons.mp ha
    by_cases hw : rx.Waiting
    · obtain ⟨env₁, t₁, hr₁, htook, hrec₁, hsent₁⟩ :=
        resume_frame txId opts hw h.clock_lt h.recvs h.accepts hfit
      have hd₁ := htook.delivers h
      have hc₁ := htook.clock_le
      obtain ⟨used, left, env₂, t₂, he, hr₂, hd₂, hc₂, hrec₂, hsent₂, hneeds, hleft⟩ :=
        ih (rx.feed a.frame.payload) hd₁ hfits
      refine ⟨a :: used, left, env₂, t₁ ++ t₂, by rw [he]; rfl, ?_, hd₂, ?_, ?_, ?_,
        needs_cons.mpr ⟨hw, hneeds⟩, hleft⟩
      · rw [hr₁, hr₂, Run.after_after]
        rfl
      · rw [List.map_cons, List.sum_cons]
        omega
      · rw [receivedFrames_append, hrec₁, hrec₂]
        rfl
      · rw [sentFrames_append, hsent₁, hsent₂]
        rfl
    · exact ⟨[], a :: arrivals, env, [], rfl, rfl, h, Nat.le_refl _, rfl, rfl, needs_nil,
        fun hc => absurd hc hw⟩

/-- Frames that are all needed are all used. -/
theorem resume_needs (txId : CanId) (opts : Options) (h : Delivers deadline arrivals later env)
    (ha : ∀ a ∈ arrivals, a.Fits rxId) (hn : rx.Needs (arrivals.map (·.frame.payload))) :
    ∃ env' t, rx.resume txId rxId deadline opts env =
        ((rx.feedAll (arrivals.map (·.frame.payload))).resume txId rxId deadline opts env').after
          t ∧
      Delivers deadline [] later env' ∧ receivedFrames t = arrivals.map Arrival.frame ∧
      sentFrames t = rx.repliesAll txId opts (arrivals.map (·.frame.payload)) := by
  obtain ⟨used, left, env', t, rfl, hr, hd, -, hrec, hsent, -, hleft⟩ :=
    resume_run txId opts rx h ha
  obtain rfl : left = [] := by
    by_contra hne
    have hw := hn used.length (by
      rw [List.length_map, List.length_append]
      exact Nat.lt_add_of_pos_right (List.length_pos_iff.mpr hne))
    rw [List.map_append, List.take_left' (List.length_map _)] at hw
    exact hne (hleft hw)
  rw [List.append_nil]
  exact ⟨env', t, hr, hd, hrec, hsent⟩

/-- A receiver that needs another frame blocks when there is none. -/
theorem resume_pending (hw : rx.Waiting) (hc : env.clock < deadline) (hr : env.recvs = []) :
    rx.resume txId rxId deadline opts env = ⟨.halted .pending, env, []⟩ := by
  have hp : recvWithId rxId deadline env = ⟨.halted .pending, env, []⟩ :=
    recvWithId_pending hc hr
  cases rx with
  | idle => exact bind_halted hp _
  | collecting total s hs =>
    have hstep : collectStep rxId deadline total s env = ⟨.halted .pending, env, []⟩ := by
      rw [collectStep, if_pos hs, bind_halted hp]
    exact loop_halted collectStep_descends hstep
  | accepted => exact hw.elim
  | stopped => exact hw.elim

/-! ### The accepted frames -/

variable {pci low : UInt8} {rest data : List UInt8}

theorem feed_single (h : IsSingle pci rest) :
    idle.feed (pci :: rest) = .accepted (rest.take (sfLength pci)) := by
  rw [feed, responseData_single h]

theorem feed_first (h : IsFirst pci low) : idle.feed (pci :: low :: rest) =
    settle (ffLength pci low) ⟨1, rest.take (ffLength pci low)⟩ := by
  rw [feed, responseData_first h]

theorem replies_first (h : IsFirst pci low) :
    idle.replies txId opts (pci :: low :: rest) = [flowControl txId opts] := by
  rw [replies, responseData_first h]

theorem replies_settle : (settle total s).replies txId opts data = [] := by
  unfold settle
  split <;> rfl

theorem feed_consecutive (hs : s.out.length < total) (hp : pci &&& pciTypeMask = pciCf)
    (hseq : pci &&& 0x0F = s.expectedSeq) :
    (collecting total s hs).feed (pci :: rest) = settle total ⟨(s.expectedSeq + 1) &&& 0x0F,
      s.out ++ rest.take (min (total - s.out.length) cfPayload)⟩ := by
  rw [feed, consecutiveData_ok hp hseq (Nat.le_of_lt hs)]

/-- The first frame stops the receiver, or it is a Single Frame or a First Frame. -/
theorem feed_idle_cases (data : List UInt8) :
    (∃ message, idle.feed data = .stopped (.failed (invalidData message))) ∨
    (∃ pci rest, data = pci :: rest ∧ IsSingle pci rest ∧
      idle.feed data = .accepted (rest.take (sfLength pci))) ∨
    ∃ pci low rest, data = pci :: low :: rest ∧ IsFirst pci low ∧
      idle.feed data = settle (ffLength pci low) ⟨1, rest.take (ffLength pci low)⟩ := by
  obtain ⟨message, hm⟩ | ⟨pci, rest, rfl, hs⟩ | ⟨pci, low, rest, rfl, hf⟩ := responseData_cases data
  · left
    exact ⟨message, by rw [feed, hm]⟩
  · right; left
    exact ⟨pci, rest, rfl, hs, feed_single hs⟩
  · right; right
    exact ⟨pci, low, rest, rfl, hf, feed_first hf⟩

/-- A later frame stops the receiver, or it is the expected Consecutive Frame. -/
theorem feed_collecting_cases (hs : s.out.length < total) (data : List UInt8) :
    (∃ message, (collecting total s hs).feed data = .stopped (.failed (invalidData message))) ∨
    ∃ pci rest, data = pci :: rest ∧ pci &&& pciTypeMask = pciCf ∧
      pci &&& 0x0F = s.expectedSeq ∧
      (collecting total s hs).feed data = settle total ⟨(s.expectedSeq + 1) &&& 0x0F,
        s.out ++ rest.take (min (total - s.out.length) cfPayload)⟩ := by
  obtain ⟨message, hm⟩ | ⟨pci, rest, rfl, hp, hseq⟩ := consecutiveData_cases total s data
  · left
    exact ⟨message, by rw [feed, hm]⟩
  · right
    exact ⟨pci, rest, rfl, hp, hseq, feed_consecutive hs hp hseq⟩

theorem feedAll_not_waiting (hw : ¬ rx.Waiting) (datas : List (List UInt8)) :
    rx.feedAll datas = rx := by
  induction datas with
  | nil => rfl
  | cons data datas ih =>
    have hf : rx.feed data = rx := by
      cases rx with
      | idle => exact absurd trivial hw
      | collecting => exact absurd trivial hw
      | accepted => rfl
      | stopped => rfl
    rw [feedAll_cons, hf, ih]

@[simp] theorem feedAll_accepted (payload : List UInt8) (datas : List (List UInt8)) :
    (accepted payload).feedAll datas = .accepted payload :=
  feedAll_not_waiting not_waiting_accepted datas

@[simp] theorem feedAll_stopped (h : Halt IoError) (datas : List (List UInt8)) :
    (stopped h).feedAll datas = .stopped h :=
  feedAll_not_waiting not_waiting_stopped datas

/-- The receiver is stopped by invalid data only. -/
def Sound (rx : Rx) : Prop := ∀ h, rx = .stopped h → ∃ message, h = .failed (invalidData message)

theorem sound_settle (total : ℕ) (s : CollectState) : (settle total s).Sound := by
  intro h hs
  rw [settle] at hs
  split at hs <;> cases hs

theorem Sound.feed (hs : rx.Sound) (data : List UInt8) : (rx.feed data).Sound := by
  cases rx with
  | idle =>
    obtain ⟨message, hf⟩ | ⟨pci, rest, -, -, hf⟩ | ⟨pci, low, rest, -, -, hf⟩ :=
      feed_idle_cases data <;> rw [hf]
    · rintro h ⟨rfl⟩
      exact ⟨message, rfl⟩
    · rintro h ⟨⟩
    · exact sound_settle _ _
  | collecting total s hlt =>
    obtain ⟨message, hf⟩ | ⟨pci, rest, -, -, -, hf⟩ := feed_collecting_cases hlt data <;> rw [hf]
    · rintro h ⟨rfl⟩
      exact ⟨message, rfl⟩
    · exact sound_settle _ _
  | accepted => exact hs
  | stopped => exact hs

theorem Sound.feedAll (hs : rx.Sound) (datas : List (List UInt8)) : (rx.feedAll datas).Sound := by
  induction datas generalizing rx with
  | nil => exact hs
  | cons data datas ih => exact ih (hs.feed data)

theorem sound_idle : idle.Sound := fun _ h => nomatch h

/-! ### Silence -/

/-- The socket times out, each time after the given delay. -/
def silence (delays : List ℕ) : List RecvAnswer := delays.map fun d => ⟨d, .ok none⟩

theorem recvWithId_silence (rxId : CanId) {delays : List ℕ} (hr : env.recvs = silence delays)
    (ht : deadline ≤ env.clock + delays.sum) :
    ∃ env' t, recvWithId rxId deadline env = ⟨.done none, env', t⟩ ∧ receivedFrames t = [] := by
  induction delays generalizing env with
  | nil => exact ⟨env, _, recvWithId_expired ht, rfl⟩
  | cons d delays ih =>
    rcases Nat.lt_or_ge env.clock deadline with hc | hc
    · have ht' : deadline ≤ (env.advance d (silence delays)).clock + delays.sum := by
        rw [List.sum_cons] at ht
        simp only [Env.advance]
        omega
      obtain ⟨env', t, hr', hrec⟩ := ih rfl ht'
      have hnone : Foreign rxId none := fun _ h => nomatch h
      have hskip : recvWithId rxId deadline env =
          (recvWithId rxId deadline (env.advance d (silence delays))).after [.received none] :=
        recvWithId_skip hc hr hnone
      exact ⟨env', .received none :: t, by rw [hskip, hr']; rfl, hrec⟩
    · exact ⟨env, _, recvWithId_expired hc, rfl⟩

/-- A receiver whose wait for a frame ends with nothing times out. -/
theorem resume_none {env' : Env} {t : List Event} (txId : CanId) (opts : Options)
    (hw : rx.Waiting)
    (h : recvWithId rxId deadline env = ⟨.done none, env', t⟩) :
    ∃ message, rx.resume txId rxId deadline opts env =
      ⟨.halted (.failed (.new .TimedOut message)), env',
        t ++ [.raised (.new .TimedOut message)]⟩ := by
  cases rx with
  | idle =>
    have hrun : receiveResponse txId rxId deadline opts env =
        ⟨.halted (.failed (.new .TimedOut "no response from ECU")), env',
          t ++ [.raised (.new .TimedOut "no response from ECU")]⟩ := by
      rw [receiveResponse, bind_done h]
      rfl
    exact ⟨_, hrun⟩
  | collecting total s hlt =>
    have hstep : collectStep rxId deadline total s env =
        ⟨.halted (.failed (.new .TimedOut "timed out collecting Consecutive Frames")), env',
          t ++ [.raised (.new .TimedOut "timed out collecting Consecutive Frames")]⟩ := by
      unfold collectStep
      rw [if_pos hlt, bind_done h]
      rfl
    exact ⟨_, loop_halted collectStep_descends hstep⟩
  | accepted => exact hw.elim
  | stopped => exact hw.elim

/-- Without another frame the receiver times out. -/
theorem resume_silence {delays : List ℕ} (hw : rx.Waiting) (hr : env.recvs = silence delays)
    (ht : deadline ≤ env.clock + delays.sum) :
    ∃ message env' t, rx.resume txId rxId deadline opts env =
        ⟨.halted (.failed (.new .TimedOut message)), env', t⟩ ∧ receivedFrames t = [] := by
  obtain ⟨env', t, h, hrec⟩ := recvWithId_silence rxId hr ht
  obtain ⟨message, hrun⟩ := resume_none txId opts hw h
  refine ⟨message, env', _, hrun, ?_⟩
  rw [receivedFrames_append, hrec]
  rfl

end Rx

end Mcanbus.Isotp
