import Mathlib.Order.WithBot
import Mcanbus.Isotp.Backlog

/-! # Frames of an earlier request

A request does not empty the receive queue of the socket before it sends. The
datagrams that wait there when it has transmitted the first frame of its payload
are read first; their identifiers and data tell whether a response may use them.
-/

namespace Mcanbus.Isotp

open Rust Effect Effect.Process

/-- A datagram on the socket, by the frame that it decodes to, if it does. -/
structure Datagram where
  frame : Option Frame
  fits : ∀ f ∈ frame, f.len.toNat ≤ maxFdDataLen

/-- A datagram that came to the receive queue at the time, or before the request was called. -/
structure Arrived where
  time : WithBot ℕ
  datagram : Datagram

/-- Calls that receive return the datagrams in order. One that does not decode returns nothing, as
a call that times out; and a call may fail. -/
inductive Yields : List Datagram → List RecvAnswer → Prop
  | nil (datagrams : List Datagram) : Yields datagrams []
  | datagram {d : Datagram} {datagrams : List Datagram} {answers : List RecvAnswer} (delay : ℕ) :
      Yields datagrams answers → Yields (d :: datagrams) (⟨delay, .ok d.frame⟩ :: answers)
  | timeout {datagrams : List Datagram} {answers : List RecvAnswer} (delay : ℕ) :
      Yields datagrams answers → Yields datagrams (⟨delay, .ok none⟩ :: answers)
  | error {datagrams : List Datagram} {answers : List RecvAnswer} (delay : ℕ) (err : IoError) :
      Yields datagrams answers → Yields datagrams (⟨delay, .error err⟩ :: answers)

/-- The socket has what arrives, in the order of the times. -/
structure Arrives (arrived : List Arrived) (env : Env) : Prop where
  inOrder : arrived.Pairwise fun a b => a.time ≤ b.time
  yields : Yields (arrived.map Arrived.datagram) env.recvs

/-- The time at which the first frame was transmitted. -/
def firstSent (t : List Event) : Option ℕ :=
  t.findSome? fun
    | .sent time _ => some time
    | _ => none

/-- The datagrams that wait when the first frame has been transmitted: those that were there before
the request and those that came since. -/
def waitingAt (arrived : List Arrived) : Option ℕ → List Datagram
  | some time => (arrived.filter fun a => a.time < WithBot.some time).map Arrived.datagram
  | none => arrived.map Arrived.datagram

/-- The frames that arrive, with their times. -/
def stamped (arrived : List Arrived) : List (WithBot ℕ × Frame) :=
  arrived.filterMap fun a => a.datagram.frame.map fun frame => (a.time, frame)

namespace Rx

variable {rx : Rx} {data : List UInt8}

/-- The expected sequence number has four bits. -/
def Low : Rx → Prop
  | .collecting _ s _ => s.expectedSeq &&& 0x0F = s.expectedSeq
  | _ => True

theorem low_settle {total : ℕ} {s : CollectState} (h : s.expectedSeq &&& 0x0F = s.expectedSeq) :
    (settle total s).Low := by
  unfold settle
  split
  · exact h
  · trivial

theorem Low.feed (h : rx.Low) (data : List UInt8) : (rx.feed data).Low := by
  cases rx with
  | idle =>
    obtain ⟨message, hf⟩ | ⟨pci, rest, -, -, hf⟩ | ⟨pci, low, rest, -, -, hf⟩ :=
      feed_idle_cases data <;> rw [hf]
    · trivial
    · trivial
    · have hone : (1 : UInt8) &&& 0x0F = 1 := by decide
      exact low_settle hone
  | collecting total s hlt =>
    obtain ⟨message, hf⟩ | ⟨pci, rest, -, -, -, hf⟩ := feed_collecting_cases hlt data <;> rw [hf]
    · trivial
    · apply low_settle
      simp only [UInt8.and_assoc, UInt8.and_self]
  | accepted | stopped => trivial

theorem Low.take (h : rx.Low) (frame : Frame) : (rx.take frame).Low := by
  unfold Rx.take
  cases frame.data with
  | ok data => exact h.feed data
  | error p => cases rx <;> trivial

end Rx

/-- The expected sequence number of the response has four bits. -/
def Stage.Low : Stage → Prop
  | .waiting _ => True
  | .receiving _ rx => rx.Low

namespace Call

variable {c : Call} {p : Stage} {frame : Frame} {frames stale : List Frame} {env env' : Env}
  {t : List Event} {v : List UInt8}

/-! ### Completion -/

variable (c) in
/-- A frame from the peer. -/
def reply (data : List UInt8) : Frame := classicFrame c.rxId data

theorem len_reply {data : List UInt8} (h : data.length ≤ frameDlc) :
    (c.reply data).len.toNat ≤ maxFdDataLen := by
  have hl : data.length ≤ maxFdDataLen := Nat.le_trans h (by decide)
  unfold reply classicFrame
  rw [Frame.len_ofPayload hl]
  exact hl

theorem data_reply {data : List UInt8} (h : data.length ≤ frameDlc) :
    (c.reply data).data = .ok data := by
  have hl : data.length ≤ maxFdDataLen := Nat.le_trans h (by decide)
  rw [Frame.data_eq (len_reply h)]
  unfold reply
  rw [Frame.payload_ofPayload hl]

theorem step_reply {data : List UInt8} (h : data.length ≤ frameDlc) (slept : ℕ) (rx : Rx) :
    c.step (.receiving slept rx) (c.reply data) = .receiving slept (rx.feed data) := by
  have hstep : c.step (.receiving slept rx) (c.reply data) =
      .receiving slept (rx.take (c.reply data)) := if_pos rfl
  rw [hstep, Rx.take_ok (data_reply h)]

variable (c) in
/-- Frames of eight bytes that take the stage to a response. -/
def Completed (p q : Stage) : Prop :=
  ∃ datas : List (List UInt8), (∀ data ∈ datas, data.length ≤ frameDlc) ∧
    c.steps p (datas.map c.reply) = q

theorem Completed.refl (p : Stage) : c.Completed p p :=
  ⟨[], fun _ h => absurd h List.not_mem_nil, rfl⟩

theorem Completed.cons {q : Stage} {data : List UInt8} (hl : data.length ≤ frameDlc)
    (h : c.Completed (c.step p (c.reply data)) q) : c.Completed p q := by
  obtain ⟨datas, hd, hs⟩ := h
  exact ⟨data :: datas, List.forall_mem_cons.mpr ⟨hl, hd⟩, hs⟩

/-- The Consecutive Frames that a response lacks can follow. -/
theorem exists_collected (slept total : ℕ) {s : CollectState}
    (h : s.expectedSeq &&& 0x0F = s.expectedSeq) :
    ∃ v, c.Completed (.receiving slept (.settle total s)) (.receiving slept (.accepted v)) := by
  induction hk : total - s.out.length using Nat.strongRecOn generalizing s with
  | ind k ih =>
    rcases Nat.lt_or_ge s.out.length total with hlt | hge
    case inr =>
      rw [Rx.settle_accepted hge]
      exact ⟨s.out, .refl _⟩
    have hpci : (pciCf ||| s.expectedSeq) &&& pciTypeMask = pciCf ∧
        (pciCf ||| s.expectedSeq) &&& 0x0F = s.expectedSeq := by
      have hn : s.expectedSeq.toNat < 16 := by
        rw [← h, UInt8.toNat_and]
        exact Nat.lt_succ_of_le Nat.and_le_right
      have hcf := cf_pci hn
      rwa [UInt8.ofNat_toNat] at hcf
    let zeros : List UInt8 := List.replicate cfPayload 0
    let next : CollectState := ⟨(s.expectedSeq + 1) &&& 0x0F,
      s.out ++ zeros.take (min (total - s.out.length) cfPayload)⟩
    have hnext : next.expectedSeq &&& 0x0F = next.expectedSeq := by
      rw [UInt8.and_assoc, UInt8.and_self]
    have hlen : total - next.out.length < k := by
      rw [List.length_append, List.length_take, List.length_replicate, ← hk]
      unfold cfPayload
      omega
    obtain ⟨v, hv⟩ := ih (total - next.out.length) hlen hnext rfl
    have hfits : ((pciCf ||| s.expectedSeq) :: zeros).length ≤ frameDlc := Nat.le_refl _
    refine ⟨v, .cons hfits ?_⟩
    rw [step_reply hfits, Rx.settle_collecting hlt, Rx.feed_consecutive hlt hpci.1 hpci.2]
    exact hv

theorem low_start : c.start.Low := by
  unfold start
  split <;> trivial

theorem low_answered (r : Checked (Except IoError (UInt8 ⊕ UInt8 × UInt8))) :
    (c.answered r).Low := by
  rcases r with panic | (err | (waits | ⟨bs, st⟩))
  · trivial
  · trivial
  · trivial
  · unfold answered cleared
    dsimp only
    split <;> trivial

theorem low_step (h : p.Low) (frame : Frame) : (c.step p frame).Low := by
  unfold step
  split
  · cases p with
    | waiting waits => exact low_answered _
    | receiving slept rx => exact Rx.Low.take h frame
  · exact h

theorem low_steps (h : p.Low) (frames : List Frame) : (c.steps p frames).Low := by
  induction frames generalizing p with
  | nil => exact h
  | cons frame frames ih => exact ih (low_step h frame)

theorem exists_received (slept : ℕ) {rx : Rx} (hl : rx.Low) (hs : ∀ h, rx ≠ .stopped h) :
    ∃ v, c.Completed (.receiving slept rx) (.receiving slept (.accepted v)) := by
  cases rx with
  | idle =>
    have hsingle : IsSingle 1 [0] := ⟨by decide, by decide, by decide, by decide⟩
    have hfits : ([1, 0] : List UInt8).length ≤ frameDlc := Nat.le_of_ble_eq_true rfl
    refine ⟨[0], .cons hfits ?_⟩
    rw [step_reply hfits, Rx.feed_single hsingle]
    exact .refl _
  | collecting total s hlt =>
    obtain ⟨v, hv⟩ := exists_collected (c := c) slept total hl
    rw [Rx.settle_collecting hlt] at hv
    exact ⟨v, hv⟩
  | accepted v => exact ⟨v, .refl _⟩
  | stopped h => exact absurd rfl (hs h)

/-- Frames that complete the request can follow, unless it has stopped. -/
theorem exists_completion (hl : p.Low) (hs : ¬ p.Stopped) :
    ∃ v, c.Completed p (.receiving p.clock (.accepted v)) := by
  cases p with
  | waiting waits =>
    have hcts : IsClearToSend [0x30] := ⟨0x30, [], rfl, by decide, by decide⟩
    have hcleared : c.cleared 0 0 = .receiving 0 .idle := by
      unfold cleared
      rw [pause_of_not (by decide), if_neg (fun h => h.1 rfl)]
    have hstep : c.step (.waiting waits) (c.reply [0x30]) = .receiving 0 .idle := by
      have hid : (c.reply [0x30]).id = c.rxId := rfl
      rw [step, if_pos hid, data_reply (Nat.le_of_ble_eq_true rfl), ok_bind,
        flowControlData_cts hcts]
      exact hcleared
    have hidle (h : Halt IoError) : Rx.idle ≠ .stopped h := by
      rintro ⟨⟩
    have hlow : Rx.idle.Low := trivial
    have hfits : ([0x30] : List UInt8).length ≤ frameDlc := Nat.le_of_ble_eq_true rfl
    obtain ⟨v, hv⟩ := exists_received (c := c) 0 hlow hidle
    refine ⟨v, .cons hfits ?_⟩
    rw [hstep]
    exact hv
  | receiving slept rx =>
    refine exists_received slept hl fun h he => hs ?_
    rw [he]
    trivial

/-! ### Arrivals -/

variable {arrived : List Arrived} {datagrams waiting : List Datagram} {answers : List RecvAnswer}

/-- The frames that calls return are those of the datagrams, in order. -/
theorem queuedFrames_yields (h : Yields datagrams answers) :
    queuedFrames answers <+: datagrams.filterMap Datagram.frame := by
  induction h with
  | nil => exact List.nil_prefix
  | @datagram d datagrams answers delay h ih =>
    rcases hd : d.frame with _ | frame
    · rw [List.filterMap_cons_none hd]
      exact ih
    · rw [List.filterMap_cons_some hd]
      exact (List.prefix_cons_inj frame).mpr ih
  | timeout delay h ih => exact ih
  | error delay err h ih => exact ih

theorem map_stamped (arrived : List Arrived) : (stamped arrived).map Prod.snd =
    (arrived.map Arrived.datagram).filterMap Datagram.frame := by
  unfold stamped
  rw [List.map_filterMap, List.filterMap_map]
  apply List.filterMap_congr
  intro a _
  cases h : a.datagram.frame <;> simp [h]

theorem stamped_append (arrived arrived' : List Arrived) :
    stamped (arrived ++ arrived') = stamped arrived ++ stamped arrived' :=
  List.filterMap_append

theorem time_of_stamped {arrival : WithBot ℕ} {i : ℕ}
    (h : (stamped arrived)[i]? = some (arrival, frame)) : ∃ a ∈ arrived, a.time = arrival := by
  obtain ⟨a, ha, hframe⟩ := List.mem_filterMap.mp (List.mem_of_getElem? h)
  obtain ⟨f, -, he⟩ := Option.map_eq_some_iff.mp hframe
  cases he
  exact ⟨a, ha, rfl⟩

/-- What arrives in order is what comes before a time, and what comes later. -/
theorem split_arrived (h : arrived.Pairwise fun a b => a.time ≤ b.time) (time : WithBot ℕ) :
    ∃ late, arrived = arrived.filter (fun a => a.time < time) ++ late ∧
      ∀ a ∈ late, time ≤ a.time := by
  induction arrived with
  | nil => exact ⟨[], rfl, fun _ hm => absurd hm List.not_mem_nil⟩
  | cons a arrived ih =>
    obtain ⟨ha, h⟩ := List.pairwise_cons.mp h
    by_cases hlt : a.time < time
    · obtain ⟨late, he, hl⟩ := ih h
      refine ⟨late, ?_, hl⟩
      rw [List.filter_cons_of_pos (by simpa using hlt), List.cons_append, ← he]
    · have hall : ∀ b ∈ a :: arrived, time ≤ b.time :=
        List.forall_mem_cons.mpr ⟨not_lt.mp hlt, fun b hb => (not_lt.mp hlt).trans (ha b hb)⟩
      refine ⟨a :: arrived, ?_, hall⟩
      rw [List.filter_eq_nil_iff.mpr fun b hb => by simpa using hall b hb]
      rfl

/-! ### Frames that were there before -/

/-- The request sends the first frame of its payload and goes through its stages. -/
theorem run_start (hv : c.Valid) (hs : env.sends = [])
    (ht : env.clock + c.opts.timeout < 2 ^ 63 * 10 ^ 9) :
    ∃ frame, c.run env = (c.resume (env.clock + c.opts.timeout) c.start env).after
      [.sent env.clock frame] := by
  unfold start
  rcases Nat.lt_or_ge sfMaxLen c.payload.length with hl | hl
  · rw [if_neg (Nat.not_le.mpr hl)]
    exact ⟨_, request_waits c.txId c.rxId hs hl hv.2 ht⟩
  · rw [if_pos hl]
    have hadd : addDuration env.clock c.opts.timeout = .ok (env.clock + c.opts.timeout) := if_pos ht
    unfold run
    rw [request_eq c.txId c.rxId c.opts hv.1 hv.2, hadd, ofChecked_ok, Process.pure_bind,
      exchange_single c.txId c.rxId _ c.opts hl, bind_done (send_instant hs _)]
    exact ⟨_, rfl⟩

theorem firstSent_send (h : send frame env = ⟨.done (), env', t⟩) (u : List Event) :
    ∃ time, firstSent (t ++ u) = some time := by
  unfold send at h
  rcases hs : env.sends with _ | ⟨⟨delay, _ | error⟩, sends⟩ <;> rw [hs] at h <;> cases h
  · exact ⟨_, rfl⟩
  · exact ⟨_, rfl⟩

/-- A request that returns a response has transmitted the first frame of its payload. -/
theorem run_sent (h : c.run env = ⟨.done v, env', t⟩) : ∃ time, firstSent t = some time := by
  obtain ⟨hv, ht, -⟩ := run_done h
  unfold run at h
  rw [request_eq c.txId c.rxId c.opts hv.1 hv.2] at h
  obtain ⟨deadline, _, _, _, hd, he, rfl⟩ := bind_eq_done h
  obtain ⟨-, rfl, rfl⟩ := ofChecked_eq_done hd
  rw [List.nil_append]
  rcases Nat.lt_or_ge sfMaxLen c.payload.length with hl | hl
  · rw [exchange_segmented c.txId c.rxId deadline c.opts hl hv.2] at he
    obtain ⟨_, _, _, u, hsend, -, rfl⟩ := bind_eq_done he
    exact firstSent_send hsend u
  · rw [exchange_single c.txId c.rxId deadline c.opts hl] at he
    obtain ⟨_, _, _, u, hsend, -, rfl⟩ := bind_eq_done he
    exact firstSent_send hsend u

theorem uses_waiting (h : c.Uses p frame) : p.Waiting := by
  cases p with
  | waiting => trivial
  | receiving slept rx =>
    cases rx with
    | idle | collecting => trivial
    | accepted | stopped => exact h.2.elim False.elim (fun hc => hc rfl)

variable (c) in
/-- A response owes nothing to a frame that came before the first frame of the payload was
transmitted. -/
def Own (arrived : List Arrived) (run : Run Env IoError Event (List UInt8)) : Prop :=
  ∀ v, run.outcome = .done v → ∃ time : ℕ, firstSent run.trace = some time ∧
    ∀ i frame, (receivedFrames run.trace)[i]? = some frame →
      c.Uses (c.steps c.start ((receivedFrames run.trace).take i)) frame →
      ∃ arrival, (stamped arrived)[i]? = some (arrival, frame) ∧ WithBot.some time ≤ arrival

variable (c) in
/-- The request can be made, and it draws on the frames that wait. -/
structure Leaks (waiting : List Datagram) : Prop where
  valid : c.Valid
  representable : c.opts.timeout < 2 ^ 63 * 10 ^ 9
  draws : c.Draws (c.heard (waiting.filterMap Datagram.frame))

theorem fits_frames (waiting : List Datagram) :
    ∀ frame ∈ waiting.filterMap Datagram.frame, frame.len.toNat ≤ maxFdDataLen := by
  intro frame hf
  obtain ⟨d, -, hd⟩ := List.mem_filterMap.mp hf
  exact d.fits frame hd

/-- Two lists that begin a third one agree as far as both go. -/
theorem agree_of_append {α : Type} {xs ys us vs : List α} {i : ℕ} (h : xs ++ us = ys ++ vs)
    (hx : i < xs.length) (hy : i < ys.length) : xs[i]? = ys[i]? ∧ xs.take i = ys.take i := by
  constructor
  · rw [← List.getElem?_append_left hx, h, List.getElem?_append_left hy]
  · rw [← List.take_append_of_le_length (Nat.le_of_lt hx), h,
      List.take_append_of_le_length (Nat.le_of_lt hy)]

/-- A request that uses one of the frames at the head of those that it receives, and returns a
response, draws on them. -/
theorem draws_of_run {frames later : List Frame} {i : ℕ}
    (hf : ∀ frame ∈ frames, frame.len.toNat ≤ maxFdDataLen)
    (hr : receivedFrames t <+: frames ++ later) (h : c.run env = ⟨.done v, env', t⟩)
    (hi : i < frames.length) (hframe : (receivedFrames t)[i]? = some frame)
    (hu : c.Uses (c.steps c.start ((receivedFrames t).take i)) frame) :
    c.Draws (c.heard frames) := by
  obtain ⟨-, -, -, slept, hslept, hsteps⟩ := run_done h
  obtain ⟨left, hleft⟩ := hr
  have hend : ¬ (Stage.receiving slept (.accepted v)).Waiting := id
  have hall : c.steps (c.steps c.start frames) later = .receiving slept (.accepted v) := by
    rw [← steps_append, ← hleft, steps_append, hsteps, steps_not_waiting hend]
  have hlive := not_stopped_of_steps (not_stopped_of_accepted hall)
  have hclock := clock_le_steps (c := c) (c.steps c.start frames) later
  rw [hall] at hclock
  obtain ⟨hj, -⟩ := List.getElem?_eq_some_iff.mp hframe
  obtain ⟨hget, htake⟩ := agree_of_append hleft hj hi
  rw [hget] at hframe
  rw [htake] at hu
  exact (draws_iff hf).mpr ⟨hlive, Nat.lt_of_le_of_lt hclock hslept, i, frame, hframe, hu⟩

/-- A request that draws on no frame of those that wait owes its response to none. -/
theorem own_of_not_leaks (ha : Arrives arrived env)
    (hl : ¬ c.Leaks (waitingAt arrived (firstSent (c.run env).trace))) :
    c.Own arrived (c.run env) := by
  intro v hv
  have hrun : c.run env = ⟨.done v, (c.run env).state, (c.run env).trace⟩ := by rw [← hv]
  obtain ⟨hvalid, ht, hadv, -⟩ := run_done hrun
  obtain ⟨time, htime⟩ := run_sent hrun
  obtain ⟨late, hsplit, hlate⟩ := split_arrived ha.inOrder (WithBot.some time)
  have hreceived : receivedFrames (c.run env).trace <+: (stamped arrived).map Prod.snd := by
    rw [map_stamped]
    refine List.IsPrefix.trans ?_ (queuedFrames_yields ha.yields)
    rw [hadv.frames]
    exact List.prefix_append _ _
  rw [htime] at hl
  refine ⟨time, htime, fun i frame hframe hu => ?_⟩
  obtain ⟨hi, -⟩ := List.getElem?_eq_some_iff.mp hframe
  have hget : ((stamped arrived).map Prod.snd)[i]? = some frame := by
    obtain ⟨left, hleft⟩ := hreceived
    rw [← hleft, List.getElem?_append_left hi, hframe]
  rw [List.getElem?_map, Option.map_eq_some_iff] at hget
  obtain ⟨⟨arrival, frame'⟩, hstamp, rfl⟩ := hget
  refine ⟨arrival, hstamp, ?_⟩
  have hstamped : stamped arrived =
      stamped (arrived.filter fun a => a.time < WithBot.some time) ++ stamped late := by
    rw [← stamped_append, ← hsplit]
  rcases Nat.lt_or_ge i (stamped (arrived.filter fun a => a.time < WithBot.some time)).length with
    hlt | hge
  · refine absurd ⟨hvalid, by omega, ?_⟩ hl
    have hframes := map_stamped (arrived.filter fun a => a.time < WithBot.some time)
    have hprefix : receivedFrames (c.run env).trace <+:
        (waitingAt arrived (some time)).filterMap Datagram.frame ++
          (stamped late).map Prod.snd := by
      rw [waitingAt, ← hframes, ← List.map_append, ← hstamped]
      exact hreceived
    refine draws_of_run (fits_frames _) hprefix hrun ?_ hframe hu
    rw [waitingAt, ← hframes, List.length_map]
    exact hlt
  · rw [hstamped, List.getElem?_append_right hge] at hstamp
    obtain ⟨a, ha, rfl⟩ := time_of_stamped hstamp
    exact hlate a ha

/-- A request returns the response that what has arrived drives it to. -/
theorem run_mailbox {slept : ℕ} {answers : List (Option Frame)} (hv : c.Valid)
    (ht : c.opts.timeout < 2 ^ 63 * 10 ^ 9) (hs : slept < c.opts.timeout)
    (h : c.steps c.start answers.reduceOption = .receiving slept (.accepted v)) :
    ∃ used left, answers.reduceOption = used ++ left ∧ ¬ (c.steps c.start used).Waiting ∧
      (c.run (mailbox 0 answers)).outcome = .done v ∧
      receivedFrames (c.run (mailbox 0 answers)).trace = used ∧
      firstSent (c.run (mailbox 0 answers)).trace = some 0 := by
  have htime : (c.steps c.start answers.reduceOption).clock < 0 + c.opts.timeout := by
    rw [h, Nat.zero_add]
    exact hs
  obtain ⟨used, left, t, rfl, hresume, hrec, hleft⟩ :=
    resume_steps htime (not_stopped_of_accepted h)
  have hrepr : (mailbox 0 (used ++ left)).clock + c.opts.timeout < 2 ^ 63 * 10 ^ 9 := by
    simp only [mailbox, Nat.zero_add]
    exact ht
  obtain ⟨first, hrun⟩ := run_start hv rfl hrepr
  have hend : ¬ (c.steps c.start used.reduceOption).Waiting := by
    intro hw
    rw [hleft hw, List.append_nil] at h
    rw [h] at hw
    exact hw
  have hused : c.steps c.start used.reduceOption = .receiving slept (.accepted v) := by
    rw [← steps_not_waiting hend left.reduceOption, ← steps_append, ← List.reduceOption_append, h]
  rw [clock_start, hused] at hresume
  refine ⟨used.reduceOption, left.reduceOption, List.reduceOption_append _ _, hend, ?_, ?_, ?_⟩
  · rw [hrun]
    exact congrArg Run.outcome hresume
  · rw [hrun]
    refine (congrArg (fun r => receivedFrames r.trace) hresume).trans ?_
    have htrace : ([] : List Frame) ++ receivedFrames (t ++ []) = used.reduceOption := by
      rw [List.append_nil, hrec, List.nil_append]
    exact htrace
  · rw [hrun]
    rfl

theorem exists_datagrams {frames : List Frame}
    (hf : ∀ frame ∈ frames, frame.len.toNat ≤ maxFdDataLen) :
    ∃ datagrams : List Datagram, datagrams.map Datagram.frame = frames.map some := by
  induction frames with
  | nil => exact ⟨[], rfl⟩
  | cons frame frames ih =>
    obtain ⟨hl, hf⟩ := List.forall_mem_cons.mp hf
    obtain ⟨datagrams, hd⟩ := ih hf
    have hfits : ∀ f ∈ some frame, f.len.toNat ≤ maxFdDataLen := by
      rintro f ⟨⟩
      exact hl
    exact ⟨⟨some frame, hfits⟩ :: datagrams, congrArg (some frame :: ·) hd⟩

/-- What waits before the request is called, and what comes when it has transmitted. -/
def backlog (waiting later : List Datagram) : List Arrived :=
  waiting.map (⟨⊥, ·⟩) ++ later.map (⟨WithBot.some 0, ·⟩)

theorem datagrams_backlog (waiting later : List Datagram) :
    (backlog waiting later).map Arrived.datagram = waiting ++ later := by
  rw [backlog, List.map_append, List.map_map, List.map_map]
  exact congrArg₂ (· ++ ·) (List.map_id _) (List.map_id _)

theorem yields_datagrams (datagrams : List Datagram) :
    Yields datagrams (mailbox 0 (datagrams.map Datagram.frame)).recvs := by
  induction datagrams with
  | nil => exact .nil []
  | cons d datagrams ih => exact .datagram 0 ih

theorem arrives_backlog (waiting later : List Datagram) : Arrives (backlog waiting later)
    (mailbox 0 ((waiting ++ later).map Datagram.frame)) where
  inOrder := by
    refine List.pairwise_append.mpr ⟨?_, ?_, ?_⟩
    · exact List.pairwise_map.mpr (List.pairwise_of_forall fun _ _ => le_rfl)
    · exact List.pairwise_map.mpr (List.pairwise_of_forall fun _ _ => le_rfl)
    · intro a ha b _
      obtain ⟨d, -, rfl⟩ := List.mem_map.mp ha
      exact bot_le
  yields := by
    rw [datagrams_backlog]
    exact yields_datagrams _

theorem waitingAt_backlog (waiting later : List Datagram) :
    waitingAt (backlog waiting later) (some 0) = waiting := by
  rw [waitingAt, backlog, List.filter_append, List.filter_eq_self.mpr, List.filter_eq_nil_iff.mpr,
    List.append_nil, List.map_map]
  · exact List.map_id _
  · intro a ha
    obtain ⟨d, -, rfl⟩ := List.mem_map.mp ha
    simp
  · intro a ha
    obtain ⟨d, -, rfl⟩ := List.mem_map.mp ha
    simp

/-- The frames that wait came before the request. -/
theorem time_of_backlog {later : List Datagram} {arrival : WithBot ℕ} {i : ℕ}
    (hi : i < (waiting.filterMap Datagram.frame).length)
    (h : (stamped (backlog waiting later))[i]? = some (arrival, frame)) : arrival = ⊥ := by
  have hlen : (stamped (waiting.map (⟨⊥, ·⟩))).length =
      (waiting.filterMap Datagram.frame).length := by
    have hframes := map_stamped (waiting.map (⟨⊥, ·⟩))
    rw [List.map_map] at hframes
    rw [← List.length_map, hframes]
    exact congrArg (fun l => (l.filterMap Datagram.frame).length) (List.map_id waiting)
  rw [backlog, stamped_append, List.getElem?_append_left (hlen ▸ hi)] at h
  obtain ⟨a, ha, rfl⟩ := time_of_stamped h
  obtain ⟨d, -, rfl⟩ := List.mem_map.mp ha
  rfl

/-- A leak shows in a run in which the frames that complete the response follow at once. -/
theorem Leaks.not_own (h : c.Leaks waiting) : ∃ env arrived, Arrives arrived env ∧
    waitingAt arrived (firstSent (c.run env).trace) = waiting ∧ ¬ c.Own arrived (c.run env) := by
  obtain ⟨hlive, htime, i, frame, hi, hu⟩ := (draws_iff (fits_frames waiting)).mp h.draws
  obtain ⟨v, datas, hd, hv⟩ := exists_completion (low_steps low_start _) hlive
  have hfits : ∀ frame ∈ datas.map c.reply, frame.len.toNat ≤ maxFdDataLen := by
    intro frame hf
    obtain ⟨data, hmem, rfl⟩ := List.mem_map.mp hf
    exact len_reply (hd data hmem)
  obtain ⟨later, hlater⟩ := exists_datagrams hfits
  have hsome : ((datas.map c.reply).map some).reduceOption = datas.map c.reply :=
    List.filterMap_map.trans List.filterMap_some
  have hframes : ((waiting ++ later).map Datagram.frame).reduceOption =
      waiting.filterMap Datagram.frame ++ datas.map c.reply := by
    rw [List.map_append, List.reduceOption_append, hlater, hsome]
    exact congrArg (· ++ _) List.filterMap_map
  rw [← steps_append, ← hframes] at hv
  obtain ⟨used, left, hsplit, hend, hdone, hreceived, hsent⟩ :=
    run_mailbox h.valid h.representable htime hv
  refine ⟨_, _, arrives_backlog waiting later, ?_, fun hown => ?_⟩
  · rw [hsent]
    exact waitingAt_backlog waiting later
  obtain ⟨hlt, -⟩ := List.getElem?_eq_some_iff.mp hi
  rw [hframes] at hsplit
  have hj : i < used.length := by
    refine Nat.lt_of_not_le fun hle => hend ?_
    have htake : (waiting.filterMap Datagram.frame).take i =
        used ++ left.take (i - used.length) := by
      rw [← List.take_append_of_le_length (Nat.le_of_lt hlt), hsplit, List.take_append,
        List.take_of_length_le hle]
    rw [htake, steps_append, steps_not_waiting hend] at hu
    exact uses_waiting hu
  obtain ⟨hget, htake⟩ := agree_of_append hsplit hlt hj
  rw [hget, ← hreceived] at hi
  rw [htake, ← hreceived] at hu
  obtain ⟨time, -, hall⟩ := hown v hdone
  obtain ⟨arrival, hstamp, hle⟩ := hall i frame hi hu
  rw [time_of_backlog hlt hstamp] at hle
  exact WithBot.not_coe_le_bot time hle

/-- A request uses only frames that come after it has transmitted the first frame of its payload,
whatever comes when, if and only if the datagrams that wait then leak into no response. -/
theorem own_iff (c : Call) (waiting : List Datagram) :
    (∀ env arrived, Arrives arrived env →
      waitingAt arrived (firstSent (c.run env).trace) = waiting → c.Own arrived (c.run env)) ↔
      ¬ c.Leaks waiting := by
  constructor
  · intro hown hl
    obtain ⟨env, arrived, ha, hw, hnot⟩ := hl.not_own
    exact hnot (hown env arrived ha hw)
  · rintro hl env arrived ha rfl
    exact own_of_not_leaks ha hl

/-! ### A late response -/

/-- Tester Present. -/
def testerPresent : Call := ⟨.standard 0x7E0, .standard 0x7E8, [0x3E], default⟩

/-- The response to an earlier request, which has timed out. -/
def lateResponse : Frame := testerPresent.reply [0x01, 0x42]

/-- The response to an earlier request is the only datagram on the socket. -/
def lateArrival : Arrived := ⟨⊥, some lateResponse, by decide⟩

/-- The response to an earlier request is returned as the response to the next one. -/
theorem not_own_lateResponse : Arrives [lateArrival] (mailbox 0 [some lateResponse]) ∧
    (testerPresent.run (mailbox 0 [some lateResponse])).outcome = .done [0x42] ∧
    ¬ testerPresent.Own [lateArrival] (testerPresent.run (mailbox 0 [some lateResponse])) := by
  have hsteps : testerPresent.steps testerPresent.start [some lateResponse].reduceOption =
      .receiving 0 (.accepted [0x42]) := by rfl
  have hvalid : testerPresent.Valid := ⟨by decide, by decide⟩
  obtain ⟨used, left, hsplit, hend, hdone, hreceived, -⟩ :=
    run_mailbox hvalid (by decide) (by decide) hsteps
  refine ⟨arrives_backlog [lateArrival.datagram] [], hdone, fun hown => ?_⟩
  cases used with
  | nil => exact hend trivial
  | cons frame used =>
    obtain ⟨rfl, -⟩ := List.cons.inj hsplit
    obtain ⟨time, -, hall⟩ := hown [0x42] hdone
    obtain ⟨arrival, hstamp, hle⟩ :=
      hall 0 lateResponse (by rw [hreceived]; rfl) ⟨rfl, .inr (by decide)⟩
    obtain ⟨a, ha, rfl⟩ := time_of_stamped hstamp
    obtain rfl := List.mem_singleton.mp ha
    exact WithBot.not_coe_le_bot time hle

end Call

end Mcanbus.Isotp
