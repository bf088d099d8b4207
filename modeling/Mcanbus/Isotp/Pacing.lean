import Mcanbus.Isotp.Deadline
import Mcanbus.Isotp.Triples

/-! # The separation of Consecutive Frames

The sender sleeps between Consecutive Frames. However long its calls take and
wherever it stops, the frames are apart by what the Flow Control has asked for.
-/

namespace Mcanbus.Isotp

open Rust Effect Effect.Process

/-- The last frame with the identifier that was received. -/
def lastReceived (rxId : CanId) (t : List Event) : Option Frame :=
  ((receivedFrames t).filter (·.id = rxId)).getLast?

/-- The separation time in nanoseconds that a Flow Control asks for. -/
def separationTime (frame : Frame) : ℕ := (ctsParams frame.payload).2.toNat * 1000000

/-- What is sent last follows a Flow Control that clears the sender, and every Consecutive Frame by
the separation time at least. -/
def Spaced (rxId : CanId) (t : List Event) (time : ℕ) : Prop :=
  ∃ frame, lastReceived rxId t = some frame ∧ IsClearToSend frame.payload ∧
    ∀ time' frame', .sent time' frame' ∈ t → isConsecutive frame' = true →
      time' + separationTime frame ≤ time

/-- The guard of a paced request. -/
def Paced (rxId : CanId) (t : List Event) (e : Event) : Prop :=
  ∀ time frame, e = .sent time frame → isConsecutive frame = true → Spaced rxId t time

/-- The event sends no Consecutive Frame. -/
def Harmless (e : Event) : Prop := ∀ time frame, e = .sent time frame → isConsecutive frame = false

variable {txId rxId : CanId} {payload rest : List UInt8} {opts : Options} {deadline total i : ℕ}
  {bs stMinMs : UInt8} {t : List Event} {e : Event} {frame : Frame} {env : Env}

theorem harmless_sent (h : isConsecutive frame = false) (time : ℕ) :
    Harmless (.sent time frame) := by
  rintro _ _ ⟨⟩
  exact h

theorem lastReceived_match (t : List Event) (hid : frame.id = rxId) :
    lastReceived rxId (t ++ [.received (some frame)]) = some frame := by
  simp [lastReceived, hid]

theorem lastReceived_sent (t : List Event) (time : ℕ) (frame : Frame) :
    lastReceived rxId (t ++ [.sent time frame]) = lastReceived rxId t := by
  simp [lastReceived]

theorem isConsecutive_singleFrame (txId : CanId) (padding : UInt8)
    (h : payload.length ≤ sfMaxLen) :
    isConsecutive (classicFrame txId (singleFrame payload padding)) = false := by
  have hl : (singleFrame payload padding).length = frameDlc := length_padded (Nat.succ_le_succ h)
  unfold isConsecutive
  rw [Frame.payload_ofPayload (by rw [hl]; decide)]
  apply decide_eq_false
  rw [(sf_pci (Nat.lt_succ_of_le h)).1]
  decide

/-! ### What sends no Consecutive Frame -/

/-- The property of the events so far that every other event keeps. -/
def Lasting (A : List Event → Prop) : Prop := ∀ t e, A t → Harmless e → A (t ++ [e])

theorem lasting_paced : Lasting fun t => Guarded (Paced rxId) [] t := by
  refine fun t e ht he => Guarded.append.mpr ⟨ht, Guarded.singleton.mpr ?_⟩
  rintro time frame rfl hc
  rw [he time frame rfl] at hc
  cases hc

/-- Before the first Consecutive Frame. -/
def Unstarted (rxId : CanId) (t : List Event) : Prop :=
  Guarded (Paced rxId) [] t ∧ ∀ e ∈ t, Harmless e

theorem lasting_unstarted : Lasting (Unstarted rxId) := by
  refine fun t e ht he => ⟨lasting_paced t e ht.1 he, fun e' he' => ?_⟩
  rcases List.mem_append.mp he' with hm | hm
  · exact ht.2 e' hm
  · exact List.mem_singleton.mp hm ▸ he

section Lasting

variable {A : List Event → Prop} (hA : Lasting A)

include hA

theorem triple_sendOther (h : isConsecutive frame = false) :
    Triple (fun _ t => A t) (send frame) (fun _ _ t => A t) fun _ _ t => A t :=
  triple_send (fun _ _ t hp _ _ _ => hA t _ hp (harmless_sent h _))
    fun _ _ t _ _ hp _ _ => hA t _ hp nofun

/-- A frame that is returned was received last. -/
theorem triple_next : Triple (fun _ t => A t) (recvWithId rxId deadline)
    (fun answer _ t => A t ∧ ∀ frame, answer = some frame → lastReceived rxId t = some frame)
    fun _ _ t => A t := by
  refine triple_recvWithId (fun _ t _ _ _ hp _ _ => hA t _ hp nofun) ?_ ?_ ?_ fun _ _ hp => hp
  · intro env t d frame recvs hp hr hid
    refine ⟨hA t _ hp nofun, ?_⟩
    rintro _ ⟨⟩
    exact lastReceived_match t hid
  · exact fun _ t hp _ => ⟨hA t _ hp nofun, nofun⟩
  · exact fun _ t _ _ _ hp _ => hA t _ hp nofun

/-- The wait ends with the Flow Control that clears the sender. -/
theorem triple_waitForFc : Triple (fun _ t => A t) (waitForFc rxId deadline opts)
    (fun r _ t => A t ∧ ∃ frame, lastReceived rxId t = some frame ∧
      IsClearToSend frame.payload ∧ ctsParams frame.payload = r)
    fun _ _ t => A t := by
  refine Triple.loop (J := fun _ _ t => A t) (fun waits => ?_) (fun _ _ _ hp => hp) 0
  refine (triple_next hA).bind ?_
  rintro (_ | frame)
  · exact triple_raise fun _ t hp => hA t _ hp.1 nofun
  · refine Triple.bind (Q := fun data _ t => frame.data = .ok data ∧ A t ∧
      lastReceived rxId t = some frame)
      (Triple.ofChecked (fun data hd _ _ hp => ⟨hd, hp.1, hp.2 frame rfl⟩) fun _ _ _ hp => hp.1)
      fun data => triple_attempt ?_ ?_ fun _ _ _ _ hp => hp.2.1
    · rintro (waits' | r) hr env t ⟨hd, hp, hlast⟩
      · exact hp
      · have hclear := flowControlData_clear hr
        rw [flowControlData_cts hclear] at hr
        cases hr
        obtain ⟨-, rfl⟩ := frame.of_data_eq hd
        exact ⟨hp, frame, hlast, hclear, rfl⟩
    · exact fun _ _ _ t hp => hA t _ hp.2.1 nofun

theorem triple_collect (s : CollectState) : Triple (fun _ t => A t) (collect rxId deadline total s)
    (fun _ _ t => A t) fun _ _ t => A t := by
  refine Triple.loop (J := fun _ _ t => A t) (fun s => ?_) (fun _ _ _ hp => hp) s
  unfold collectStep
  split
  case isFalse => exact Triple.pure fun _ _ hp => hp
  refine (triple_next hA).bind ?_
  rintro (_ | frame)
  · exact triple_raise fun _ t hp => hA t _ hp.1 nofun
  · refine Triple.bind (Q := fun _ _ t => A t)
      (Triple.ofChecked (fun _ _ _ _ hp => hp.1) fun _ _ _ hp => hp.1) fun data => ?_
    refine Triple.bind (Q := fun _ _ t => A t)
      (triple_attempt (fun _ _ _ _ hp => hp) (fun _ _ _ t hp => hA t _ hp nofun)
        fun _ _ _ _ hp => hp) fun next => ?_
    exact Triple.pure fun _ _ hp => hp

theorem triple_receiveResponse : Triple (fun _ t => A t)
    (receiveResponse txId rxId deadline opts) (fun _ _ t => A t) fun _ _ t => A t := by
  refine (triple_next hA).bind ?_
  rintro (_ | frame)
  · exact triple_raise fun _ t hp => hA t _ hp.1 nofun
  · refine Triple.bind (Q := fun _ _ t => A t)
      (Triple.ofChecked (fun _ _ _ _ hp => hp.1) fun _ _ _ hp => hp.1) fun data => ?_
    refine Triple.bind (Q := fun _ _ t => A t)
      (triple_attempt (fun _ _ _ _ hp => hp) (fun _ _ _ t hp => hA t _ hp nofun)
        fun _ _ _ _ hp => hp) ?_
    rintro (payload | ⟨total, out⟩)
    · exact Triple.pure fun _ _ hp => hp
    · rw [sendFc_eq]
      exact (triple_sendOther hA (isConsecutive_flowControl txId opts)).bind fun _ =>
        triple_collect hA _

end Lasting

/-! ### Consecutive Frames -/

/-- Consecutive Frames are sent after the Flow Control, and every one so far is earlier by the
time. -/
structure PacedBy (rxId : CanId) (fc : Frame) (gap : ℕ) (env : Env) (t : List Event) : Prop where
  paced : Guarded (Paced rxId) [] t
  last : lastReceived rxId t = some fc
  earlier : ∀ time frame, .sent time frame ∈ t → isConsecutive frame = true → time + gap ≤ env.clock

theorem triple_sendConsecutive {fc : Frame} (hc : IsClearToSend fc.payload) :
    Triple (PacedBy rxId fc (separationTime fc)) (send frame) (fun _ => PacedBy rxId fc 0)
      fun _ _ t => Guarded (Paced rxId) [] t := by
  refine triple_send (fun env env' t hp _ _ hclock => ?_)
    fun _ _ t _ _ hp _ _ => lasting_paced t _ hp.paced nofun
  refine ⟨Guarded.append.mpr ⟨hp.paced, Guarded.singleton.mpr ?_⟩, ?_, ?_⟩
  · rintro _ _ ⟨⟩ -
    exact ⟨fc, hp.last, hc, fun time' frame' hm hf =>
      Nat.le_trans (hp.earlier time' frame' hm hf) hclock⟩
  · rw [lastReceived_sent, hp.last]
  · intro time' frame' hm hf
    rcases List.mem_append.mp hm with hm | hm
    · have := hp.earlier time' frame' hm hf
      omega
    · cases List.mem_singleton.mp hm
      exact Nat.le_refl _

theorem triple_sendConsecutiveFrames {fc : Frame} (hc : IsClearToSend fc.payload) :
    Triple (fun _ t => Unstarted rxId t ∧ lastReceived rxId t = some fc)
      (sendConsecutiveFrames txId rest bs (ctsParams fc.payload).2 opts)
      (fun _ _ t => Guarded (Paced rxId) [] t) fun _ _ t => Guarded (Paced rxId) [] t := by
  let J : SendState → Assertion Env Event := fun s env t => ∃ i, s = .sent rest i ∧
    PacedBy rxId fc (if i < cfCount rest then separationTime fc else 0) env t
  refine (Triple.loop (J := J) (fun s => Triple.exists_intro fun i => Triple.intro ?_)
    (fun _ _ _ hj => ?_) ⟨1, 0, 0⟩).pre ?_
  · rintro rfl
    rcases Nat.lt_or_ge i (cfCount rest) with hi | hi
    case inr =>
      rw [sendStep_exit hi]
      exact Triple.pure fun _ _ hp => hp.paced
    rw [sendStep_eq hi, if_pos hi]
    refine (triple_sendConsecutive hc).bind fun _ => ?_
    split
    · exact triple_raise fun _ t hp => lasting_paced t _ hp.paced nofun
    · split
      case isTrue hsleep =>
        refine Triple.bind (Q := fun _ env t => PacedBy rxId fc (separationTime fc) env t)
          (triple_sleep fun env env' t hp _ _ hclock => ?_) fun _ => Triple.pure fun env t hp => ?_
        · refine ⟨hp.paced, hp.last, fun time frame hm hf => ?_⟩
          have := hp.earlier time frame hm hf
          unfold separationTime
          omega
        · refine ⟨i + 1, rfl, ?_⟩
          rwa [if_pos hsleep.2]
      case isFalse hstay =>
        refine Triple.pure fun env t hp => ⟨i + 1, rfl, ?_⟩
        split
        case isFalse => exact hp
        case isTrue hlt =>
          have hzero : separationTime fc = 0 := by
            have h0 : (ctsParams fc.payload).2 = 0 := by
              by_contra h0
              exact hstay ⟨UInt8.pos_iff_ne_zero.mpr h0, hlt⟩
            rw [separationTime, h0]
            rfl
          rwa [hzero]
  · obtain ⟨i, -, hp⟩ := hj
    exact hp.paced
  · rintro env t ⟨⟨hp, hnone⟩, hlast⟩
    refine ⟨0, (SendState.sent_zero rest).symm, hp, hlast, fun time frame hm hf => ?_⟩
    rw [hnone _ hm time frame rfl] at hf
    cases hf

/-! ### A request -/

theorem triple_exchange (hm : payload.length ≤ maxFfLength) :
    Triple (fun _ t => t = []) (exchange txId rxId payload deadline opts)
      (fun _ _ t => Guarded (Paced rxId) [] t) fun _ _ t => Guarded (Paced rxId) [] t := by
  rcases Nat.lt_or_ge sfMaxLen payload.length with hl | hl
  · rw [exchange_segmented txId rxId deadline opts hl hm]
    have hstart : Triple (fun _ t => t = []) (send (classicFrame txId (firstFrame payload)))
        (fun _ _ t => Unstarted rxId t) fun _ _ t => Guarded (Paced rxId) [] t := by
      refine (triple_sendOther lasting_unstarted (isConsecutive_firstFrame txId hl hm)).mono ?_
        (fun _ _ _ hp => hp) fun _ _ _ hp => hp.1
      rintro env t rfl
      exact ⟨.nil, nofun⟩
    refine hstart.bind fun _ => ?_
    refine Triple.bind ((triple_waitForFc lasting_unstarted).mono (fun _ _ hp => hp)
      (fun _ _ _ hp => hp) fun _ _ _ hp => hp.1) ?_
    rintro ⟨bs, stMinMs⟩
    refine Triple.bind (Q := fun _ _ t => Guarded (Paced rxId) [] t) ?_ fun _ =>
      triple_receiveResponse lasting_paced
    have hsend : ∀ fc : Frame, Triple
        (fun _ t => (IsClearToSend fc.payload ∧ ctsParams fc.payload = (bs, stMinMs)) ∧
          Unstarted rxId t ∧ lastReceived rxId t = some fc)
        (sendConsecutiveFrames txId (payload.drop ffFirstPayload) bs stMinMs opts)
        (fun _ _ t => Guarded (Paced rxId) [] t) fun _ _ t => Guarded (Paced rxId) [] t := by
      refine fun fc => Triple.intro fun hfc => ?_
      rw [show stMinMs = (ctsParams fc.payload).2 by rw [hfc.2]]
      exact triple_sendConsecutiveFrames hfc.1
    refine (Triple.exists_intro hsend).pre ?_
    rintro env t ⟨hp, fc, hlast, hc, hparams⟩
    exact ⟨fc, ⟨hc, hparams⟩, hp, hlast⟩
  · rw [exchange_single txId rxId deadline opts hl]
    refine (Triple.pre (triple_sendOther lasting_paced
      (isConsecutive_singleFrame txId opts.padding hl)) ?_).bind fun _ =>
        triple_receiveResponse lasting_paced
    rintro env t rfl
    exact .nil

theorem triple_request : Triple (fun _ t => t = []) (request txId rxId payload opts)
    (fun _ _ t => Guarded (Paced rxId) [] t) fun _ _ t => Guarded (Paced rxId) [] t := by
  have hraise : ∀ error, Triple (fun _ t => t = []) (raise error : IsotpM (List UInt8))
      (fun _ _ t => Guarded (Paced rxId) [] t) fun _ _ t => Guarded (Paced rxId) [] t := by
    refine fun error => triple_raise ?_
    rintro env t rfl
    exact lasting_paced [] _ .nil nofun
  unfold request
  split
  · exact hraise _
  · split
    · exact hraise _
    case isFalse hm =>
      refine (triple_now fun _ _ hp => hp).bind (Q := fun _ _ t => t = []) fun start => ?_
      refine Triple.bind (Q := fun _ _ t => t = []) (Triple.ofChecked (fun _ _ _ _ hp => hp) ?_)
        fun deadline => triple_exchange (Nat.not_lt.mp hm)
      rintro p env t rfl
      exact .nil

/-- Whatever the calls of a request take and wherever it stops, a Consecutive Frame is sent only
after a Flow Control that clears the sender, the last frame that was received, and later than every
Consecutive Frame before it by the separation time that it asks for. -/
theorem request_paced (txId rxId : CanId) (payload : List UInt8) (opts : Options) (env : Env)
    (before after : List Event) (time : ℕ) (frame : Frame) :
    (request txId rxId payload opts env).trace = before ++ .sent time frame :: after →
      isConsecutive frame = true → Spaced rxId before time := by
  intro ht hc
  have hall : Guarded (Paced rxId) [] (request txId rxId payload opts env).trace := by
    have hr : Triple _ (request txId rxId payload opts) _ _ := triple_request
    replace hr := hr env [] rfl
    rcases ho : (request txId rxId payload opts env).outcome with response | failure
    · exact hr.done response ho
    · exact hr.halted failure ho
  rw [ht] at hall
  exact hall.of_mid time frame rfl hc

/-- The ECU asks for 10 milliseconds. -/
theorem request_paced_twenty :
    let cts := classicFrame (.standard 0x7E8) [0x30, 0, 10]
    let sent (i : ℕ) := classicFrame (.standard 0x7E0)
      (consecutiveFrame (List.replicate 14 0xAB) 0xCC i)
    Spaced (.standard 0x7E8) [.sent 0 (classicFrame (.standard 0x7E0)
      (firstFrame (List.replicate 20 0xAB))), .received (some cts), .sent 5 (sent 0)] 10000005 :=
  request_paced (.standard 0x7E0) (.standard 0x7E8) (List.replicate 20 0xAB) default
    ⟨0, [⟨5, .ok (some (classicFrame (.standard 0x7E8) [0x30, 0, 10]))⟩], [], []⟩ _ [] 10000005
    (classicFrame (.standard 0x7E0) (consecutiveFrame (List.replicate 14 0xAB) 0xCC 1)) rfl rfl

end Mcanbus.Isotp
