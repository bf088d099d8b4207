import Mcanbus.Isotp.Pacing

/-! # The errors of a request

A request fails with an error of the socket, or for a reason that can be told from
the clock and from the frames that it has sent and received. The kind of the error
tells the reason.
-/

namespace Mcanbus.Isotp

open Rust Effect Effect.Process

/-- The data of a Flow Control frame that reports an overflow. -/
def IsOverflow (data : List UInt8) : Prop :=
  ∃ pci rest, data = pci :: rest ∧ pci &&& pciTypeMask = pciFc ∧ pci &&& 0x0F = fcOverflow

/-- The socket has an answer that fails with the error. -/
def Env.Fails (env : Env) (error : IoError) : Prop :=
  (∃ answer ∈ env.recvs, answer.outcome = .error error) ∨
    ∃ answer ∈ env.sends, answer.error = some error

/-- The frames with the identifier that were received. -/
def receivedOn (rxId : CanId) (t : List Event) : List Frame :=
  (receivedFrames t).filter (·.id = rxId)

/-- The received frames that ask the sender to wait. -/
def waitsReceived (rxId : CanId) (t : List Event) : ℕ :=
  (receivedOn rxId t).countP fun frame => decide (IsWait frame.payload)

/-- The frame that was received last is not one of those that may follow. -/
inductive Violation (txId rxId : CanId) (payload : List UInt8) (opts : Options) (t : List Event)
    (data : List UInt8) : Prop
  /-- After the First Frame, a Flow Control. -/
  | flowControl : sfMaxLen < payload.length →
      sentFrames t = [classicFrame txId (firstFrame payload)] → data ≠ [] →
      ¬ IsClearToSend data → ¬ IsWait data → ¬ IsOverflow data →
      Violation txId rxId payload opts t data
  /-- After the payload, a Single Frame or a First Frame. -/
  | response : sentFrames t = segmentation txId payload opts →
      (∀ pci rest, data = pci :: rest → ¬ IsSingle pci rest) →
      (∀ pci low rest, data = pci :: low :: rest → ¬ IsFirst pci low) →
      Violation txId rxId payload opts t data
  /-- After the Flow Control, the Consecutive Frame with the next number. -/
  | consecutive (before : List Event) (time : ℕ) (after : List Event) :
      t = before ++ .sent time (flowControl txId opts) :: after →
      sentFrames before = segmentation txId payload opts → sentFrames after = [] →
      (∀ pci rest, data = pci :: rest → pci &&& pciTypeMask = pciCf →
        pci &&& 0x0F ≠ .ofNat ((receivedOn rxId after).length % 16)) →
      Violation txId rxId payload opts t data

/-- Why a request fails with an error, from its environment at the start and at the end. -/
inductive Cause (txId rxId : CanId) (payload : List UInt8) (opts : Options) (start env : Env)
    (t : List Event) : IoError → Prop
  | socket {error : IoError} : start.Fails error → Cause txId rxId payload opts start env t error
  | payload (message : String) : payload = [] ∨ maxFfLength < payload.length →
      Cause txId rxId payload opts start env t (.new .InvalidInput message)
  | deadline (message : String) : start.clock + opts.timeout ≤ env.clock →
      Cause txId rxId payload opts start env t (.new .TimedOut message)
  | waits (message : String) : opts.maxWaits.toNat < waitsReceived rxId t →
      Cause txId rxId payload opts start env t (.new .TimedOut message)
  | blockSize (message : String) (frame : Frame) : lastReceived rxId t = some frame →
      IsClearToSend frame.payload → (ctsParams frame.payload).1 ≠ 0 →
      (ctsParams frame.payload).1.toNat < cfCount (payload.drop ffFirstPayload) →
      Cause txId rxId payload opts start env t (.new .Unsupported message)
  | overflow (message : String) (frame : Frame) : lastReceived rxId t = some frame →
      IsOverflow frame.payload → Cause txId rxId payload opts start env t (.new .Other message)
  | violation (message : String) (frame : Frame) : lastReceived rxId t = some frame →
      Violation txId rxId payload opts t frame.payload →
      Cause txId rxId payload opts start env t (.new .InvalidData message)

variable {txId rxId : CanId} {payload data : List UInt8} {opts : Options} {total i : ℕ}
  {bs stMinMs waits : UInt8} {t : List Event} {frame : Frame} {start env env' : Env}
  {error : IoError}

/-! ### Frames that end the wait -/

/-- The errors of the wait for a Flow Control. -/
theorem flowControlData_fails (h : flowControlData opts waits data = .ok (.error error)) :
    (∃ message, error = .new .InvalidData message ∧ data ≠ [] ∧ ¬ IsClearToSend data ∧
      ¬ IsWait data ∧ ¬ IsOverflow data) ∨
    (∃ message, error = .new .TimedOut message ∧ IsWait data ∧
      opts.maxWaits.toNat < waits.toNat + 1) ∨
    ∃ message, error = .new .Other message ∧ IsOverflow data := by
  rcases data with _ | ⟨pci, rest⟩
  · cases h
  by_cases hclear : IsClearToSend (pci :: rest)
  · rw [flowControlData_cts hclear] at h
    cases h
  by_cases hwait : IsWait (pci :: rest)
  · rw [flowControlData_wait hwait] at h
    rcases hadd : addU8 waits 1 with p | w <;> rw [hadd] at h
    · cases h
    · rw [ok_bind] at h
      split at h
      case isFalse => cases h
      case isTrue hlt =>
        cases h
        have hw := UInt8.lt_iff_toNat_lt.mp hlt
        rw [toNat_addU8_one hadd] at hw
        exact .inr (.inl ⟨_, rfl, hwait, hw⟩)
  by_cases hover : IsOverflow (pci :: rest)
  · obtain ⟨_, _, ⟨⟩, hfc, ho⟩ := hover
    have hover : IsOverflow (pci :: rest) := ⟨pci, rest, rfl, hfc, ho⟩
    unfold flowControlData at h
    simp only [List.isEmpty_cons, Bool.false_eq_true, if_false, index_zero_cons, ok_bind, hfc,
      ne_eq, not_true_eq_false, ho, if_true] at h
    cases h
    exact .inr (.inr ⟨_, rfl, hover⟩)
  · left
    suffices hinvalid : ∃ message, error = invalidData message by
      obtain ⟨message, rfl⟩ := hinvalid
      exact ⟨message, rfl, List.cons_ne_nil _ _, hclear, hwait, hover⟩
    unfold flowControlData at h
    simp only [List.isEmpty_cons, Bool.false_eq_true, if_false, index_zero_cons, ok_bind] at h
    split at h
    · cases h
      exact ⟨_, rfl⟩
    case isFalse hfc =>
      have hfc := not_not.mp hfc
      rw [if_neg fun hc => hclear ⟨pci, rest, rfl, hfc, hc⟩,
        if_neg fun hc => hwait ⟨pci, rest, rfl, hfc, hc⟩,
        if_neg fun hc => hover ⟨pci, rest, rfl, hfc, hc⟩] at h
      cases h
      exact ⟨_, rfl⟩

/-! ### Histories -/

/-- What the socket fails with at the end it has failed with at the start. -/
def Inherits (start env : Env) : Prop := ∀ error, env.Fails error → start.Fails error

/-- The assertion about the events, in an environment of the request. -/
def At (start : Env) (A : List Event → Prop) : Assertion Env Event := fun env t =>
  Inherits start env ∧ A t

/-- A failure has a cause. -/
def Caused (txId rxId : CanId) (payload : List UInt8) (opts : Options) (start : Env) :
    Halt IoError → Assertion Env Event := fun h env t =>
  ∀ error, h = .failed error → Cause txId rxId payload opts start env t error

theorem Inherits.recv {d : ℕ} {outcome : Except IoError (Option Frame)} {recvs : List RecvAnswer}
    (h : Inherits start env) (hr : env.recvs = ⟨d, outcome⟩ :: recvs) :
    Inherits start (env.advance d recvs) := by
  rintro error (⟨answer, ha, he⟩ | hs)
  · exact h error (.inl ⟨answer, hr ▸ List.mem_cons_of_mem _ ha, he⟩)
  · exact h error (.inr hs)

theorem Inherits.send (h : Inherits start env) (hr : env'.recvs = env.recvs)
    (hs : env'.sends = env.sends.tail) : Inherits start env' := by
  rintro error (hf | ⟨answer, ha, he⟩)
  · exact h error (.inl (hr ▸ hf))
  · exact h error (.inr ⟨answer, List.mem_of_mem_tail (hs ▸ ha), he⟩)

theorem receivedOn_match (t : List Event) (hid : frame.id = rxId) :
    receivedOn rxId (t ++ [.received (some frame)]) = receivedOn rxId t ++ [frame] := by
  simp [receivedOn, hid]

theorem receivedOn_foreign (t : List Event) {answer : Option Frame} (h : Foreign rxId answer) :
    receivedOn rxId (t ++ [.received answer]) = receivedOn rxId t := by
  cases answer with
  | none => simp [receivedOn]
  | some frame =>
    have hid : frame.id ≠ rxId := h frame rfl
    simp [receivedOn, hid]

theorem receivedOn_raised (t : List Event) (error : IoError) :
    receivedOn rxId (t ++ [.raised error]) = receivedOn rxId t := by
  simp [receivedOn]

theorem lastReceived_raised (t : List Event) (error : IoError) :
    lastReceived rxId (t ++ [.raised error]) = lastReceived rxId t := by
  simp [lastReceived]

section Rules

variable {A B : List Event → Prop}

/-- The rule for a frame that is sent. -/
theorem triple_sendAt (h : ∀ t time, A t → B (t ++ [.sent time frame])) :
    Triple (At start A) (send frame) (fun _ => At start B)
      (Caused txId rxId payload opts start) := by
  refine triple_send (fun env env' t hp hr hs _ => ⟨hp.1.send hr hs, h t _ hp.2⟩) ?_
  rintro env env' t answer error hp ha he _ ⟨⟩
  exact .socket (hp.1 error (.inr ⟨answer, ha, he⟩))

/-- The rule for the wait for a frame. Without one the deadline has passed. -/
theorem triple_recvAt
    (hA : ∀ t answer, A t → Foreign rxId answer → A (t ++ [.received answer])) :
    Triple (At start A) (recvWithId rxId (start.clock + opts.timeout))
      (fun answer env t => Inherits start env ∧ match answer with
        | some frame => frame.id = rxId ∧ ∃ u, A u ∧ t = u ++ [.received (some frame)]
        | none => start.clock + opts.timeout ≤ env.clock)
      (Caused txId rxId payload opts start) := by
  refine triple_recvWithId (fun env t d answer recvs hp hr hf =>
    ⟨hp.1.recv hr, hA t answer hp.2 hf⟩) ?_ ?_ ?_ ?_
  · exact fun env t d frame recvs hp hr hid => ⟨hp.1.recv hr, hid, t, hp.2, rfl⟩
  · exact fun env t hp hd => ⟨hp.1, hd⟩
  · rintro env t d error recvs hp hr _ ⟨⟩
    exact .socket (hp.1 error (.inl ⟨_, hr ▸ List.mem_cons_self, rfl⟩))
  · rintro env t hp _ ⟨⟩

theorem triple_timeout {α : Type} {Q : α → Assertion Env Event} (message : String) :
    Triple (fun env _ => Inherits start env ∧ start.clock + opts.timeout ≤ env.clock)
      (raise (.new .TimedOut message)) Q (Caused txId rxId payload opts start) := by
  refine triple_raise ?_
  rintro env t ⟨-, hd⟩ _ ⟨⟩
  exact .deadline message hd

/-- The rule for what is read in a frame that was received last. -/
theorem triple_readAt {α : Type} {f : List UInt8 → Checked (Except IoError α)}
    (hf : ∀ env u error, A u → frame.id = rxId → f frame.payload = .ok (.error error) →
      Cause txId rxId payload opts start env (u ++ [.received (some frame)] ++ [.raised error])
        error) :
    Triple (fun env t => Inherits start env ∧ frame.id = rxId ∧
        ∃ u, A u ∧ t = u ++ [.received (some frame)])
      (do let data ← frame.data; attempt (f data))
      (fun a env t => Inherits start env ∧ f frame.payload = .ok (.ok a) ∧ frame.id = rxId ∧
        ∃ u, A u ∧ t = u ++ [.received (some frame)])
      (Caused txId rxId payload opts start) := by
  refine Triple.bind (Q := fun data env t => data = frame.payload ∧ Inherits start env ∧
    frame.id = rxId ∧ ∃ u, A u ∧ t = u ++ [.received (some frame)])
    (Triple.ofChecked (fun data hd env t hp => ?_) ?_) fun data => Triple.intro ?_
  · obtain ⟨-, rfl⟩ := frame.of_data_eq hd
    exact ⟨rfl, hp⟩
  · rintro p env t hp _ ⟨⟩
  · rintro rfl
    refine triple_attempt (fun a ha env t hp => ⟨hp.1, ha, hp.2⟩) ?_ ?_
    · rintro error he env t ⟨-, hid, u, hu, rfl⟩ _ ⟨⟩
      exact hf env u error hu hid he
    · rintro p - env t - _ ⟨⟩

/-- What follows goes on with what was read. -/
theorem triple_readAt_bind {α β : Type} {f : List UInt8 → Checked (Except IoError α)}
    {k : α → IsotpM β} {Q : β → Assertion Env Event}
    (hf : ∀ env u error, A u → frame.id = rxId → f frame.payload = .ok (.error error) →
      Cause txId rxId payload opts start env (u ++ [.received (some frame)] ++ [.raised error])
        error)
    (hk : ∀ a, f frame.payload = .ok (.ok a) → frame.id = rxId →
      Triple (fun env t => Inherits start env ∧ ∃ u, A u ∧ t = u ++ [.received (some frame)]) (k a)
        Q (Caused txId rxId payload opts start)) :
    Triple (fun env t => Inherits start env ∧ frame.id = rxId ∧
        ∃ u, A u ∧ t = u ++ [.received (some frame)])
      (do let data ← frame.data; let a ← attempt (f data); k a) Q
      (Caused txId rxId payload opts start) := by
  have hread := (triple_readAt hf).bind (f := k) (R := Q) fun a env t hp =>
    hk a hp.2.1 hp.2.2.1 env t ⟨hp.1, hp.2.2.2⟩
  rwa [Process.bind_assoc] at hread

end Rules

/-! ### Phases -/

variable {fc : Frame}

theorem lastReceived_failed (t : List Event) (hid : frame.id = rxId) (error : IoError) :
    lastReceived rxId (t ++ [.received (some frame)] ++ [.raised error]) = some frame := by
  rw [lastReceived_raised, lastReceived_match t hid]

theorem caused_pending (env : Env) (t : List Event) :
    Caused txId rxId payload opts start .pending env t := by
  rintro _ ⟨⟩

/-- The First Frame was sent, and the frames that ask to wait are counted. -/
def Waiting (txId rxId : CanId) (payload : List UInt8) (waits : UInt8) (t : List Event) : Prop :=
  sentFrames t = [classicFrame txId (firstFrame payload)] ∧ waitsReceived rxId t = waits.toNat

theorem waitsReceived_match (t : List Event) (hid : frame.id = rxId) :
    waitsReceived rxId (t ++ [.received (some frame)]) =
      waitsReceived rxId t + if IsWait frame.payload then 1 else 0 := by
  rw [waitsReceived, receivedOn_match t hid, List.countP_append, List.countP_singleton]
  simp [waitsReceived]

theorem Waiting.foreign (t : List Event) (answer : Option Frame)
    (h : Waiting txId rxId payload waits t) (hf : Foreign rxId answer) :
    Waiting txId rxId payload waits (t ++ [.received answer]) := by
  refine ⟨by simpa using h.1, ?_⟩
  have hw := h.2
  unfold waitsReceived at hw ⊢
  rwa [receivedOn_foreign t hf]

/-- The wait for a Flow Control ends with the one that clears the sender. -/
theorem triple_waitAt (hl : sfMaxLen < payload.length) :
    Triple (At start (Waiting txId rxId payload 0))
      (waitForFc rxId (start.clock + opts.timeout) opts)
      (fun r env t => ∃ fc : Frame, (IsClearToSend fc.payload ∧ ctsParams fc.payload = r) ∧
        At start (fun t => sentFrames t = [classicFrame txId (firstFrame payload)] ∧
          lastReceived rxId t = some fc) env t)
      (Caused txId rxId payload opts start) := by
  refine Triple.loop (J := fun waits => At start (Waiting txId rxId payload waits))
    (fun waits => ?_) (fun _ env t _ => caused_pending env t) 0
  refine (triple_recvAt Waiting.foreign).bind ?_
  rintro (_ | frame)
  · exact triple_timeout _
  refine (triple_readAt fun env u error hu hid he => ?_).post ?_
  · have hlast := lastReceived_failed u hid error
    obtain ⟨message, rfl, hdata⟩ | ⟨message, rfl, hwait, hlt⟩ | ⟨message, rfl, hover⟩ :=
      flowControlData_fails he
    · refine .violation message frame hlast (.flowControl hl ?_ hdata.1 hdata.2.1 hdata.2.2.1
        hdata.2.2.2)
      simpa using hu.1
    · refine .waits message ?_
      rw [waitsReceived, receivedOn_raised, ← waitsReceived, waitsReceived_match u hid, hu.2,
        if_pos hwait]
      exact hlt
    · exact .overflow message frame hlast hover
  · rintro (waits' | r) env t ⟨hi, hr, hid, u, hu, rfl⟩
    · refine ⟨hi, by simpa using hu.1, ?_⟩
      rw [waitsReceived_match u hid, hu.2]
      obtain ⟨hempty, rfl⟩ | ⟨hwait, hw⟩ := flowControlData_continues hr
      · rw [hempty, if_neg (by decide), Nat.add_zero]
      · rw [if_pos hwait, hw]
    · have hclear := flowControlData_clear hr
      rw [flowControlData_cts hclear] at hr
      cases hr
      exact ⟨frame, ⟨hclear, rfl⟩, hi, by simpa using hu.1, lastReceived_match u hid⟩

theorem triple_sendConsecutiveAt (hl : sfMaxLen < payload.length) (hc : IsClearToSend fc.payload) :
    Triple (At start fun t => sentFrames t = [classicFrame txId (firstFrame payload)] ∧
        lastReceived rxId t = some fc)
      (sendConsecutiveFrames txId (payload.drop ffFirstPayload) (ctsParams fc.payload).1 stMinMs
        opts)
      (fun _ => At start fun t => sentFrames t = segmentation txId payload opts)
      (Caused txId rxId payload opts start) := by
  let J : SendState → Assertion Env Event := fun s env t => ∃ i,
    s = .sent (payload.drop ffFirstPayload) i ∧
    At start (fun t => sentFrames t = (segmentation txId payload opts).take (i + 1) ∧
      lastReceived rxId t = some fc) env t
  refine (Triple.loop (J := J) (fun s => Triple.exists_intro fun i => Triple.intro ?_)
    (fun _ env t _ => caused_pending env t) ⟨1, 0, 0⟩).pre ?_
  · rintro rfl
    rcases Nat.lt_or_ge i (cfCount (payload.drop ffFirstPayload)) with hi | hi
    case inr =>
      rw [sendStep_exit hi]
      refine Triple.pure fun env t hp => ⟨hp.1, ?_⟩
      have hlen : (segmentation txId payload opts).length =
          cfCount (payload.drop ffFirstPayload) + 1 := by
        rw [segmentation_long hl, List.length_cons, List.length_map, length_consecutiveFrames]
      exact hp.2.1.trans (List.take_of_length_le (by omega))
    rw [sendStep_eq hi]
    refine (triple_sendAt (B := fun t => sentFrames t =
      (segmentation txId payload opts).take (i + 2) ∧ lastReceived rxId t = some fc)
      fun t time hp => ⟨?_, ?_⟩).bind fun _ => ?_
    · rw [sentFrames_append, hp.1, List.take_add_one (i := i + 1), segmentation_getElem? hl hi]
      rfl
    · rw [lastReceived_sent, hp.2]
    · split
      case isTrue hb =>
        refine triple_raise ?_
        rintro env t hp _ ⟨⟩
        refine .blockSize _ fc (by rw [lastReceived_raised, hp.2.2]) hc hb.1 ?_
        have hbs := congrArg UInt8.toNat hb.2.1
        have h255 : (UInt8.ofNat (min (i + 1) 255)).toNat = min (i + 1) 255 :=
          Nat.mod_eq_of_lt (by omega)
        rw [h255] at hbs
        omega
      case isFalse =>
        split
        · refine Triple.bind (Q := fun _ => At start fun t => sentFrames t =
            (segmentation txId payload opts).take (i + 2) ∧ lastReceived rxId t = some fc)
            (triple_sleep fun env env' t hp hr hs _ => ⟨fun error hf => hp.1 error ?_, hp.2⟩)
            fun _ => Triple.pure fun env t hp => ⟨i + 1, rfl, hp⟩
          rwa [Env.Fails, hr, hs] at hf
        · exact Triple.pure fun env t hp => ⟨i + 1, rfl, hp⟩
  · rintro env t ⟨hi, hs, hlast⟩
    refine ⟨0, (SendState.sent_zero _).symm, hi, ?_, hlast⟩
    rw [hs, segmentation_long hl]
    rfl

/-- The number of the Consecutive Frame that is expected next. -/
theorem next_seq {n : ℕ} : (UInt8.ofNat (n % 16) + 1) &&& 0x0F = .ofNat ((n + 1) % 16) := by
  have h : ∀ k < 16, (UInt8.ofNat k + 1) &&& 0x0F = .ofNat ((k + 1) % 16) := by decide
  rw [h _ (Nat.mod_lt n (by decide))]
  congr 1
  omega

/-- The Flow Control was sent, and the frames since then are counted. -/
def Collecting (txId rxId : CanId) (payload : List UInt8) (opts : Options) (seq : UInt8)
    (t : List Event) : Prop :=
  ∃ before time after, t = before ++ .sent time (flowControl txId opts) :: after ∧
    sentFrames before = segmentation txId payload opts ∧ sentFrames after = [] ∧
    seq = .ofNat (((receivedOn rxId after).length + 1) % 16)

theorem Collecting.foreign (t : List Event) {seq : UInt8} (answer : Option Frame)
    (h : Collecting txId rxId payload opts seq t) (hf : Foreign rxId answer) :
    Collecting txId rxId payload opts seq (t ++ [.received answer]) := by
  obtain ⟨before, time, after, rfl, hb, ha, hseq⟩ := h
  refine ⟨before, time, after ++ [.received answer], by simp, hb, by simpa using ha, ?_⟩
  rwa [receivedOn_foreign after hf]

theorem triple_collectAt (s : CollectState) :
    Triple (At start (Collecting txId rxId payload opts s.expectedSeq))
      (collect rxId (start.clock + opts.timeout) total s) (fun _ _ _ => True)
      (Caused txId rxId payload opts start) := by
  refine Triple.loop (J := fun s => At start (Collecting txId rxId payload opts s.expectedSeq))
    (fun s => ?_) (fun _ env t _ => caused_pending env t) s
  unfold collectStep
  split
  case isFalse => exact Triple.pure fun _ _ _ => trivial
  case isTrue hl =>
    refine (triple_recvAt fun t answer h hf => h.foreign t answer hf).bind ?_
    rintro (_ | frame)
    · exact triple_timeout _
    refine triple_readAt_bind ?_ fun next hr hid => Triple.pure ?_
    · rintro env _ error ⟨before, time, after, rfl, hb, ha, hseq⟩ hid he
      have hlast := lastReceived_failed
        (before ++ .sent time (flowControl txId opts) :: after) hid error
      obtain ⟨message, hm⟩ | ⟨pci, rest, hp, htype, hs⟩ :=
        consecutiveData_cases total s frame.payload
      · rw [hm] at he
        cases he
        refine .violation message frame hlast (.consecutive before time
          (after ++ [.received (some frame)] ++ [.raised (invalidData message)]) (by simp) hb
          (by simpa using ha) fun pci rest hp htype hnext => ?_)
        rw [receivedOn_raised, receivedOn_match after hid, List.length_append,
          List.length_singleton, ← hseq] at hnext
        rw [hp, consecutiveData_ok htype hnext (Nat.le_of_lt hl)] at hm
        cases hm
      · rw [hp, consecutiveData_ok htype hs (Nat.le_of_lt hl)] at he
        cases he
    · rintro env _ ⟨hi, _, ⟨before, time, after, rfl, hb, ha, hseq⟩, rfl⟩
      obtain ⟨message, hm⟩ | ⟨pci, rest, hp, htype, hs⟩ :=
        consecutiveData_cases total s frame.payload
      · rw [hm] at hr
        cases hr
      · rw [hp, consecutiveData_ok htype hs (Nat.le_of_lt hl)] at hr
        cases hr
        refine ⟨hi, before, time, after ++ [.received (some frame)], by simp, hb,
          by simpa using ha, ?_⟩
        dsimp only
        rw [hseq, next_seq, receivedOn_match after hid, List.length_append, List.length_singleton]

theorem triple_receiveAt : Triple
    (At start fun t => sentFrames t = segmentation txId payload opts)
    (receiveResponse txId rxId (start.clock + opts.timeout) opts) (fun _ _ _ => True)
    (Caused txId rxId payload opts start) := by
  refine (triple_recvAt fun t answer h _ => by simpa using h).bind ?_
  rintro (_ | frame)
  · exact triple_timeout _
  refine triple_readAt_bind ?_ ?_
  · intro env u error hu hid he
    have hlast := lastReceived_failed u hid error
    obtain ⟨message, hm⟩ | ⟨pci, rest, hp, hs⟩ | ⟨pci, low, rest, hp, hf⟩ :=
      responseData_cases frame.payload
    · rw [hm] at he
      cases he
      refine .violation message frame hlast (.response (by simpa using hu) ?_ ?_)
      · rintro pci rest hp hs
        rw [hp, responseData_single hs] at hm
        cases hm
      · rintro pci low rest hp hf
        rw [hp, responseData_first hf] at hm
        cases hm
    · rw [hp, responseData_single hs] at he
      cases he
    · rw [hp, responseData_first hf] at he
      cases he
  · rintro (response | ⟨total, out⟩) - hid
    · exact Triple.pure fun _ _ _ => trivial
    · rw [sendFc_eq]
      refine Triple.bind (Q := fun _ => At start (Collecting txId rxId payload opts 1))
        ((triple_sendAt (A := fun t => sentFrames t = segmentation txId payload opts)
          fun t time hp => ⟨t, time, [], rfl, hp, rfl, rfl⟩).pre ?_)
        fun _ => triple_collectAt ⟨1, out⟩
      rintro env _ ⟨hi, u, hu, rfl⟩
      exact ⟨hi, by simpa using hu⟩

/-! ### A request -/

theorem triple_exchangeAt (hm : payload.length ≤ maxFfLength) :
    Triple (At start fun t => t = [])
      (exchange txId rxId payload (start.clock + opts.timeout) opts) (fun _ _ _ => True)
      (Caused txId rxId payload opts start) := by
  rcases Nat.lt_or_ge sfMaxLen payload.length with hl | hl
  · rw [exchange_segmented txId rxId _ opts hl hm]
    refine (triple_sendAt (B := Waiting txId rxId payload 0) ?_).bind fun _ =>
      (triple_waitAt hl).bind ?_
    · rintro t time rfl
      exact ⟨rfl, rfl⟩
    rintro ⟨bs, stMinMs⟩
    refine Triple.exists_intro fun fc => Triple.intro fun hfc => ?_
    rw [show bs = (ctsParams fc.payload).1 by rw [hfc.2]]
    exact (triple_sendConsecutiveAt hl hfc.1).bind fun _ => triple_receiveAt
  · rw [exchange_single txId rxId _ opts hl]
    refine (triple_sendAt ?_).bind fun _ => triple_receiveAt
    rintro t time rfl
    rw [segmentation, segments, if_pos hl]
    rfl

/-- A request fails with an error of the socket or with one of the errors that are documented. It
times out only when the deadline has passed or the ECU has asked to wait too often, and data is
invalid only if the last frame is not one that may follow. -/
theorem request_fails (txId rxId : CanId) (payload : List UInt8) (opts : Options) (env : Env)
    (error : IoError)
    (h : (request txId rxId payload opts env).outcome = .halted (.failed error)) :
    Cause txId rxId payload opts env (request txId rxId payload opts env).state
      (request txId rxId payload opts env).trace error := by
  have hall : Triple (fun s t => s = env ∧ t = []) (request txId rxId payload opts)
      (fun _ _ _ => True) (Caused txId rxId payload opts env) := by
    unfold request
    split
    case isTrue h0 =>
      refine triple_raise ?_
      rintro env t - _ ⟨⟩
      exact .payload _ (.inl (List.isEmpty_iff.mp h0))
    case isFalse =>
      split
      case isTrue hm =>
        refine triple_raise ?_
        rintro env t - _ ⟨⟩
        exact .payload _ (.inr hm)
      case isFalse hm =>
        refine (triple_now (Q := fun s e t => s = env.clock ∧ e = env ∧ t = []) ?_).bind
          fun start => Triple.intro ?_
        · rintro _ _ ⟨rfl, rfl⟩
          exact ⟨rfl, rfl, rfl⟩
        rintro rfl
        refine Triple.bind (Q := fun d e t => d = env.clock + opts.timeout ∧
          At env (fun t => t = []) e t) (Triple.ofChecked ?_ ?_) fun d => Triple.intro ?_
        · rintro d hd _ _ ⟨rfl, rfl⟩
          unfold addDuration at hd
          split at hd <;> cases hd
          exact ⟨rfl, fun _ hf => hf, rfl⟩
        · rintro p _ _ - _ ⟨⟩
        · rintro rfl
          exact triple_exchangeAt (Nat.not_lt.mp hm)
  exact (hall env [] ⟨rfl, rfl⟩).halted _ h error rfl

/-- The ECU answers the First Frame with an overflow. -/
theorem request_fails_overflow :
    let env : Env := ⟨0, [⟨5, .ok (some (classicFrame (.standard 0x7E8) [0x32, 0, 0]))⟩], [], []⟩
    let run := request (.standard 0x7E0) (.standard 0x7E8) (.replicate 20 0xAB) default env
    Cause (.standard 0x7E0) (.standard 0x7E8) (.replicate 20 0xAB) default env run.state run.trace
      (.new .Other "ECU returned Flow Control Overflow") :=
  request_fails (.standard 0x7E0) (.standard 0x7E8) (.replicate 20 0xAB) default _ _ rfl

end Mcanbus.Isotp
