import Mcanbus.Effect.Trace
import Mcanbus.Isotp.Pci
import Mcanbus.Isotp.Receive
import Mcanbus.Isotp.Segmentation

/-! # Transmit discipline

A guard says which frame a request may send after which history. Every run
respects the guard whatever the environment answers, and an error is the last
event of the run that it ends.
-/

namespace Mcanbus.Isotp

open Rust Effect Effect.Process

/-! ### Runs that respect a guard -/

/-- No error has been raised. -/
def Calm (t : List Event) : Prop := ∀ error, .raised error ∉ t

theorem calm_nil : Calm [] := fun _ => List.not_mem_nil

theorem calm_append {t u : List Event} : Calm (t ++ u) ↔ Calm t ∧ Calm u := by
  simp only [Calm, List.mem_append, not_or, forall_and]

section Guard

variable {α β : Type} (P : List Event → Event → Prop)

/-- The guard, for histories without errors only. -/
def Allowed (h : List Event) (e : Event) : Prop := Calm h ∧ P h e

/-- The trace respects the guard, and it ends with the error that ends the run. -/
structure Ends (h : List Event) (o : Outcome IoError α) (t : List Event) : Prop where
  guarded : Guarded (Allowed P) h t
  calm : ∀ a, o = .done a → Calm (h ++ t)
  failed : ∀ error, o = .halted (.failed error) → ∃ u, t = u ++ [.raised error]

namespace Ends

variable {P} {h t : List Event} {a : α} {x : Halt IoError}

theorem done (hg : Guarded (Allowed P) h t) (hc : Calm (h ++ t)) : Ends P h (.done a) t :=
  ⟨hg, fun _ _ => hc, fun _ hf => nomatch hf⟩

theorem event {e : Event} (hc : Calm h) (he : P h e) (hr : ∀ error, e ≠ .raised error) :
    Ends P h (.done a) [e] := by
  refine done (Guarded.singleton.mpr ⟨hc, he⟩) (calm_append.mpr ⟨hc, fun error hm => ?_⟩)
  exact hr error (List.mem_singleton.mp hm).symm

theorem halted (hg : Guarded (Allowed P) h t)
    (hf : ∀ error, x = .failed error → ∃ u, t = u ++ [.raised error]) :
    Ends P h (.halted x : Outcome IoError α) t := by
  refine ⟨hg, ?_, fun error he => hf error (Outcome.halted.inj he)⟩
  rintro a ⟨⟩

theorem raised {error : IoError} (hc : Calm h) (he : P h (.raised error)) :
    Ends P h (.halted (.failed error) : Outcome IoError α) [.raised error] :=
  halted (Guarded.singleton.mpr ⟨hc, he⟩) fun _ hf => ⟨[], by cases hf; rfl⟩

end Ends

/-- The trace respects the guard, and the value and the trace of a run that ends are as stated. -/
structure Meets (h : List Event) (Q : α → List Event → Prop) (o : Outcome IoError α)
    (t : List Event) : Prop where
  ends : Ends P h o t
  post : ∀ a, o = .done a → Q a t

/-- Every run after the history meets the guard and the postcondition. -/
def Spec (h : List Event) (m : IsotpM α) (Q : α → List Event → Prop) : Prop :=
  Traces m (Meets P h Q)

variable {P} {h t : List Event} {m : IsotpM α} {f : α → IsotpM β} {Q : α → List Event → Prop}
  {a : α} {x : Halt IoError}

theorem Meets.done (he : Ends P h (.done a) t) (hq : Q a t) : Meets P h Q (.done a) t :=
  ⟨he, fun _ hb => Outcome.done.inj hb ▸ hq⟩

theorem Meets.halted (he : Ends P h (.halted x : Outcome IoError α) t) :
    Meets P h Q (.halted x) t :=
  ⟨he, fun _ hb => nomatch hb⟩

namespace Spec

theorem pure (hc : Calm h) (hq : Q a []) : Spec P h (pure a) Q :=
  Traces.pure (.done (.done .nil (by rwa [List.append_nil])) hq)

theorem raise {error : IoError} (hc : Calm h) (he : P h (.raised error)) :
    Spec P h (raise error) Q :=
  Traces.halt (.halted (.raised hc he))

theorem panicked {p : Panic} : Spec P h (halt (.panicked p) [] : IsotpM α) Q :=
  Traces.halt (.halted (.halted .nil fun _ hf => nomatch hf))

theorem checked {c : Checked α} (hc : Calm h) (hq : ∀ a, c = .ok a → Q a []) :
    Spec P h (ofChecked c) Q := by
  cases hv : c with
  | ok a => exact pure hc (hq a hv)
  | error p => exact panicked

theorem attempt {c : Checked (Except IoError α)} (hc : Calm h)
    (he : ∀ error, P h (.raised error)) (hq : ∀ a, c = .ok (.ok a) → Q a []) :
    Spec P h (attempt c) Q := by
  rcases hv : c with p | (error | a)
  · exact panicked
  · exact raise hc (he error)
  · exact pure hc (hq a hv)

theorem bind {S : β → List Event → Prop} (hm : Spec P h m Q)
    (hf : ∀ a t, Calm (h ++ t) → Q a t → Spec P (h ++ t) (f a) fun b u => S b (t ++ u)) :
    Spec P h (m >>= f) S := by
  refine Traces.bind hm ?_ ?_
  · rintro a t ⟨he, hq⟩
    refine Traces.mono (hf a t (he.calm a rfl) (hq a rfl)) ?_
    rintro o u ⟨⟨hg, hc, hr⟩, hs⟩
    refine ⟨⟨Guarded.append.mpr ⟨he.guarded, hg⟩, fun b hb => ?_, fun e hf => ?_⟩, hs⟩
    · rw [← List.append_assoc]
      exact hc b hb
    · obtain ⟨v, rfl⟩ := hr e hf
      exact ⟨t ++ v, (List.append_assoc _ _ _).symm⟩
  · rintro x t ⟨⟨hg, -, hr⟩, -⟩
    exact .halted (.halted hg fun e hf => hr e (congrArg _ hf))

/-- What holds at the head of a loop and is kept by an iteration that continues. -/
theorem loop {μ : β → Env → ℕ} {body : β → IsotpM (β ⊕ α)} {J : β → List Event → Prop} {b : β}
    (hc : Calm h) (h₀ : J b [])
    (hbody : ∀ b t, Calm (h ++ t) → J b t → Spec P (h ++ t) (body b) fun r u => match r with
      | .inl b' => J b' (t ++ u)
      | .inr a => Q a (t ++ u)) :
    Spec P h (loop μ body b) Q := by
  refine Traces.loop (J := fun b t => (Guarded (Allowed P) h t ∧ Calm (h ++ t)) ∧ J b t)
    ?_ ?_ ⟨⟨.nil, by rwa [List.append_nil]⟩, h₀⟩
  · rintro b t ⟨⟨hg, hct⟩, hj⟩
    refine Traces.mono (hbody b t hct hj) ?_
    rintro o u ⟨⟨hgu, hcu, hfu⟩, hq⟩
    have hgtu := Guarded.append.mpr ⟨hg, hgu⟩
    rw [List.append_assoc] at hcu
    rcases o with (b' | a) | x
    · exact ⟨⟨hgtu, hcu _ rfl⟩, hq _ rfl⟩
    · exact .done (.done hgtu (hcu _ rfl)) (hq _ rfl)
    · refine .halted (.halted hgtu fun error hf => ?_)
      obtain ⟨v, rfl⟩ := hfu error (congrArg _ hf)
      exact ⟨t ++ v, (List.append_assoc _ _ _).symm⟩
  · rintro b t ⟨⟨hg, -⟩, -⟩
    exact .halted (.halted hg fun _ hf => nomatch hf)

end Spec

end Guard

/-! ### The frames of a request -/

/-- The frames that carry the payload, as they are handed to the socket. -/
def segmentation (txId : CanId) (payload : List UInt8) (opts : Options) : List Frame :=
  (segments payload opts.padding).map (classicFrame txId)

/-- The frames that a request may send, in order. -/
def script (txId : CanId) (payload : List UInt8) (opts : Options) : List Frame :=
  segmentation txId payload opts ++ [flowControl txId opts]

/-- A clear-to-send Flow Control was received after the first frame was sent. -/
def Cleared (rxId : CanId) (h : List Event) : Prop :=
  ∃ a time first b frame data c, h = a ++ .sent time first :: b ++ .received (some frame) :: c ∧
    frame.id = rxId ∧ frame.data = .ok data ∧ IsClearToSend data

/-- A First Frame was received after the given frames had been sent. -/
def Announced (rxId : CanId) (sent : List Frame) (h : List Event) : Prop :=
  ∃ a frame data b, h = a ++ .received (some frame) :: b ∧ sentFrames a = sent ∧
    frame.id = rxId ∧ frame.data = .ok data ∧ AnnouncesLong data

/-- The frame is the next of the script, and what it waits for has been received. -/
structure MaySend (txId rxId : CanId) (payload : List UInt8) (opts : Options) (h : List Event)
    (frame : Frame) : Prop where
  valid : payload ≠ [] ∧ payload.length ≤ maxFfLength
  history : sentFrames h = (script txId payload opts).take (sentFrames h).length
  next : (script txId payload opts)[(sentFrames h).length]? = some frame
  cleared : 0 < (sentFrames h).length →
    (sentFrames h).length < (segmentation txId payload opts).length → Cleared rxId h
  announced : (sentFrames h).length = (segmentation txId payload opts).length →
    Announced rxId (segmentation txId payload opts) h

/-- The guard of a request. -/
def Discipline (txId rxId : CanId) (payload : List UInt8) (opts : Options) (h : List Event)
    (e : Event) : Prop :=
  ∀ time frame, e = .sent time frame → MaySend txId rxId payload opts h frame

section Specs

variable {txId rxId : CanId} {payload : List UInt8} {opts : Options} {deadline : ℕ}
  {h : List Event} {frame : Frame}

/-- Events other than a transmission are always allowed. -/
theorem discipline_quiet {e : Event} (hs : ∀ time frame, e ≠ .sent time frame) :
    Discipline txId rxId payload opts h e :=
  fun _ _ he => absurd he (hs _ _)

theorem discipline_raised {error : IoError} :
    Discipline txId rxId payload opts h (.raised error) :=
  discipline_quiet fun _ _ he => nomatch he

theorem spec_send (hc : Calm h) (hm : MaySend txId rxId payload opts h frame) :
    Spec (Discipline txId rxId payload opts) h (send frame)
      fun _ t => ∃ time, t = [.sent time frame] := by
  intro env
  have he (time : ℕ) :
      Ends (Discipline txId rxId payload opts) h (.done ()) [.sent time frame] := by
    refine .event hc ?_ fun _ he => nomatch he
    rintro _ _ ⟨⟩
    exact hm
  unfold send
  rcases env.sends with _ | ⟨⟨delay, _ | error⟩, sends⟩
  · exact .done (he _) ⟨_, rfl⟩
  · exact .done (he _) ⟨_, rfl⟩
  · exact .halted (.raised hc discipline_raised)

/-- Receiving sends nothing, and a frame that is returned was received last. -/
theorem spec_recvWithId (hc : Calm h) :
    Spec (Discipline txId rxId payload opts) h (recvWithId rxId deadline) fun r t =>
      sentFrames t = [] ∧
      ∀ frame ∈ r, frame.id = rxId ∧ ∃ u, t = u ++ [.received (some frame)] := by
  refine Spec.loop (J := fun _ t => sentFrames t = []) hc rfl ?_
  intro _ t hct hj env
  have hrec (answer : Option Frame) : Discipline txId rxId payload opts (h ++ t)
      (.received answer) := discipline_quiet fun _ _ he => nomatch he
  obtain he | he | ⟨d, outcome, recvs, -,
      ⟨error, -, he⟩ | ⟨frame, -, hid, he⟩ | ⟨answer, -, -, he⟩⟩ := recvStep_cases rxId deadline env
  · rw [he]
    refine .done (.event hct (discipline_quiet ?_) ?_) ⟨?_, ?_⟩
    · rintro _ _ ⟨⟩
    · rintro _ ⟨⟩
    · rw [sentFrames_append, hj]
      rfl
    · rintro _ ⟨⟩
  · rw [he]
    exact .halted (.halted .nil fun _ hf => nomatch hf)
  · rw [he]
    exact .halted (.raised hct discipline_raised)
  · rw [he]
    refine .done (.event hct (hrec _) ?_) ⟨?_, ?_⟩
    · rintro _ ⟨⟩
    · rw [sentFrames_append, hj]
      rfl
    · rintro _ ⟨⟩
      exact ⟨hid, t, rfl⟩
  · rw [he]
    refine .done (.event hct (hrec _) ?_) ?_
    · rintro _ ⟨⟩
    · rw [sentFrames_append, hj]
      rfl

theorem spec_waitForFc (hc : Calm h) :
    Spec (Discipline txId rxId payload opts) h (waitForFc rxId deadline opts) fun _ t =>
      sentFrames t = [] ∧ ∃ u frame data, t = u ++ [.received (some frame)] ∧
        frame.id = rxId ∧ frame.data = .ok data ∧ IsClearToSend data := by
  refine Spec.loop (J := fun _ t => sentFrames t = []) hc rfl ?_
  intro waits t hct hj
  apply Spec.bind (spec_recvWithId hct)
  rintro r u hcu ⟨hsent, hlast⟩
  rcases r with _ | frame
  · exact Spec.raise hcu discipline_raised
  · obtain ⟨hid, v, rfl⟩ := hlast frame rfl
    refine Spec.bind (Q := fun data w => frame.data = .ok data ∧ w = [])
      (Spec.checked hcu fun data hd => ⟨hd, rfl⟩) ?_
    rintro data _ hcd ⟨hd, rfl⟩
    refine Spec.attempt hcd (fun _ => discipline_raised) ?_
    intro step hstep
    have hquiet : sentFrames (t ++ (v ++ [.received (some frame)] ++ ([] ++ []))) = [] := by
      rw [sentFrames_append, hj, List.append_nil, List.append_nil, hsent, List.append_nil]
    rcases step with waits' | r
    · exact hquiet
    · refine ⟨hquiet, t ++ v, frame, data, ?_, hid, hd, flowControlData_clear hstep⟩
      rw [List.append_nil, List.append_nil, List.append_assoc]

theorem Cleared.append (hc : Cleared rxId h) (t : List Event) : Cleared rxId (h ++ t) := by
  obtain ⟨a, time, first, b, frame, data, c, rfl, hf⟩ := hc
  exact ⟨a, time, first, b, frame, data, c ++ t, by simp, hf⟩

/-- A frame of the segmentation may be sent when it is its turn. -/
theorem maySend_segment {k : ℕ} (hv : payload ≠ [] ∧ payload.length ≤ maxFfLength)
    (hk : k < (segmentation txId payload opts).length)
    (hh : sentFrames h = (segmentation txId payload opts).take k)
    (hn : (segmentation txId payload opts)[k]? = some frame) (hc : 0 < k → Cleared rxId h) :
    MaySend txId rxId payload opts h frame := by
  have hl : (sentFrames h).length = k := by
    rw [hh, List.length_take_of_le (Nat.le_of_lt hk)]
  refine ⟨hv, ?_, ?_, ?_, ?_⟩ <;> rw [hl]
  · rw [hh, script, List.take_append_of_le_length (Nat.le_of_lt hk)]
  · unfold script
    rw [List.getElem?_append_left hk, hn]
  · exact fun h0 _ => hc h0
  · exact fun he => absurd he (Nat.ne_of_lt hk)

/-- The Flow Control may be sent after the whole segmentation and an announcement. -/
theorem maySend_flowControl (hv : payload ≠ [] ∧ payload.length ≤ maxFfLength)
    (hh : sentFrames h = segmentation txId payload opts)
    (ha : Announced rxId (segmentation txId payload opts) h) :
    MaySend txId rxId payload opts h (flowControl txId opts) := by
  refine ⟨hv, ?_, ?_, ?_, fun _ => ha⟩ <;> rw [hh]
  · unfold script
    rw [List.take_left' rfl]
  · unfold script
    rw [List.getElem?_concat_length]
  · exact fun _ he => absurd he (Nat.lt_irrefl _)

theorem segmentation_long (hl : sfMaxLen < payload.length) : segmentation txId payload opts =
    classicFrame txId (firstFrame payload) ::
      (consecutiveFrames (payload.drop ffFirstPayload) opts.padding).map (classicFrame txId) := by
  unfold segmentation segments
  rw [if_neg (Nat.not_le.mpr hl)]
  rfl

theorem spec_sleep {duration : ℕ} (hc : Calm h) :
    Spec (Discipline txId rxId payload opts) h (sleep duration) fun _ t => t = [] :=
  fun _ => .done (.done .nil ((List.append_nil h).symm ▸ hc)) rfl

theorem spec_now (hc : Calm h) :
    Spec (Discipline txId rxId payload opts) h now fun _ t => t = [] :=
  fun _ => .done (.done .nil ((List.append_nil h).symm ▸ hc)) rfl

theorem segmentation_getElem? {i : ℕ} (hl : sfMaxLen < payload.length)
    (hi : i < cfCount (payload.drop ffFirstPayload)) :
    (segmentation txId payload opts)[i + 1]? = some (classicFrame txId
      (consecutiveFrame (payload.drop ffFirstPayload) opts.padding i)) := by
  rw [segmentation_long hl, List.getElem?_cons_succ, consecutiveFrames, List.map_map,
    List.getElem?_map, List.getElem?_range hi]
  rfl

theorem spec_sendConsecutiveFrames {bs stMinMs : UInt8} (hc : Calm h)
    (hm : payload.length ≤ maxFfLength) (hl : sfMaxLen < payload.length)
    (hh : sentFrames h = (segmentation txId payload opts).take 1) (hclear : Cleared rxId h) :
    Spec (Discipline txId rxId payload opts) h
      (sendConsecutiveFrames txId (payload.drop ffFirstPayload) bs stMinMs opts)
      fun _ t => sentFrames (h ++ t) = segmentation txId payload opts := by
  have h0 : payload ≠ [] := List.ne_nil_of_length_pos (Nat.zero_lt_of_lt hl)
  have hlen : (segmentation txId payload opts).length =
      cfCount (payload.drop ffFirstPayload) + 1 := by
    rw [segmentation_long hl, List.length_cons, List.length_map, length_consecutiveFrames]
  refine Spec.loop (J := fun s t => ∃ i ≤ cfCount (payload.drop ffFirstPayload),
    s = .sent (payload.drop ffFirstPayload) i ∧
    sentFrames (h ++ t) = (segmentation txId payload opts).take (i + 1)) hc ?_ ?_
  · exact ⟨0, Nat.zero_le _, (SendState.sent_zero _).symm, by rw [List.append_nil, hh]⟩
  · rintro _ t hct ⟨i, hi, rfl, hsent⟩
    rcases Nat.lt_or_ge i (cfCount (payload.drop ffFirstPayload)) with hlt | hge
    · rw [sendStep_eq hlt]
      refine Spec.bind (spec_send hct (maySend_segment ⟨h0, hm⟩ (by omega) hsent
        (segmentation_getElem? hl hlt) fun _ => hclear.append t)) ?_
      rintro _ _ hcs ⟨time, rfl⟩
      have hnext : sentFrames (h ++ (t ++ [.sent time (classicFrame txId
          (consecutiveFrame (payload.drop ffFirstPayload) opts.padding i))])) =
          (segmentation txId payload opts).take (i + 1 + 1) := by
        rw [← List.append_assoc, sentFrames_append, hsent, List.take_add_one (i := i + 1),
          segmentation_getElem? hl hlt]
        rfl
      split
      · exact Spec.raise hcs discipline_raised
      · split
        · apply Spec.bind (spec_sleep hcs)
          rintro _ _ hcz rfl
          refine Spec.pure hcz ⟨i + 1, hlt, rfl, ?_⟩
          simpa using hnext
        · refine Spec.pure hcs ⟨i + 1, hlt, rfl, ?_⟩
          simpa using hnext
    · rw [sendStep_exit hge]
      apply Spec.pure hct
      rw [List.append_nil, hsent, List.take_of_length_le (by omega)]

theorem spec_collect {total : ℕ} {s : CollectState} (hc : Calm h) :
    Spec (Discipline txId rxId payload opts) h (collect rxId deadline total s) fun _ _ => True := by
  refine Spec.loop (J := fun _ _ => True) hc trivial ?_
  rintro s t hct -
  unfold collectStep
  split
  · apply Spec.bind (spec_recvWithId hct)
    rintro r u hcu -
    rcases r with _ | frame
    · exact Spec.raise hcu discipline_raised
    · refine Spec.bind (Q := fun _ _ => True) (Spec.checked hcu fun _ _ => trivial) ?_
      rintro data v hcv -
      refine Spec.bind (Q := fun _ _ => True)
        (Spec.attempt hcv (fun _ => discipline_raised) fun _ _ => trivial) ?_
      rintro next w hcw -
      exact Spec.pure hcw trivial
  · exact Spec.pure hct trivial

theorem spec_receiveResponse (hc : Calm h) (hv : payload ≠ [] ∧ payload.length ≤ maxFfLength)
    (hh : sentFrames h = segmentation txId payload opts) :
    Spec (Discipline txId rxId payload opts) h (receiveResponse txId rxId deadline opts)
      fun _ _ => True := by
  apply Spec.bind (spec_recvWithId hc)
  rintro r t hct ⟨hsent, hlast⟩
  rcases r with _ | frame
  · exact Spec.raise hct discipline_raised
  · obtain ⟨hid, u, rfl⟩ := hlast frame rfl
    refine Spec.bind (Q := fun data w => frame.data = .ok data ∧ w = [])
      (Spec.checked hct fun data hd => ⟨hd, rfl⟩) ?_
    rintro data _ hcd ⟨hd, rfl⟩
    refine Spec.bind (Q := fun r w => responseData data = .ok (.ok r) ∧ w = [])
      (Spec.attempt hcd (fun _ => discipline_raised) fun r hr => ⟨hr, rfl⟩) ?_
    rintro r _ hcr ⟨hr, rfl⟩
    rcases r with payload' | ⟨total, out⟩
    · exact Spec.pure hcr trivial
    · have hu : sentFrames u = [] := by simpa using hsent
      have ha : Announced rxId (segmentation txId payload opts)
          (h ++ (u ++ [.received (some frame)]) ++ [] ++ []) :=
        ⟨h ++ u, frame, data, [], by simp, by rw [sentFrames_append, hu, hh, List.append_nil], hid,
          hd, responseData_announces hr⟩
      have hm := maySend_flowControl hv (by simp [hu, hh]) ha
      apply Spec.bind (sendFc_eq ▸ spec_send hcr hm)
      rintro _ v hcv -
      exact spec_collect hcv

/-- The first frame of the segmentation. -/
theorem spec_sendFirst (hv : payload ≠ [] ∧ payload.length ≤ maxFfLength) {rest : List Frame}
    (hseg : segmentation txId payload opts = frame :: rest) :
    Spec (Discipline txId rxId payload opts) [] (send frame)
      fun _ t => ∃ time, t = [.sent time frame] := by
  apply spec_send calm_nil (maySend_segment (k := 0) hv ?_ rfl ?_ ?_)
  · rw [hseg]
    exact Nat.zero_lt_succ _
  · rw [hseg]
    rfl
  · exact fun hk => absurd hk (Nat.lt_irrefl 0)

theorem spec_exchange_single (hv : payload ≠ [] ∧ payload.length ≤ maxFfLength)
    (hs : payload.length ≤ sfMaxLen) :
    Spec (Discipline txId rxId payload opts) [] (exchange txId rxId payload deadline opts)
      fun _ _ => True := by
  have hseg : segmentation txId payload opts =
      [classicFrame txId (singleFrame payload opts.padding)] := by
    unfold segmentation segments
    rw [if_pos hs]
    rfl
  rw [exchange_single txId rxId deadline opts hs]
  apply Spec.bind (spec_sendFirst hv hseg)
  rintro _ _ hct ⟨time, rfl⟩
  apply spec_receiveResponse hct hv
  rw [hseg]
  rfl

theorem spec_exchange_segmented (hv : payload ≠ [] ∧ payload.length ≤ maxFfLength)
    (hlt : sfMaxLen < payload.length) :
    Spec (Discipline txId rxId payload opts) [] (exchange txId rxId payload deadline opts)
      fun _ _ => True := by
  have hseg : segmentation txId payload opts = classicFrame txId (firstFrame payload) :: _ :=
    segmentation_long hlt
  rw [exchange_segmented txId rxId deadline opts hlt hv.2]
  apply Spec.bind (spec_sendFirst hv hseg)
  rintro _ _ hct ⟨time, rfl⟩
  apply Spec.bind (spec_waitForFc hct)
  rintro ⟨bs, stMinMs⟩ _ hcw ⟨hquiet, u, frame, data, rfl, hid, hd, hcts⟩
  have hu : sentFrames u = [] := by simpa using hquiet
  refine Spec.bind (spec_sendConsecutiveFrames hcw hv.2 hlt ?_ ?_) ?_
  · rw [hseg]
    simp [hu]
  · exact ⟨[], time, classicFrame txId (firstFrame payload), u, frame, data, [], by simp, hid, hd,
      hcts⟩
  · rintro _ t hcl hsent
    exact spec_receiveResponse hcl hv hsent

theorem spec_exchange (hv : payload ≠ [] ∧ payload.length ≤ maxFfLength) :
    Spec (Discipline txId rxId payload opts) [] (exchange txId rxId payload deadline opts)
      fun _ _ => True := by
  rcases Nat.lt_or_ge sfMaxLen payload.length with hlt | hs
  · exact spec_exchange_segmented hv hlt
  · exact spec_exchange_single hv hs

/-- Every run of a request respects the guard. -/
theorem spec_request : Spec (Discipline txId rxId payload opts) []
    (request txId rxId payload opts) fun _ _ => True := by
  unfold request
  split
  case isTrue => exact Spec.raise calm_nil discipline_raised
  case isFalse h0 =>
  split
  case isTrue => exact Spec.raise calm_nil discipline_raised
  case isFalse hm =>
  apply Spec.bind (spec_now calm_nil)
  rintro start _ - rfl
  refine Spec.bind (Q := fun _ t => t = []) (Spec.checked calm_nil fun _ _ => rfl) ?_
  rintro deadline _ - rfl
  exact spec_exchange ⟨fun he => h0 (List.isEmpty_iff.mpr he), Nat.not_lt.mp hm⟩

end Specs

/-! ### The discipline of every run -/

/-- What a request transmits, and when, in a run with the given outcome and trace. -/
structure TransmitDiscipline (txId rxId : CanId) (payload : List UInt8) (opts : Options)
    (o : Outcome IoError (List UInt8)) (t : List Event) : Prop where
  /-- At any moment the frames sent are the first of the script. -/
  inOrder : ∀ u, u <+: t → sentFrames u <+: script txId payload opts
  /-- Nothing is sent for a payload that is empty or too long. -/
  invalid : payload = [] ∨ maxFfLength < payload.length → sentFrames t = []
  /-- Consecutive Frames wait for a Flow Control that clears to send. -/
  cleared : ∀ a time frame b, t = a ++ .sent time frame :: b → 0 < (sentFrames a).length →
    (sentFrames a).length < (segmentation txId payload opts).length → Cleared rxId a
  /-- The Flow Control waits for the segmentation and for the First Frame of the response. -/
  announced : ∀ a time frame b, t = a ++ .sent time frame :: b →
    (sentFrames a).length = (segmentation txId payload opts).length →
    Announced rxId (segmentation txId payload opts) a
  /-- Nothing happens after an error. -/
  stopped : ∀ a error b, t = a ++ .raised error :: b → b = []
  /-- A request that fails has hit the error it returns. -/
  failed : ∀ error, o = .halted (.failed error) → ∃ a, t = a ++ [.raised error]

section Run

variable {txId rxId : CanId} {payload : List UInt8} {opts : Options} {h t : List Event}

theorem discipline_inOrder
    (hg : Guarded (Allowed (Discipline txId rxId payload opts)) [] t) :
    sentFrames t <+: script txId payload opts := by
  refine hg.invariant (I := fun h => sentFrames h <+: script txId payload opts) ?_
    (List.nil_prefix)
  rintro h e hi ⟨-, he⟩
  cases e with
  | sent time frame =>
    obtain ⟨-, hh, hn, -, -⟩ := he time frame rfl
    have hs : sentFrames (h ++ [.sent time frame]) =
        (script txId payload opts).take ((sentFrames h).length + 1) := by
      rw [sentFrames_append, List.take_add_one, ← hh, hn]
      rfl
    rw [hs]
    exact List.take_prefix _ _
  | received | expired | raised => simpa using hi

/-- In every environment the frames sent are the first of the script. -/
theorem sentFrames_request (txId rxId : CanId) (payload : List UInt8) (opts : Options) (env : Env) :
    sentFrames (request txId rxId payload opts env).trace <+: script txId payload opts := by
  have hspec : Spec (Discipline txId rxId payload opts) [] (request txId rxId payload opts)
      fun _ _ => True := spec_request
  exact discipline_inOrder (hspec env).1.guarded

/-- In every environment a request transmits its segmentation and then at most one Flow Control,
each frame only after what it waits for, and nothing after an error. -/
theorem request_discipline (txId rxId : CanId) (payload : List UInt8) (opts : Options)
    (env : Env) :
    TransmitDiscipline txId rxId payload opts (request txId rxId payload opts env).outcome
      (request txId rxId payload opts env).trace := by
  have hspec : Spec (Discipline txId rxId payload opts) [] (request txId rxId payload opts)
      fun _ _ => True := spec_request
  obtain ⟨⟨hg, -, hf⟩, -⟩ := hspec env
  have hsent {a : List Event} {time : ℕ} {frame : Frame} {b : List Event}
      (ht : (request txId rxId payload opts env).trace = a ++ .sent time frame :: b) :
      MaySend txId rxId payload opts a frame := by
    rw [ht] at hg
    exact hg.of_mid.2 time frame rfl
  refine ⟨?_, ?_, ?_, ?_, ?_, hf⟩
  · rintro u ⟨v, hv⟩
    rw [← hv] at hg
    exact discipline_inOrder (Guarded.append.mp hg).1
  · intro hinv
    by_contra hne
    obtain ⟨frame, hm⟩ := List.exists_mem_of_ne_nil _ hne
    obtain ⟨time, hm⟩ := mem_sentFrames.mp hm
    obtain ⟨a, b, ht⟩ := List.append_of_mem hm
    obtain ⟨h0, hle⟩ := (hsent ht).valid
    rcases hinv with rfl | hlt
    · exact h0 rfl
    · exact Nat.not_lt.mpr hle hlt
  · rintro a time frame b ht h0 hlt
    exact (hsent ht).cleared h0 hlt
  · rintro a time frame b ht he
    exact (hsent ht).announced he
  · rintro a error b ht
    rcases b with _ | ⟨e, b⟩
    · rfl
    · rw [ht, List.append_cons] at hg
      exact absurd (List.mem_append_right a (List.mem_singleton_self _)) (hg.of_mid.1 error)

end Run

end Mcanbus.Isotp
