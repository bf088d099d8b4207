import Mcanbus.Isotp.Stage

/-! # The frames behind a response

A request that returns a response has received frames that drive the automaton
of its stages to acceptance, in the order in which the socket had them, and the
time it slept is within the timeout.
-/

namespace Mcanbus.Isotp

open Rust Effect Effect.Process

/-! ### What a process takes from the socket -/

/-- The frames among the answers to come. -/
def queuedFrames (recvs : List RecvAnswer) : List Frame :=
  recvs.filterMap fun answer =>
    match answer.outcome with
    | .ok frame => frame
    | .error _ => none

/-- Time has passed, and the frames received are those that the socket no longer has. -/
structure Advances (env : Env) (t : List Event) (env' : Env) : Prop where
  clock_le : env.clock ≤ env'.clock
  frames : queuedFrames env.recvs = receivedFrames t ++ queuedFrames env'.recvs

variable {env env₁ env' : Env} {t u : List Event} {rxId txId : CanId} {deadline total : ℕ}
  {opts : Options} {c : Call} {p : Stage} {frame : Frame} {v : List UInt8}

namespace Advances

theorem refl (env : Env) : Advances env [] env := ⟨Nat.le_refl _, rfl⟩

theorem trans (h : Advances env t env₁) (h' : Advances env₁ u env') :
    Advances env (t ++ u) env' := by
  refine ⟨Nat.le_trans h.clock_le h'.clock_le, ?_⟩
  simp only [h.frames, h'.frames, receivedFrames_append, List.append_assoc]

/-- Nothing was received. -/
theorem silent (hc : env.clock ≤ env'.clock) (hr : env'.recvs = env.recvs)
    (ht : receivedFrames t = []) : Advances env t env' := by
  refine ⟨hc, ?_⟩
  rw [hr, ht, List.nil_append]

theorem answered {d : ℕ} {answer : Option Frame} {recvs : List RecvAnswer}
    (hr : env.recvs = ⟨d, .ok answer⟩ :: recvs) :
    Advances env [.received answer] (env.advance d recvs) := by
  refine ⟨Nat.le_add_right _ _, ?_⟩
  rw [hr]
  cases answer <;> rfl

end Advances

/-! ### Steps that return a value -/

theorem send_done (h : send frame env = ⟨.done (), env', t⟩) :
    env.clock ≤ env'.clock ∧ env'.recvs = env.recvs ∧ receivedFrames t = [] := by
  unfold send at h
  rcases hs : env.sends with _ | ⟨⟨delay, _ | error⟩, sends⟩ <;> rw [hs] at h <;> cases h
  · exact ⟨Nat.le_refl _, rfl, rfl⟩
  · exact ⟨Nat.le_add_right _ _, rfl, rfl⟩

/-- One more exact sleep. -/
theorem pause_nil_succ {stMinMs : UInt8} (h : stMinMs > 0) (n : ℕ) :
    pause stMinMs [] (n + 1) = pause stMinMs [] n + stMinMs.toNat * 1000000 := by
  unfold pause
  rw [if_pos h, if_pos h, List.take_nil, List.take_nil, Nat.succ_mul, Nat.add_right_comm]

theorem pause_of_not {stMinMs : UInt8} (h : ¬ stMinMs > 0) (oversleeps : List ℕ) (n : ℕ) :
    pause stMinMs oversleeps n = 0 := if_neg h

section Send

variable {rest : List UInt8} {bs stMinMs : UInt8}

/-- The head of the loop that sends Consecutive Frames, after the given number of them. -/
structure Sending (env : Env) (rest : List UInt8) (bs stMinMs : UInt8) (i : ℕ) (t : List Event)
    (s : Env) : Prop where
  le : i ≤ cfCount rest
  quiet : receivedFrames t = []
  recvs : s.recvs = env.recvs
  block : bs ≠ 0 → i < bs.toNat ∨ cfCount rest ≤ bs.toNat
  slept : env.clock + pause stMinMs [] (min i (cfCount rest - 1)) ≤ s.clock

theorem Sending.zero : Sending env rest bs stMinMs 0 [] env where
  le := Nat.zero_le _
  quiet := rfl
  recvs := rfl
  block := fun h => .inl (UInt8.pos_iff_ne_zero.mpr h)
  slept := by
    rw [Nat.zero_min]
    unfold pause
    simp

theorem Sending.next {i : ℕ} {s s' : Env} {r : SendState ⊕ Unit}
    (h : Sending env rest bs stMinMs i t s) (hi : i < cfCount rest)
    (hr : sendStep txId rest bs stMinMs opts (.sent rest i) s = ⟨.done r, s', u⟩) :
    r = .inl (.sent rest (i + 1)) ∧ Sending env rest bs stMinMs (i + 1) (t ++ u) s' := by
  have hb : bs ≠ 0 → i < bs.toNat := by
    intro h0
    have := h.block h0
    omega
  rw [sendStep_eq hi] at hr
  obtain ⟨_, s₁, u₁, u₂, hsend, hk, rfl⟩ := bind_eq_done hr
  obtain ⟨hc, hrecvs, hquiet⟩ := send_done hsend
  simp only [blockCount_eq_iff hb] at hk
  split at hk
  · cases hk
  case isFalse hgo =>
  have hblock : bs ≠ 0 → i + 1 < bs.toNat ∨ cfCount rest ≤ bs.toNat := by
    intro h0
    have hne : ¬ (bs.toNat = i + 1 ∧ i + 1 < cfCount rest) := fun hc => hgo ⟨h0, hc⟩
    have := hb h0
    omega
  have hq : receivedFrames (t ++ (u₁ ++ [])) = [] := by
    rw [List.append_nil, receivedFrames_append, h.quiet, hquiet]
    rfl
  have hle := h.slept
  split at hk
  case isTrue hst =>
    obtain ⟨_, s₂, u₃, u₄, hsleep, hk', rfl⟩ := bind_eq_done hk
    cases hsleep
    cases hk'
    refine ⟨rfl, hi, hq, hrecvs.trans h.recvs, hblock, ?_⟩
    rw [Nat.min_eq_left (by omega)] at hle ⊢
    rw [pause_nil_succ hst.1]
    dsimp only
    omega
  case isFalse hst =>
    cases hk
    refine ⟨rfl, hi, hq, hrecvs.trans h.recvs, hblock, ?_⟩
    by_cases h0 : stMinMs > 0
    · have hn : ¬ i + 1 < cfCount rest := fun hn => hst ⟨h0, hn⟩
      have hmin : min (i + 1) (cfCount rest - 1) = min i (cfCount rest - 1) := by omega
      rw [hmin]
      exact Nat.le_trans hle hc
    · rw [pause_of_not h0] at hle ⊢
      exact Nat.le_trans hle hc

/-- All of the Consecutive Frames were sent, with the sleeps between them. -/
theorem sendConsecutiveFrames_done
    (h : sendConsecutiveFrames txId rest bs stMinMs opts env = ⟨.done (), env', t⟩) :
    receivedFrames t = [] ∧ env'.recvs = env.recvs ∧
      ¬ (bs ≠ 0 ∧ bs.toNat < cfCount rest) ∧
      env.clock + pause stMinMs [] (cfCount rest - 1) ≤ env'.clock := by
  refine loop_eq_done (J := fun b s t => ∃ i, b = .sent rest i ∧
      Sending env rest bs stMinMs i t s)
    (Q := fun _ s t => receivedFrames t = [] ∧ s.recvs = env.recvs ∧
      ¬ (bs ≠ 0 ∧ bs.toNat < cfCount rest) ∧
      env.clock + pause stMinMs [] (cfCount rest - 1) ≤ s.clock) ?_
    ⟨0, (SendState.sent_zero rest).symm, .zero⟩ h
  rintro _ s t r s' u ⟨i, rfl, hj⟩ hb
  rcases Nat.lt_or_ge i (cfCount rest) with hi | hi
  · obtain ⟨rfl, hnext⟩ := hj.next hi hb
    exact ⟨i + 1, rfl, hnext⟩
  · rw [sendStep_exit hi] at hb
    cases hb
    have hle := hj.slept
    have hmin : min i (cfCount rest - 1) = cfCount rest - 1 := by omega
    rw [hmin] at hle
    refine ⟨by rw [List.append_nil, hj.quiet], hj.recvs, ?_, hle⟩
    rintro ⟨h0, hlt⟩
    have := hj.block h0
    omega

end Send

/-- The wait for a frame that ends before the deadline ends with the first frame of the
identifier. -/
theorem recvWithId_done (h : recvWithId rxId deadline env = ⟨.done (some frame), env', t⟩) :
    Advances env t env' ∧ env.clock < deadline ∧ frame.id = rxId ∧
      ∃ skipped, receivedFrames t = skipped ++ [frame] ∧ ∀ f ∈ skipped, f.id ≠ rxId := by
  have key := loop_eq_done
    (J := fun _ s t => Advances env t s ∧ ∀ f ∈ receivedFrames t, f.id ≠ rxId)
    (Q := fun r s t => ∀ frame, r = some frame → Advances env t s ∧ env.clock < deadline ∧
      frame.id = rxId ∧ ∃ skipped, receivedFrames t = skipped ++ [frame] ∧
        ∀ f ∈ skipped, f.id ≠ rxId) ?_ ⟨.refl env, fun _ hf => absurd hf List.not_mem_nil⟩ h
  · exact key frame rfl
  rintro _ s t r s' u ⟨hadv, hskip⟩ hb
  rcases Nat.lt_or_ge s.clock deadline with hc | hc
  case inr =>
    rw [recvStep_expired hc] at hb
    cases hb
    rintro frame ⟨⟩
  have hclock := Nat.lt_of_le_of_lt hadv.clock_le hc
  obtain hs | hs | ⟨d, outcome, recvs, hr, hs⟩ := recvStep_cases rxId deadline s
  · rw [hs] at hb
    cases hb
    rintro frame ⟨⟩
  · rw [hs] at hb
    cases hb
  obtain ⟨e, -, hs⟩ | ⟨f, rfl, hid, hs⟩ | ⟨answer, rfl, hf, hs⟩ := hs <;> rw [hs] at hb <;> cases hb
  · rintro frame ⟨⟩
    refine ⟨hadv.trans (.answered hr), hclock, hid, receivedFrames t, ?_, hskip⟩
    rw [receivedFrames_append]
    rfl
  · refine ⟨hadv.trans (.answered hr), fun f hm => ?_⟩
    rw [receivedFrames_append] at hm
    rcases List.mem_append.mp hm with hm | hm
    · exact hskip f hm
    · cases answer with
      | none => exact absurd hm List.not_mem_nil
      | some frame =>
        obtain rfl := List.mem_singleton.mp hm
        exact hf f rfl

namespace Call

/-- The wait for a frame takes the automaton to the stage after that frame. -/
theorem recvWithId_steps (p : Stage)
    (h : recvWithId c.rxId deadline env = ⟨.done (some frame), env', t⟩) :
    Advances env t env' ∧ env.clock < deadline ∧ frame.id = c.rxId ∧
      c.steps p (receivedFrames t) = c.step p frame := by
  obtain ⟨hadv, hc, hid, skipped, hrec, hskip⟩ := recvWithId_done h
  refine ⟨hadv, hc, hid, ?_⟩
  rw [hrec, steps_append, steps_foreign hskip]
  rfl

theorem waitStep_done {waits : UInt8} {r : UInt8 ⊕ UInt8 × UInt8}
    (h : waitStep c.rxId deadline c.opts waits env = ⟨.done r, env', t⟩) :
    Advances env t env' ∧
      c.steps (.waiting waits) (receivedFrames t) = c.answered (.ok (.ok r)) := by
  obtain ⟨answer, r₁, u, v, hr, hf, rfl⟩ := bind_eq_done h
  cases answer with
  | none => cases hf
  | some frame =>
    obtain ⟨hadv, -, hid, hsteps⟩ := recvWithId_steps (.waiting waits) hr
    obtain ⟨data, r₂, _, _, hd, ha, rfl⟩ := bind_eq_done hf
    obtain ⟨(hdata : frame.data = .ok data), rfl, rfl⟩ := ofChecked_eq_done hd
    obtain ⟨hfc, rfl, rfl⟩ := attempt_eq_done ha
    rw [List.append_nil, List.append_nil, hsteps, step_waiting hid]
    refine ⟨hadv, ?_⟩
    rw [hdata, ok_bind, hfc]

/-- The wait for a Flow Control that ends takes the automaton to the cleared stage. -/
theorem waitForFc_done {bs stMinMs : UInt8}
    (h : waitForFc c.rxId deadline c.opts env = ⟨.done (bs, stMinMs), env', t⟩) :
    Advances env t env' ∧
      c.steps (.waiting 0) (receivedFrames t) = c.cleared bs stMinMs := by
  refine loop_eq_done (J := fun waits s t => Advances env t s ∧
      c.steps (.waiting 0) (receivedFrames t) = .waiting waits)
    (Q := fun r s t => Advances env t s ∧
      c.steps (.waiting 0) (receivedFrames t) = c.cleared r.1 r.2) ?_ ⟨.refl env, rfl⟩ h
  rintro waits s t r s' u ⟨hadv, hsteps⟩ hb
  obtain ⟨hadv', hsteps'⟩ := waitStep_done hb
  have hall : c.steps (.waiting 0) (receivedFrames (t ++ u)) = c.answered (.ok (.ok r)) := by
    rw [receivedFrames_append, steps_append, hsteps, hsteps']
  cases r with
  | inl waits' => exact ⟨hadv.trans hadv', hall⟩
  | inr r => exact ⟨hadv.trans hadv', hall⟩

theorem collect_done (slept : ℕ) {s : CollectState}
    (h : collect c.rxId deadline total s env = ⟨.done v, env', t⟩) :
    Advances env t env' ∧ c.steps (.receiving slept (.settle total s)) (receivedFrames t) =
      .receiving slept (.accepted v) := by
  refine loop_eq_done (J := fun s' σ t => Advances env t σ ∧
      c.steps (.receiving slept (.settle total s)) (receivedFrames t) =
        .receiving slept (.settle total s'))
    (Q := fun v σ t => Advances env t σ ∧
      c.steps (.receiving slept (.settle total s)) (receivedFrames t) =
        .receiving slept (.accepted v)) ?_ ⟨.refl env, rfl⟩ h
  rintro s₁ σ t r σ' u ⟨hadv, hsteps⟩ hb
  rw [collectStep] at hb
  split at hb
  case isFalse hlt =>
    cases hb
    rw [List.append_nil, hsteps, Rx.settle_accepted (Nat.not_lt.mp hlt)]
    exact ⟨hadv, rfl⟩
  case isTrue hlt =>
    obtain ⟨answer, r₁, u₁, v₁, hr, hf, rfl⟩ := bind_eq_done hb
    cases answer with
    | none => cases hf
    | some frame =>
      obtain ⟨hadv', -, hid, hsteps'⟩ :=
        recvWithId_steps (.receiving slept (.collecting total s₁ hlt)) hr
      obtain ⟨data, r₂, _, _, hd, hg, rfl⟩ := bind_eq_done hf
      obtain ⟨(hdata : frame.data = .ok data), rfl, rfl⟩ := ofChecked_eq_done hd
      obtain ⟨next, r₃, _, _, hn, hp, rfl⟩ := bind_eq_done hg
      obtain ⟨hnext, rfl, rfl⟩ := attempt_eq_done hn
      cases hp
      simp only [List.append_nil]
      refine ⟨hadv.trans hadv', ?_⟩
      rw [receivedFrames_append, steps_append, hsteps, Rx.settle_collecting hlt, hsteps', step,
        if_pos hid]
      rw [Rx.take_ok hdata, Rx.feed, hnext]

/-- A response is returned before the deadline, and it is what the automaton accepts. -/
theorem receiveResponse_done (slept : ℕ)
    (h : receiveResponse c.txId c.rxId deadline c.opts env = ⟨.done v, env', t⟩) :
    Advances env t env' ∧ env.clock < deadline ∧
      c.steps (.receiving slept .idle) (receivedFrames t) = .receiving slept (.accepted v) := by
  obtain ⟨answer, r₁, u, w, hr, hf, rfl⟩ := bind_eq_done h
  cases answer with
  | none => cases hf
  | some frame =>
    obtain ⟨hadv, hc, hid, hsteps⟩ := recvWithId_steps (.receiving slept .idle) hr
    obtain ⟨data, r₂, _, w', hd, hg, rfl⟩ := bind_eq_done hf
    obtain ⟨(hdata : frame.data = .ok data), rfl, rfl⟩ := ofChecked_eq_done hd
    obtain ⟨response, r₃, _, w'', hn, hp, rfl⟩ := bind_eq_done hg
    obtain ⟨hresponse, rfl, rfl⟩ := attempt_eq_done hn
    rw [List.nil_append, List.nil_append, receivedFrames_append, steps_append, hsteps, step,
      if_pos hid]
    rw [Rx.take_ok hdata, Rx.feed, hresponse]
    cases response with
    | single payload =>
      cases hp
      rw [List.append_nil]
      exact ⟨hadv, hc, rfl⟩
    | first total out =>
      obtain ⟨_, r₄, u₄, w₄, hs, hcollect, rfl⟩ := bind_eq_done hp
      rw [sendFc_eq] at hs
      obtain ⟨hle, hrecvs, hquiet⟩ := send_done hs
      obtain ⟨hadv', hsteps'⟩ := collect_done slept hcollect
      refine ⟨hadv.trans ((Advances.silent hle hrecvs hquiet).trans hadv'), hc, ?_⟩
      rw [receivedFrames_append, hquiet, List.nil_append]
      exact hsteps'

theorem cleared_of_not {bs stMinMs : UInt8} (h : ¬ (bs ≠ 0 ∧ bs.toNat < cfCount c.rest)) :
    c.cleared bs stMinMs = .receiving (pause stMinMs [] (cfCount c.rest - 1)) .idle := by
  unfold cleared
  rw [blockLimit_of_not h, if_neg h]

/-- The stages of the exchange take the automaton from its start to acceptance. -/
theorem exchange_done (hm : c.payload.length ≤ maxFfLength)
    (h : exchange c.txId c.rxId c.payload deadline c.opts env = ⟨.done v, env', t⟩) :
    Advances env t env' ∧ ∃ slept, env.clock + slept < deadline ∧
      c.steps c.start (receivedFrames t) = .receiving slept (.accepted v) := by
  unfold start
  rcases Nat.lt_or_ge sfMaxLen c.payload.length with hl | hl
  · rw [exchange_segmented c.txId c.rxId deadline c.opts hl hm] at h
    obtain ⟨_, env₁, t₁, _, hsend, hrest, rfl⟩ := bind_eq_done h
    obtain ⟨hle, hrecvs, hquiet⟩ := send_done hsend
    have hadv₁ : Advances env t₁ env₁ := .silent hle hrecvs hquiet
    obtain ⟨⟨bs, stMinMs⟩, env₂, t₂, _, hwait, hstage, rfl⟩ := bind_eq_done hrest
    obtain ⟨hadv₂, hsteps⟩ := waitForFc_done hwait
    obtain ⟨_, env₃, t₃, t₄, hsends, hreceive, rfl⟩ := bind_eq_done hstage
    obtain ⟨hquiet₃, hrecvs₃, hgo, hclock⟩ := sendConsecutiveFrames_done hsends
    have hadv₃ : Advances env₂ t₃ env₃ :=
      .silent (Nat.le_trans (Nat.le_add_right _ _) hclock) hrecvs₃ hquiet₃
    obtain ⟨hadv₄, hlt, hsteps₄⟩ :=
      receiveResponse_done (pause stMinMs [] (cfCount c.rest - 1)) hreceive
    refine ⟨hadv₁.trans (hadv₂.trans (hadv₃.trans hadv₄)),
      pause stMinMs [] (cfCount c.rest - 1), ?_, ?_⟩
    · have hclock₁ := hadv₁.clock_le
      have hclock₂ := hadv₂.clock_le
      have hclock₃ : env₂.clock + pause stMinMs [] (cfCount c.rest - 1) ≤ env₃.clock := hclock
      omega
    · rw [if_neg (Nat.not_le.mpr hl), receivedFrames_append, hquiet, List.nil_append,
        receivedFrames_append, steps_append, hsteps, receivedFrames_append, hquiet₃,
        List.nil_append, cleared_of_not hgo, hsteps₄]
  · rw [exchange_single c.txId c.rxId deadline c.opts hl] at h
    obtain ⟨_, env₁, t₁, t₂, hsend, hreceive, rfl⟩ := bind_eq_done h
    obtain ⟨hle, hrecvs, hquiet⟩ := send_done hsend
    obtain ⟨hadv₂, hlt, hsteps⟩ := receiveResponse_done 0 hreceive
    have hadv₁ : Advances env t₁ env₁ := .silent hle hrecvs hquiet
    refine ⟨hadv₁.trans hadv₂, 0, Nat.lt_of_le_of_lt hle hlt, ?_⟩
    rw [if_pos hl, receivedFrames_append, hquiet, List.nil_append, hsteps]

/-- A request that returns a response has been driven to it by the frames it has received. -/
theorem run_done (h : c.run env = ⟨.done v, env', t⟩) :
    c.Valid ∧ env.clock + c.opts.timeout < 2 ^ 63 * 10 ^ 9 ∧ Advances env t env' ∧
      ∃ slept < c.opts.timeout,
        c.steps c.start (receivedFrames t) = .receiving slept (.accepted v) := by
  unfold run at h
  by_cases h0 : c.payload = []
  · unfold request at h
    rw [if_pos (List.isEmpty_iff.mpr h0)] at h
    cases h
  rcases Nat.lt_or_ge maxFfLength c.payload.length with hm | hm
  · unfold request at h
    rw [if_neg (fun he => h0 (List.isEmpty_iff.mp he)), if_pos hm] at h
    cases h
  rw [request_eq c.txId c.rxId c.opts h0 hm] at h
  obtain ⟨deadline, _, _, t, hd, he, rfl⟩ := bind_eq_done h
  obtain ⟨hadd, rfl, rfl⟩ := ofChecked_eq_done hd
  unfold addDuration at hadd
  split at hadd
  case isFalse => cases hadd
  case isTrue ht =>
    cases hadd
    obtain ⟨hadv, slept, hlt, hsteps⟩ := exchange_done hm he
    exact ⟨⟨h0, hm⟩, ht, hadv, slept, by omega, hsteps⟩

end Call

end Mcanbus.Isotp
