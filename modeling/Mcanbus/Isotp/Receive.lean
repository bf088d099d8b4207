import Mcanbus.Isotp.Basic

/-! # Receiving frames before a deadline

What the loop that waits for an identifier does with the next answer of the
socket, and the termination of the loops built on it. Every iteration of these
loops uses up an answer.
-/

namespace Mcanbus.Isotp

open Rust Effect Effect.Process

variable {id : CanId} {deadline d : ℕ} {env env' : Env} {recvs : List RecvAnswer}
  {answer : Option Frame} {frame : Frame} {error : IoError} {t : List Event} {opts : Options}

/-- The environment after an answer that took the given time. -/
def Env.advance (env : Env) (delay : ℕ) (recvs : List RecvAnswer) : Env :=
  { env with clock := env.clock + delay, recvs }

theorem Env.advance_zero (h : env.recvs = recvs) : env.advance 0 recvs = env := by
  subst h
  rfl

theorem Env.advance_advance (env : Env) (d e : ℕ) (recvs recvs' : List RecvAnswer) :
    (env.advance d recvs).advance e recvs' = env.advance (d + e) recvs' := by
  unfold Env.advance
  rw [← Nat.add_assoc]

/-- Nothing, or a frame with another identifier. -/
def Foreign (id : CanId) (answer : Option Frame) : Prop := ∀ frame ∈ answer, frame.id ≠ id

instance : DecidablePred (Foreign id) := fun answer =>
  inferInstanceAs (Decidable (∀ frame ∈ answer, frame.id ≠ id))

theorem not_foreign_iff : ¬ Foreign id answer ↔ ∃ frame, answer = some frame ∧ frame.id = id := by
  cases answer <;> simp [Foreign]

/-! ### One answer -/

section Step

theorem recvStep_expired (h : deadline ≤ env.clock) :
    recvStep id deadline env = ⟨.done (.inr none), env, [.expired]⟩ := by
  have hb : beforeDeadline deadline env = ⟨.done false, env, [.expired]⟩ :=
    if_neg (Nat.not_lt.mpr h)
  unfold recvStep
  rw [bind_done hb]
  rfl

theorem recvStep_recv (h : env.clock < deadline) :
    recvStep id deadline env = (recv >>= fun
      | some frame => if frame.id = id then pure (Sum.inr (some frame)) else pure (Sum.inl ())
      | none => pure (Sum.inl ())) env := by
  have hb : beforeDeadline deadline env = ⟨.done true, env, []⟩ := if_pos h
  unfold recvStep
  rw [bind_done hb]
  rfl

theorem recv_answer (h : env.recvs = ⟨d, .ok answer⟩ :: recvs) :
    recv env = ⟨.done answer, env.advance d recvs, [.received answer]⟩ := by
  unfold recv
  rw [h]
  rfl

theorem recvStep_pending (h : env.clock < deadline) (hr : env.recvs = []) :
    recvStep id deadline env = ⟨.halted .pending, env, []⟩ := by
  have hb : recv env = ⟨.halted .pending, env, []⟩ := by rw [recv, hr]
  rw [recvStep_recv h, bind_halted hb]

theorem recvStep_error (h : env.clock < deadline) (hr : env.recvs = ⟨d, .error error⟩ :: recvs) :
    recvStep id deadline env =
      ⟨.halted (.failed error), env.advance d recvs, [.raised error]⟩ := by
  have hb : recv env = ⟨.halted (.failed error), env.advance d recvs, [.raised error]⟩ := by
    unfold recv
    rw [hr]
    rfl
  rw [recvStep_recv h, bind_halted hb]

theorem recvStep_match (h : env.clock < deadline) (hr : env.recvs = ⟨d, .ok (some frame)⟩ :: recvs)
    (hid : frame.id = id) :
    recvStep id deadline env =
      ⟨.done (.inr (some frame)), env.advance d recvs, [.received (some frame)]⟩ := by
  rw [recvStep_recv h, bind_done (recv_answer hr)]
  simp only [if_pos hid]
  rfl

theorem recvStep_skip (h : env.clock < deadline) (hr : env.recvs = ⟨d, .ok answer⟩ :: recvs)
    (ha : Foreign id answer) :
    recvStep id deadline env =
      ⟨.done (.inl ()), env.advance d recvs, [.received answer]⟩ := by
  rw [recvStep_recv h, bind_done (recv_answer hr)]
  cases answer with
  | none => rfl
  | some frame =>
    simp only [if_neg (ha frame rfl)]
    rfl

/-- What one iteration does, by the clock and the next answer. -/
theorem recvStep_cases (id : CanId) (deadline : ℕ) (env : Env) :
    recvStep id deadline env = ⟨.done (.inr none), env, [.expired]⟩ ∨
    recvStep id deadline env = ⟨.halted .pending, env, []⟩ ∨
    ∃ d outcome recvs, env.recvs = ⟨d, outcome⟩ :: recvs ∧
      ((∃ error, outcome = .error error ∧ recvStep id deadline env =
        ⟨.halted (.failed error), env.advance d recvs, [.raised error]⟩) ∨
      (∃ frame, outcome = .ok (some frame) ∧ frame.id = id ∧ recvStep id deadline env =
        ⟨.done (.inr (some frame)), env.advance d recvs, [.received (some frame)]⟩) ∨
      (∃ answer, outcome = .ok answer ∧ Foreign id answer ∧ recvStep id deadline env =
        ⟨.done (.inl ()), env.advance d recvs, [.received answer]⟩)) := by
  rcases Nat.lt_or_ge env.clock deadline with h | h
  · right
    rcases hr : env.recvs with _ | ⟨⟨d, error | answer⟩, recvs⟩
    · exact .inl (recvStep_pending h hr)
    · exact .inr ⟨d, _, recvs, rfl, .inl ⟨error, rfl, recvStep_error h hr⟩⟩
    · refine .inr ⟨d, _, recvs, rfl, .inr ?_⟩
      by_cases ha : Foreign id answer
      · exact .inr ⟨answer, rfl, ha, recvStep_skip h hr ha⟩
      · obtain ⟨frame, rfl, hid⟩ := not_foreign_iff.mp ha
        exact .inl ⟨frame, rfl, hid, recvStep_match h hr hid⟩
  · exact .inl (recvStep_expired h)

end Step

/-! ### The loop -/

theorem recvStep_descends :
    Descends (fun _ env => env.recvs.length) (fun _ : Unit => recvStep id deadline) := by
  intro b s b' s' t hb
  dsimp only at hb
  obtain h | h | ⟨d, o, recvs, hr, ⟨e, -, h⟩ | ⟨f, -, -, h⟩ | ⟨a, -, -, h⟩⟩ :=
    recvStep_cases id deadline s <;> rw [h] at hb <;> cases hb
  simp only [hr, List.length_cons]
  exact Nat.lt_succ_self _

theorem recvWithId_expired (h : deadline ≤ env.clock) :
    recvWithId id deadline env = ⟨.done none, env, [.expired]⟩ :=
  loop_exit recvStep_descends (recvStep_expired h)

theorem recvWithId_pending (h : env.clock < deadline) (hr : env.recvs = []) :
    recvWithId id deadline env = ⟨.halted .pending, env, []⟩ :=
  loop_halted recvStep_descends (recvStep_pending h hr)

theorem recvWithId_error (h : env.clock < deadline)
    (hr : env.recvs = ⟨d, .error error⟩ :: recvs) :
    recvWithId id deadline env =
      ⟨.halted (.failed error), env.advance d recvs, [.raised error]⟩ :=
  loop_halted recvStep_descends (recvStep_error h hr)

theorem recvWithId_match (h : env.clock < deadline)
    (hr : env.recvs = ⟨d, .ok (some frame)⟩ :: recvs) (hid : frame.id = id) :
    recvWithId id deadline env =
      ⟨.done (some frame), env.advance d recvs, [.received (some frame)]⟩ :=
  loop_exit recvStep_descends (recvStep_match h hr hid)

theorem recvWithId_skip (h : env.clock < deadline) (hr : env.recvs = ⟨d, .ok answer⟩ :: recvs)
    (ha : Foreign id answer) :
    recvWithId id deadline env =
      (recvWithId id deadline (env.advance d recvs)).after [.received answer] :=
  loop_continue recvStep_descends (recvStep_skip h hr ha)

/-- A frame that is returned was taken from the answers. -/
theorem recvWithId_shrinks (h : recvWithId id deadline env = ⟨.done (some frame), env', t⟩) :
    env'.recvs.length < env.recvs.length := by
  induction hr : env.recvs generalizing env t with
  | nil =>
    rcases Nat.lt_or_ge env.clock deadline with hc | hc
    · rw [recvWithId_pending hc hr] at h
      cases h
    · rw [recvWithId_expired hc] at h
      cases h
  | cons a recvs ih =>
    obtain hs | hs | ⟨d, outcome, recvs', hr', hs⟩ := recvStep_cases id deadline env
    · rw [recvWithId, loop_exit recvStep_descends hs] at h
      cases h
    · rw [recvWithId, loop_halted recvStep_descends hs] at h
      cases h
    · obtain ⟨rfl, rfl⟩ := List.cons.inj (hr.symm.trans hr')
      obtain ⟨e, -, hs⟩ | ⟨f, -, -, hs⟩ | ⟨a, -, -, hs⟩ := hs
      · rw [recvWithId, loop_halted recvStep_descends hs] at h
        cases h
      · rw [recvWithId, loop_exit recvStep_descends hs] at h
        cases h
        exact Nat.lt_succ_self _
      · rw [recvWithId, loop_continue recvStep_descends hs] at h
        obtain ⟨ho, hs', -⟩ := Run.mk.inj h
        have := ih (t := _) (by rw [recvWithId, ← ho, ← hs']) rfl
        exact Nat.lt_succ_of_lt this

/-! ### Loops over received frames -/

section Attempt

variable {α : Type} {a : α}

@[simp] theorem attempt_ok (a : α) : attempt (.ok (.ok a)) = pure a := rfl

theorem attempt_eq_done {c : Checked (Except IoError α)}
    (h : attempt c env = ⟨.done a, env', t⟩) : c = .ok (.ok a) ∧ env' = env ∧ t = [] := by
  rcases c with p | (error | b) <;> cases h
  exact ⟨rfl, rfl, rfl⟩

end Attempt

theorem waitStep_descends :
    Descends (fun _ env => env.recvs.length) (waitStep id deadline opts) := by
  intro waits s waits' s' t hb
  obtain ⟨frame, r, _, _, hr, hf, -⟩ := bind_eq_done hb
  cases frame with
  | none => cases hf
  | some frame =>
    obtain ⟨data, r', _, _, hd, hs, -⟩ := bind_eq_done hf
    have hr' := (ofChecked_eq_done hd).2.1
    have hs' := (attempt_eq_done hs).2.1
    rw [hs', hr']
    exact recvWithId_shrinks hr

theorem collectStep_descends {total : ℕ} :
    Descends (fun _ env => env.recvs.length) (collectStep id deadline total) := by
  intro c s c' s' t hb
  rw [collectStep] at hb
  split at hb
  case isFalse => cases hb
  case isTrue =>
    obtain ⟨frame, r, _, _, hr, hf, -⟩ := bind_eq_done hb
    cases frame with
    | none => cases hf
    | some frame =>
      obtain ⟨data, r', _, _, hd, hg, -⟩ := bind_eq_done hf
      obtain ⟨next, r'', _, _, hn, hs, -⟩ := bind_eq_done hg
      have hr' := (ofChecked_eq_done hd).2.1
      have hr'' := (attempt_eq_done hn).2.1
      cases hs
      rw [hr'', hr']
      exact recvWithId_shrinks hr

end Mcanbus.Isotp
