import Mcanbus.Effect.Hoare
import Mcanbus.Isotp.Receive

/-! # Triples about the calls of a request

One rule for each call, in terms of the environment before and after it. All that
is proved of whole requests is proved from these rules.
-/

namespace Mcanbus.Isotp

open Rust Effect Effect.Process

variable {α : Type} {P : Assertion Env Event} {X : Halt IoError → Assertion Env Event}

theorem triple_raise {Q : α → Assertion Env Event} {error : IoError}
    (hx : ∀ env t, P env t → X (.failed error) env (t ++ [.raised error])) :
    Triple P (raise error) Q X := Triple.halt hx

theorem triple_attempt {Q : α → Assertion Env Event} {c : Checked (Except IoError α)}
    (hok : ∀ a, c = .ok (.ok a) → ∀ env t, P env t → Q a env t)
    (herr : ∀ error, c = .ok (.error error) → ∀ env t, P env t →
      X (.failed error) env (t ++ [.raised error]))
    (hpanic : ∀ p, c = .error p → ∀ env t, P env t → X (.panicked p) env t) :
    Triple P (attempt c) Q X := by
  rcases c with p | (error | a)
  · exact Triple.halt fun env t hp => (List.append_nil t).symm ▸ hpanic p rfl env t hp
  · exact triple_raise fun env t hp => herr error rfl env t hp
  · exact Triple.pure fun env t hp => hok a rfl env t hp

theorem triple_now {Q : ℕ → Assertion Env Event} (h : ∀ env t, P env t → Q env.clock env t) :
    Triple P now Q X := by
  intro env t hp
  refine .value ?_
  rw [List.append_nil]
  exact h env t hp

theorem triple_sleep {Q : Unit → Assertion Env Event} {duration : ℕ}
    (h : ∀ env env' t, P env t → env'.recvs = env.recvs → env'.sends = env.sends →
      env.clock + duration ≤ env'.clock → Q () env' t) :
    Triple P (sleep duration) Q X := by
  intro env t hp
  refine .value ?_
  rw [List.append_nil]
  refine h env _ t hp rfl rfl ?_
  dsimp only
  omega

/-- A frame is sent, or the socket fails with an error of its own. -/
theorem triple_send {Q : Unit → Assertion Env Event} {frame : Frame}
    (hsent : ∀ env env' t, P env t → env'.recvs = env.recvs → env'.sends = env.sends.tail →
      env.clock ≤ env'.clock → Q () env' (t ++ [.sent env'.clock frame]))
    (hfail : ∀ env env' t answer error, P env t → answer ∈ env.sends →
      answer.error = some error → X (.failed error) env' (t ++ [.raised error])) :
    Triple P (send frame) Q X := by
  intro env t hp
  unfold send
  rcases hs : env.sends with _ | ⟨⟨delay, _ | error⟩, sends⟩
  · exact .value (hsent env env t hp rfl (by rw [hs]; rfl) (Nat.le_refl _))
  · exact .value (hsent env _ t hp rfl (by rw [hs]; rfl) (Nat.le_add_right _ _))
  · exact .failure (hfail env _ t ⟨delay, some error⟩ error hp (hs ▸ List.mem_cons_self) rfl)

/-- Foreign frames are skipped until a frame is received, the deadline has passed, or the socket
fails. -/
theorem triple_recvWithId {Q : Option Frame → Assertion Env Event} {id : CanId} {deadline : ℕ}
    (hskip : ∀ env t d answer recvs, P env t → env.recvs = ⟨d, .ok answer⟩ :: recvs →
      Foreign id answer → P (env.advance d recvs) (t ++ [.received answer]))
    (hmatch : ∀ env t d frame recvs, P env t → env.recvs = ⟨d, .ok (some frame)⟩ :: recvs →
      frame.id = id → Q (some frame) (env.advance d recvs) (t ++ [.received (some frame)]))
    (hexpired : ∀ env t, P env t → deadline ≤ env.clock → Q none env (t ++ [.expired]))
    (hfail : ∀ env t d error recvs, P env t → env.recvs = ⟨d, .error error⟩ :: recvs →
      X (.failed error) (env.advance d recvs) (t ++ [.raised error]))
    (hpending : ∀ env t, P env t → X .pending env t) :
    Triple P (recvWithId id deadline) Q X := by
  refine Triple.loop (J := fun _ => P) (fun _ env t hp => ?_) (fun _ => hpending) ()
  rcases Nat.lt_or_ge env.clock deadline with hc | hc
  case inr =>
    rw [recvStep_expired hc]
    exact .value (hexpired env t hp hc)
  rcases hr : env.recvs with _ | ⟨⟨d, error | answer⟩, recvs⟩
  · rw [recvStep_pending hc hr]
    exact .failure ((List.append_nil t).symm ▸ hpending env t hp)
  · rw [recvStep_error hc hr]
    exact .failure (hfail env t d error recvs hp hr)
  · by_cases ha : Foreign id answer
    · rw [recvStep_skip hc hr ha]
      exact .value (hskip env t d answer recvs hp hr ha)
    · obtain ⟨frame, rfl, hid⟩ := not_foreign_iff.mp ha
      rw [recvStep_match hc hr hid]
      exact .value (hmatch env t d frame recvs hp hr hid)

end Mcanbus.Isotp
