import Mcanbus.Effect.Insensitive
import Mcanbus.Isotp.Receive
import Mcanbus.Isotp.Segmentation

/-! # Foreign traffic

Two environments are alike when the socket gives the same answers in both, apart
from timeouts and frames with other identifiers. As long as the deadline is not
reached, a request runs alike in them and transmits the same frames.
-/

namespace Mcanbus.Isotp

open Rust Effect Effect.Process

variable {rxId : CanId} {deadline : ℕ} {env env' : Env}

/-- An error, or a frame with the identifier. -/
def Relevant (rxId : CanId) : Except IoError (Option Frame) → Prop
  | .error _ => True
  | .ok answer => ¬ Foreign rxId answer

instance : DecidablePred (Relevant rxId)
  | .error _ => inferInstanceAs (Decidable True)
  | .ok answer => inferInstanceAs (Decidable (¬ Foreign rxId answer))

/-- The answers to come without timeouts and foreign frames. -/
def relevant (rxId : CanId) (recvs : List RecvAnswer) : List (Except IoError (Option Frame)) :=
  (recvs.map RecvAnswer.outcome).filter fun outcome => Relevant rxId outcome

theorem relevant_skip {d : ℕ} {answer : Option Frame} (h : Foreign rxId answer)
    (recvs : List RecvAnswer) : relevant rxId (⟨d, .ok answer⟩ :: recvs) = relevant rxId recvs := by
  simp [relevant, Relevant, h]

theorem relevant_keep {d : ℕ} {outcome : Except IoError (Option Frame)} (h : Relevant rxId outcome)
    (recvs : List RecvAnswer) :
    relevant rxId (⟨d, outcome⟩ :: recvs) = outcome :: relevant rxId recvs := by
  simp [relevant, h]

/-- The socket answers alike, apart from foreign traffic and the time it takes. -/
structure Alike (rxId : CanId) (env env' : Env) : Prop where
  recvs : relevant rxId env.recvs = relevant rxId env'.recvs
  sends : env.sends.map SendAnswer.error = env'.sends.map SendAnswer.error

/-- The frame that an event sends. -/
def sentFrame : Event → Option Frame
  | .sent _ frame => some frame
  | _ => none

theorem filterMap_sentFrame (t : List Event) : t.filterMap sentFrame = sentFrames t := by
  unfold sentFrames
  congr 1

/-- The process runs alike in environments that are alike. -/
abbrev Steady (rxId : CanId) {α : Type} (m : IsotpM α) : Prop :=
  Insensitive (Alike rxId) .expired sentFrame m

/-- What the loop that waits for an identifier does before the deadline, by the relevant answers. -/
theorem recvWithId_relevant (h : .expired ∉ (recvWithId rxId deadline env).trace) :
    ∃ o env' t, recvWithId rxId deadline env = ⟨o, env', t⟩ ∧ sentFrames t = [] ∧
      env'.sends = env.sends ∧
      ((relevant rxId env.recvs = [] ∧ o = .halted .pending) ∨
      (∃ error later, relevant rxId env.recvs = .error error :: later ∧
        o = .halted (.failed error)) ∨
      (∃ frame later, relevant rxId env.recvs = .ok (some frame) :: later ∧
        o = .done (some frame) ∧ relevant rxId env'.recvs = later)) := by
  induction hr : env.recvs generalizing env with
  | nil =>
    rcases Nat.lt_or_ge env.clock deadline with hc | hc
    · exact ⟨_, _, _, recvWithId_pending hc hr, rfl, rfl, .inl ⟨rfl, rfl⟩⟩
    · rw [recvWithId_expired hc] at h
      exact absurd (List.mem_singleton_self _) h
  | cons a recvs ih =>
    obtain ⟨d, outcome⟩ := a
    rcases Nat.lt_or_ge env.clock deadline with hc | hc
    case inr =>
      rw [recvWithId_expired hc] at h
      exact absurd (List.mem_singleton_self _) h
    rcases outcome with error | answer
    · have hrel : Relevant rxId (.error error) := trivial
      exact ⟨_, _, _, recvWithId_error hc hr, rfl, rfl,
        .inr (.inl ⟨error, _, relevant_keep hrel recvs, rfl⟩)⟩
    by_cases hf : Foreign rxId answer
    · have hskip := recvWithId_skip hc hr hf
      rw [hskip, Run.trace_after, List.mem_append, not_or] at h
      obtain ⟨o, env', t, hrun, hsent, hsends, hcases⟩ := ih h.2 rfl
      refine ⟨o, env', .received answer :: t, ?_, hsent, hsends, ?_⟩
      · rw [hskip, hrun]
        rfl
      · rwa [relevant_skip hf]
    · have hrel : Relevant rxId (.ok answer) := hf
      obtain ⟨frame, rfl, hid⟩ := not_foreign_iff.mp hf
      exact ⟨_, _, _, recvWithId_match hc hr hid, rfl, rfl,
        .inr (.inr ⟨frame, _, relevant_keep hrel recvs, rfl, rfl⟩)⟩

theorem steady_recvWithId : Steady rxId (recvWithId rxId deadline) := by
  intro s s' hs hb hb'
  obtain ⟨o, r, t, hrun, hsent, hsends, hcases⟩ := recvWithId_relevant hb
  obtain ⟨o', r', t', hrun', hsent', hsends', hcases'⟩ := recvWithId_relevant hb'
  have hobs : t.filterMap sentFrame = t'.filterMap sentFrame := by
    rw [filterMap_sentFrame, filterMap_sentFrame, hsent, hsent']
  have hsends'' : r.sends.map SendAnswer.error = r'.sends.map SendAnswer.error := by
    rw [hsends, hsends', hs.sends]
  rw [hs.recvs] at hcases
  rw [hrun, hrun']
  obtain ⟨he, rfl⟩ | ⟨e, later, he, rfl⟩ | ⟨f, later, he, rfl, hl⟩ := hcases <;>
    obtain ⟨he', rfl⟩ | ⟨e', later', he', rfl⟩ | ⟨f', later', he', rfl, hl'⟩ := hcases' <;>
    rw [he] at he' <;> cases he'
  · exact ⟨rfl, hobs, fun _ hd => nomatch hd⟩
  · exact ⟨rfl, hobs, fun _ hd => nomatch hd⟩
  · exact ⟨rfl, hobs, fun _ _ => ⟨hl.trans hl'.symm, hsends''⟩⟩

theorem steady_send (frame : Frame) : Steady rxId (send frame) := by
  rintro s s' ⟨hr, hs⟩ - -
  rw [send, send]
  rcases h : s.sends with _ | ⟨⟨d, e⟩, sends⟩ <;>
    rcases h' : s'.sends with _ | ⟨⟨d', e'⟩, sends'⟩ <;> rw [h, h'] at hs
  · exact ⟨rfl, rfl, fun _ _ => ⟨hr, by rw [h, h']⟩⟩
  · cases hs
  · cases hs
  · obtain ⟨he, ht⟩ := List.cons.inj hs
    obtain rfl : e = e' := he
    cases e with
    | none => exact ⟨rfl, rfl, fun _ _ => ⟨hr, ht⟩⟩
    | some e => exact ⟨rfl, rfl, fun _ hd => nomatch hd⟩

theorem steady_sleep (duration : ℕ) : Steady rxId (sleep duration) :=
  fun _ _ hs _ _ => ⟨rfl, rfl, fun _ _ => ⟨hs.recvs, hs.sends⟩⟩

theorem steady_attempt {α : Type} (c : Checked (Except IoError α)) : Steady rxId (attempt c) := by
  rcases c with p | (error | a)
  · exact .halt _ _
  · exact .halt _ _
  · exact .pure a

theorem steady_sendClassic (txId : CanId) (buf : Vector UInt8 frameDlc) :
    Steady rxId (sendClassic txId buf) :=
  .bind (steady_attempt _) steady_send

section Phases

variable {txId : CanId} {payload : List UInt8} {opts : Options}

theorem steady_sendSf : Steady rxId (sendSf txId payload opts) :=
  .bind (.ofChecked _) fun _ => steady_sendClassic _ _

theorem steady_sendFf : Steady rxId (sendFf txId payload opts) :=
  .bind (.ofChecked _) fun _ => .bind (.ofChecked _) fun _ => steady_sendClassic _ _

theorem steady_sendConsecutiveFrames (rest : List UInt8) (bs stMinMs : UInt8) :
    Steady rxId (sendConsecutiveFrames txId rest bs stMinMs opts) := by
  refine .loop sendStep_descends (fun s => ?_) _
  unfold sendStep
  split
  · refine .bind (.ofChecked _) fun chunk => .bind (.ofChecked _) fun buf =>
      .bind (steady_sendClassic _ _) fun _ => .bind (.ofChecked _) fun seq => ?_
    dsimp only
    split
    · exact .halt _ _
    · split
      · exact .bind (steady_sleep _) fun _ => .pure _
      · exact .pure _
  · exact .pure _

theorem steady_waitForFc : Steady rxId (waitForFc rxId deadline opts) := by
  refine .loop waitStep_descends (fun waits => .bind steady_recvWithId ?_) _
  rintro (_ | frame)
  · exact .halt _ _
  · exact .bind (.ofChecked _) fun data => steady_attempt _

theorem steady_collect {total : ℕ} {s : CollectState} :
    Steady rxId (collect rxId deadline total s) := by
  refine .loop collectStep_descends (fun s => ?_) _
  unfold collectStep
  split
  · refine .bind steady_recvWithId ?_
    rintro (_ | frame)
    · exact .halt _ _
    · exact .bind (.ofChecked _) fun data => .bind (steady_attempt _) fun next => .pure _
  · exact .pure _

theorem steady_receiveResponse : Steady rxId (receiveResponse txId rxId deadline opts) := by
  refine .bind steady_recvWithId ?_
  rintro (_ | first)
  · exact .halt _ _
  · refine .bind (.ofChecked _) fun data => .bind (steady_attempt _) ?_
    rintro (response | ⟨total, out⟩)
    · exact .pure _
    · exact .bind (steady_sendClassic _ _) fun _ => steady_collect

theorem steady_exchange : Steady rxId (exchange txId rxId payload deadline opts) := by
  unfold exchange
  split
  · exact .bind steady_sendSf fun _ => steady_receiveResponse
  · exact .bind steady_sendFf fun _ => .bind steady_waitForFc fun _ => .bind (.ofChecked _)
      fun _ => .bind (steady_sendConsecutiveFrames _ _ _) fun _ => steady_receiveResponse

end Phases

/-- Foreign traffic changes neither the result of a request nor the frames it transmits. -/
theorem request_insensitive {txId rxId : CanId} {payload : List UInt8} {opts : Options}
    {env env' : Env} (hclock : env.clock = env'.clock)
    (hrecvs : relevant rxId env.recvs = relevant rxId env'.recvs)
    (hsends : env.sends.map SendAnswer.error = env'.sends.map SendAnswer.error)
    (h : .expired ∉ (request txId rxId payload opts env).trace)
    (h' : .expired ∉ (request txId rxId payload opts env').trace) :
    (request txId rxId payload opts env).outcome = (request txId rxId payload opts env').outcome ∧
    sentFrames (request txId rxId payload opts env).trace =
      sentFrames (request txId rxId payload opts env').trace := by
  by_cases h0 : payload.isEmpty
  · unfold request
    rw [if_pos h0]
    exact ⟨rfl, rfl⟩
  by_cases hm : payload.length > maxFfLength
  · unfold request
    rw [if_neg h0, if_pos hm]
    exact ⟨rfl, rfl⟩
  have hrun := request_eq txId rxId opts (fun h => h0 (List.isEmpty_iff.mpr h)) (Nat.not_lt.mp hm)
  have hsteady : Steady rxId (ofChecked (addDuration env.clock opts.timeout) >>= fun deadline =>
      exchange txId rxId payload deadline opts) :=
    .bind (.ofChecked _) fun _ => steady_exchange
  rw [hrun env] at h ⊢
  rw [hrun env', ← hclock] at h'
  rw [hrun env', ← hclock, ← filterMap_sentFrame, ← filterMap_sentFrame]
  have hagree := hsteady env env' ⟨hrecvs, hsends⟩ h h'
  exact ⟨hagree.outcome, hagree.observed⟩

/-- A Single Frame response of two bytes. -/
def shortResponse : RecvAnswer :=
  ⟨3, .ok (some (.ofPayload .Classic (.standard 0x7E8) [0x02, 0x5A, 0x90]))⟩

/-- The same frame with the extended identifier of the same number. -/
def foreignResponse : RecvAnswer :=
  ⟨2, .ok (some (.ofPayload .Classic (.extended 0x7E8) [0x02, 0x5A, 0x90]))⟩

theorem request_insensitive_shortResponse :
    (request (.standard 0x7E0) (.standard 0x7E8) [0x1A, 0x90] default
      ⟨0, [shortResponse], [], []⟩).outcome =
    (request (.standard 0x7E0) (.standard 0x7E8) [0x1A, 0x90] default
      ⟨0, [⟨1, .ok none⟩, foreignResponse, shortResponse], [], []⟩).outcome :=
  (request_insensitive rfl (by decide) rfl (by decide) (by decide)).1

end Mcanbus.Isotp
