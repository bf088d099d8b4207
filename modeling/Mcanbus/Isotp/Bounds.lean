import Mcanbus.Effect.Safe
import Mcanbus.Isotp.Acceptance
import Mcanbus.Isotp.History

/-! # Reassembly within bounds

The reception of a response never reads outside a frame and never collects more
bytes than the first frame announces, whatever the socket returns. A response
has the announced length and consists of the bytes of the frames in order.
-/

namespace Mcanbus.Isotp

open Rust Effect Effect.Process

variable {txId rxId : CanId} {deadline total : ℕ} {opts : Options} {env env' : Env}
  {t : List Event} {s s' : CollectState} {data v : List UInt8}

/-! ### Panics -/

/-- The frames with the identifier that the socket will return are within the buffer. -/
def InBounds (rxId : CanId) (env : Env) : Prop :=
  ∀ frame ∈ queuedFrames env.recvs, frame.id = rxId → frame.len.toNat ≤ maxFdDataLen

/-- Answers that were taken leave the others in bounds. -/
theorem InBounds.advance {d delay : ℕ} {outcome : Except IoError (Option Frame)}
    {recvs : List RecvAnswer} (h : InBounds rxId env) (hr : env.recvs = ⟨d, outcome⟩ :: recvs) :
    InBounds rxId (env.advance delay recvs) := by
  intro frame hf
  apply h
  rw [hr]
  cases outcome with
  | error e => exact hf
  | ok answer =>
    cases answer with
    | none => exact hf
    | some frame' => exact List.mem_cons_of_mem frame' hf

theorem safe_attempt {I : Env → Prop} {α : Type} {R : α → Prop} {c : Checked (Except IoError α)}
    (hc : ∃ r, c = .ok r ∧ ∀ a, r = .ok a → R a) : Safe I (attempt c) R := by
  obtain ⟨r, rfl, hr⟩ := hc
  cases r with
  | error e => exact Safe.halt (by simp)
  | ok a => exact Safe.pure (hr a rfl)

theorem safe_recvStep : Safe (InBounds rxId) (recvStep rxId deadline) fun r =>
    match r with
    | .inl _ => True
    | .inr answer => ∀ frame, answer = some frame → frame.len.toNat ≤ maxFdDataLen := by
  intro env h
  obtain hs | hs | ⟨d, outcome, recvs, hr, hs⟩ := recvStep_cases rxId deadline env
  · rw [hs]
    exact .done h (by simp)
  · rw [hs]
    exact .halted (by simp)
  obtain ⟨e, -, hs⟩ | ⟨f, rfl, hid, hs⟩ | ⟨answer, -, -, hs⟩ := hs <;> rw [hs]
  · exact .halted (by simp)
  · apply SafeRun.done (h.advance hr)
    rintro frame ⟨⟩
    apply h f ?_ hid
    rw [hr]
    exact List.mem_cons_self
  · exact .done (h.advance hr) trivial

theorem safe_recvWithId : Safe (InBounds rxId) (recvWithId rxId deadline) fun answer =>
    ∀ frame, answer = some frame → frame.len.toNat ≤ maxFdDataLen :=
  Safe.loop (J := fun _ => True)
    (fun _ _ => safe_recvStep.mono (by rintro (_ | answer) h <;> exact h)) trivial

theorem safe_send (frame : Frame) : Safe (InBounds rxId) (send frame) fun _ => True := by
  intro env h
  unfold send
  rcases hs : env.sends with _ | ⟨⟨delay, _ | error⟩, sends⟩
  · exact .done h trivial
  · exact .done h trivial
  · exact .halted (by simp)

/-- The first frame is read without panics, and no more of it than it announces. -/
theorem responseData_returns (data : List UInt8) : ∃ r, responseData data = .ok r ∧
    ∀ total out, r = .ok (.first total out) → out.length ≤ total := by
  obtain ⟨message, hm⟩ | ⟨pci, rest, rfl, hs⟩ | ⟨pci, low, rest, rfl, hf⟩ := responseData_cases data
  · exact ⟨_, hm, by simp⟩
  · exact ⟨_, responseData_single hs, by simp⟩
  · refine ⟨_, responseData_first hf, ?_⟩
    rintro total out ⟨⟩
    exact List.length_take_le _ _

/-- A Consecutive Frame is read without panics, and no more of it than is missing. -/
theorem consecutiveData_returns (data : List UInt8) (hl : s.out.length ≤ total) :
    ∃ r, consecutiveData total s data = .ok r ∧
      ∀ next, r = .ok next → next.out.length ≤ total := by
  obtain ⟨message, hm⟩ | ⟨pci, rest, rfl, hp, hseq⟩ := consecutiveData_cases total s data
  · exact ⟨_, hm, by simp⟩
  · refine ⟨_, consecutiveData_ok hp hseq hl, ?_⟩
    rintro next ⟨⟩
    rw [length_append_missing hl]
    exact Nat.min_le_right _ _

theorem safe_collectStep (hl : s.out.length ≤ total) :
    Safe (InBounds rxId) (collectStep rxId deadline total s) fun r =>
      match r with
      | .inl s' => s'.out.length ≤ total
      | .inr _ => True := by
  unfold collectStep
  split
  case isFalse => exact Safe.pure trivial
  case isTrue =>
    apply Safe.bind safe_recvWithId
    rintro (_ | frame) hf
    · exact Safe.halt (by simp)
    · refine Safe.bind (R := fun _ => True)
        (Safe.ofChecked ⟨_, Frame.data_eq (hf frame rfl), trivial⟩) fun data _ => ?_
      exact Safe.bind (safe_attempt (consecutiveData_returns data hl)) fun next hn => Safe.pure hn

theorem safe_collect (hl : s.out.length ≤ total) :
    Safe (InBounds rxId) (collect rxId deadline total s) fun _ => True :=
  Safe.loop (fun _ hs => Safe.mono (safe_collectStep hs) (by rintro (s' | v) h <;> exact h)) hl

/-- The reception of a response does not panic. -/
theorem safe_receiveResponse :
    Safe (InBounds rxId) (receiveResponse txId rxId deadline opts) fun _ => True := by
  unfold receiveResponse
  apply Safe.bind safe_recvWithId
  rintro (_ | frame) hf
  · exact Safe.halt (by simp)
  refine Safe.bind (R := fun _ => True)
    (Safe.ofChecked ⟨_, Frame.data_eq (hf frame rfl), trivial⟩) fun data _ => ?_
  obtain ⟨r, hr, hout⟩ := responseData_returns data
  refine Safe.bind (R := fun response => ∀ total out, response = .first total out →
    out.length ≤ total) (safe_attempt ⟨r, hr, ?_⟩) ?_
  · rintro response rfl total out rfl
    exact hout total out rfl
  · rintro (payload | ⟨total, out⟩) hlen
    · exact Safe.pure trivial
    · rw [sendFc_eq]
      exact Safe.bind (safe_send _) fun _ _ => safe_collect (hlen total out rfl)

/-! ### The loop -/

/-- An iteration that continues has taken the data of a Consecutive Frame. -/
theorem collectStep_continues
    (h : collectStep rxId deadline total s env = ⟨.done (.inl s'), env', t⟩) :
    s.out.length < total ∧ ∃ data, consecutiveData total s data = .ok (.ok s') := by
  unfold collectStep at h
  split at h
  case isFalse => cases h
  case isTrue hlt =>
    obtain ⟨answer, _, _, _, -, hf, -⟩ := bind_eq_done h
    cases answer with
    | none => cases hf
    | some frame =>
      obtain ⟨data, _, _, _, -, hg, -⟩ := bind_eq_done hf
      obtain ⟨next, _, _, _, hn, hp, -⟩ := bind_eq_done hg
      cases hp
      exact ⟨hlt, data, (attempt_eq_done hn).1⟩

/-- At every head of the loop at most the announced number of bytes was collected. -/
theorem visits_collectStep (hl : s.out.length ≤ total)
    (h : Visits (collectStep rxId deadline total) s env s' env') : s'.out.length ≤ total := by
  refine Visits.invariant (J := fun s => s.out.length ≤ total) ?_ hl h
  intro s₁ env₁ s₂ env₂ t hs hstep
  obtain ⟨-, data, hd⟩ := collectStep_continues hstep
  obtain ⟨r, hr, hnext⟩ := consecutiveData_returns data hs
  exact hnext s₂ (Except.ok.inj (hr.symm.trans hd))

/-! ### The response -/

/-- The length that the first frame of a response announces. -/
def announcedLength (data : List UInt8) : ℕ :=
  if data.headD 0 &&& pciTypeMask = pciSf then sfLength (data.headD 0)
  else ffLength (data.headD 0) (data.getD 1 0)

/-- The bytes of the response in its first frame. -/
def firstBytes (data : List UInt8) : List UInt8 :=
  if data.headD 0 &&& pciTypeMask = pciSf then data.drop 1 else data.drop 2

theorem announcedLength_first (h : responseData data = .ok (.ok (.first total v))) :
    announcedLength data = total := by
  obtain ⟨pci, low, rest, rfl, hf, rfl, -⟩ := responseData_eq_first h
  simp [announcedLength, hf.type_ne_sf]

namespace Rx

/-- What is collected behind the head of the loop is the bytes of the frames up to the announced
length. -/
theorem feedAll_settle {datas : List (List UInt8)} (hl : s.out.length ≤ total)
    (h : (settle total s).feedAll datas = .accepted v) :
    v.length = total ∧ v = (s.out ++ carried datas).take total := by
  induction datas generalizing s with
  | nil =>
    obtain ⟨hle, rfl⟩ := settle_eq_accepted_iff.mp h
    rw [carried_nil, List.append_nil, List.take_of_length_le hl]
    exact ⟨Nat.le_antisymm hl hle, rfl⟩
  | cons data datas ih =>
    rcases Nat.lt_or_ge s.out.length total with hlt | hge
    · rw [settle_collecting hlt, feedAll_cons] at h
      obtain ⟨message, hf⟩ | ⟨pci, rest, rfl, -, -, hf⟩ := feed_collecting_cases hlt data <;>
        rw [hf] at h
      · simp at h
      · have hl' : (s.out ++ rest.take (min (total - s.out.length) cfPayload)).length ≤ total := by
          rw [length_append_missing hl]
          exact Nat.min_le_right _ _
        obtain ⟨hv, he⟩ := ih hl' h
        refine ⟨hv, ?_⟩
        rw [he, take_append_missing, carried_cons]
        rfl
    · rw [settle_accepted hge, feedAll_accepted] at h
      cases h
      have hlen := Nat.le_antisymm hl hge
      exact ⟨hlen, (List.take_left' hlen).symm⟩

/-- An accepted sequence starts with a Single or a First Frame, and the response is the bytes of
the frames up to the length that it announces. -/
theorem feedAll_idle {datas : List (List UInt8)} (h : idle.feedAll datas = .accepted v) :
    ∃ first cfs, datas = first :: cfs ∧
      (first.headD 0 &&& pciTypeMask = pciSf ∨ first.headD 0 &&& pciTypeMask = pciFf) ∧
      v.length = announcedLength first ∧
      v = (firstBytes first ++ carried cfs).take v.length := by
  cases datas with
  | nil => cases h
  | cons first cfs =>
    refine ⟨first, cfs, rfl, ?_⟩
    rw [feedAll_cons] at h
    obtain ⟨message, hfeed⟩ | ⟨pci, rest, rfl, hs, hfeed⟩ | ⟨pci, low, rest, rfl, hf, hfeed⟩ :=
      feed_idle_cases first <;> rw [hfeed] at h
    · simp at h
    · rw [feedAll_accepted] at h
      cases h
      have hfirst : firstBytes (pci :: rest) = rest := by
        simp [firstBytes, hs.type_eq]
      have hlen : (rest.take (sfLength pci)).length = sfLength pci :=
        List.length_take_of_le hs.present
      refine ⟨.inl hs.type_eq, ?_, ?_⟩
      · simp [announcedLength, hs.type_eq, hs.present]
      · rw [hlen, hfirst, List.take_append_of_le_length hs.present]
    · have hne := hf.type_ne_sf
      obtain ⟨hv, he⟩ := feedAll_settle (List.length_take_le _ _) h
      refine ⟨.inr hf.type_eq, ?_, ?_⟩
      · simp [announcedLength, hne, hv]
      · rw [hv, he, take_take_append]
        simp [firstBytes, hne]

end Rx

/-- The reception of a response stays within the frames and within the announced length: it does
not panic, at every head of the loop at most the announced number of bytes was collected, and a
response has the announced length and consists of the bytes of the frames in order. -/
theorem receiveResponse_inBounds (txId rxId : CanId) (deadline : ℕ) (opts : Options) (env : Env)
    (h : InBounds rxId env) :
    (∀ p, (receiveResponse txId rxId deadline opts env).outcome ≠ .halted (.panicked p)) ∧
    (∀ data total out env₁ s env₂, responseData data = .ok (.ok (.first total out)) →
      Visits (collectStep rxId deadline total) ⟨1, out⟩ env₁ s env₂ →
      s.out.length ≤ total ∧ total = announcedLength data ∧
      ∃ t, collect rxId deadline total ⟨1, out⟩ env₁ =
        (collect rxId deadline total s env₂).after t) ∧
    (∀ v env' t, receiveResponse txId rxId deadline opts env = ⟨.done v, env', t⟩ →
      ∃ first cfs, ((receivedFrames t).filter (·.id = rxId)).map Frame.data =
          (first :: cfs).map .ok ∧
        (first.headD 0 &&& pciTypeMask = pciSf ∨ first.headD 0 &&& pciTypeMask = pciFf) ∧
        v.length = announcedLength first ∧
        v = (firstBytes first ++ carried cfs).take v.length) := by
  refine ⟨(safe_receiveResponse env h).noPanic, ?_, ?_⟩
  · intro data total out env₁ s env₂ hdata hvisits
    obtain ⟨r, hr, hout⟩ := responseData_returns data
    have hl : out.length ≤ total := hout total out (Except.ok.inj (hr.symm.trans hdata))
    exact ⟨visits_collectStep hl hvisits, (announcedLength_first hdata).symm,
      hvisits.loop_eq collectStep_descends⟩
  · intro v env' t hrun
    obtain ⟨hadv, -, hsteps⟩ :=
      Call.receiveResponse_done (c := ⟨txId, rxId, [], opts⟩) 0 hrun
    have hlen : ∀ frame ∈ receivedFrames t, frame.id = rxId → frame.len.toNat ≤ maxFdDataLen := by
      intro frame hf
      apply h frame
      rw [hadv.frames]
      exact List.mem_append_left _ hf
    rw [Call.steps_receiving 0 .idle hlen] at hsteps
    obtain ⟨first, cfs, hdatas, htype, hv, hbytes⟩ := Rx.feedAll_idle (Stage.receiving.inj hsteps).2
    refine ⟨first, cfs, ?_, htype, hv, hbytes⟩
    rw [← hdatas, List.map_map]
    apply List.map_congr_left
    intro frame hf
    obtain ⟨hmem, hid⟩ := List.mem_filter.mp hf
    exact Frame.data_eq (hlen frame hmem (of_decide_eq_true hid))

/-- A response of eight bytes, with a frame of another identifier between its frames. -/
def eightFrames : List Frame :=
  [classicFrame (.standard 0x7E8) [0x10, 8, 1, 2, 3, 4, 5, 6],
    classicFrame (.standard 0x123) [0x21, 0xFF],
    classicFrame (.standard 0x7E8) [0x21, 7, 8]]

theorem inBounds_eightFrames : InBounds (.standard 0x7E8) (Call.queue 0 eightFrames) := by
  unfold InBounds
  decide

theorem receiveResponse_inBounds_eightFrames :
    ∃ first cfs, (eightFrames.filter (·.id = .standard 0x7E8)).map Frame.data =
        (first :: cfs).map .ok ∧
      (first.headD 0 &&& pciTypeMask = pciSf ∨ first.headD 0 &&& pciTypeMask = pciFf) ∧
      [1, 2, 3, 4, 5, 6, 7, 8].length = announcedLength first ∧
      [1, 2, 3, 4, 5, 6, 7, 8] = (firstBytes first ++ carried cfs).take 8 :=
  (receiveResponse_inBounds (.standard 0x7E0) (.standard 0x7E8) 100 default
    (Call.queue 0 eightFrames) inBounds_eightFrames).2.2 [1, 2, 3, 4, 5, 6, 7, 8] _ _ rfl

end Mcanbus.Isotp
