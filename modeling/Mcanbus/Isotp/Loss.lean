import Mathlib.Data.List.Sort
import Mcanbus.Isotp.Acceptance
import Mcanbus.Isotp.Reassembly

/-! # Lost and repeated frames

The Consecutive Frames of a payload, with some deleted and some repeated in
place. A gap of sixteen frames passes the check of the sequence numbers, but
every accepted frame brings seven bytes, and with a gap there are too few.
-/

namespace Mcanbus.Isotp

open Rust Effect Effect.Process

/-- The frames, each repeated in place; a frame without copies is deleted. -/
def edit {α : Type} (copies : ℕ → ℕ) (frames : List α) : List α :=
  frames.zipIdx.flatMap fun (frame, i) => List.replicate (copies i) frame

variable {copies : ℕ → ℕ} {n i : ℕ} {es : List ℕ} {payload rest v : List UInt8} {padding : UInt8}

/-! ### Positions -/

theorem edit_map {α β : Type} (f : α → β) (frames : List α) :
    edit copies (frames.map f) = (edit copies frames).map f := by
  unfold edit
  simp only [List.zipIdx_map, List.flatMap_map, List.map_flatMap]
  simp only [Prod.map_fst, Prod.map_snd, id_eq, List.map_replicate]

theorem mem_of_mem_edit {α : Type} {frames : List α} {frame : α} (h : frame ∈ edit copies frames) :
    frame ∈ frames := by
  obtain ⟨⟨frame', i⟩, hm, hr⟩ := List.mem_flatMap.mp h
  obtain rfl := List.eq_of_mem_replicate hr
  exact List.fst_mem_of_mem_zipIdx hm

theorem edit_range_succ (copies : ℕ → ℕ) (n : ℕ) : edit copies (List.range (n + 1)) =
    edit copies (List.range n) ++ List.replicate (copies n) n := by
  unfold edit
  simp only [List.range_succ, List.zipIdx_append, List.flatMap_append, List.length_range,
    Nat.zero_add]
  exact congrArg _ (List.append_nil _)

theorem mem_edit_range : i ∈ edit copies (List.range n) ↔ i < n ∧ copies i ≠ 0 := by
  induction n with
  | zero =>
    constructor
    · exact fun h => absurd h List.not_mem_nil
    · exact fun h => absurd h.1 (Nat.not_lt_zero _)
  | succ n ih =>
    simp only [edit_range_succ, List.mem_append, ih, List.mem_replicate, Nat.lt_succ_iff_lt_or_eq]
    constructor
    · rintro (⟨h, hc⟩ | ⟨hc, rfl⟩)
      · exact ⟨.inl h, hc⟩
      · exact ⟨.inr rfl, hc⟩
    · rintro ⟨h | rfl, hc⟩
      · exact .inl ⟨h, hc⟩
      · exact .inr ⟨hc, rfl⟩

/-- The positions keep their order. -/
theorem pairwise_edit_range (copies : ℕ → ℕ) (n : ℕ) :
    (edit copies (List.range n)).Pairwise (· ≤ ·) := by
  induction n with
  | zero => exact .nil
  | succ n ih =>
    simp only [edit_range_succ, List.pairwise_append]
    refine ⟨ih, List.pairwise_replicate.mpr (.inr (Nat.le_refl n)), ?_⟩
    intro a ha b hb
    rw [List.eq_of_mem_replicate hb]
    exact Nat.le_of_lt (mem_edit_range.mp ha).1

/-- As many increasing positions as there are frames are all of them. -/
theorem eq_range (hp : es.Pairwise (· < ·)) (hb : ∀ e ∈ es, e < n) (hl : es.length = n) :
    es = List.range n := by
  have hsub : es ⊆ List.range n := fun e he => List.mem_range.mpr (hb e he)
  have hperm : es.Perm (List.range n) :=
    (List.subperm_of_subset (hp.imp Nat.ne_of_lt) hsub).perm_of_length_le
      (by rw [List.length_range, hl])
  exact hperm.eq_of_sortedLE (hp.imp Nat.le_of_lt).sortedLE
    (List.pairwise_lt_range.imp Nat.le_of_lt).sortedLE

/-! ### Accepted frames -/

theorem consecutiveFrame_cons (rest : List UInt8) (padding : UInt8) (i : ℕ) :
    ∃ data, consecutiveFrame rest padding i = (pciCf ||| .ofNat ((i + 1) % 16)) :: data ∧
      data.length = cfPayload := by
  refine ⟨_, rfl, ?_⟩
  have hl : (consecutiveFrame rest padding i).length = frameDlc :=
    length_padded (Nat.succ_le_succ length_chunk_le)
  exact Nat.succ.inj hl

/-- A frame that passes the check of the sequence number has the position up to sixteen. -/
theorem mod_of_numbered {e : ℕ} {cfs : List (List UInt8)}
    (h : Numbered i (consecutiveFrame rest padding e :: cfs)) : (e + 1) % 16 = (i + 1) % 16 := by
  obtain ⟨⟨pci, data, he, hcf⟩, -⟩ := h
  obtain ⟨_, he', -⟩ := consecutiveFrame_cons rest padding e
  have hn := Nat.mod_lt (e + 1) (by decide : 0 < 16)
  have hm := Nat.mod_lt (i + 1) (by decide : 0 < 16)
  obtain ⟨rfl, -⟩ := List.cons.inj (he'.symm.trans he)
  have hseq := (cf_pci hn).2.symm.trans hcf.seq_eq
  have hnat := congrArg UInt8.toNat hseq
  change (e + 1) % 16 % 256 = (i + 1) % 16 % 256 at hnat
  omega

/-- No frame is accepted twice: the next number is not the number of the last frame. -/
theorem pairwise_of_numbered (hn : Numbered i (es.map (consecutiveFrame rest padding)))
    (hp : es.Pairwise (· ≤ ·)) : es.Pairwise (· < ·) := by
  induction es generalizing i with
  | nil => exact .nil
  | cons e es ih =>
    obtain ⟨hle, hp⟩ := List.pairwise_cons.mp hp
    have hlt := ih hn.2 hp
    refine List.pairwise_cons.mpr ⟨?_, hlt⟩
    rcases es with _ | ⟨e', es⟩
    · exact fun _ h => absurd h List.not_mem_nil
    · have he := mod_of_numbered hn
      have he' := mod_of_numbered hn.2
      have hee' := hle e' List.mem_cons_self
      intro x hx
      rcases List.mem_cons.mp hx with rfl | hx
      · omega
      · have hx' := (List.pairwise_cons.mp hlt).1 x hx
        omega

theorem length_carried (rest : List UInt8) (padding : UInt8) (es : List ℕ) :
    (carried (es.map (consecutiveFrame rest padding))).length = 7 * es.length := by
  induction es with
  | nil => rfl
  | cons e es ih =>
    obtain ⟨data, he, hl⟩ := consecutiveFrame_cons rest padding e
    rw [List.map_cons, carried_cons, he, List.tail_cons, List.length_append, ih,
      List.take_of_length_le (Nat.le_of_eq hl), hl, List.length_cons, cfPayload]
    omega

/-- It takes as many frames as the payload has to complete the message. -/
theorem length_of_completes {total : ℕ} (h6 : ffFirstPayload ≤ total)
    (h : Completes total ffFirstPayload (es.map (consecutiveFrame rest padding))) :
    es.length = (total - ffFirstPayload + 6) / 7 := by
  have hr := h.reaches
  rw [length_carried] at hr
  rcases Nat.eq_zero_or_pos es.length with h0 | hpos
  · rw [h0] at hr ⊢
    omega
  · have hs := h.short (es.length - 1) (by rw [List.length_map]; omega)
    rw [← List.map_take, length_carried, List.length_take, Nat.min_eq_left (Nat.sub_le _ _)] at hs
    omega

/-- Of the frames of a payload, repeated or deleted, only the payload itself is accepted. -/
theorem eq_of_accepts (hl : sfMaxLen < payload.length) (hm : payload.length ≤ maxFfLength)
    (hp : es.Pairwise (· ≤ ·)) (hb : ∀ e ∈ es, e < cfCount (payload.drop ffFirstPayload))
    (h : Accepts .idle
      (firstFrame payload :: es.map (consecutiveFrame (payload.drop ffFirstPayload) padding)) v) :
    es = List.range (cfCount (payload.drop ffFirstPayload)) ∧ v = payload := by
  have hfirst := isFirst_firstFrame hl hm
  have h6 : ffFirstPayload ≤ payload.length := Nat.le_of_lt (Nat.lt_trans (by decide) hl)
  have hes : es = List.range (cfCount (payload.drop ffFirstPayload)) := by
    obtain ⟨pci, rest, hd, hs, -⟩ | ⟨pci, low, first, cfs, hd, -, hn, hc, -⟩ :=
      accepts_idle_iff.mp h
    · obtain ⟨hdata, -⟩ := List.cons.inj hd
      obtain ⟨rfl, -⟩ := List.cons.inj hdata
      exact absurd hs hfirst.not_single
    · obtain ⟨hdata, rfl⟩ := List.cons.inj hd
      obtain ⟨rfl, htail⟩ := List.cons.inj hdata
      obtain ⟨rfl, rfl⟩ := List.cons.inj htail
      rw [ffLength_eq hm, List.length_take_of_le h6] at hc
      apply eq_range (pairwise_of_numbered hn hp) hb
      rw [length_of_completes h6 hc, cfCount, List.length_drop]
  refine ⟨hes, ?_⟩
  have h0 : payload ≠ [] := List.ne_nil_of_length_pos (Nat.zero_lt_of_lt hl)
  have hall : Rx.idle.feedAll (segments payload padding) = .accepted payload :=
    feedAll_segments h0 hm
  have hv := h.2
  unfold segments at hall
  rw [if_neg (Nat.not_le.mpr hl), consecutiveFrames, ← hes, hv] at hall
  exact Rx.accepted.inj hall

/-! ### Runs that end -/

/-- The socket returns the frames and then nothing until the deadline has passed, and it accepts
what is sent. -/
structure Ceases (deadline : ℕ) (arrivals : List Arrival) (delays : List ℕ) (env : Env) :
    Prop where
  recvs : env.recvs = arrivals.map Arrival.answer ++ Rx.silence delays
  accepts : env.Accepts
  late : deadline ≤ env.clock + (arrivals.map Arrival.delay).sum + delays.sum

variable {txId rxId : CanId} {deadline : ℕ} {opts : Options} {env : Env}
  {arrivals : List Arrival} {delays : List ℕ} {rx : Rx}

theorem Ceases.next {a : Arrival} {env' : Env} (h : Ceases deadline (a :: arrivals) delays env)
    (htook : Took env a (arrivals.map Arrival.answer ++ Rx.silence delays) env') :
    Ceases deadline arrivals delays env' := by
  have hl := h.late
  have hc := htook.clock_le
  simp only [List.map_cons, List.sum_cons] at hl
  exact ⟨htook.recvs, htook.accepts, by omega⟩

/-- How a run can end on frames that leave the automaton in a state. -/
inductive Rx.Result : Rx → Outcome IoError (List UInt8) → Prop
  | accepted (v : List UInt8) : Result (.accepted v) (.done v)
  | stopped (x : Halt IoError) : Result (.stopped x) (.halted x)
  | expired (rx : Rx) (message : String) :
    Result rx (.halted (.failed (.new .TimedOut message)))

theorem Rx.result_ended (hw : ¬ rx.Waiting) :
    Result rx (rx.resume txId rxId deadline opts env).outcome := by
  cases rx with
  | idle | collecting => exact absurd trivial hw
  | accepted v => exact .accepted v
  | stopped x => exact .stopped x

/-- The code ends as the automaton on the frames it has used, or it times out. -/
theorem Rx.resume_ceases (txId : CanId) (opts : Options) (rx : Rx)
    (h : Ceases deadline arrivals delays env) (ha : ∀ a ∈ arrivals, a.Fits rxId) :
    ∃ used left, arrivals = used ++ left ∧ rx.Needs (used.map (·.frame.payload)) ∧
      Result (rx.feedAll (used.map (·.frame.payload)))
        (rx.resume txId rxId deadline opts env).outcome := by
  induction arrivals generalizing rx env with
  | nil =>
    refine ⟨[], [], rfl, needs_nil, ?_⟩
    by_cases hw : rx.Waiting
    · obtain ⟨message, env', t, hrun, -⟩ := resume_silence hw h.recvs h.late
      rw [hrun]
      exact .expired rx message
    · exact result_ended hw
  | cons a arrivals ih =>
    obtain ⟨hfit, hfits⟩ := List.forall_mem_cons.mp ha
    by_cases hw : rx.Waiting
    case neg => exact ⟨[], a :: arrivals, rfl, needs_nil, result_ended hw⟩
    rcases Nat.lt_or_ge env.clock deadline with hc | hc
    · obtain ⟨env', t, hrun, htook, -, -⟩ := resume_frame txId opts hw hc h.recvs h.accepts hfit
      obtain ⟨used, left, rfl, hneeds, hresult⟩ :=
        ih (rx.feed a.frame.payload) (h.next htook) hfits
      refine ⟨a :: used, left, rfl, needs_cons.mpr ⟨hw, hneeds⟩, ?_⟩
      rw [hrun, Run.outcome_after]
      exact hresult
    · obtain ⟨message, hrun⟩ := resume_none txId opts hw (recvWithId_expired hc)
      refine ⟨[], a :: arrivals, rfl, needs_nil, ?_⟩
      rw [hrun]
      exact .expired rx message

/-- Invalid data, or a timeout. -/
def Fails (o : Outcome IoError (List UInt8)) : Prop :=
  ∃ kind message, (kind = .InvalidData ∨ kind = .TimedOut) ∧
    o = .halted (.failed (.new kind message))

/-- A response is read from the frames that the receiver accepts, and every other end is a
failure. -/
theorem receiveResponse_ceases (txId : CanId) (opts : Options)
    (h : Ceases deadline arrivals delays env) (ha : ∀ a ∈ arrivals, a.Fits rxId) :
    (∃ used left v, arrivals = used ++ left ∧ Accepts .idle (used.map (·.frame.payload)) v ∧
      (receiveResponse txId rxId deadline opts env).outcome = .done v) ∨
    Fails (receiveResponse txId rxId deadline opts env).outcome := by
  obtain ⟨used, left, he, hneeds, hresult⟩ := Rx.resume_ceases txId opts .idle h ha
  rw [Rx.resume] at hresult
  have hsound := Rx.sound_idle.feedAll (used.map (·.frame.payload))
  generalize hrx : Rx.idle.feedAll (used.map (·.frame.payload)) = rx at hresult hsound
  generalize ho : (receiveResponse txId rxId deadline opts env).outcome = o at hresult
  cases hresult with
  | accepted v => exact .inl ⟨used, left, v, he, ⟨hneeds, hrx⟩, rfl⟩
  | stopped x =>
    obtain ⟨message, rfl⟩ := hsound x rfl
    exact .inr ⟨_, message, .inl rfl, rfl⟩
  | expired rx message => exact .inr ⟨_, message, .inr rfl, rfl⟩

/-! ### The edited frames of a payload -/

theorem edit_consecutiveFrames (rest : List UInt8) (padding : UInt8) :
    edit copies (consecutiveFrames rest padding) =
      (edit copies (List.range (cfCount rest))).map (consecutiveFrame rest padding) :=
  edit_map _ _

/-- The data of the edited frames is read from frames that carry it. -/
theorem payload_of_edit {peer : CanId} {padding : UInt8} (hl : sfMaxLen < payload.length)
    (hdata : arrivals.map (·.frame.data) =
      (classicFrame peer (firstFrame payload) :: edit copies
        ((consecutiveFrames (payload.drop ffFirstPayload) padding).map (classicFrame peer))).map
        Frame.data) :
    arrivals.map (·.frame.payload) =
        firstFrame payload :: edit copies
          (consecutiveFrames (payload.drop ffFirstPayload) padding) ∧
      ∀ a ∈ arrivals, a.frame.len.toNat ≤ maxFdDataLen := by
  apply Arrival.payload_of_data
  rw [hdata, edit_map, ← List.map_cons, List.map_map]
  apply List.map_congr_left
  intro data hd
  have hseg : data ∈ segments payload padding := by
    unfold segments
    rw [if_neg (Nat.not_le.mpr hl)]
    rcases List.mem_cons.mp hd with rfl | hd
    · exact List.mem_cons_self
    · exact List.mem_cons_of_mem _ (mem_of_mem_edit hd)
  exact data_classicFrame (length_of_mem_segments hseg)

/-- What the receiver accepts of the edited frames is the payload, and no frame is missing. -/
theorem eq_of_accepts_edit {datas later : List (List UInt8)} (hl : sfMaxLen < payload.length)
    (hm : payload.length ≤ maxFfLength)
    (he : firstFrame payload ::
      edit copies (consecutiveFrames (payload.drop ffFirstPayload) padding) = datas ++ later)
    (h : Accepts .idle datas v) :
    v = payload ∧ ∀ i < cfCount (payload.drop ffFirstPayload), copies i ≠ 0 := by
  rcases datas with _ | ⟨data, cfs⟩
  · cases accepts_nil.mp h
  obtain ⟨rfl, htail⟩ := List.cons.inj he
  simp only [edit_consecutiveFrames, List.append_eq, List.map_eq_append_iff] at htail
  obtain ⟨es, es', hes, rfl, -⟩ := htail
  have hsub : es ⊆ edit copies (List.range (cfCount (payload.drop ffFirstPayload))) := by
    rw [hes]
    exact List.subset_append_left _ _
  have hp : es.Pairwise (· ≤ ·) := by
    have hall := pairwise_edit_range copies (cfCount (payload.drop ffFirstPayload))
    rw [hes] at hall
    exact (List.pairwise_append.mp hall).1
  obtain ⟨hrange, hv⟩ := eq_of_accepts hl hm hp (fun e he => (mem_edit_range.mp (hsub he)).1) h
  refine ⟨hv, fun i hi => ?_⟩
  have hmem : i ∈ es := hrange ▸ List.mem_range.mpr hi
  exact (mem_edit_range.mp (hsub hmem)).2

/-- Lost and repeated Consecutive Frames never lead to a wrong response, and a lost frame always
leads to an error. -/
theorem receiveResponse_edit {payload : List UInt8} (hl : sfMaxLen < payload.length)
    (hm : payload.length ≤ maxFfLength) (peer : CanId) (stMinMs : UInt8) (peerOpts : Options)
    {sender : Env} (hs : sender.Accepts) :
    ∃ first cfs, sentFrames (transmit peer payload stMinMs peerOpts sender).trace = first :: cfs ∧
    ∀ (copies : ℕ → ℕ) (txId rxId : CanId) (deadline : ℕ) (opts : Options)
      (arrivals : List Arrival) (delays : List ℕ) (env : Env),
      arrivals.map (·.frame.data) = (first :: edit copies cfs).map Frame.data →
      (∀ a ∈ arrivals, a.frame.id = rxId) → Ceases deadline arrivals delays env →
      let received := receiveResponse txId rxId deadline opts env
      (received.outcome = .done payload ∨ Fails received.outcome) ∧
      ((∃ i < cfs.length, copies i = 0) → Fails received.outcome) := by
  obtain ⟨sender', t, hr, ht⟩ := transmit_eq hs hm peer stMinMs peerOpts
  rw [hr]
  dsimp only
  rw [ht]
  unfold segments
  rw [if_neg (Nat.not_le.mpr hl)]
  refine ⟨_, _, rfl, ?_⟩
  intro copies txId rxId deadline opts arrivals delays env hdata hid hc
  obtain ⟨hpayload, hlen⟩ := payload_of_edit hl hdata
  have hfits : ∀ a ∈ arrivals, a.Fits rxId := fun a ha => ⟨hid a ha, hlen a ha⟩
  obtain ⟨used, left, v, he, haccepts, ho⟩ | hfails := receiveResponse_ceases txId opts hc hfits
  · rw [he, List.map_append] at hpayload
    obtain ⟨rfl, hkept⟩ := eq_of_accepts_edit hl hm hpayload.symm haccepts
    refine ⟨.inl ho, ?_⟩
    rintro ⟨i, hi, h0⟩
    simp only [List.length_map, length_consecutiveFrames] at hi
    exact absurd h0 (hkept i hi)
  · exact ⟨.inr hfails, fun _ => hfails⟩

/-- The frames of twenty bytes without the first Consecutive Frame, and the second twice. -/
def gapArrivals : List Arrival :=
  (firstFrame twentyBytes ::
    edit (fun i => 2 * i) (consecutiveFrames (twentyBytes.drop ffFirstPayload) 0xCC)).map
      fun data => ⟨5, classicFrame (.standard 0x7E8) data⟩

def gapEnv : Env := ⟨10, gapArrivals.map Arrival.answer ++ Rx.silence [200], [], []⟩

theorem receiveResponse_edit_twentyBytes :
    Fails (receiveResponse (.standard 0x7E0) (.standard 0x7E8) 100 default gapEnv).outcome := by
  have hl : sfMaxLen < twentyBytes.length := by decide
  have hm : twentyBytes.length ≤ maxFfLength := by decide
  have hs : Env.Accepts ⟨0, [], [], []⟩ := fun _ h => absurd h List.not_mem_nil
  have hc : Ceases 100 gapArrivals [200] gapEnv :=
    ⟨rfl, fun _ h => absurd h List.not_mem_nil, by decide⟩
  obtain ⟨first, cfs, hsent, h⟩ := receiveResponse_edit hl hm (.standard 0x7E8) 0 default hs
  obtain ⟨rfl, rfl⟩ : classicFrame (.standard 0x7E8) (firstFrame twentyBytes) = first ∧
      (consecutiveFrames (twentyBytes.drop ffFirstPayload) 0xCC).map
        (classicFrame (.standard 0x7E8)) = cfs := List.cons.inj hsent
  exact (h (fun i => 2 * i) (.standard 0x7E0) (.standard 0x7E8) 100 default gapArrivals [200] gapEnv
    (by rfl) (by decide) hc).2 ⟨0, by decide, rfl⟩

end Mcanbus.Isotp
