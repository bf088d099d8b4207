import Mcanbus.Isotp.Receiver

/-! # Reassembly undoes segmentation

After the First Frame and any number of Consecutive Frames the receiver holds
the bytes that these frames carry. The frames of a payload therefore give the
payload back, and none of them is left over.
-/

namespace Mcanbus.Isotp

open Rust Effect Effect.Process

variable {payload rest : List UInt8} {padding : UInt8} {i : ℕ}

/-! ### The frames of a payload as the receiver reads them -/

theorem sf_pci {n : ℕ} (h : n < 8) : UInt8.ofNat n &&& pciTypeMask = pciSf ∧
    sfLength (.ofNat n) = n := by
  revert n
  decide

theorem ff_pci {n : ℕ} (h : n < 16) : (pciFf ||| UInt8.ofNat n) &&& pciTypeMask = pciFf ∧
    ((pciFf ||| UInt8.ofNat n) &&& 0x0F).toNat = n := by
  revert n
  decide

theorem cf_pci {n : ℕ} (h : n < 16) : (pciCf ||| UInt8.ofNat n) &&& pciTypeMask = pciCf ∧
    (pciCf ||| UInt8.ofNat n) &&& 0x0F = .ofNat n := by
  revert n
  decide

theorem ffLength_eq {n : ℕ} (h : n ≤ maxFfLength) :
    ffLength (pciFf ||| .ofNat (n / 256)) (.ofNat n) = n := by
  have hm : n ≤ 4095 := h
  rw [ffLength, (ff_pci (by omega)).2, ← Nat.shiftLeft_add_eq_or_of_lt (UInt8.toNat_lt _),
    Nat.shiftLeft_eq]
  change n / 256 * 256 + n % 256 = n
  omega

/-- The receiver after the First Frame and the given number of Consecutive Frames. -/
def collected (payload : List UInt8) (i : ℕ) : Rx :=
  .settle payload.length ⟨.ofNat ((i + 1) % 16), payload.take (ffFirstPayload + 7 * i)⟩

theorem feed_singleFrame (h0 : payload ≠ []) (h : payload.length ≤ sfMaxLen) :
    Rx.idle.feed (singleFrame payload padding) = .accepted payload := by
  obtain ⟨hp, hn⟩ := sf_pci (Nat.lt_succ_of_le h)
  have hs : IsSingle (.ofNat payload.length)
      (payload ++ List.replicate (frameDlc - (payload.length + 1)) padding) := by
    refine ⟨hp, ?_, ?_, ?_⟩ <;> rw [hn]
    · exact List.length_pos_iff.mpr h0
    · exact h
    · rw [List.length_append]
      exact Nat.le_add_right _ _
  rw [singleFrame, padded, List.cons_append, List.length_cons, Rx.feed_single hs, hn,
    List.take_left' rfl]

theorem isFirst_firstFrame (h : sfMaxLen < payload.length) (hm : payload.length ≤ maxFfLength) :
    IsFirst (pciFf ||| .ofNat (payload.length / 256)) (.ofNat payload.length) := by
  have hm' : payload.length ≤ 4095 := hm
  exact ⟨(ff_pci (by omega)).1, by rw [ffLength_eq hm]; exact h⟩

theorem feed_firstFrame (h : sfMaxLen < payload.length) (hm : payload.length ≤ maxFfLength) :
    Rx.idle.feed (firstFrame payload) = collected payload 0 := by
  rw [firstFrame, Rx.feed_first (isFirst_firstFrame h hm), ffLength_eq hm, collected,
    List.take_take]
  congr 3
  simp only [sfMaxLen, ffFirstPayload] at h ⊢
  omega

theorem length_collected (h : ffFirstPayload + 7 * i < payload.length) :
    (payload.take (ffFirstPayload + 7 * i)).length = ffFirstPayload + 7 * i :=
  List.length_take_of_le (Nat.le_of_lt h)

theorem collected_waiting (h : ffFirstPayload + 7 * i < payload.length) :
    (collected payload i).Waiting := by
  unfold collected
  rw [Rx.settle_collecting (by rw [length_collected h]; exact h)]
  trivial

theorem collected_all (h : payload.length ≤ ffFirstPayload + 7 * i) :
    collected payload i = .accepted payload := by
  unfold collected
  rw [List.take_of_length_le h]
  exact Rx.settle_accepted (Nat.le_refl _)

/-- The bytes behind the data of the frame do not matter. -/
theorem feed_chunk (h : ffFirstPayload + 7 * i < payload.length) (tail : List UInt8) :
    (collected payload i).feed ((pciCf ||| .ofNat ((i + 1) % 16)) ::
      (chunk (payload.drop ffFirstPayload) i ++ tail)) = collected payload (i + 1) := by
  have hn := Nat.mod_lt (i + 1) (by decide : 0 < 16)
  obtain ⟨hp, hseq⟩ := cf_pci hn
  have hl := length_collected h
  have hc : (chunk (payload.drop ffFirstPayload) i).length =
      min (payload.length - (ffFirstPayload + 7 * i)) cfPayload := by
    simp only [chunk, List.length_take, List.length_drop]
    omega
  have happ : payload.take (ffFirstPayload + 7 * i) ++ chunk (payload.drop ffFirstPayload) i =
      payload.take (ffFirstPayload + 7 * (i + 1)) := by
    unfold chunk
    rw [List.drop_drop, cfPayload, Nat.mul_succ, ← Nat.add_assoc]
    exact List.take_add.symm
  have hmask : UInt8.ofNat ((i + 1) % 16) + 1 &&& 0x0F = .ofNat ((i + 1 + 1) % 16) := by
    have hm : ((i + 1) % 16 + 1) % 16 = (i + 1 + 1) % 16 := by omega
    rw [← hm, ← seq_mask hn, UInt8.ofNat_add]
    rfl
  rw [collected, Rx.settle_collecting (by rw [hl]; exact h), Rx.feed_consecutive _ hp hseq]
  simp only [hl, hmask]
  rw [List.take_left' hc, happ, collected]

theorem feed_consecutiveFrame (h : ffFirstPayload + 7 * i < payload.length) :
    (collected payload i).feed
      (consecutiveFrame (payload.drop ffFirstPayload) padding i) = collected payload (i + 1) :=
  feed_chunk h _

/-- The receiver after the First Frame and some of the Consecutive Frames. -/
theorem feedAll_consecutiveFrames (hi : i ≤ cfCount (payload.drop ffFirstPayload))
    (hl : ffFirstPayload ≤ payload.length) :
    (collected payload 0).feedAll ((consecutiveFrames (payload.drop ffFirstPayload) padding).take i)
      = collected payload i := by
  induction i with
  | zero => rfl
  | succ i ih =>
    have hlt : i < (consecutiveFrames (payload.drop ffFirstPayload) padding).length := by
      rw [length_consecutiveFrames]
      exact hi
    have hb := lt_cfCount.mp (Nat.lt_of_succ_le hi)
    rw [List.length_drop] at hb
    have hg : (consecutiveFrames (payload.drop ffFirstPayload) padding)[i] =
        consecutiveFrame (payload.drop ffFirstPayload) padding i := by
      simp [consecutiveFrames]
    rw [List.take_succ_eq_append_getElem hlt, Rx.feedAll_append, ih (Nat.le_of_succ_le hi), hg,
      Rx.feedAll_cons, Rx.feedAll_nil, feed_consecutiveFrame (by omega)]

/-- The frames of a payload leave the receiver with the payload. -/
theorem feedAll_segments (h0 : payload ≠ []) (hm : payload.length ≤ maxFfLength) :
    Rx.idle.feedAll (segments payload padding) = .accepted payload := by
  unfold segments
  split
  case isTrue h => rw [Rx.feedAll_cons, Rx.feedAll_nil, feed_singleFrame h0 h]
  case isFalse h =>
    have hl : ffFirstPayload ≤ payload.length := by
      simp only [sfMaxLen, ffFirstPayload] at h ⊢
      omega
    have hall : (collected payload 0).feedAll (consecutiveFrames (payload.drop ffFirstPayload)
        padding) = collected payload (cfCount (payload.drop ffFirstPayload)) := by
      rw [← feedAll_consecutiveFrames (Nat.le_refl _) hl, ← length_consecutiveFrames,
        List.take_length]
    rw [Rx.feedAll_cons, feed_firstFrame (Nat.lt_of_not_le h) hm, hall, collected_all]
    unfold cfCount
    rw [List.length_drop]
    omega

/-- Before the last of the frames the receiver waits for another. -/
theorem feedAll_take_segments (hm : payload.length ≤ maxFfLength)
    (hi : i < (segments payload padding).length) :
    (Rx.idle.feedAll ((segments payload padding).take i)).Waiting := by
  rw [segments] at hi ⊢
  split at hi
  case isTrue h =>
    obtain rfl : i = 0 := Nat.lt_one_iff.mp hi
    trivial
  case isFalse h =>
    rcases i with _ | i
    · trivial
    · have hl : ffFirstPayload ≤ payload.length := by
        simp only [sfMaxLen, ffFirstPayload] at h ⊢
        omega
      rw [List.length_cons, length_consecutiveFrames] at hi
      have hlt := Nat.lt_of_succ_lt_succ hi
      have hb := lt_cfCount.mp hlt
      rw [List.length_drop] at hb
      rw [if_neg h, List.take_succ_cons, Rx.feedAll_cons, feed_firstFrame (Nat.lt_of_not_le h) hm,
        feedAll_consecutiveFrames (Nat.le_of_lt hlt) hl]
      exact collected_waiting (by omega)

/-! ### The send path and the receiver -/

/-- The send path without flow control. -/
def transmit (txId : CanId) (payload : List UInt8) (stMinMs : UInt8) (opts : Options) :
    IsotpM Unit := do
  if payload.length ≤ sfMaxLen then
    sendSf txId payload opts
  else
    sendFf txId payload opts
    let rest ← slice payload ffFirstPayload payload.length
    sendConsecutiveFrames txId rest 0 stMinMs opts

theorem transmit_eq {env : Env} (he : env.Accepts) (hm : payload.length ≤ maxFfLength)
    (txId : CanId) (stMinMs : UInt8) (opts : Options) :
    ∃ env' t, transmit txId payload stMinMs opts env = ⟨.done (), env', t⟩ ∧
      sentFrames t = (segments payload opts.padding).map (classicFrame txId) := by
  unfold transmit segments
  split
  case isTrue h =>
    obtain ⟨env', time, hs, -⟩ := send_accepts he
      (classicFrame txId (singleFrame payload opts.padding))
    exact ⟨env', _, by rw [sendSf_eq h, hs], rfl⟩
  case isFalse h =>
    have h' := Nat.lt_of_not_le h
    have hl : ffFirstPayload ≤ payload.length := Nat.le_of_lt (Nat.lt_trans (by decide) h')
    obtain ⟨env₁, time, hs, he₁⟩ := send_accepts he (classicFrame txId (firstFrame payload))
    obtain ⟨env₂, t, hr, -, ht⟩ := sendConsecutiveFrames_eq txId (payload.drop ffFirstPayload) 0
      stMinMs opts he₁
    refine ⟨env₂, .sent time (classicFrame txId (firstFrame payload)) :: t, ?_, ?_⟩
    · rw [sendFf_eq h' hm, bind_done hs, slice_to_end hl, liftM_eq, ofChecked_ok,
        Process.pure_bind, hr]
      rfl
    · rw [sentFrames_sent, ht, blockLimit, if_pos rfl, ← length_consecutiveFrames, List.take_length]
      rfl

/-- Reassembly of a response undoes the segmentation of the send path. -/
theorem receiveResponse_transmit {payload : List UInt8} (h0 : payload ≠ [])
    (hm : payload.length ≤ maxFfLength) (peer : CanId) (stMinMs : UInt8) (peerOpts : Options)
    {sender : Env} (hs : sender.Accepts) :
    let sent := transmit peer payload stMinMs peerOpts sender
    sent.outcome = .done () ∧
    (∀ frame ∈ sentFrames sent.trace, frame.kind = .Classic ∧ frame.len.toNat = frameDlc) ∧
    ∀ (txId rxId : CanId) (deadline : ℕ) (opts : Options) (arrivals : List Arrival)
      (later : List RecvAnswer) (env : Env),
      arrivals.map (·.frame.data) = (sentFrames sent.trace).map Frame.data →
      (∀ a ∈ arrivals, a.frame.id = rxId) → Delivers deadline arrivals later env →
      let received := receiveResponse txId rxId deadline opts env
      received.outcome = .done payload ∧
      receivedFrames received.trace = arrivals.map Arrival.frame ∧
      received.state.recvs = later := by
  obtain ⟨sender', t, hr, ht⟩ := transmit_eq hs hm peer stMinMs peerOpts
  rw [hr]
  dsimp only
  rw [ht]
  refine ⟨rfl, ?_, ?_⟩
  · intro frame hf
    obtain ⟨data, hd, rfl⟩ := List.mem_map.mp hf
    have hl := length_of_mem_segments hd
    exact ⟨rfl, (Frame.len_ofPayload (by rw [hl]; decide)).trans hl⟩
  · intro txId rxId deadline opts arrivals later env hdata hid hd
    have hok : (segments payload peerOpts.padding).map (fun data => (classicFrame peer data).data) =
        (segments payload peerOpts.padding).map .ok :=
      List.map_congr_left fun data hm => data_classicFrame (length_of_mem_segments hm)
    rw [List.map_map] at hdata
    obtain ⟨hp, hlen⟩ := Arrival.payload_of_data (hdata.trans hok)
    have hneeds : Rx.idle.Needs (arrivals.map (·.frame.payload)) := by
      rw [hp]
      exact fun i hi => feedAll_take_segments hm hi
    obtain ⟨env', u, hrun, hd', hrec, -⟩ :=
      Rx.resume_needs txId opts hd (fun a ha => ⟨hid a ha, hlen a ha⟩) hneeds
    rw [hp, feedAll_segments h0 hm] at hrun
    rw [Rx.resume] at hrun
    simp only [hrun]
    refine ⟨rfl, ?_, hd'.recvs⟩
    rw [Run.trace_after, receivedFrames_append, hrec]
    exact List.append_nil _

/-- A response of twenty bytes, whose last frame is padded. -/
def twentyBytes : List UInt8 := (List.range 20).map .ofNat

def twentyArrivals : List Arrival :=
  (segments twentyBytes 0xAA).map fun data => ⟨5, classicFrame (.standard 0x7E8) data⟩

def twentyEnv : Env := ⟨10, twentyArrivals.map Arrival.answer, [], []⟩

theorem receiveResponse_transmit_twentyBytes :
    (receiveResponse (.standard 0x7E0) (.standard 0x7E8) 100 default twentyEnv).outcome =
      .done twentyBytes := by
  have h0 : twentyBytes ≠ [] := by decide
  have hm : twentyBytes.length ≤ maxFfLength := by decide
  have hs : Env.Accepts ⟨0, [], [], []⟩ := fun _ h => absurd h List.not_mem_nil
  have hd : Delivers 100 twentyArrivals [] twentyEnv :=
    ⟨rfl, fun _ h => absurd h List.not_mem_nil, by decide⟩
  have h := (receiveResponse_transmit h0 hm (.standard 0x7E0) 0 ⟨0xAA, 0, 0, 0, 0⟩ hs).2.2
  exact (h (.standard 0x7E0) (.standard 0x7E8) 100 default twentyArrivals [] twentyEnv (by rfl)
    (by decide) hd).1

end Mcanbus.Isotp
