import Mcanbus.Isotp.Basic

/-! # Segmentation of a payload

The frames of a payload, each given by its position: a Single Frame, or a First
Frame and Consecutive Frames of seven bytes. The encoders and the loop that
sends produce exactly these frames in order.
-/

namespace Mcanbus.Isotp

open Rust Effect Effect.Process

variable {payload rest : List UInt8} {padding : UInt8} {txId : CanId} {opts : Options} {i : ℕ}

/-! ### The frames of a payload -/

/-- Fill data up to the length of a classic frame. -/
def padded (padding : UInt8) (data : List UInt8) : List UInt8 :=
  data ++ List.replicate (frameDlc - data.length) padding

def singleFrame (payload : List UInt8) (padding : UInt8) : List UInt8 :=
  padded padding (.ofNat payload.length :: payload)

def firstFrame (payload : List UInt8) : List UInt8 :=
  (pciFf ||| .ofNat (payload.length / 256)) :: .ofNat payload.length ::
    payload.take ffFirstPayload

/-- The bytes that the Consecutive Frame at the given position carries. -/
def chunk (rest : List UInt8) (i : ℕ) : List UInt8 := (rest.drop (7 * i)).take cfPayload

def consecutiveFrame (rest : List UInt8) (padding : UInt8) (i : ℕ) : List UInt8 :=
  padded padding ((pciCf ||| .ofNat ((i + 1) % 16)) :: chunk rest i)

/-- The number of Consecutive Frames for the bytes after the First Frame. -/
def cfCount (rest : List UInt8) : ℕ := (rest.length + 6) / 7

def consecutiveFrames (rest : List UInt8) (padding : UInt8) : List (List UInt8) :=
  (List.range (cfCount rest)).map (consecutiveFrame rest padding)

/-- The data of the frames that carry the payload. -/
def segments (payload : List UInt8) (padding : UInt8) : List (List UInt8) :=
  if payload.length ≤ sfMaxLen then [singleFrame payload padding]
  else firstFrame payload :: consecutiveFrames (payload.drop ffFirstPayload) padding

/-- A classic frame as it is handed to the socket. -/
abbrev classicFrame (txId : CanId) (data : List UInt8) : Frame := Frame.ofPayload .Classic txId data

theorem data_classicFrame {data : List UInt8} (h : data.length = frameDlc) :
    (classicFrame txId data).data = .ok data := by
  have hl : data.length ≤ maxFdDataLen := by
    rw [h]
    decide
  rw [Frame.data_eq (by rw [Frame.len_ofPayload hl]; exact hl), Frame.payload_ofPayload hl]

theorem length_padded {data : List UInt8} (h : data.length ≤ frameDlc) :
    (padded padding data).length = frameDlc := by
  simp only [padded, List.length_append, List.length_replicate]
  omega

theorem length_chunk_le : (chunk rest i).length ≤ cfPayload :=
  List.length_take_le _ _

theorem lt_cfCount : i < cfCount rest ↔ 7 * i < rest.length := by
  unfold cfCount
  omega

theorem length_consecutiveFrames : (consecutiveFrames rest padding).length = cfCount rest := by
  simp [consecutiveFrames]

theorem length_of_mem_segments {data : List UInt8} (hd : data ∈ segments payload padding) :
    data.length = frameDlc := by
  rw [segments] at hd
  split at hd
  case isTrue h =>
    obtain rfl := List.mem_singleton.mp hd
    exact length_padded (Nat.succ_le_succ h)
  case isFalse h =>
    rcases List.mem_cons.mp hd with rfl | hd
    · simp only [sfMaxLen] at h
      simp only [firstFrame, List.length_cons, List.length_take, ffFirstPayload, frameDlc]
      omega
    · obtain ⟨i, -, rfl⟩ := List.mem_map.mp hd
      exact length_padded (Nat.succ_le_succ length_chunk_le)

/-! ### The encoders -/

theorem toList_set_zero (padding x : UInt8) :
    ((Vector.replicate frameDlc padding).set 0 x (by decide)).toList =
      [x] ++ List.replicate 7 padding := rfl

theorem toList_set_one (padding x y : UInt8) :
    (((Vector.replicate frameDlc padding).set 0 x (by decide)).set 1 y (by decide)).toList =
      [x, y] ++ List.replicate 6 padding := rfl

/-- Copying data behind a header into a padded buffer. -/
theorem copyFromSlice_header {buf : Vector UInt8 frameDlc} {header data : List UInt8} {k : ℕ}
    (hb : buf.toList = header ++ List.replicate k padding) (hd : data.length ≤ k) :
    ∃ out, copyFromSlice buf header.length (header.length + data.length) data = .ok out ∧
      out.toList = padded padding (header ++ data) := by
  have hl : header.length + k = frameDlc := by simpa using (congrArg List.length hb).symm
  refine ⟨_, copyFromSlice_eq (by omega) (by omega) (by omega), ?_⟩
  rw [toList_overwrite _ _ _ (by omega), hb, List.take_left' rfl, List.drop_length_add_append,
    List.drop_replicate, padded, List.length_append, List.append_assoc]
  congr 3
  omega

theorem encodeSfFrame_eq (padding : UInt8) (h : payload.length ≤ sfMaxLen) :
    ∃ buf, encodeSfFrame payload padding = .ok buf ∧ buf.toList = singleFrame payload padding := by
  unfold encodeSfFrame
  rw [debugAssert_eq h, ok_bind]
  have hs : pciSf ||| .ofNat payload.length = .ofNat payload.length := by simp [pciSf]
  rw [hs]
  exact copyFromSlice_header (toList_set_zero _ _) h

theorem high_nibble {n : ℕ} (h : n ≤ maxFfLength) :
    (UInt16.ofNat n >>> 8).toUInt8 &&& 0x0F = .ofNat (n / 256) := by
  have hm : n ≤ 4095 := h
  have hn : (UInt16.ofNat n).toNat = n := Nat.mod_eq_of_lt (by omega)
  apply UInt8.toNat_inj.mp
  rw [UInt8.toNat_and, UInt16.toNat_toUInt8, UInt16.toNat_shiftRight, hn]
  change n >>> 8 % 2 ^ 8 &&& (2 ^ 4 - 1) = n / 256 % 256
  rw [Nat.and_two_pow_sub_one_eq_mod, Nat.shiftRight_eq_div_pow]
  omega

theorem encodeFfFrame_eq (padding : UInt8) (h : sfMaxLen < payload.length)
    (hm : payload.length ≤ maxFfLength) :
    ∃ buf, encodeFfFrame (.ofNat payload.length) (payload.take ffFirstPayload) padding = .ok buf ∧
      buf.toList = firstFrame payload := by
  have hm' : payload.length ≤ 4095 := hm
  have hn : (UInt16.ofNat payload.length).toNat = payload.length := Nat.mod_eq_of_lt (by omega)
  have hf : (payload.take ffFirstPayload).length = ffFirstPayload :=
    List.length_take_of_le (Nat.le_of_lt (Nat.lt_trans (by decide) h))
  have hy : (UInt16.ofNat payload.length).toUInt8 = UInt8.ofNat payload.length := by simp
  have hp : padded padding (firstFrame payload) = firstFrame payload := by
    unfold padded firstFrame
    rw [List.length_cons, List.length_cons, hf]
    exact List.append_nil _
  unfold encodeFfFrame
  rw [debugAssert_eq hf, ok_bind, debugAssert_eq (by rw [hn]; exact hm), ok_bind]
  dsimp only
  rw [high_nibble hm, hy]
  have h6 : (payload.take ffFirstPayload).length ≤ 6 := List.length_take_le _ _
  obtain ⟨out, ho, hl⟩ := copyFromSlice_header
    (toList_set_one padding (pciFf ||| .ofNat (payload.length / 256)) (.ofNat payload.length)) h6
  rw [hf] at ho
  exact ⟨out, ho, hl.trans hp⟩

theorem encodeCfFrame_eq {data : List UInt8} (padding : UInt8) (h : data.length ≤ cfPayload)
    {n : ℕ} (hn : n < 16) :
    ∃ buf, encodeCfFrame (.ofNat n) data padding = .ok buf ∧
      buf.toList = padded padding ((pciCf ||| .ofNat n) :: data) := by
  have hs : UInt8.ofNat n &&& 0x0F = UInt8.ofNat n := by
    revert n
    decide
  unfold encodeCfFrame
  rw [debugAssert_eq h, ok_bind, hs]
  exact copyFromSlice_header (toList_set_zero _ _) h

theorem sendClassic_eq (txId : CanId) (buf : Vector UInt8 frameDlc) :
    sendClassic txId buf = send (classicFrame txId buf.toList) := by
  unfold sendClassic
  rw [Frame.newClassic_eq (by rw [Vector.length_toList]; decide)]
  rfl

/-- The bytes that clear a sender, with a block size and a separation time of at most 127. -/
def clearToSend (opts : Options) : List UInt8 :=
  padded opts.padding [0x30, opts.blockSize, min opts.stMinMs 0x7F]

theorem length_clearToSend : (clearToSend opts).length = frameDlc := rfl

theorem encodeFcFrame_eq :
    (encodeFcFrame fcCts opts.blockSize opts.stMinMs opts.padding).toList = clearToSend opts := rfl

/-- The Flow Control frame that answers a First Frame. -/
def flowControl (txId : CanId) (opts : Options) : Frame := classicFrame txId (clearToSend opts)

theorem sendFc_eq : sendFc txId opts = send (flowControl txId opts) := by
  rw [sendFc, sendClassic_eq, encodeFcFrame_eq]
  rfl

@[simp] theorem payload_flowControl : (flowControl txId opts).payload = clearToSend opts :=
  Frame.payload_ofPayload (by rw [length_clearToSend]; decide)

/-! ### The send path -/

theorem sendSf_eq (h : payload.length ≤ sfMaxLen) :
    sendSf txId payload opts = send (classicFrame txId (singleFrame payload opts.padding)) := by
  obtain ⟨buf, hb, hl⟩ := encodeSfFrame_eq opts.padding h
  unfold sendSf
  rw [hb, liftM_eq, ofChecked_ok, Process.pure_bind, sendClassic_eq, hl]

theorem sendFf_eq (h : sfMaxLen < payload.length) (hm : payload.length ≤ maxFfLength) :
    sendFf txId payload opts = send (classicFrame txId (firstFrame payload)) := by
  obtain ⟨buf, hb, hl⟩ := encodeFfFrame_eq opts.padding h hm
  have hs : slice payload 0 ffFirstPayload = .ok (payload.take ffFirstPayload) :=
    slice_zero (Nat.le_of_lt (Nat.lt_trans (by decide) h))
  rw [sendFf, hs, liftM_eq, ofChecked_ok, Process.pure_bind, hb, liftM_eq, ofChecked_ok,
    Process.pure_bind, sendClassic_eq, hl]

/-- The error that ends the send path after a block. -/
def blockSizeError : IoError :=
  .new .Unsupported "ECU's BlockSize > 0 not yet supported on the send path"

/-- The variables of the sending loop after the given number of frames. -/
def SendState.sent (rest : List UInt8) (i : ℕ) : SendState where
  seq := .ofNat ((i + 1) % 16)
  blockCount := .ofNat (min i 255)
  offset := min (7 * i) rest.length

theorem SendState.sent_zero (rest : List UInt8) : SendState.sent rest 0 = ⟨1, 0, 0⟩ := by
  unfold SendState.sent
  rw [Nat.mul_zero, Nat.zero_min]
  rfl

theorem saturatingAddU8_one (i : ℕ) :
    saturatingAddU8 (.ofNat (min i 255)) 1 = .ofNat (min (i + 1) 255) := by
  have hi : (UInt8.ofNat (min i 255)).toNat = min i 255 := Nat.mod_eq_of_lt (by omega)
  unfold saturatingAddU8
  rw [hi]
  congr 1
  change min (min i 255 + 1) 255 = _
  omega

theorem addU8_seq {n : ℕ} (h : n < 16) : addU8 (.ofNat n) 1 = .ok (.ofNat (n + 1)) := by
  revert n
  decide

theorem seq_mask {n : ℕ} (h : n < 16) : UInt8.ofNat (n + 1) &&& 0x0F = .ofNat ((n + 1) % 16) := by
  revert n
  decide

variable {bs stMinMs : UInt8}

theorem sendStep_exit (h : cfCount rest ≤ i) :
    sendStep txId rest bs stMinMs opts (.sent rest i) = pure (.inr ()) := by
  have hi : ¬ min (7 * i) rest.length < rest.length := by
    rw [← Nat.not_lt, lt_cfCount] at h
    omega
  exact if_neg hi

/-- One iteration sends the frame at the position of the loop. -/
theorem sendStep_eq (h : i < cfCount rest) :
    sendStep txId rest bs stMinMs opts (.sent rest i) = (do
      send (classicFrame txId (consecutiveFrame rest opts.padding i))
      if bs ≠ 0 ∧ .ofNat (min (i + 1) 255) = bs ∧ i + 1 < cfCount rest then
        raise blockSizeError
      else if stMinMs > 0 ∧ i + 1 < cfCount rest then
        sleep (stMinMs.toNat * 1000000)
        return .inl (.sent rest (i + 1))
      else
        return .inl (.sent rest (i + 1))) := by
  rw [lt_cfCount] at h
  have ho : min (7 * i) rest.length = 7 * i := by omega
  have hstop : min (7 * i + cfPayload) rest.length = min (7 * (i + 1)) rest.length := by
    unfold cfPayload
    rw [Nat.mul_succ]
  have hlt : min (7 * (i + 1)) rest.length < rest.length ↔ i + 1 < cfCount rest := by
    rw [lt_cfCount]
    omega
  have hs : slice rest (7 * i) (min (7 * (i + 1)) rest.length) = .ok (chunk rest i) := by
    rw [slice_eq (by omega) (by omega), chunk, cfPayload]
    congr 1
    apply List.take_eq_take_iff.mpr
    rw [List.length_drop]
    omega
  have hc : (chunk rest i).length ≤ cfPayload := length_chunk_le
  have hn := Nat.mod_lt (i + 1) (by decide : 0 < 16)
  obtain ⟨buf, hb, hl⟩ := encodeCfFrame_eq opts.padding hc hn
  have hseq : ((i + 1) % 16 + 1) % 16 = (i + 1 + 1) % 16 := by omega
  unfold sendStep SendState.sent
  simp only [ho, hstop, hs, hb, liftM_eq, ofChecked_ok, Process.pure_bind, sendClassic_eq, hl, hlt,
    addU8_seq hn, seq_mask hn, hseq, saturatingAddU8_one, if_pos h]
  rfl

/-- Every iteration that continues moves the offset towards the end. -/
theorem sendStep_descends : Descends (fun s _ => rest.length - s.offset)
    (sendStep txId rest bs stMinMs opts) := by
  intro b s b' s' t hb
  rw [sendStep] at hb
  split at hb
  case isTrue h =>
    have hstop : b.offset < min (b.offset + cfPayload) rest.length := by
      simp only [cfPayload]
      omega
    obtain ⟨_, _, _, _, _, hb, _⟩ := bind_eq_done hb
    obtain ⟨_, _, _, _, _, hb, _⟩ := bind_eq_done hb
    obtain ⟨_, _, _, _, _, hb, _⟩ := bind_eq_done hb
    obtain ⟨_, _, _, _, _, hb, _⟩ := bind_eq_done hb
    dsimp only at hb
    split at hb
    · cases hb
    · split at hb
      · obtain ⟨_, _, _, _, _, hb, _⟩ := bind_eq_done hb
        cases hb
        exact Nat.sub_lt_sub_left h hstop
      · cases hb
        exact Nat.sub_lt_sub_left h hstop
  case isFalse => cases hb

/-! ### A run of the send path -/

/-- The socket accepts everything that is sent. -/
def Env.Accepts (env : Env) : Prop := ∀ answer ∈ env.sends, answer.error = none

theorem send_accepts {env : Env} (h : env.Accepts) (frame : Frame) :
    ∃ env' time, send frame env = ⟨.done (), env', [.sent time frame]⟩ ∧ env'.Accepts := by
  unfold send
  rcases hs : env.sends with _ | ⟨⟨delay, error⟩, sends⟩
  · exact ⟨env, env.clock, rfl, h⟩
  · rw [Env.Accepts, hs] at h
    obtain ⟨he, ht⟩ := List.forall_mem_cons.mp h
    obtain rfl : error = none := he
    exact ⟨_, _, rfl, ht⟩

theorem sleep_accepts {env : Env} (h : env.Accepts) (duration : ℕ) :
    ∃ env', sleep duration env = ⟨.done (), env', []⟩ ∧ env'.Accepts :=
  ⟨_, rfl, h⟩

theorem blockCount_eq_iff (h : bs ≠ 0 → i < bs.toNat) :
    (bs ≠ 0 ∧ UInt8.ofNat (min (i + 1) 255) = bs ∧ i + 1 < cfCount rest) ↔
      bs ≠ 0 ∧ bs.toNat = i + 1 ∧ i + 1 < cfCount rest := by
  have hbs := bs.toNat_lt
  refine and_congr_right fun h0 => and_congr_left fun _ => ?_
  have hi := h h0
  rw [← UInt8.toNat_inj]
  change min (i + 1) 255 % 256 = _ ↔ _
  omega

variable {env : Env}

theorem sendStep_continues (he : env.Accepts) (hi : i < cfCount rest) (hb : bs ≠ 0 → i < bs.toNat)
    (hgo : ¬ (bs ≠ 0 ∧ bs.toNat = i + 1 ∧ i + 1 < cfCount rest)) :
    ∃ env' time, sendStep txId rest bs stMinMs opts (.sent rest i) env =
      ⟨.done (.inl (.sent rest (i + 1))), env',
        [.sent time (classicFrame txId (consecutiveFrame rest opts.padding i))]⟩ ∧
      env'.Accepts := by
  obtain ⟨env', time, hs, he'⟩ := send_accepts he
    (classicFrame txId (consecutiveFrame rest opts.padding i))
  rw [sendStep_eq hi, bind_done hs]
  simp only [blockCount_eq_iff hb, if_neg hgo]
  split
  · obtain ⟨env'', hz, he''⟩ := sleep_accepts he' (stMinMs.toNat * 1000000)
    exact ⟨env'', time, by rw [bind_done hz]; rfl, he''⟩
  · exact ⟨env', time, rfl, he'⟩

theorem sendStep_blocks (he : env.Accepts) (h0 : bs ≠ 0) (hbs : bs.toNat = i + 1)
    (hi : i + 1 < cfCount rest) :
    ∃ env' time, sendStep txId rest bs stMinMs opts (.sent rest i) env =
      ⟨.halted (.failed blockSizeError), env',
        [.sent time (classicFrame txId (consecutiveFrame rest opts.padding i)),
          .raised blockSizeError]⟩ ∧
      env'.Accepts := by
  obtain ⟨env', time, hs, he'⟩ := send_accepts he
    (classicFrame txId (consecutiveFrame rest opts.padding i))
  have hb : bs ≠ 0 → i < bs.toNat := fun _ => by omega
  rw [sendStep_eq (Nat.lt_of_succ_lt hi), bind_done hs]
  simp only [blockCount_eq_iff hb, if_pos (And.intro h0 (And.intro hbs hi))]
  exact ⟨env', time, rfl, he'⟩

/-- The number of Consecutive Frames sent before the end or the end of the first block. -/
def blockLimit (bs : UInt8) (rest : List UInt8) : ℕ :=
  if bs = 0 then cfCount rest else min (cfCount rest) bs.toNat

/-- How the loop that sends Consecutive Frames ends when the socket accepts them. -/
def sendOutcome (bs : UInt8) (rest : List UInt8) : Outcome IoError Unit :=
  if bs ≠ 0 ∧ bs.toNat < cfCount rest then .halted (.failed blockSizeError) else .done ()

theorem blockLimit_le : blockLimit bs rest ≤ cfCount rest := by
  unfold blockLimit
  split
  · exact Nat.le_refl _
  · exact Nat.min_le_left _ _

theorem lt_blockLimit (hi : i < cfCount rest) (hb : bs ≠ 0 → i < bs.toNat) :
    i < blockLimit bs rest := by
  unfold blockLimit
  split
  case isTrue => exact hi
  case isFalse h0 => exact Nat.lt_min.mpr ⟨hi, hb h0⟩

/-- The frames to be sent from an iteration on. -/
theorem range'_blockLimit (hi : i < cfCount rest) (hb : bs ≠ 0 → i < bs.toNat) :
    List.range' i (blockLimit bs rest - i) =
      i :: List.range' (i + 1) (blockLimit bs rest - (i + 1)) := by
  have hlim := lt_blockLimit hi hb
  rw [← List.range'_succ]
  congr 1
  omega

/-- The loop that sends Consecutive Frames, from any of its iterations on. -/
theorem sendLoop_eq (he : env.Accepts) (hi : i ≤ cfCount rest)
    (hb : bs ≠ 0 → i < bs.toNat ∨ cfCount rest ≤ bs.toNat) :
    ∃ env' t, loop (fun s _ => rest.length - s.offset) (sendStep txId rest bs stMinMs opts)
        (.sent rest i) env = ⟨sendOutcome bs rest, env', t⟩ ∧ env'.Accepts ∧
      sentFrames t = (List.range' i (blockLimit bs rest - i)).map fun j =>
        classicFrame txId (consecutiveFrame rest opts.padding j) := by
  have hl : blockLimit bs rest ≤ cfCount rest := blockLimit_le
  induction h : cfCount rest - i generalizing i env with
  | zero =>
    have ho : sendOutcome bs rest = .done () := by
      apply if_neg
      rintro ⟨h0, hlt⟩
      have := hb h0
      omega
    refine ⟨env, [], ?_, he, ?_⟩
    · rw [loop_eq sendStep_descends, sendStep_exit (by omega), ho]
      rfl
    · rw [Nat.sub_eq_zero_of_le (by omega)]
      rfl
  | succ k ih =>
    have hlt : i < cfCount rest := by omega
    have hbi : bs ≠ 0 → i < bs.toNat := by
      intro h0
      have := hb h0
      omega
    rw [range'_blockLimit hlt hbi, List.map_cons]
    by_cases hstop : bs ≠ 0 ∧ bs.toNat = i + 1 ∧ i + 1 < cfCount rest
    · obtain ⟨h0, hbs, hn⟩ := hstop
      obtain ⟨env', time, hs, he'⟩ := sendStep_blocks he h0 hbs hn
      have ho : sendOutcome bs rest = .halted (.failed blockSizeError) := if_pos ⟨h0, by omega⟩
      have hlim : blockLimit bs rest - (i + 1) = 0 := by
        unfold blockLimit
        rw [if_neg h0]
        omega
      refine ⟨env', _, by rw [loop_halted sendStep_descends hs, ho], he', ?_⟩
      rw [hlim]
      rfl
    · obtain ⟨env', time, hs, he'⟩ := sendStep_continues he hlt hbi hstop
      have hb' : bs ≠ 0 → i + 1 < bs.toNat ∨ cfCount rest ≤ bs.toNat := by
        intro h0
        have hne : ¬ (bs.toNat = i + 1 ∧ i + 1 < cfCount rest) := fun hc => hstop ⟨h0, hc⟩
        have := hbi h0
        omega
      obtain ⟨env'', t, hr, ha, ht⟩ := ih he' (by omega) hb' (by omega)
      refine ⟨env'', _, by rw [loop_continue sendStep_descends hs, hr]; rfl, ha, ?_⟩
      rw [← ht]
      rfl

/-- The send path of Consecutive Frames over a socket that accepts them. -/
theorem sendConsecutiveFrames_eq (txId : CanId) (rest : List UInt8) (bs stMinMs : UInt8)
    (opts : Options) (he : env.Accepts) :
    ∃ env' t, sendConsecutiveFrames txId rest bs stMinMs opts env =
        ⟨sendOutcome bs rest, env', t⟩ ∧ env'.Accepts ∧
      sentFrames t = ((consecutiveFrames rest opts.padding).take (blockLimit bs rest)).map
        (classicFrame txId) := by
  have hb : bs ≠ 0 → 0 < bs.toNat ∨ cfCount rest ≤ bs.toNat := fun h =>
    .inl (UInt8.pos_iff_ne_zero.mpr h)
  obtain ⟨env', t, hr, ha, ht⟩ := sendLoop_eq he (Nat.zero_le _) hb
  refine ⟨env', t, by rw [sendConsecutiveFrames, ← SendState.sent_zero rest, hr], ha, ?_⟩
  rw [ht, consecutiveFrames, ← List.map_take, List.map_map, List.take_range,
    Nat.min_eq_left blockLimit_le, List.range_eq_range', Nat.sub_zero]
  rfl

theorem length_take_blockLimit (h : bs ≠ 0) :
    ((consecutiveFrames rest padding).take (blockLimit bs rest)).length ≤ bs.toNat := by
  unfold blockLimit
  rw [if_neg h, List.length_take]
  exact Nat.le_trans (Nat.min_le_left _ _) (Nat.min_le_right _ _)

theorem unsupported_sendOutcome : (∃ message, sendOutcome bs rest =
    .halted (.failed (.new .Unsupported message))) ↔ bs ≠ 0 ∧ bs.toNat < cfCount rest := by
  unfold sendOutcome
  constructor
  · rintro ⟨message, h⟩
    by_contra hb
    rw [if_neg hb] at h
    cases h
  · intro hb
    rw [if_pos hb]
    exact ⟨_, rfl⟩

theorem done_sendOutcome :
    sendOutcome bs rest = .done () ↔ ¬ (bs ≠ 0 ∧ bs.toNat < cfCount rest) := by
  unfold sendOutcome
  constructor
  · intro h hb
    rw [if_pos hb] at h
    cases h
  · exact fun hb => if_neg hb

/-- The Consecutive Frames of the first block are sent in order and no others, and the send path
fails exactly when the block leaves some of them. -/
theorem sendConsecutiveFrames_oneBlock (txId : CanId) (rest : List UInt8) (bs stMinMs : UInt8)
    (opts : Options) (env : Env) (he : env.Accepts) :
    ∃ outcome env' t, sendConsecutiveFrames txId rest bs stMinMs opts env = ⟨outcome, env', t⟩ ∧
      sentFrames t = ((consecutiveFrames rest opts.padding).take
        (if bs = 0 then cfCount rest else min (cfCount rest) bs.toNat)).map (classicFrame txId) ∧
      (bs ≠ 0 → (sentFrames t).length ≤ bs.toNat) ∧
      ((∃ message, outcome = .halted (.failed (.new .Unsupported message))) ↔
        0 < bs.toNat ∧ bs.toNat < cfCount rest) ∧
      (outcome = .done () ↔ ¬ (0 < bs.toNat ∧ bs.toNat < cfCount rest)) := by
  obtain ⟨env', t, hr, -, ht⟩ := sendConsecutiveFrames_eq txId rest bs stMinMs opts he
  have hpos : 0 < bs.toNat ↔ bs ≠ 0 := UInt8.pos_iff_ne_zero
  refine ⟨sendOutcome bs rest, env', t, hr, ht, ?_, ?_, ?_⟩
  · intro h
    rw [ht, List.length_map]
    exact length_take_blockLimit h
  · rw [hpos]
    exact unsupported_sendOutcome
  · rw [hpos]
    exact done_sendOutcome

/-- Twenty bytes fill three Consecutive Frames, of which a block of two leaves one. -/
theorem sendConsecutiveFrames_oneBlock_twenty :
    ∃ outcome env' t, sendConsecutiveFrames (.standard 0x7E0) (.replicate 20 0xAB) 2 10 default
        ⟨0, [], [⟨3, none⟩], []⟩ = ⟨outcome, env', t⟩ ∧
      sentFrames t = [0x21 :: .replicate 7 0xAB, 0x22 :: .replicate 7 0xAB].map
        (classicFrame (.standard 0x7E0)) ∧
      ∃ message, outcome = .halted (.failed (.new .Unsupported message)) := by
  have haccepts : Env.Accepts ⟨0, [], [⟨3, none⟩], []⟩ := List.forall_mem_singleton.mpr rfl
  obtain ⟨outcome, env', t, hr, hs, -, hu, -⟩ := sendConsecutiveFrames_oneBlock
    (.standard 0x7E0) (.replicate 20 0xAB) 2 10 default ⟨0, [], [⟨3, none⟩], []⟩ haccepts
  exact ⟨outcome, env', t, hr, hs, hu.mpr (by decide)⟩

/-! ### A request -/

/-- A request whose payload can be sent. -/
theorem request_eq (txId rxId : CanId) (opts : Options) (h0 : payload ≠ [])
    (hm : payload.length ≤ maxFfLength) (env : Env) :
    request txId rxId payload opts env =
      (ofChecked (addDuration env.clock opts.timeout) >>= fun deadline =>
        exchange txId rxId payload deadline opts) env := by
  unfold request
  rw [if_neg (fun h => h0 (List.isEmpty_iff.mp h)), if_neg (Nat.not_lt.mpr hm)]
  rfl

/-- The two phases of a request with a payload in one frame. -/
theorem exchange_single (txId rxId : CanId) (deadline : ℕ) (opts : Options)
    (hs : payload.length ≤ sfMaxLen) :
    exchange txId rxId payload deadline opts = (do
      send (classicFrame txId (singleFrame payload opts.padding))
      receiveResponse txId rxId deadline opts) := by
  unfold exchange
  rw [if_pos hs, sendSf_eq hs]

/-- The two phases of a request with a payload in several frames. -/
theorem exchange_segmented (txId rxId : CanId) (deadline : ℕ) (opts : Options)
    (hl : sfMaxLen < payload.length) (hm : payload.length ≤ maxFfLength) :
    exchange txId rxId payload deadline opts = (do
      send (classicFrame txId (firstFrame payload))
      let (bs, stMinMs) ← waitForFc rxId deadline opts
      sendConsecutiveFrames txId (payload.drop ffFirstPayload) bs stMinMs opts
      receiveResponse txId rxId deadline opts) := by
  have h6 : ffFirstPayload ≤ payload.length := Nat.le_of_lt (Nat.lt_trans (by decide) hl)
  unfold exchange
  rw [if_neg (Nat.not_le.mpr hl), sendFf_eq hl hm, slice_to_end h6]
  rfl

end Mcanbus.Isotp
