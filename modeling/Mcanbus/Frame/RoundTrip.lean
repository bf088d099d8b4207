import Mcanbus.Frame.Wire

/-! # Decoding undoes encoding

Every buffer of at least sixteen bytes splits into an eight-byte header and a
payload, on which the decoder never panics. On the bytes of a frame it returns
the frame with its identifier masked and the buffer cleared past the payload.
-/

namespace Mcanbus

open Rust

/-- What a receiver sees of a frame: a masked identifier and a cleared buffer tail. -/
def Frame.received (f : Frame) (timestampNs : Option UInt64) : Frame :=
  { f with
    id := f.id.masked
    dataBuf := overwrite (Vector.replicate maxFdDataLen 0) 0 f.payload
    timestampNs }

section Decode

variable {e : Endian} {buf payload : List UInt8} {t : Option UInt64}
  {b₀ b₁ b₂ b₃ len flags r₀ r₁ : UInt8}

theorem exists_header (h : canFrameSize ≤ buf.length) :
    ∃ b₀ b₁ b₂ b₃ len flags r₀ r₁ payload,
      buf = b₀ :: b₁ :: b₂ :: b₃ :: len :: flags :: r₀ :: r₁ :: payload ∧ 8 ≤ payload.length := by
  unfold canFrameSize at h
  match buf, h with
  | b₀ :: b₁ :: b₂ :: b₃ :: len :: flags :: r₀ :: r₁ :: payload, h =>
    refine ⟨b₀, b₁, b₂, b₃, len, flags, r₀, r₁, payload, rfl, ?_⟩
    simp only [List.length_cons] at h
    omega

theorem decodeWire_short (h : buf.length < canFrameSize) : decodeWire e buf t = .ok none := by
  simp [decodeWire, h]

/-- The maximal payload that the decoder reads from a buffer with this payload part. -/
def payloadCap (payload : List UInt8) : ℕ :=
  if payload.length = maxFdDataLen then maxFdDataLen else maxDataLen

/-- The number of payload bytes that the decoder keeps. -/
def kept (len : UInt8) (payload : List UInt8) : ℕ :=
  min (min len.toNat (payloadCap payload)) payload.length

theorem kept_le_cap : kept len payload ≤ payloadCap payload :=
  Nat.le_trans (Nat.min_le_left _ _) (Nat.min_le_right _ _)

theorem payloadCap_le : payloadCap payload ≤ maxFdDataLen := by
  unfold payloadCap; split <;> decide

theorem kept_le : kept len payload ≤ maxFdDataLen := Nat.le_trans kept_le_cap payloadCap_le

theorem slice_payload {n : ℕ} (h : n ≤ payload.length) :
    slice (b₀ :: b₁ :: b₂ :: b₃ :: len :: flags :: r₀ :: r₁ :: payload) 8 (8 + n) =
      .ok (payload.take n) := by
  rw [slice_eq (by omega) (by simp; omega)]
  simp

/-- The frame read from a header without error and RTR flags. -/
def dataFrame (w : UInt32) (len flags : UInt8) (payload : List UInt8) (t : Option UInt64) :
    Frame where
  id := if w &&& canEffFlag != 0 then .Extended (w &&& canEffMask)
    else .Standard (w &&& canSffMask).toUInt16
  kind := if payload.length = maxFdDataLen then .Fd (FdFlags.fromWire flags) else .Classic
  len := .ofNat (kept len payload)
  dataBuf := overwrite (Vector.replicate maxFdDataLen 0) 0 (payload.take (kept len payload))
  timestampNs := t

/-- The error frame read from a header with the error flag. -/
def errorFrame (w : UInt32) (len : UInt8) (payload : List UInt8) : DecodedFrame :=
  let n := min (min len.toNat 8) payload.length
  .Error (w &&& canErrMask) (overwrite (Vector.replicate maxDataLen 0) 0 (payload.take n))
    (.ofNat n)

/-- The decoder on a complete header, by the flags of the identifier word. -/
theorem decodeWire_header (hp : 8 ≤ payload.length) :
    decodeWire e (b₀ :: b₁ :: b₂ :: b₃ :: len :: flags :: r₀ :: r₁ :: payload) t =
      let w := e.fromNeBytes b₀ b₁ b₂ b₃
      .ok (some (
        if w &&& canErrFlag != 0 then errorFrame w len payload
        else if w &&& canRtrFlag != 0 then .Rtr (dataFrame w len flags payload t).id len
        else .Data (dataFrame w len flags payload t))) := by
  have hl : (b₀ :: b₁ :: b₂ :: b₃ :: len :: flags :: r₀ :: r₁ :: payload).length =
      8 + payload.length := by simp; omega
  have hsize : ¬ (8 + payload.length < canFrameSize) := by unfold canFrameSize; omega
  have hfd : (8 + payload.length == canfdFrameSize) = decide (payload.length = maxFdDataLen) := by
    rw [Bool.eq_iff_iff, beq_iff_eq, decide_eq_true_iff]
    unfold canfdFrameSize maxFdDataLen
    omega
  have herr : copyFromSlice (Vector.replicate maxDataLen (0 : UInt8)) 0
      (min (min len.toNat 8) payload.length)
      (payload.take (min (min len.toNat 8) payload.length)) = .ok _ :=
    copyFromSlice_eq (Nat.zero_le _)
      (Nat.le_trans (Nat.min_le_left _ _) (Nat.min_le_right _ _)) (by simp)
  have hdata : copyFromSlice (Vector.replicate maxFdDataLen (0 : UInt8)) 0
      (kept len payload) (payload.take (kept len payload)) = .ok _ :=
    copyFromSlice_eq (Nat.zero_le _) kept_le (by simp [kept])
  have hkept : min (min len.toNat (if payload.length = maxFdDataLen then maxFdDataLen
      else maxDataLen)) payload.length = kept len payload := rfl
  have hindex : ∀ (x : UInt8) (xs : List UInt8) i, index (x :: xs) (i + 1) = index xs i :=
    fun _ _ _ => rfl
  unfold decodeWire
  simp only [hl, hsize, if_false, index_zero_cons, hindex, Nat.add_sub_cancel_left, hfd,
    decide_eq_true_eq, hkept, ok_bind, pure_eq_ok]
  have hk : kept len payload ≤ payload.length := Nat.min_le_right _ _
  rw [slice_payload (Nat.min_le_right _ _), slice_payload hk]
  simp only [ok_bind, herr, hdata, errorFrame, dataFrame]
  split_ifs <;> rfl

/-- The decoder never panics. -/
theorem exists_decodeWire (e : Endian) (buf : List UInt8) (t : Option UInt64) :
    ∃ d, decodeWire e buf t = .ok d := by
  by_cases h : buf.length < canFrameSize
  · exact ⟨_, decodeWire_short h⟩
  · obtain ⟨b₀, b₁, b₂, b₃, len, flags, r₀, r₁, payload, rfl, hp⟩ :=
      exists_header (Nat.not_lt.mp h)
    exact ⟨_, decodeWire_header hp⟩

end Decode

section RoundTrip

variable {f : Frame}

/-- The kernel structure of a frame whose length is within the buffer. -/
def WireFrame.ofFrame (f : Frame) : WireFrame where
  canId := f.id.toWire
  len := f.len
  flags := match f.kind with
    | .Fd flags => flags.toWire
    | .Classic => 0
  res0 := 0
  res1 := 0
  data := overwrite (Vector.replicate maxFdDataLen 0) 0 f.payload

theorem WireFrame.fromFrame_eq (h : f.len.toNat ≤ maxFdDataLen) :
    WireFrame.fromFrame f = .ok (.ofFrame f) := by
  have hs : slice f.dataBuf.toList 0 f.len.toNat = .ok f.payload := Frame.data_eq h
  have hc : copyFromSlice (Vector.replicate maxFdDataLen (0 : UInt8)) 0 f.len.toNat f.payload =
      .ok (overwrite (Vector.replicate maxFdDataLen 0) 0 f.payload) :=
    copyFromSlice_eq (Nat.zero_le _) h (by simp [Frame.length_payload h])
  unfold WireFrame.fromFrame
  cases hk : f.kind <;>
    simp only [hs, hc, hk, zeroed, WireFrame.ofFrame, bind, Except.bind, pure, Except.pure]

/-- The payload part of the datagram of a frame: its data, then zeros up to the format. -/
def Frame.wirePayload (f : Frame) : List UInt8 :=
  f.payload ++ List.replicate (f.kind.maxLen - f.len.toNat) 0

theorem Frame.Fits.length_wirePayload (h : f.Fits) : f.wirePayload.length = f.kind.maxLen := by
  have hl : f.len.toNat ≤ f.kind.maxLen := h
  rw [Frame.wirePayload, List.length_append, Frame.length_payload h.len_le,
    List.length_replicate]
  omega

theorem Frame.Fits.take_wirePayload (h : f.Fits) : f.wirePayload.take f.len.toNat = f.payload :=
  List.take_left' (Frame.length_payload h.len_le)

/-- The bytes that are written for a frame. -/
def Frame.datagram (e : Endian) (f : Frame) : List UInt8 :=
  ((WireFrame.ofFrame f).bytes e).take (WireFrame.wireSize f.isFd)

theorem Frame.Fits.datagram_eq (e : Endian) (h : f.Fits) :
    f.datagram e = e.toNeBytes f.id.toWire ++
      f.len :: (WireFrame.ofFrame f).flags :: 0 :: 0 :: f.wirePayload := by
  have hl : f.len.toNat ≤ f.kind.maxLen := h
  have hp := Frame.length_payload h.len_le
  have hz : (Vector.replicate maxFdDataLen (0 : UInt8)).toList.drop f.len.toNat =
      List.replicate (maxFdDataLen - f.len.toNat) 0 := by simp
  have hdata : (WireFrame.ofFrame f).data.toList =
      f.payload ++ List.replicate (maxFdDataLen - f.len.toNat) 0 := by
    rw [WireFrame.ofFrame, toList_overwrite _ _ _ (by have := h.len_le; omega), hp,
      Nat.zero_add, hz]
    simp
  have hsize : WireFrame.wireSize f.isFd = 4 + (4 + f.kind.maxLen) := by
    unfold Frame.isFd
    cases f.kind <;> rfl
  have hcut : (f.payload ++ List.replicate (maxFdDataLen - f.len.toNat) (0 : UInt8)).take
      f.kind.maxLen = f.wirePayload := by
    rw [List.take_append, hp, List.take_of_length_le (by omega), List.take_replicate,
      Nat.min_eq_left (by have := f.kind.maxLen_le; omega), Frame.wirePayload]
  rw [Frame.datagram, WireFrame.bytes, hsize, hdata, List.take_append, e.length_toNeBytes,
    List.take_of_length_le (by simp), Nat.add_sub_cancel_left, Nat.add_comm 4]
  simp only [List.take_succ_cons, hcut]
  rfl

/-- Decoding the datagram of a frame gives what a receiver sees of the frame. -/
theorem Frame.Fits.decodeWire_datagram (e : Endian) (t : Option UInt64) (h : f.Fits) :
    decodeWire e (f.datagram e) t = .ok (some (.Data (f.received t))) := by
  obtain ⟨b₀, b₁, b₂, b₃, hb, hw⟩ := e.exists_toNeBytes f.id.toWire
  have hl : f.len.toNat ≤ f.kind.maxLen := h
  have hlen := h.length_wirePayload
  have hcap : payloadCap f.wirePayload = f.kind.maxLen := by
    rw [payloadCap, hlen]; cases f.kind <;> rfl
  have hk : kept f.len f.wirePayload = f.len.toNat := by rw [kept, hcap, hlen]; omega
  have h8 : 8 ≤ f.wirePayload.length := by
    rw [hlen]; cases f.kind <;> simp [FrameKind.maxLen, maxDataLen, maxFdDataLen]
  have hkind : (if f.wirePayload.length = maxFdDataLen then
      .Fd (FdFlags.fromWire (WireFrame.ofFrame f).flags) else .Classic) = f.kind := by
    rw [hlen, WireFrame.ofFrame]
    cases f.kind with
    | Classic => rfl
    | Fd flags => simp [FrameKind.maxLen]
  have hf : dataFrame f.id.toWire f.len (WireFrame.ofFrame f).flags f.wirePayload t =
      f.received t := by
    simp only [dataFrame, Frame.received, CanId.decode_toWire, hkind, hk, h.take_wirePayload,
      UInt8.ofNat_toNat]
  rw [h.datagram_eq, hb]
  simp only [List.cons_append, List.nil_append]
  rw [decodeWire_header h8, hw]
  simp [CanId.toWire_and_err, CanId.toWire_and_rtr, hf]

theorem received_data (h : f.Fits) (t : Option UInt64) : (f.received t).data = f.data := by
  have hp := Frame.length_payload h.len_le
  have hd : (f.received t).payload = f.payload := by
    unfold Frame.payload Frame.received
    rw [toList_overwrite _ _ _ (by have := h.len_le; omega)]
    exact List.take_left' hp
  rw [Frame.data_eq (f := f.received t) h.len_le, Frame.data_eq h.len_le, hd]

theorem received_tail (h : f.Fits) (t : Option UInt64) {i : ℕ} (hi : f.len.toNat ≤ i)
    (hb : i < maxFdDataLen) : (f.received t).dataBuf[i] = 0 := by
  have hp := Frame.length_payload h.len_le
  simp only [Frame.received, overwrite, Vector.getElem_ofFn, hp]
  split_ifs with hc
  · omega
  · simp

/-- Wire decoding undoes wire encoding on every frame whose length is legal for its kind. -/
theorem decodeWire_fromFrame (e : Endian) (f : Frame) (t : Option UInt64) (h : f.Fits) :
    ∃ w g, WireFrame.fromFrame f = .ok w ∧
      decodeWire e ((w.bytes e).take (WireFrame.wireSize f.isFd)) t = .ok (some (.Data g)) ∧
      g.kind = f.kind ∧ g.len = f.len ∧ g.data = f.data ∧
      (∀ i, f.len.toNat ≤ i → ∀ hi : i < maxFdDataLen, g.dataBuf[i] = 0) ∧
      g.timestampNs = t ∧
      g.id = (match f.id with
        | .Standard n => .Standard (n &&& 0x7FF)
        | .Extended n => .Extended (n &&& 0x1FFFFFFF)) ∧
      ((∃ n, f.id = .standard n) ∨ (∃ n, f.id = .extended n) → g.id = f.id) := by
  refine ⟨.ofFrame f, f.received t, WireFrame.fromFrame_eq h.len_le,
    h.decodeWire_datagram e t, rfl, rfl, received_data h t,
    fun i hi hb => received_tail h t hi hb, rfl, ?_, ?_⟩
  · unfold Frame.received
    cases f.id <;> rfl
  · rintro (⟨n, hn⟩ | ⟨n, hn⟩) <;> simp [Frame.received, hn]

/-- An FD frame with stray identifier bits and a filled buffer. -/
theorem decodeWire_fromFrame_stray :
    let f : Frame := ⟨.Standard 0xF123, .Fd ⟨true, false⟩, 12, Vector.replicate _ 0xAB, none⟩
    f.Fits ∧ ∃ w g, WireFrame.fromFrame f = .ok w ∧
      decodeWire .big ((w.bytes .big).take (WireFrame.wireSize f.isFd)) (some 7) =
        .ok (some (.Data g)) ∧
      g.id = .Standard 0x123 := by
  refine ⟨by decide, ?_⟩
  obtain ⟨w, g, hw, hd, _, _, _, _, _, hid, _⟩ := decodeWire_fromFrame .big
    ⟨.Standard 0xF123, .Fd ⟨true, false⟩, 12, Vector.replicate _ 0xAB, none⟩ (some 7) (by decide)
  exact ⟨w, g, hw, hd, hid⟩

end RoundTrip

end Mcanbus
