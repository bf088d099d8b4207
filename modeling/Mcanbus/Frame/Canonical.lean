import Mcanbus.Frame.RoundTrip

/-! # What the decoder returns

A decoded data frame is canonical: its length fits its kind, its identifier is
masked and its buffer is clear past the payload. Such a frame is what a receiver
sees of itself, so it can be forwarded unchanged. Error frames and data frames
report a legal length; a remote request reports the length byte as it stands.
-/

namespace Mcanbus

open Rust

/-- A frame that encoding and decoding leave as it is. -/
structure Frame.Canonical (f : Frame) : Prop where
  fits : f.Fits
  masked : f.id.masked = f.id
  clear : ∀ i, f.len.toNat ≤ i → ∀ hi : i < maxFdDataLen, f.dataBuf[i] = 0

/-- A clear tail: the buffer is the payload written over zeros. -/
theorem Frame.Canonical.overwrite_payload {f : Frame} (h : f.Canonical) :
    overwrite (Vector.replicate maxFdDataLen 0) 0 f.payload = f.dataBuf := by
  have hp := Frame.length_payload h.fits.len_le
  ext i hi
  simp only [overwrite, Vector.getElem_ofFn, hp, Nat.zero_le, true_and, Nat.sub_zero]
  split_ifs with hc
  · simp [Frame.payload]
  · simp [h.clear i (Nat.not_lt.mp hc) hi]

theorem Frame.Canonical.received_eq {f : Frame} (h : f.Canonical) :
    f.received f.timestampNs = f := by
  unfold Frame.received
  rw [h.masked, h.overwrite_payload]

section Data

variable {e : Endian} {buf payload : List UInt8} {t : Option UInt64} {w : UInt32}
  {len flags : UInt8}

theorem toNat_len_dataFrame : (dataFrame w len flags payload t).len.toNat = kept len payload := by
  have h : kept len payload ≤ maxFdDataLen := kept_le
  unfold maxFdDataLen at h
  exact Nat.mod_eq_of_lt (by omega)

theorem payload_dataFrame : (dataFrame w len flags payload t).payload =
    payload.take (kept len payload) := by
  have hk : kept len payload ≤ payload.length := Nat.min_le_right _ _
  have hl : (payload.take (kept len payload)).length = kept len payload := by simp [hk]
  have hbound : 0 + (payload.take (kept len payload)).length ≤ maxFdDataLen := by
    rw [hl, Nat.zero_add]
    exact kept_le
  unfold Frame.payload
  rw [toNat_len_dataFrame, dataFrame, toList_overwrite _ _ _ hbound]
  exact List.take_left' hl

/-- Only a buffer of the size of the FD structure is read as an FD frame. -/
theorem kind_dataFrame : (∃ fd, (dataFrame w len flags payload t).kind = .Fd fd) ↔
    payload.length = maxFdDataLen := by
  simp only [dataFrame]
  split_ifs with h <;> simp [h]

theorem maxLen_dataFrame :
    (dataFrame w len flags payload t).kind.maxLen = payloadCap payload := by
  simp only [dataFrame, payloadCap]
  split_ifs <;> rfl

theorem masked_dataFrame :
    (dataFrame w len flags payload t).id.masked = (dataFrame w len flags payload t).id := by
  have h : canSffMask.toUInt16 &&& canSffMask.toUInt16 = canSffMask.toUInt16 := by decide
  simp only [dataFrame]
  split_ifs
  · simp [CanId.masked, CanId.extended, UInt32.and_assoc]
  · simp [CanId.masked, CanId.standard, UInt16.and_assoc, h]

/-- Every data frame that the decoder returns is canonical. -/
theorem dataFrame_canonical : (dataFrame w len flags payload t).Canonical where
  fits := by
    unfold Frame.Fits
    rw [toNat_len_dataFrame, maxLen_dataFrame]
    exact kept_le_cap
  masked := masked_dataFrame
  clear := by
    intro i hi hb
    rw [toNat_len_dataFrame] at hi
    have hc : ¬ (0 ≤ i ∧ i - 0 < (payload.take (kept len payload)).length) := by
      simp only [List.length_take]
      omega
    simp only [dataFrame, overwrite, Vector.getElem_ofFn]
    rw [dif_neg hc]
    simp

end Data

/-! ### Data frames -/

/-- The number of the identifier fits the format. -/
def CanId.InRange : CanId → Prop
  | .Standard id => id.toNat < 2 ^ 11
  | .Extended id => id.toNat < 2 ^ 29

theorem CanId.inRange_of_masked {id : CanId} (h : id.masked = id) : id.InRange := by
  cases id with
  | Standard n =>
    have hn := toNat_and_sff_lt n
    rwa [CanId.Standard.inj h] at hn
  | Extended n =>
    have hn := toNat_and_eff_lt n
    rwa [CanId.Extended.inj h] at hn

section Decoded

variable {e : Endian} {buf : List UInt8} {t : Option UInt64} {f : Frame}

theorem decodeWire_none_iff : decodeWire e buf t = .ok none ↔ buf.length < canFrameSize := by
  constructor
  · intro h
    by_contra hc
    obtain ⟨b₀, b₁, b₂, b₃, len, flags, r₀, r₁, payload, rfl, hp⟩ :=
      exists_header (Nat.not_lt.mp hc)
    rw [decodeWire_header hp] at h
    cases h
  · exact decodeWire_short

/-- A decoded data frame is the frame of the header of its buffer. -/
theorem exists_dataFrame (h : decodeWire e buf t = .ok (some (.Data f))) :
    ∃ w len flags, f = dataFrame w len flags (buf.drop 8) t ∧ canFrameSize ≤ buf.length := by
  have hl : ¬ buf.length < canFrameSize := by
    rw [← decodeWire_none_iff (e := e) (t := t), h]
    simp
  obtain ⟨b₀, b₁, b₂, b₃, len, flags, r₀, r₁, payload, rfl, hp⟩ := exists_header (Nat.not_lt.mp hl)
  rw [decodeWire_header hp] at h
  refine ⟨e.fromNeBytes b₀ b₁ b₂ b₃, len, flags, ?_, Nat.not_lt.mp hl⟩
  simp only [Except.ok.injEq, Option.some.injEq] at h
  split_ifs at h
  · cases h
  · cases h
    rfl

/-- Encoding a canonical frame and decoding it gives the frame. -/
theorem Frame.Canonical.reencoded (e : Endian) (h : f.Canonical) :
    ∃ w, WireFrame.fromFrame f = .ok w ∧
      decodeWire e ((w.bytes e).take (WireFrame.wireSize f.isFd)) f.timestampNs =
        .ok (some (.Data f)) := by
  have hd := h.fits.decodeWire_datagram e f.timestampNs
  rw [h.received_eq] at hd
  exact ⟨_, WireFrame.fromFrame_eq h.fits.len_le, hd⟩

/-- The decoder stays in its buffer, and a data frame that it returns is canonical, is read
from the bytes behind the header and survives encoding and decoding. -/
theorem decodeWire_canonical (e : Endian) (buf : List UInt8) (t : Option UInt64) :
    ∃ d, decodeWire e buf t = .ok d ∧ (d = none ↔ buf.length < 16) ∧
      ∀ f, d = some (.Data f) →
        (f.kind = .Classic → f.len.toNat ≤ 8) ∧
        ((∃ fd, f.kind = .Fd fd) → f.len.toNat ≤ 64) ∧
        ((∃ fd, f.kind = .Fd fd) ↔ buf.length = 72) ∧
        f.len.toNat ≤ buf.length - 8 ∧
        f.id.InRange ∧
        (∀ i, f.len.toNat ≤ i → ∀ hi : i < maxFdDataLen, f.dataBuf[i] = 0) ∧
        f.data = .ok ((buf.drop 8).take f.len.toNat) ∧
        f.timestampNs = t ∧
        ∃ w, WireFrame.fromFrame f = .ok w ∧
          decodeWire e ((w.bytes e).take (WireFrame.wireSize f.isFd)) f.timestampNs =
            .ok (some (.Data f)) := by
  obtain ⟨d, hd⟩ := exists_decodeWire e buf t
  refine ⟨d, hd, ?_, ?_⟩
  · rw [show 16 = canFrameSize from rfl, ← decodeWire_none_iff (e := e) (t := t), hd]
    simp
  rintro f rfl
  obtain ⟨w, len, flags, hf, hl⟩ := exists_dataFrame hd
  have hc : f.Canonical := hf ▸ dataFrame_canonical
  have hlen : f.len.toNat = kept len (buf.drop 8) := by rw [hf, toNat_len_dataFrame]
  have hfits : f.len.toNat ≤ f.kind.maxLen := hc.fits
  have hcap : kept len (buf.drop 8) ≤ (buf.drop 8).length := Nat.min_le_right _ _
  refine ⟨fun hk => ?_, fun ⟨fd, hk⟩ => ?_, ?_, ?_, CanId.inRange_of_masked hc.masked, hc.clear,
    ?_, by rw [hf]; rfl, hc.reencoded e⟩
  · rwa [hk] at hfits
  · rwa [hk] at hfits
  · rw [hf, kind_dataFrame, List.length_drop]
    unfold maxFdDataLen canFrameSize at *
    omega
  · rw [hlen]
    rwa [List.length_drop] at hcap
  · rw [Frame.data_eq hc.fits.len_le, hlen, hf, payload_dataFrame]

end Decoded

/-! ### Lengths of all outcomes -/

/-- The reported length is legal for the format of the frame. -/
def DecodedFrame.LegalLen : DecodedFrame → Prop
  | .Data frame => frame.Fits
  | .Rtr _ len => len.toNat ≤ maxDataLen
  | .Error _ _ len => len.toNat ≤ maxDataLen

/-- The header is that of a remote request, not of an error, for more bytes than a classic
frame has. -/
def OversizedRequest (e : Endian) (buf : List UInt8) : Prop :=
  ∃ w len, e.readU32 buf 0 = .ok w ∧ index buf 4 = .ok len ∧
    w &&& canErrFlag = 0 ∧ w &&& canRtrFlag ≠ 0 ∧ maxDataLen < len.toNat

theorem legalLen_errorFrame (w : UInt32) (len : UInt8) (payload : List UInt8) :
    (errorFrame w len payload).LegalLen := by
  have h : min (min len.toNat 8) payload.length ≤ 8 :=
    Nat.le_trans (Nat.min_le_left _ _) (Nat.min_le_right _ _)
  simp only [errorFrame, DecodedFrame.LegalLen, UInt8.toNat_ofNat', maxDataLen]
  omega

theorem legalLen_decodeWire {e : Endian} {buf : List UInt8} {t : Option UInt64}
    {b₀ b₁ b₂ b₃ len flags r₀ r₁ : UInt8} {payload : List UInt8}
    (hb : buf = b₀ :: b₁ :: b₂ :: b₃ :: len :: flags :: r₀ :: r₁ :: payload)
    (hp : 8 ≤ payload.length) : ∃ d, decodeWire e buf t = .ok (some d) ∧
      (d.LegalLen ↔ ¬ (e.fromNeBytes b₀ b₁ b₂ b₃ &&& canErrFlag = 0 ∧
        e.fromNeBytes b₀ b₁ b₂ b₃ &&& canRtrFlag ≠ 0 ∧ maxDataLen < len.toNat)) := by
  rw [hb, decodeWire_header hp]
  refine ⟨_, rfl, ?_⟩
  by_cases he : e.fromNeBytes b₀ b₁ b₂ b₃ &&& canErrFlag = 0
  · by_cases hr : e.fromNeBytes b₀ b₁ b₂ b₃ &&& canRtrFlag = 0
    · have hf : (dataFrame (e.fromNeBytes b₀ b₁ b₂ b₃) len flags payload t).Fits :=
        dataFrame_canonical.fits
      simp [he, hr, DecodedFrame.LegalLen, hf]
    · simp [he, hr, DecodedFrame.LegalLen]
  · simp [he, legalLen_errorFrame]

/-- Every outcome has a legal length except for the remote requests of more than eight bytes,
whose length byte is not clamped. -/
theorem decodeWire_legalLen_iff (e : Endian) (buf : List UInt8) (t : Option UInt64)
    (h : 16 ≤ buf.length) :
    (∃ d, decodeWire e buf t = .ok (some d) ∧ d.LegalLen) ↔ ¬ OversizedRequest e buf := by
  obtain ⟨b₀, b₁, b₂, b₃, len, flags, r₀, r₁, payload, hb, hp⟩ :=
    exists_header (show canFrameSize ≤ buf.length from h)
  obtain ⟨d, hd, hl⟩ := legalLen_decodeWire (e := e) (t := t) hb hp
  have hw : e.readU32 buf 0 = .ok (e.fromNeBytes b₀ b₁ b₂ b₃) := by rw [hb]; rfl
  have hlen : index buf 4 = .ok len := by rw [hb]; rfl
  unfold OversizedRequest
  simp only [hd, hw, hlen, Except.ok.injEq, Option.some.injEq, exists_and_left, exists_eq_left',
    hl]

/-- The buffer of a request for 255 bytes from the standard identifier 0x123. -/
def longRequest : List UInt8 := [0x23, 0x01, 0, 0x40, 255] ++ List.replicate 11 0

theorem decodeWire_legalLen_iff_request :
    16 ≤ longRequest.length ∧ OversizedRequest .little longRequest ∧
      ((∃ d, decodeWire .little longRequest none = .ok (some d) ∧ d.LegalLen) ↔
        ¬ OversizedRequest .little longRequest) :=
  ⟨by decide, ⟨_, _, rfl, rfl, by decide, by decide, by decide⟩,
    decodeWire_legalLen_iff .little longRequest none (by decide)⟩

/-- The decoder reports the length byte of the request. -/
theorem decodeWire_longRequest : 16 ≤ longRequest.length ∧
    decodeWire .little longRequest none = .ok (some (.Rtr (.Standard 0x123) 255)) ∧
    ¬ ∃ d, decodeWire .little longRequest none = .ok (some d) ∧ d.LegalLen := by
  have hd : decodeWire .little longRequest none = .ok (some (.Rtr (.Standard 0x123) 255)) := by
    decide
  refine ⟨by decide, hd, ?_⟩
  rw [hd]
  simp [DecodedFrame.LegalLen, maxDataLen]

end Mcanbus
