import Mcanbus.Server.HexBytes

/-! # Identifier texts

An identifier is read as the number of its hexadecimal digits and then masked to
the width of its format. A number that fits is kept as it is; a number of more
than 32 bits is refused.
-/

namespace Mcanbus.Server

open Rust

/-- The number whose hexadecimal digits follow the digits of `acc`. -/
def digitsValue (acc : ℕ) (s : List Char) : ℕ :=
  (s.filterMap (toDigit 16)).foldl (fun n d => n * 16 + d) acc

/-- The number of the hexadecimal digits of a text; its other characters do not count. -/
def hexValue (s : List Char) : ℕ := digitsValue 0 s

example : hexValue "0x7DF".toList = 0x7DF ∧ hexValue "+1f".toList = 0x1F := by decide

section Value

variable {acc bound n : ℕ} {s : List Char}

theorem digitsValue_cons {c : Char} {d : ℕ} (h : toDigit 16 c = some d) :
    digitsValue acc (c :: s) = digitsValue (acc * 16 + d) s := by
  simp [digitsValue, h]

theorem digitsValue_skip {c : Char} (h : toDigit 16 c = none) :
    digitsValue acc (c :: s) = digitsValue acc s := by
  simp [digitsValue, h]

/-- Digits that are parsed give their number. -/
theorem parseDigits_value (h : parseDigits 16 bound acc s = .ok n) : n = digitsValue acc s := by
  induction s generalizing acc with
  | nil =>
    cases h
    rfl
  | cons c s ih =>
    obtain ⟨d, hd, -, hs⟩ := parseDigits_cons_ok h
    rw [digitsValue_cons hd]
    exact ih hs

theorem parseDigits_lt (ha : acc < bound) (h : parseDigits 16 bound acc s = .ok n) :
    n < bound := by
  induction s generalizing acc with
  | nil =>
    cases h
    exact ha
  | cons c s ih =>
    obtain ⟨d, -, hb, hs⟩ := parseDigits_cons_ok h
    exact ih hb hs

theorem hexValue_prefix {c : Char} (hc : toDigit 16 c = none) (k : ℕ) :
    hexValue ((List.replicate k ['0', c]).flatten ++ s) = hexValue s := by
  have hz : toDigit 16 '0' = some 0 := by decide
  induction k with
  | zero => rfl
  | succ k ih =>
    rw [List.replicate_succ, List.flatten_cons, List.append_assoc]
    simp only [List.cons_append, List.nil_append]
    unfold hexValue
    rw [digitsValue_cons hz, digitsValue_skip hc]
    exact ih

/-- Prefixes do not change the number of a text. -/
theorem hexValue_prefixed (m k : ℕ) : hexValue (prefixed m k s) = hexValue s := by
  have hx := hexValue_prefix (c := 'x') (s := (List.replicate k "0X".toList).flatten ++ s)
    (by decide) m
  have hX := hexValue_prefix (c := 'X') (s := s) (by decide) k
  exact hx.trans hX

/-- The prefixes are removed without a change of the number. -/
theorem hexValue_stripHexPrefix (s : String) : hexValue (stripHexPrefix s) = hexValue s.toList := by
  obtain ⟨m, k, hs⟩ := exists_prefixed s
  rw [hs, hexValue_prefixed]

theorem parseU32_value {w : UInt32} (h : parseU32 s = .ok w) : w.toNat = hexValue s := by
  unfold parseU32 at h
  cases hp : fromStrRadix 16 (2 ^ 32) s with
  | error e =>
    rw [hp] at h
    cases h
  | ok n =>
    rw [hp] at h
    cases h
    obtain ⟨t, ht, hd⟩ := fromStrRadix_ok hp
    have hn := parseDigits_lt (by decide) hd
    have hv : hexValue s = digitsValue 0 t := by
      rcases ht with rfl | rfl
      · rfl
      · exact digitsValue_skip (by decide)
    rw [hv, ← parseDigits_value hd]
    exact Nat.mod_eq_of_lt hn

end Value

/-! ### Identifiers -/

/-- The number of values of an identifier of the format. -/
def idBound (extended : Bool) : ℕ := if extended then 2 ^ 29 else 2 ^ 11

/-- The identifier has the format and the number of the text, masked to the format. -/
def DenotesMasked (s : String) (extended : Bool) (id : CanId) : Prop :=
  id.isExtended = extended ∧ id.raw.toNat = hexValue s.toList % idBound extended

section Id

variable {s : String} {extended : Bool} {id : CanId} {e : McpError}

theorem raw_standard (w : UInt32) : (CanId.standard w.toUInt16).raw.toNat = w.toNat % 2 ^ 11 := by
  have hm : (canSffMask.toUInt16).toNat = 2 ^ 11 - 1 := by decide
  simp only [CanId.standard, CanId.raw, UInt16.toNat_toUInt32, UInt16.toNat_and,
    UInt32.toNat_toUInt16, hm, Nat.and_two_pow_sub_one_eq_mod]
  omega

theorem raw_extended (w : UInt32) : (CanId.extended w).raw.toNat = w.toNat % 2 ^ 29 := by
  have hm : canEffMask.toNat = 2 ^ 29 - 1 := by decide
  simp only [CanId.extended, CanId.raw, UInt32.toNat_and, hm, Nat.and_two_pow_sub_one_eq_mod]

theorem parseHexId_ok (h : parseHexId s extended = .ok id) :
    DenotesMasked s extended id ∧ hexValue s.toList < 2 ^ 32 := by
  unfold parseHexId at h
  cases hp : parseU32 (stripHexPrefix s) with
  | error e =>
    simp only [hp] at h
    cases h
  | ok w =>
    simp only [hp, Except.ok.injEq] at h
    have hv := parseU32_value hp
    rw [hexValue_stripHexPrefix] at hv
    refine ⟨?_, hv ▸ w.toNat_lt⟩
    unfold DenotesMasked
    rw [← hv, ← h]
    cases extended with
    | true => exact ⟨rfl, raw_extended w⟩
    | false => exact ⟨rfl, raw_standard w⟩

theorem parseHexId_error (h : parseHexId s extended = .error e) :
    ∃ msg, e = .invalidParams msg := by
  unfold parseHexId at h
  cases hp : parseU32 (stripHexPrefix s) with
  | error e' =>
    simp only [hp] at h
    cases h
    exact ⟨_, rfl⟩
  | ok w =>
    simp only [hp] at h
    cases h

theorem parseHexBytes_error (h : parseHexBytes s = .ok (.error e)) :
    ∃ msg, e = .invalidParams msg := by
  have hc : ¬ CutsCharacter (stripHexPrefix s) := by
    intro hc
    rw [parseHexBytes_cut hc] at h
    cases h
  obtain ⟨bytes, -, hb⟩ | ⟨msg, hm⟩ := parseHexBytes_cases hc
  · rw [h] at hb
    cases hb
  · rw [h] at hm
    cases hm
    exact ⟨msg, rfl⟩

end Id

/-! ### Frames -/

/-- The kind of the frame that the arguments ask for. -/
def SendFrameInline.kind (args : SendFrameInline) : FrameKind :=
  if args.fd then .Fd { brs := args.brs, esi := false } else .Classic

/-- A frame holds its data, or the data is too long for the kind. -/
theorem new_cases (kind : FrameKind) (id : CanId) (data : List UInt8) :
    Frame.new kind kind.maxLen id data = .ok (.ok (.ofPayload kind id data)) ∨
      Frame.new kind kind.maxLen id data = .ok (.error (.DataTooLong data.length kind.maxLen)) := by
  by_cases hl : data.length ≤ kind.maxLen
  · exact .inl (Frame.new_eq hl kind.maxLen_le)
  · right
    simp [Frame.new, Nat.not_le.mp hl]

section Build

variable {args : SendFrameInline} {id : CanId} {data : List UInt8} {f : Frame} {e : McpError}

/-- The constructor that the arguments choose makes a frame of their kind. -/
theorem buildFrame_new (hid : parseHexId args.id args.extended = .ok id)
    (hd : parseHexBytes args.data = .ok (.ok data)) :
    buildFrame args = (do
      let frame ← Frame.new args.kind args.kind.maxLen id data
      return frame.mapError fun e => .invalidParams s!"invalid frame: {e.display}") := by
  unfold buildFrame SendFrameInline.kind
  simp only [hid, hd, ok_bind]
  cases args.fd with
  | true => rfl
  | false => rfl

/-- With an identifier and a payload that are read, only the length can be refused. -/
theorem buildFrame_parsed (hid : parseHexId args.id args.extended = .ok id)
    (hd : parseHexBytes args.data = .ok (.ok data)) :
    buildFrame args = .ok (.ok (.ofPayload args.kind id data)) ∨
      ∃ msg, buildFrame args = .ok (.error (.invalidParams msg)) := by
  rw [buildFrame_new hid hd]
  rcases new_cases args.kind id data with hn | hn <;> rw [hn]
  · exact .inl rfl
  · exact .inr ⟨_, rfl⟩

/-- What the arguments give, part by part in the order in which they are read. -/
theorem buildFrame_cases (args : SendFrameInline) :
    (∃ e, parseHexId args.id args.extended = .error e ∧ buildFrame args = .ok (.error e)) ∨
    (∃ p, parseHexBytes args.data = .error p ∧ buildFrame args = .error p ∧
      ∃ id, parseHexId args.id args.extended = .ok id) ∨
    (∃ msg, buildFrame args = .ok (.error (.invalidParams msg))) ∨
    ∃ id data, parseHexId args.id args.extended = .ok id ∧
      buildFrame args = .ok (.ok (.ofPayload args.kind id data)) := by
  cases hid : parseHexId args.id args.extended with
  | error e => exact .inl ⟨e, rfl, by simp [buildFrame, hid]⟩
  | ok id =>
    right
    cases hd : parseHexBytes args.data with
    | error p => exact .inl ⟨p, rfl, by simp [buildFrame, hid, hd]; rfl, id, rfl⟩
    | ok r =>
      right
      cases r with
      | error e =>
        obtain ⟨msg, rfl⟩ := parseHexBytes_error hd
        exact .inl ⟨msg, by simp [buildFrame, hid, hd]⟩
      | ok data =>
        rcases buildFrame_parsed hid hd with hb | hb
        · exact .inr ⟨id, data, rfl, hb⟩
        · exact .inl hb

/-- A frame that is built has the identifier that is read. -/
theorem buildFrame_id (h : buildFrame args = .ok (.ok f)) :
    parseHexId args.id args.extended = .ok f.id := by
  obtain ⟨e, -, hb⟩ | ⟨p, -, hb, -⟩ | ⟨msg, hb⟩ | ⟨id, data, hid, hb⟩ := buildFrame_cases args
  · rw [h] at hb
    cases hb
  · rw [h] at hb
    cases hb
  · rw [h] at hb
    cases hb
  · rw [h] at hb
    cases hb
    exact hid

theorem buildFrame_error (h : buildFrame args = .ok (.error e)) :
    ∃ msg, e = .invalidParams msg := by
  obtain ⟨e', he, hb⟩ | ⟨p, -, hb, -⟩ | ⟨msg, hb⟩ | ⟨id, data, -, hb⟩ := buildFrame_cases args
  · rw [h] at hb
    cases hb
    exact parseHexId_error he
  · rw [h] at hb
    cases hb
  · rw [h] at hb
    cases hb
    exact ⟨msg, rfl⟩
  · rw [h] at hb
    cases hb

/-- A number of more than 32 bits is refused before the payload is read. -/
theorem parseHexId_wide {s : String} (extended : Bool) (h : 2 ^ 32 ≤ hexValue s.toList) :
    ∃ msg, parseHexId s extended = .error (.invalidParams msg) := by
  cases hid : parseHexId s extended with
  | ok id => exact absurd (parseHexId_ok hid).2 (Nat.not_lt.mpr h)
  | error e =>
    obtain ⟨msg, rfl⟩ := parseHexId_error hid
    exact ⟨msg, rfl⟩

/-- The identifier of a request has the format that is asked for and the number of the digits of
its text, masked to the format; a number of more than 32 bits is refused. -/
theorem identifier_masked (args : SendFrameInline) :
    (∀ id, parseHexId args.id args.extended = .ok id → DenotesMasked args.id args.extended id) ∧
    (∀ e, parseHexId args.id args.extended = .error e → ∃ msg, e = .invalidParams msg) ∧
    (∀ f, buildFrame args = .ok (.ok f) → DenotesMasked args.id args.extended f.id) ∧
    (∀ e, buildFrame args = .ok (.error e) → ∃ msg, e = .invalidParams msg) ∧
    (2 ^ 32 ≤ hexValue args.id.toList →
      ∃ msg, parseHexId args.id args.extended = .error (.invalidParams msg) ∧
        buildFrame args = .ok (.error (.invalidParams msg))) := by
  refine ⟨fun id h => (parseHexId_ok h).1, fun e h => parseHexId_error h,
    fun f h => (parseHexId_ok (buildFrame_id h)).1, fun e h => buildFrame_error h, fun h => ?_⟩
  obtain ⟨msg, hm⟩ := parseHexId_wide args.extended h
  exact ⟨msg, hm, by simp [buildFrame, hm]⟩

/-- A number of thirteen bits for a standard identifier: the frame has another identifier. -/
theorem identifier_masked_thirteenBits :
    parseHexId "1234" false = .ok (.Standard 0x234) ∧
    (∃ f, buildFrame { id := "1234", data := "" } = .ok (.ok f) ∧ f.id = .Standard 0x234) ∧
    hexValue "1234".toList = 0x1234 ∧ (CanId.Standard 0x234).raw.toNat ≠ 0x1234 := by
  exact ⟨by rfl, ⟨.ofPayload .Classic (.Standard 0x234) [], by rfl, rfl⟩, by decide, by decide⟩

end Build

end Mcanbus.Server
