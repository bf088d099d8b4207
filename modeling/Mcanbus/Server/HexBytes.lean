import Mcanbus.Server.Codec

/-! # Payload texts

The payload parser takes two bytes of the text at a time. It reads a pair of
characters of one byte each, refuses a pair that is no byte and panics where the
two bytes end inside a character. On texts of ASCII characters it accepts more
than pairs of digits: a sign in front of a digit and several prefixes.
-/

namespace Mcanbus.Server

open Rust

/-! ### Windows of two bytes -/

/-- A text of pairs of characters that are read as the bytes. -/
inductive BytePairs : List Char → List UInt8 → Prop
  | nil : BytePairs [] []
  | cons {a b : Char} {s : List Char} {v : UInt8} {bytes : List UInt8} :
      parseU8 [a, b] = .ok v → BytePairs s bytes → BytePairs (a :: b :: s) (v :: bytes)

/-- The text starts with two bytes that are no byte in hexadecimal. -/
def Refused (s : List Char) : Prop :=
  ∃ pair after e, splitAtByte s 2 = .ok (pair, after) ∧ parseU8 pair = .error e

/-- The first two bytes of the text end inside a character. -/
def Cut : List Char → Prop
  | [] => False
  | [a] => 2 < a.utf8Size
  | a :: b :: _ => 2 < a.utf8Size ∨ a.utf8Size = 1 ∧ 1 < b.utf8Size

section Windows

variable {a b : Char} {s t pairs rest before : List Char} {bytes : List UInt8} {v : UInt8}

theorem utf8Size_of_parseU8 (h : parseU8 [a, b] = .ok v) : a.utf8Size = 1 ∧ b.utf8Size = 1 := by
  obtain ⟨n, hb, ⟨rfl, -⟩ | ⟨m, ha, -⟩⟩ := parseU8_pair.mp h
  · exact ⟨by decide, utf8Size_of_toDigit hb⟩
  · exact ⟨utf8Size_of_toDigit ha, utf8Size_of_toDigit hb⟩

theorem BytePairs.utf8Len_eq (h : BytePairs s bytes) : utf8Len s = 2 * bytes.length := by
  induction h with
  | nil => rfl
  | cons hv _ ih =>
    obtain ⟨ha, hb⟩ := utf8Size_of_parseU8 hv
    simp only [utf8Len_cons, ha, hb, ih, List.length_cons]
    omega

theorem Cut.splitAtByte_eq (h : Cut s) : splitAtByte s 2 = .error .sliceRange := by
  match s, h with
  | [a], h => exact splitAtByte_two_long h
  | a :: b :: s, .inl h => exact splitAtByte_two_long h
  | a :: b :: s, .inr ⟨ha, hb⟩ => exact splitAtByte_two_cut ha hb

theorem refused_of_wide (h : a.utf8Size = 2) : Refused (a :: s) := by
  obtain ⟨e, he⟩ := parseU8_wide (a := a) (by omega)
  exact ⟨[a], s, e, splitAtByte_two_wide h, he⟩

/-- A text of an even number of bytes is pairs that are read, up to its end, to a pair that is
refused or to a character that is cut. -/
theorem exists_bytePairs : ∀ s : List Char, utf8Len s % 2 = 0 →
    ∃ pairs bytes rest, s = pairs ++ rest ∧ BytePairs pairs bytes ∧
      (rest = [] ∨ Refused rest ∨ Cut rest)
  | [], _ => ⟨[], [], [], rfl, .nil, .inl rfl⟩
  | [a], h => by
    have ha := a.utf8Size_pos
    simp only [utf8Len_cons, utf8Len_nil, Nat.add_zero] at h
    rcases (by omega : a.utf8Size = 2 ∨ 2 < a.utf8Size) with h₂ | h₂
    · exact ⟨[], [], [a], rfl, .nil, .inr (.inl (refused_of_wide h₂))⟩
    · exact ⟨[], [], [a], rfl, .nil, .inr (.inr h₂)⟩
  | a :: b :: s, h => by
    have ha := a.utf8Size_pos
    have hb := b.utf8Size_pos
    rcases (by omega : a.utf8Size = 1 ∨ a.utf8Size = 2 ∨ 2 < a.utf8Size) with h₁ | h₂ | h₃
    · rcases (by omega : b.utf8Size = 1 ∨ 1 < b.utf8Size) with hb₁ | hb₂
      · cases hv : parseU8 [a, b] with
        | ok v =>
          have hs : utf8Len s % 2 = 0 := by
            simp only [utf8Len_cons, h₁, hb₁] at h
            omega
          obtain ⟨pairs, bytes, rest, rfl, hp, hr⟩ := exists_bytePairs s hs
          exact ⟨a :: b :: pairs, v :: bytes, rest, rfl, .cons hv hp, hr⟩
        | error e =>
          exact ⟨[], [], a :: b :: s, rfl, .nil,
            .inr (.inl ⟨[a, b], s, e, splitAtByte_two_narrow h₁ hb₁, hv⟩)⟩
      · exact ⟨[], [], a :: b :: s, rfl, .nil, .inr (.inr (.inr ⟨h₁, hb₂⟩))⟩
    · exact ⟨[], [], a :: b :: s, rfl, .nil, .inr (.inl (refused_of_wide h₂))⟩
    · exact ⟨[], [], a :: b :: s, rfl, .nil, .inr (.inr (.inl h₃))⟩

/-- Reading pairs behind a text gives their bytes and goes on behind them. -/
theorem parseHexBytesAt_pairs (h : BytePairs pairs bytes) (before rest : List Char) (k : ℕ) :
    parseHexBytesAt (before ++ (pairs ++ rest))
        (List.range' (utf8Len before) (bytes.length + k) 2) = do
      let r ← parseHexBytesAt (before ++ (pairs ++ rest))
        (List.range' (utf8Len (before ++ pairs)) k 2)
      return r.map (bytes ++ ·) := by
  induction h generalizing before with
  | nil =>
    simp only [List.nil_append, List.length_nil, Nat.zero_add, List.append_nil]
    cases parseHexBytesAt (before ++ rest) (List.range' (utf8Len before) k 2) with
    | error e => rfl
    | ok r => cases r <;> rfl
  | @cons a b s v bytes hv hs ih =>
    obtain ⟨ha, hb⟩ := utf8Size_of_parseU8 hv
    have hn : bytes.length + 1 + k = bytes.length + k + 1 := by omega
    have hw : utf8Len (before ++ [a, b]) = utf8Len before + 2 := by simp [ha, hb]
    have hpair : strSlice (before ++ a :: b :: (s ++ rest)) (utf8Len before) (utf8Len before + 2) =
        .ok [a, b] := by
      rw [strSlice_append, splitAtByte_two_narrow ha hb]
      rfl
    have hr := ih (before ++ [a, b])
    rw [hw] at hr
    simp only [List.append_assoc, List.cons_append, List.nil_append] at hr
    simp only [List.length_cons, hn, List.range'_succ, List.cons_append, parseHexBytesAt, hpair,
      hr, ok_bind, hv]
    cases parseHexBytesAt (before ++ a :: b :: (s ++ rest))
        (List.range' (utf8Len (before ++ a :: b :: s)) k 2) with
    | error e => rfl
    | ok r => cases r <;> rfl

/-- The offsets of the windows of a text that starts with pairs. -/
theorem range_pairs (h : BytePairs pairs bytes) (rest : List Char) :
    List.range' 0 ((utf8Len (pairs ++ rest) + 1) / 2) 2 =
      List.range' (utf8Len []) (bytes.length + (utf8Len rest + 1) / 2) 2 := by
  have hl : (utf8Len (pairs ++ rest) + 1) / 2 = bytes.length + (utf8Len rest + 1) / 2 := by
    rw [utf8Len_append, h.utf8Len_eq]
    omega
  rw [hl, utf8Len_nil]

theorem parseHexBytesAt_done (h : BytePairs s bytes) :
    parseHexBytesAt s (List.range' 0 ((utf8Len s + 1) / 2) 2) = .ok (.ok bytes) := by
  have hr := range_pairs h []
  have hp := parseHexBytesAt_pairs h [] [] 0
  simp only [List.append_nil, List.nil_append] at hr hp
  simp only [utf8Len_nil, Nat.zero_add, Nat.reduceDiv, Nat.add_zero] at hr hp
  rw [hr, hp]
  simp [parseHexBytesAt, Except.map]

/-- The window behind the pairs decides when there is one. -/
theorem parseHexBytesAt_rest (h : BytePairs pairs bytes) (hr : rest ≠ []) :
    ∃ is, parseHexBytesAt (pairs ++ rest)
        (List.range' 0 ((utf8Len (pairs ++ rest) + 1) / 2) 2) = do
      let r ← parseHexBytesAt (pairs ++ rest) (utf8Len pairs :: is)
      return r.map (bytes ++ ·) := by
  obtain ⟨c, t, rfl⟩ := List.exists_cons_of_ne_nil hr
  have hc := c.utf8Size_pos
  obtain ⟨k, hk⟩ : ∃ k, (utf8Len (c :: t) + 1) / 2 = k + 1 := by
    simp only [utf8Len_cons]
    exact ⟨(c.utf8Size + utf8Len t + 1) / 2 - 1, by omega⟩
  have hp := parseHexBytesAt_pairs h [] (c :: t) (k + 1)
  simp only [List.nil_append, List.range'_succ] at hp
  rw [range_pairs h (c :: t), hk, hp]
  exact ⟨_, rfl⟩

theorem parseHexBytesAt_refused (h : BytePairs pairs bytes) (hr : Refused rest) :
    ∃ msg, parseHexBytesAt (pairs ++ rest)
      (List.range' 0 ((utf8Len (pairs ++ rest) + 1) / 2) 2) =
        .ok (.error (.invalidParams msg)) := by
  obtain ⟨pair, after, e, hs, he⟩ := hr
  have hne : rest ≠ [] := by
    rintro rfl
    cases hs
  obtain ⟨is, hi⟩ := parseHexBytesAt_rest h hne
  rw [hi, parseHexBytesAt, strSlice_append, hs]
  simp only [Except.map, ok_bind, he, pure_eq_ok]
  exact ⟨_, rfl⟩

theorem parseHexBytesAt_cut (h : BytePairs pairs bytes) (hr : Cut rest) :
    parseHexBytesAt (pairs ++ rest)
      (List.range' 0 ((utf8Len (pairs ++ rest) + 1) / 2) 2) = .error .sliceRange := by
  have hne : rest ≠ [] := by
    rintro rfl
    exact hr
  obtain ⟨is, hi⟩ := parseHexBytesAt_rest h hne
  rw [hi, parseHexBytesAt, strSlice_append, hr.splitAtByte_eq]
  rfl

end Windows

/-! ### Panics -/

/-- The text has an even number of bytes, and behind pairs that are read two of them end inside
a character. -/
def CutsCharacter (s : List Char) : Prop :=
  utf8Len s % 2 = 0 ∧ ∃ pairs bytes rest, s = pairs ++ rest ∧ BytePairs pairs bytes ∧ Cut rest

section Panics

variable {s : String}

theorem parseHexBytes_odd (h : utf8Len (stripHexPrefix s) % 2 ≠ 0) :
    parseHexBytes s = .ok (.error (.invalidParams "data hex string must have even length")) :=
  if_pos h

theorem parseHexBytes_even (h : utf8Len (stripHexPrefix s) % 2 = 0) :
    parseHexBytes s = parseHexBytesAt (stripHexPrefix s)
      (List.range' 0 ((utf8Len (stripHexPrefix s) + 1) / 2) 2) :=
  if_neg (not_not.mpr h)

theorem parseHexBytes_cut (h : CutsCharacter (stripHexPrefix s)) :
    parseHexBytes s = .error .sliceRange := by
  obtain ⟨heven, pairs, bytes, rest, hs, hp, hc⟩ := h
  rw [parseHexBytes_even heven, hs]
  exact parseHexBytesAt_cut hp hc

/-- A text that does not panic is read as bytes or refused. -/
theorem parseHexBytes_cases (h : ¬ CutsCharacter (stripHexPrefix s)) :
    (∃ bytes, BytePairs (stripHexPrefix s) bytes ∧ parseHexBytes s = .ok (.ok bytes)) ∨
      ∃ msg, parseHexBytes s = .ok (.error (.invalidParams msg)) := by
  by_cases heven : utf8Len (stripHexPrefix s) % 2 = 0
  · obtain ⟨pairs, bytes, rest, hs, hp, hr | hr | hr⟩ := exists_bytePairs _ heven
    · rw [hr, List.append_nil] at hs
      rw [parseHexBytes_even heven, hs]
      exact .inl ⟨bytes, hp, parseHexBytesAt_done hp⟩
    · rw [parseHexBytes_even heven, hs]
      exact .inr (parseHexBytesAt_refused hp hr)
    · exact absurd ⟨heven, pairs, bytes, rest, hs, hp, hr⟩ h
  · exact .inr ⟨_, parseHexBytes_odd heven⟩

/-- The parser returns bytes or an error for invalid parameters unless a window cuts a
character. -/
theorem parseHexBytes_returns_iff (s : String) :
    ((∃ bytes, parseHexBytes s = .ok (.ok bytes)) ∨
      ∃ msg, parseHexBytes s = .ok (.error (.invalidParams msg))) ↔
      ¬ CutsCharacter (stripHexPrefix s) := by
  constructor
  · rintro h hc
    rw [parseHexBytes_cut hc] at h
    simp at h
  · intro h
    obtain ⟨bytes, -, hb⟩ | hm := parseHexBytes_cases h
    · exact .inl ⟨bytes, hb⟩
    · exact .inr hm

/-- The first window of four bytes in three characters ends inside the second character. -/
theorem parseHexBytes_panics : parseHexBytes "aéb" = .error .sliceRange ∧
    buildFrame { id := "123", data := "aéb" } = .error .sliceRange ∧
    ¬ ((∃ bytes, parseHexBytes "aéb" = .ok (.ok bytes)) ∨
      ∃ msg, parseHexBytes "aéb" = .ok (.error (.invalidParams msg))) := by
  have h : parseHexBytes "aéb" = .error .sliceRange := by rfl
  refine ⟨h, by rfl, ?_⟩
  rw [h]
  simp

end Panics

/-! ### Accepted texts -/

/-- A text of pairs of hexadecimal digits and the values of the pairs. -/
inductive DigitPairs : List Char → List UInt8 → Prop
  | nil : DigitPairs [] []
  | cons {a b : Char} {s : List Char} {m n : ℕ} {bytes : List UInt8} :
      toDigit 16 a = some m → toDigit 16 b = some n → DigitPairs s bytes →
      DigitPairs (a :: b :: s) (.ofNat (16 * m + n) :: bytes)

/-- A text with prefixes of hexadecimal numbers in front. -/
def prefixed (m n : ℕ) (s : List Char) : List Char :=
  (List.replicate m "0x".toList).flatten ++ ((List.replicate n "0X".toList).flatten ++ s)

/-- At most one prefix and then pairs of digits. -/
def HexString (s : List Char) (bytes : List UInt8) : Prop :=
  ∃ digits, DigitPairs digits bytes ∧
    (s = digits ∨ s = "0x".toList ++ digits ∨ s = "0X".toList ++ digits)

/-- Prefixes and then pairs that are read as bytes, where there are several prefixes or a pair
has a sign. -/
def Lenient (s : List Char) : Prop :=
  ∃ m n pairs bytes, s = prefixed m n pairs ∧ BytePairs pairs bytes ∧ (2 ≤ m + n ∨ '+' ∈ pairs)

section Accepted

variable {s t pairs digits : List Char} {bytes : List UInt8} {m n : ℕ}

theorem DigitPairs.bytePairs (h : DigitPairs s bytes) : BytePairs s bytes := by
  induction h with
  | nil => exact .nil
  | cons ha hb _ ih => exact .cons (parseU8_pair.mpr ⟨_, hb, .inr ⟨_, ha, rfl⟩⟩) ih

theorem DigitPairs.notMem_plus (h : DigitPairs s bytes) : '+' ∉ s := by
  have hplus : toDigit 16 '+' = none := by decide
  induction h with
  | nil => simp
  | cons ha hb _ ih =>
    simp only [List.mem_cons, not_or]
    refine ⟨?_, ?_, ih⟩ <;> rintro rfl
    · simp [hplus] at ha
    · simp [hplus] at hb

theorem BytePairs.digitPairs (h : BytePairs s bytes) (hp : '+' ∉ s) : DigitPairs s bytes := by
  induction h with
  | nil => exact .nil
  | cons hv _ ih =>
    simp only [List.mem_cons, not_or] at hp
    obtain ⟨n, hb, ⟨rfl, -⟩ | ⟨m, ha, rfl⟩⟩ := parseU8_pair.mp hv
    · exact absurd rfl hp.1
    · exact .cons ha hb (ih hp.2.2)

/-- Pairs that are read do not start with a prefix, whose second character is no digit. -/
theorem BytePairs.not_isPrefixOf {c : Char} (hc : toDigit 16 c = none) (h : BytePairs s bytes) :
    ['0', c].isPrefixOf s = false := by
  cases h with
  | nil => rfl
  | @cons a b s v bytes hv _ =>
    obtain ⟨n, hb, -⟩ := parseU8_pair.mp hv
    have hne : c ≠ b := by
      rintro rfl
      simp [hc] at hb
    simp [List.isPrefixOf, hne]

theorem stripHexPrefix_prefixed {s : String} (hs : s.toList = prefixed m n pairs)
    (h : BytePairs pairs bytes) : stripHexPrefix s = pairs := by
  have hx : "0x".toList.isPrefixOf ((List.replicate n "0X".toList).flatten ++ pairs) = false := by
    cases n with
    | zero => exact h.not_isPrefixOf (by decide)
    | succ n => rfl
  have hX : "0X".toList.isPrefixOf pairs = false := h.not_isPrefixOf (by decide)
  rw [stripHexPrefix, hs, prefixed, trimStartMatches_replicate (by decide) hx,
    trimStartMatches_replicate (by decide) hX]

theorem exists_prefixed (s : String) : ∃ m n, s.toList = prefixed m n (stripHexPrefix s) := by
  obtain ⟨m, hm⟩ := exists_trimStartMatches "0x".toList s.toList
  obtain ⟨n, hn⟩ := exists_trimStartMatches "0X".toList (trimStartMatches "0x".toList s.toList)
  refine ⟨m, n, ?_⟩
  unfold prefixed stripHexPrefix
  rw [← hn, ← hm]

theorem length_prefixed : (prefixed m n s).length = 2 * (m + n) + s.length := by
  have h0x : "0x".toList.length = 2 := rfl
  have h0X : "0X".toList.length = 2 := rfl
  simp only [prefixed, List.length_append, List.length_flatten, List.map_replicate,
    List.sum_replicate_nat, h0x, h0X]
  omega

/-- The documented texts are those with at most one prefix. -/
theorem hexString_iff : HexString s bytes ↔
    ∃ m n digits, m + n ≤ 1 ∧ s = prefixed m n digits ∧ DigitPairs digits bytes := by
  constructor
  · rintro ⟨digits, hd, rfl | rfl | rfl⟩
    · exact ⟨0, 0, _, by decide, rfl, hd⟩
    · exact ⟨1, 0, digits, by decide, rfl, hd⟩
    · exact ⟨0, 1, digits, by decide, rfl, hd⟩
  · rintro ⟨m, n, digits, hmn, rfl, hd⟩
    refine ⟨digits, hd, ?_⟩
    obtain ⟨rfl, rfl⟩ | ⟨rfl, rfl⟩ | ⟨rfl, rfl⟩ :
        (m = 0 ∧ n = 0) ∨ (m = 1 ∧ n = 0) ∨ (m = 0 ∧ n = 1) := by omega
    · exact .inl rfl
    · exact .inr (.inl rfl)
    · exact .inr (.inr rfl)

theorem not_cutsCharacter_ascii (h : Ascii s) : ¬ CutsCharacter s := by
  rintro ⟨-, pairs, bytes, rest, rfl, -, hc⟩
  have hr : Ascii rest := fun c hc => h c (List.mem_append_right _ hc)
  match rest, hc with
  | [a], hc =>
    have ha := hr a (by simp)
    simp only [Cut] at hc
    omega
  | a :: b :: rest, hc =>
    have ha := hr a (by simp)
    have hb := hr b (by simp)
    simp only [Cut] at hc
    omega

end Accepted

section Ascii

variable {s : String} {bytes : List UInt8}

theorem parseHexBytes_bytePairs (h : BytePairs (stripHexPrefix s) bytes) :
    parseHexBytes s = .ok (.ok bytes) := by
  have heven : utf8Len (stripHexPrefix s) % 2 = 0 := by
    rw [h.utf8Len_eq]
    exact Nat.mul_mod_right 2 _
  rw [parseHexBytes_even heven]
  exact parseHexBytesAt_done h

theorem ascii_stripHexPrefix (h : Ascii s.toList) : Ascii (stripHexPrefix s) := by
  obtain ⟨m, n, hs⟩ := exists_prefixed s
  intro c hc
  apply h
  rw [hs, prefixed]
  simp [hc]

theorem parseHexBytes_ok_iff (h : Ascii s.toList) :
    parseHexBytes s = .ok (.ok bytes) ↔ BytePairs (stripHexPrefix s) bytes := by
  constructor
  · intro hb
    obtain ⟨bytes', hp, hb'⟩ | ⟨msg, hm⟩ :=
      parseHexBytes_cases (not_cutsCharacter_ascii (ascii_stripHexPrefix h))
    · rw [hb] at hb'
      cases hb'
      exact hp
    · rw [hb] at hm
      cases hm
  · exact parseHexBytes_bytePairs

/-- Texts in the documented form are read as the values of their pairs. -/
theorem HexString.bytePairs (h : HexString s.toList bytes) :
    BytePairs (stripHexPrefix s) bytes := by
  obtain ⟨m, n, digits, -, hs, hd⟩ := hexString_iff.mp h
  rw [stripHexPrefix_prefixed hs hd.bytePairs]
  exact hd.bytePairs

/-- A text that is read is documented or lenient. -/
theorem hexString_of_bytePairs (h : BytePairs (stripHexPrefix s) bytes)
    (hl : ¬ Lenient s.toList) : HexString s.toList bytes := by
  obtain ⟨m, n, hs⟩ := exists_prefixed s
  have hp : '+' ∉ stripHexPrefix s := fun hp => hl ⟨m, n, _, bytes, hs, h, .inr hp⟩
  have hmn : m + n ≤ 1 := by
    by_contra hc
    exact hl ⟨m, n, _, bytes, hs, h, .inl (by omega)⟩
  exact hexString_iff.mpr ⟨m, n, _, hmn, hs, h.digitPairs hp⟩

/-- No text is both documented and lenient. -/
theorem HexString.not_lenient (h : HexString s.toList bytes) : ¬ Lenient s.toList := by
  rintro ⟨m, n, pairs, bytes', hs, hp, hl⟩
  obtain ⟨m', n', digits, hmn, hs', hd⟩ := hexString_iff.mp h
  obtain rfl : pairs = digits := by
    rw [← stripHexPrefix_prefixed hs hp, stripHexPrefix_prefixed hs' hd.bytePairs]
  have hlen := congrArg List.length (hs.symm.trans hs')
  simp only [length_prefixed] at hlen
  rcases hl with hl | hl
  · omega
  · exact hd.notMem_plus hl

/-- On texts of ASCII characters the parser accepts exactly the documented ones and refuses the
others as invalid parameters, except for the lenient texts. -/
theorem parseHexBytes_exact_iff (s : String) (h : Ascii s.toList) :
    ((∀ bytes, parseHexBytes s = .ok (.ok bytes) ↔ HexString s.toList bytes) ∧
      ((¬ ∃ bytes, HexString s.toList bytes) →
        ∃ msg, parseHexBytes s = .ok (.error (.invalidParams msg)))) ↔
      ¬ Lenient s.toList := by
  constructor
  · rintro ⟨hexact, -⟩ hl
    obtain ⟨m, n, pairs, bytes, hs, hp, -⟩ := id hl
    have hb : BytePairs (stripHexPrefix s) bytes := by
      rwa [stripHexPrefix_prefixed hs hp]
    exact ((hexact bytes).mp (parseHexBytes_bytePairs hb)).not_lenient hl
  · intro hl
    refine ⟨fun bytes => ⟨fun hb => ?_, fun hx => parseHexBytes_bytePairs hx.bytePairs⟩, ?_⟩
    · exact hexString_of_bytePairs ((parseHexBytes_ok_iff h).mp hb) hl
    · intro hn
      obtain ⟨bytes, hp, -⟩ | hm :=
        parseHexBytes_cases (not_cutsCharacter_ascii (ascii_stripHexPrefix h))
      · exact absurd ⟨bytes, hexString_of_bytePairs hp hl⟩ hn
      · exact hm

theorem parseHexBytes_exact_iff_upper : Ascii "0x1AF0".toList ∧ ¬ Lenient "0x1AF0".toList ∧
    ((∀ bytes, parseHexBytes "0x1AF0" = .ok (.ok bytes) ↔ HexString "0x1AF0".toList bytes) ∧
      ((¬ ∃ bytes, HexString "0x1AF0".toList bytes) →
        ∃ msg, parseHexBytes "0x1AF0" = .ok (.error (.invalidParams msg)))) := by
  have ha : Ascii "0x1AF0".toList := by decide
  have hd : HexString "0x1AF0".toList [0x1A, 0xF0] :=
    ⟨"1AF0".toList, .cons (m := 1) (n := 10) rfl rfl (.cons (m := 15) (n := 0) rfl rfl .nil),
      .inr (.inl rfl)⟩
  exact ⟨ha, hd.not_lenient, (parseHexBytes_exact_iff _ ha).mpr hd.not_lenient⟩

/-- A sign in front of a digit and a second prefix are accepted. -/
theorem parseHexBytes_lenient :
    Ascii "+A".toList ∧ parseHexBytes "+A" = .ok (.ok [0x0A]) ∧ ¬ HexString "+A".toList [0x0A] ∧
      Ascii "0x0X12".toList ∧ parseHexBytes "0x0X12" = .ok (.ok [0x12]) ∧
      ¬ HexString "0x0X12".toList [0x12] := by
  refine ⟨by decide, by rfl, fun h => ?_, by decide, by rfl, fun h => ?_⟩
  · exact h.not_lenient ⟨0, 0, "+A".toList, [0x0A], rfl, .cons rfl .nil, .inr (by decide)⟩
  · exact h.not_lenient ⟨1, 1, "12".toList, [0x12], rfl, .cons rfl .nil, .inl (by decide)⟩

end Ascii

end Mcanbus.Server
