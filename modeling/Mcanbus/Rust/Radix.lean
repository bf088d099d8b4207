import Mcanbus.Rust.Format
import Mcanbus.Rust.Text

/-! # Parsing of numbers

The unsigned `from_str_radix`: an optional sign `+` and digits, read from the
most significant one. What the formats of the hexadecimal digits print is read
back as the number.
-/

namespace Rust

inductive ParseIntError
  | Empty
  | InvalidDigit
  | PosOverflow
  deriving DecidableEq, Repr

def ParseIntError.display : ParseIntError → String
  | .Empty => "cannot parse integer from empty string"
  | .InvalidDigit => "invalid digit found in string"
  | .PosOverflow => "number too large to fit in target type"

/-- The value of a digit or of a letter used as a digit. -/
def digitValue (c : Char) : Option ℕ :=
  if '0' ≤ c ∧ c ≤ '9' then some (c.toNat - '0'.toNat)
  else if 'a' ≤ c ∧ c ≤ 'z' then some (c.toNat - 'a'.toNat + 10)
  else if 'A' ≤ c ∧ c ≤ 'Z' then some (c.toNat - 'A'.toNat + 10)
  else none

/-- `char::to_digit`. -/
def toDigit (radix : ℕ) (c : Char) : Option ℕ := (digitValue c).filter (· < radix)

/-- Read digits behind a number; the values of the type are those below `bound`. -/
def parseDigits (radix bound acc : ℕ) : List Char → Except ParseIntError ℕ
  | [] => .ok acc
  | c :: s =>
    match toDigit radix c with
    | none => .error .InvalidDigit
    | some d =>
      if acc * radix + d < bound then parseDigits radix bound (acc * radix + d) s
      else .error .PosOverflow

/-- `from_str_radix` of an unsigned type with the values below `bound`. -/
def fromStrRadix (radix bound : ℕ) (s : List Char) : Except ParseIntError ℕ :=
  if s = [] then .error .Empty
  else if s = ['+'] ∨ s = ['-'] then .error .InvalidDigit
  else if s.head? = some '+' then parseDigits radix bound 0 s.tail
  else parseDigits radix bound 0 s

def parseU8 (s : List Char) : Except ParseIntError UInt8 := (fromStrRadix 16 (2 ^ 8) s).map .ofNat

def parseU32 (s : List Char) : Except ParseIntError UInt32 :=
  (fromStrRadix 16 (2 ^ 32) s).map .ofNat

example : parseU8 "+F".toList = .ok 15 ∧ parseU8 "100".toList = .error .PosOverflow := by decide

section Digits

variable {radix bound acc d : ℕ} {a b c : Char}

theorem toDigit_lt (h : toDigit radix c = some d) : d < radix := by
  simp only [toDigit, Option.filter_eq_some_iff, decide_eq_true_eq] at h
  exact h.2

/-- The hexadecimal digits are the characters of three ranges. -/
theorem toDigit_isSome_iff : (toDigit 16 c).isSome ↔
    ('0' ≤ c ∧ c ≤ '9') ∨ ('a' ≤ c ∧ c ≤ 'f') ∨ ('A' ≤ c ∧ c ≤ 'F') := by
  simp only [toDigit, digitValue, Char.le_def, UInt32.le_iff_toNat_le, Char.toNat]
  simp only [Char.reduceVal, UInt32.reduceToNat]
  split_ifs <;>
    simp only [Option.isSome_filter, Option.any_some, Option.any_none, decide_eq_true_eq,
      Bool.false_eq_true, false_iff] <;>
    omega

/-- A digit takes one byte. -/
theorem utf8Size_of_toDigit (h : toDigit 16 c = some d) : c.utf8Size = 1 := by
  have hr := toDigit_isSome_iff.mp (Option.isSome_of_eq_some h)
  simp only [Char.le_def, UInt32.le_iff_toNat_le] at hr
  simp only [Char.reduceVal, UInt32.reduceToNat] at hr
  rw [Char.utf8Size_eq_one_iff, UInt32.le_iff_toNat_le]
  simp only [UInt32.reduceToNat]
  omega

theorem parseDigits_cons (h : toDigit radix c = some d) (hb : acc * radix + d < bound)
    (s : List Char) :
    parseDigits radix bound acc (c :: s) = parseDigits radix bound (acc * radix + d) s := by
  simp [parseDigits, h, hb]

theorem parseDigits_cons_ok {s : List Char} {n : ℕ}
    (h : parseDigits radix bound acc (c :: s) = .ok n) :
    ∃ d, toDigit radix c = some d ∧ acc * radix + d < bound ∧
      parseDigits radix bound (acc * radix + d) s = .ok n := by
  unfold parseDigits at h
  split at h
  case h_1 => cases h
  case h_2 d hd =>
    split at h
    case isTrue hb => exact ⟨d, hd, hb, h⟩
    case isFalse => cases h

/-- A parsed text is its digits, with or without a sign. -/
theorem fromStrRadix_ok {s : List Char} {n : ℕ} (h : fromStrRadix radix bound s = .ok n) :
    ∃ t, (s = t ∨ s = '+' :: t) ∧ parseDigits radix bound 0 t = .ok n := by
  unfold fromStrRadix at h
  split_ifs at h with _ _ hp
  · obtain ⟨t, rfl⟩ := List.head?_eq_some_iff.mp hp
    exact ⟨t, .inr rfl, h⟩
  · exact ⟨s, .inl rfl, h⟩

theorem fromStrRadix_sign (b : Char) (s : List Char) :
    fromStrRadix radix bound ('+' :: b :: s) = parseDigits radix bound 0 (b :: s) := by
  simp [fromStrRadix]

theorem fromStrRadix_digit {s : List Char} (h : toDigit radix a = some d) :
    fromStrRadix radix bound (a :: s) = parseDigits radix bound 0 (a :: s) := by
  have hv : (digitValue a).isSome := by
    rw [toDigit, Option.filter_eq_some_iff] at h
    exact Option.isSome_of_eq_some h.1
  have hplus : a ≠ '+' := by
    rintro rfl
    exact absurd hv (by decide)
  have hminus : a ≠ '-' := by
    rintro rfl
    exact absurd hv (by decide)
  simp [fromStrRadix, hplus, hminus]

theorem parseU8_ok {s : List Char} {v : UInt8} :
    parseU8 s = .ok v ↔ ∃ n, fromStrRadix 16 (2 ^ 8) s = .ok n ∧ v = .ofNat n := by
  unfold parseU8
  cases fromStrRadix 16 (2 ^ 8) s with
  | error e => simp [Except.map]
  | ok n => simp [Except.map, eq_comm]

/-- Two characters are read as a byte when they are two digits or a sign and a digit. -/
theorem parseU8_pair {v : UInt8} : parseU8 [a, b] = .ok v ↔
    ∃ n, toDigit 16 b = some n ∧ ((a = '+' ∧ v = .ofNat n) ∨
      ∃ m, toDigit 16 a = some m ∧ v = .ofNat (16 * m + n)) := by
  rw [parseU8_ok]
  constructor
  · rintro ⟨k, hk, rfl⟩
    by_cases ha : a = '+'
    · rw [ha, fromStrRadix_sign] at hk
      obtain ⟨n, hn, -, hd⟩ := parseDigits_cons_ok hk
      cases hd
      exact ⟨n, hn, .inl ⟨ha, by rw [Nat.zero_mul, Nat.zero_add]⟩⟩
    · obtain ⟨t, rfl | ht, hd⟩ := fromStrRadix_ok hk
      · obtain ⟨m, hm, -, hd'⟩ := parseDigits_cons_ok hd
        obtain ⟨n, hn, -, hk'⟩ := parseDigits_cons_ok hd'
        cases hk'
        exact ⟨n, hn, .inr ⟨m, hm, by rw [Nat.zero_mul, Nat.zero_add, Nat.mul_comm]⟩⟩
      · exact absurd (List.cons.inj ht).1 ha
  · rintro ⟨n, hb, ⟨rfl, rfl⟩ | ⟨m, ha, rfl⟩⟩
    · have hn := toDigit_lt hb
      refine ⟨0 * 16 + n, ?_, by rw [Nat.zero_mul, Nat.zero_add]⟩
      rw [fromStrRadix_sign, parseDigits_cons hb (by omega)]
      rfl
    · have hm := toDigit_lt ha
      have hn := toDigit_lt hb
      refine ⟨(0 * 16 + m) * 16 + n, ?_, by rw [Nat.zero_mul, Nat.zero_add, Nat.mul_comm]⟩
      rw [fromStrRadix_digit ha, parseDigits_cons ha (by omega), parseDigits_cons hb (by omega)]
      rfl

/-- A character of several bytes is not read as a byte. -/
theorem parseU8_wide (h : a.utf8Size ≠ 1) : ∃ e, parseU8 [a] = .error e := by
  have hd : toDigit 16 a = none := by
    cases hd : toDigit 16 a with
    | none => rfl
    | some d => exact absurd (utf8Size_of_toDigit hd) h
  have hplus : a ≠ '+' := by
    rintro rfl
    exact h (by decide)
  refine ⟨.InvalidDigit, ?_⟩
  simp [parseU8, fromStrRadix, hplus, parseDigits, hd, Except.map]

end Digits

/-! ### Hexadecimal digits -/

/-- The upper-case hexadecimal digits of a number. -/
def upperDigits (n : ℕ) : List Char := (Nat.toDigits 16 n).map Char.toUpper

/-- A digit that the upper-case formats print. -/
def upperDigit (d : ℕ) : Char := d.digitChar.toUpper

theorem toDigit_upperDigit {d : ℕ} (h : d < 16) : toDigit 16 (upperDigit d) = some d :=
  (by decide : ∀ d < 16, toDigit 16 (upperDigit d) = some d) d h

theorem utf8Size_upperDigit {d : ℕ} (h : d < 16) : (upperDigit d).utf8Size = 1 :=
  (by decide : ∀ d < 16, (upperDigit d).utf8Size = 1) d h

theorem upperDigits_of_lt {n : ℕ} (h : n < 16) : upperDigits n = [upperDigit n] := by
  rw [upperDigits, Nat.toDigits_of_lt_base h]
  rfl

theorem upperDigits_of_le {n : ℕ} (h : 16 ≤ n) :
    upperDigits n = upperDigits (n / 16) ++ [upperDigit (n % 16)] := by
  rw [upperDigits, Nat.toDigits_of_base_le (by decide) h, List.map_append]
  rfl

theorem toList_upperHex (width n : ℕ) : (upperHex width n).toList =
    List.replicate (width - (upperDigits n).length) '0' ++ upperDigits n := by
  simp [upperHex, upperDigits]

/-- The digits are those of the values below sixteen. -/
theorem mem_upperDigits {n : ℕ} {c : Char} (h : c ∈ upperDigits n) :
    ∃ d < 16, c = upperDigit d := by
  induction n using Nat.strongRecOn with
  | ind n ih =>
    rcases Nat.lt_or_ge n 16 with hn | hn
    · rw [upperDigits_of_lt hn, List.mem_singleton] at h
      exact ⟨n, hn, h⟩
    · rw [upperDigits_of_le hn, List.mem_append, List.mem_singleton] at h
      rcases h with h | h
      · exact ih (n / 16) (by omega) h
      · exact ⟨n % 16, by omega, h⟩

/-- A character of a hexadecimal format is a digit below sixteen. -/
theorem mem_upperHex {width n : ℕ} {c : Char} (h : c ∈ (upperHex width n).toList) :
    ∃ d < 16, c = upperDigit d := by
  rw [toList_upperHex, List.mem_append] at h
  rcases h with h | h
  · exact ⟨0, by decide, List.eq_of_mem_replicate h⟩
  · exact mem_upperDigits h

theorem ascii_upperHex (width n : ℕ) : Ascii (upperHex width n).toList := by
  intro c hc
  obtain ⟨d, hd, rfl⟩ := mem_upperHex hc
  exact utf8Size_upperDigit hd

theorem notMem_upperHex {width n : ℕ} {c : Char} (hc : toDigit 16 c = none) :
    c ∉ (upperHex width n).toList := by
  intro h
  obtain ⟨d, hd, rfl⟩ := mem_upperHex h
  rw [toDigit_upperDigit hd] at hc
  cases hc

/-- A number that has at most as many digits as the width fills exactly the width. -/
theorem length_upperHex {width n : ℕ} (hw : 0 < width) (h : n < 16 ^ width) :
    (upperHex width n).toList.length = width := by
  have hd : (upperDigits n).length ≤ width := by
    rw [upperDigits, List.length_map, Nat.length_toDigits_le_iff (by decide) hw]
    exact h
  rw [toList_upperHex, List.length_append, List.length_replicate]
  omega

/-! ### Reading a number back -/

section RoundTrip

variable {radix bound acc n : ℕ} {s t : List Char}

theorem parseDigits_append {m : ℕ} (h : parseDigits radix bound acc s = .ok m) :
    parseDigits radix bound acc (s ++ t) = parseDigits radix bound m t := by
  induction s generalizing acc with
  | nil =>
    cases h
    rfl
  | cons c s ih =>
    unfold parseDigits at h
    rw [List.cons_append, parseDigits]
    cases hd : toDigit radix c with
    | none =>
      rw [hd] at h
      cases h
    | some d =>
      rw [hd] at h
      dsimp only at h ⊢
      split at h
      case isTrue hb =>
        rw [if_pos hb]
        exact ih h
      case isFalse => cases h

theorem parseDigits_upperDigits (h : n < bound) :
    parseDigits 16 bound 0 (upperDigits n) = .ok n := by
  induction n using Nat.strongRecOn with
  | ind n ih =>
    rcases Nat.lt_or_ge n 16 with hn | hn
    · rw [upperDigits_of_lt hn, parseDigits, toDigit_upperDigit hn]
      simp [h, parseDigits]
    · have hd := ih (n / 16) (by omega) (by omega)
      have hv : n / 16 * 16 + n % 16 = n := by omega
      rw [upperDigits_of_le hn, parseDigits_append hd, parseDigits,
        toDigit_upperDigit (Nat.mod_lt n (by decide))]
      simp [hv, h, parseDigits]

theorem parseDigits_zeros (k : ℕ) (h : 0 < bound) :
    parseDigits 16 bound 0 (List.replicate k '0') = .ok 0 := by
  induction k with
  | zero => rfl
  | succ k ih =>
    rw [List.replicate_succ, parseDigits, show toDigit 16 '0' = some 0 by decide]
    simpa [h] using ih

theorem parseDigits_upperHex (width : ℕ) (h : n < bound) :
    parseDigits 16 bound 0 (upperHex width n).toList = .ok n := by
  rw [toList_upperHex, parseDigits_append (parseDigits_zeros _ (Nat.zero_lt_of_lt h))]
  exact parseDigits_upperDigits h

/-- Two numbers that are printed alike are equal. -/
theorem upperHex_inj {width width' m n : ℕ}
    (h : (upperHex width m).toList = (upperHex width' n).toList) : m = n := by
  have hm := parseDigits_upperHex width (show m < max m n + 1 by omega)
  have hn := parseDigits_upperHex width' (show n < max m n + 1 by omega)
  rw [h, hn] at hm
  exact (Except.ok.inj hm).symm

/-- A concatenation of blocks of one positive length determines the blocks. -/
theorem flatMap_injective {α β : Type*} {g : α → List β} {k : ℕ} (hk : 0 < k)
    (hlen : ∀ a, (g a).length = k) (hg : Function.Injective g) :
    Function.Injective (List.flatMap g) := by
  have hne (a : α) (l : List α) : (a :: l).flatMap g ≠ [] := by
    intro h
    have hn := congrArg List.length h
    simp only [List.flatMap_cons, List.length_append, hlen, List.length_nil] at hn
    omega
  intro l
  induction l with
  | nil =>
    intro l' h
    cases l' with
    | nil => rfl
    | cons b l' => exact absurd h.symm (hne b l')
  | cons a l ih =>
    intro l' h
    cases l' with
    | nil => exact absurd h (hne a l)
    | cons b l' =>
      simp only [List.flatMap_cons] at h
      obtain ⟨hhead, htail⟩ := List.append_inj h (by simp [hlen])
      rw [hg hhead, ih htail]

/-- What a hexadecimal format prints is parsed as the number. -/
theorem fromStrRadix_upperHex (width : ℕ) (h : n < bound) :
    fromStrRadix 16 bound (upperHex width n).toList = .ok n := by
  have hplus : '+' ∉ (upperHex width n).toList := notMem_upperHex (by decide)
  have hminus : '-' ∉ (upperHex width n).toList := notMem_upperHex (by decide)
  have hnil : (upperHex width n).toList ≠ [] := by
    rw [toList_upperHex]
    simp [upperDigits]
  have hhead : (upperHex width n).toList.head? ≠ some '+' :=
    fun he => hplus (List.mem_of_mem_head? he)
  unfold fromStrRadix
  rw [if_neg hnil, if_neg, if_neg hhead, parseDigits_upperHex width h]
  rintro (he | he)
  · exact hplus (he ▸ List.mem_singleton_self _)
  · exact hminus (he ▸ List.mem_singleton_self _)

theorem parseU8_upperHex (width : ℕ) (b : UInt8) :
    parseU8 (upperHex width b.toNat).toList = .ok b := by
  rw [parseU8, fromStrRadix_upperHex width b.toNat_lt]
  simp [Except.map]

theorem parseU32_upperHex (width : ℕ) (w : UInt32) :
    parseU32 (upperHex width w.toNat).toList = .ok w := by
  rw [parseU32, fromStrRadix_upperHex width w.toNat_lt]
  simp [Except.map]

end RoundTrip

/-! ### Printed numbers -/

section Printed

variable {radix bound n : ℕ} {c : Char}

theorem toDigit_digitChar {d : ℕ} (h : d < radix) (hr : radix ≤ 16) :
    toDigit radix d.digitChar = some d := by
  have hv : digitValue d.digitChar = some d :=
    (by decide : ∀ d < 16, digitValue d.digitChar = some d) d (Nat.lt_of_lt_of_le h hr)
  rw [toDigit, hv, Option.filter_some, if_pos (decide_eq_true h)]

theorem mem_toDigits (hr : 1 < radix) (h : c ∈ Nat.toDigits radix n) :
    ∃ d < radix, c = d.digitChar := by
  induction n using Nat.strongRecOn with
  | ind n ih =>
    rcases Nat.lt_or_ge n radix with hn | hn
    · rw [Nat.toDigits_of_lt_base hn, List.mem_singleton] at h
      exact ⟨n, hn, h⟩
    · rw [Nat.toDigits_of_base_le hr hn, List.mem_append, List.mem_singleton] at h
      rcases h with h | h
      · exact ih (n / radix) (Nat.div_lt_self (by omega) hr) h
      · exact ⟨n % radix, Nat.mod_lt n (by omega), h⟩

/-- The digits of a number are read back. -/
theorem parseDigits_toDigits (hr : 1 < radix) (hr' : radix ≤ 16) (h : n < bound) :
    parseDigits radix bound 0 (Nat.toDigits radix n) = .ok n := by
  induction n using Nat.strongRecOn with
  | ind n ih =>
    rcases Nat.lt_or_ge n radix with hn | hn
    · rw [Nat.toDigits_of_lt_base hn, parseDigits, toDigit_digitChar hn hr']
      simp [h, parseDigits]
    · have hlt : n / radix < n := Nat.div_lt_self (by omega) hr
      have hd := ih (n / radix) hlt (Nat.lt_trans hlt h)
      have hv : n / radix * radix + n % radix = n := Nat.div_add_mod' n radix
      rw [Nat.toDigits_of_base_le hr hn, parseDigits_append hd, parseDigits,
        toDigit_digitChar (Nat.mod_lt n (by omega)) hr']
      simp [hv, h, parseDigits]

theorem fromStrRadix_toDigits (hr : 1 < radix) (hr' : radix ≤ 16) (h : n < bound) :
    fromStrRadix radix bound (Nat.toDigits radix n) = .ok n := by
  obtain ⟨c, s, hs⟩ := List.exists_cons_of_ne_nil (Nat.toDigits_ne_nil (n := n) (b := radix))
  obtain ⟨d, hd, rfl⟩ := mem_toDigits hr (hs ▸ List.mem_cons_self : c ∈ Nat.toDigits radix n)
  rw [hs, fromStrRadix_digit (toDigit_digitChar hd hr'), ← hs, parseDigits_toDigits hr hr' h]

theorem toDigits_inj {m : ℕ} (hr : 1 < radix) (hr' : radix ≤ 16)
    (h : Nat.toDigits radix m = Nat.toDigits radix n) : m = n := by
  have hm := parseDigits_toDigits hr hr' (show m < max m n + 1 by omega)
  rw [h, parseDigits_toDigits hr hr' (show n < max m n + 1 by omega)] at hm
  exact (Except.ok.inj hm).symm

end Printed

end Rust
