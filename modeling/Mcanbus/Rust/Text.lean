import Mcanbus.Rust.Checked

/-! # Text

A string is a list of characters that occupies the bytes of its UTF-8
encoding. Lengths and slices count bytes, and a slice that cuts a character
panics.
-/

namespace Rust

/-- The length of a string in bytes. -/
def utf8Len (s : List Char) : ℕ := (s.map Char.utf8Size).sum

/-- The string up to a byte offset, and from it on. -/
def splitAtByte : List Char → ℕ → Checked (List Char × List Char)
  | s, 0 => .ok ([], s)
  | [], _ + 1 => .error .sliceRange
  | c :: s, n + 1 =>
    if c.utf8Size ≤ n + 1 then do
      let (before, after) ← splitAtByte s (n + 1 - c.utf8Size)
      return (c :: before, after)
    else .error .sliceRange

/-- The slice `s[a..b]` of a string. -/
def strSlice (s : List Char) (a b : ℕ) : Checked (List Char) :=
  if a ≤ b then do
    let (_, after) ← splitAtByte s a
    let (before, _) ← splitAtByte after (b - a)
    return before
  else .error .sliceRange

/-- The string without its first repetitions of the pattern, at most `fuel` of them. -/
def trimPrefixes (pat : List Char) : ℕ → List Char → List Char
  | 0, s => s
  | fuel + 1, s =>
    if pat.isPrefixOf s then trimPrefixes pat fuel (s.drop pat.length) else s

/-- `str::trim_start_matches` for a pattern that is not empty. -/
def trimStartMatches (pat s : List Char) : List Char := trimPrefixes pat s.length s

/-- The property `White_Space` of Unicode. -/
def isWhitespace (c : Char) : Bool :=
  let n := c.toNat
  (9 ≤ n && n ≤ 13) || n == 0x20 || n == 0x85 || n == 0xA0 || n == 0x1680 ||
    (0x2000 ≤ n && n ≤ 0x200A) || n == 0x2028 || n == 0x2029 || n == 0x202F || n == 0x205F ||
    n == 0x3000

def trimStart (s : List Char) : List Char := s.dropWhile isWhitespace

def trimEnd (s : List Char) : List Char := (s.reverse.dropWhile isWhitespace).reverse

/-- `str::trim`. -/
def trim (s : List Char) : List Char := trimEnd (trimStart s)

/-- The pieces of a string between the occurrences of a character. -/
def splitChar (sep : Char) : List Char → List (List Char)
  | [] => [[]]
  | c :: s =>
    if c = sep then [] :: splitChar sep s
    else match splitChar sep s with
      | [] => [[c]]
      | piece :: pieces => (c :: piece) :: pieces

/-- `str::from_utf8`, without the reason for which it fails. -/
def fromUtf8 (bytes : List UInt8) : Option String := String.fromUTF8? ⟨bytes.toArray⟩

/-- The text behind the first occurrence of a pattern. -/
def afterFirst (pat : List Char) : List Char → Option (List Char)
  | [] => if pat = [] then some [] else none
  | c :: s =>
    if pat.isPrefixOf (c :: s) then some ((c :: s).drop pat.length) else afterFirst pat s

/-- `str::to_ascii_lowercase`. -/
def toAsciiLowercase (s : List Char) : List Char := s.map Char.toLower

section Ascii

variable {s t : List Char} {pat : List Char} {n : ℕ}

/-- Every character of the string takes one byte. -/
def Ascii (s : List Char) : Prop := ∀ c ∈ s, c.utf8Size = 1

instance : DecidablePred Ascii := fun s => List.decidableBAll (fun c : Char => c.utf8Size = 1) s

theorem Ascii.tail {c : Char} (h : Ascii (c :: s)) : Ascii s :=
  fun d hd => h d (List.mem_cons_of_mem c hd)

theorem Ascii.append (hs : Ascii s) (ht : Ascii t) : Ascii (s ++ t) :=
  fun c hc => (List.mem_append.mp hc).elim (hs c) (ht c)

theorem Ascii.drop (h : Ascii s) (n : ℕ) : Ascii (s.drop n) :=
  fun c hc => h c (List.mem_of_mem_drop hc)

theorem utf8Len_ascii (h : Ascii s) : utf8Len s = s.length := by
  induction s with
  | nil => rfl
  | cons c s ih =>
    have hs := ih h.tail
    unfold utf8Len at hs ⊢
    rw [List.map_cons, List.sum_cons, hs, h c List.mem_cons_self, List.length_cons, Nat.add_comm]

theorem splitAtByte_ascii (h : Ascii s) (hn : n ≤ s.length) :
    splitAtByte s n = .ok (s.take n, s.drop n) := by
  induction s generalizing n with
  | nil =>
    obtain rfl : n = 0 := Nat.le_zero.mp hn
    rfl
  | cons c s ih =>
    cases n with
    | zero => rfl
    | succ n =>
      have hs := ih h.tail (Nat.le_of_succ_le_succ hn)
      unfold splitAtByte
      rw [h c List.mem_cons_self, if_pos (Nat.le_add_left 1 n), Nat.add_sub_cancel, hs]
      rfl

theorem strSlice_ascii {a b : ℕ} (h : Ascii s) (ha : a ≤ b) (hb : b ≤ s.length) :
    strSlice s a b = .ok ((s.drop a).take (b - a)) := by
  have hl : b - a ≤ (s.drop a).length := by
    rw [List.length_drop]
    omega
  unfold strSlice
  rw [if_pos ha, splitAtByte_ascii h (Nat.le_trans ha hb)]
  simp only [ok_bind, splitAtByte_ascii (h.drop a) hl]
  rfl

end Ascii

theorem fromUtf8_eq_some {bytes : List UInt8} {s : String} :
    fromUtf8 bytes = some s ↔ bytes = s.toByteArray.data.toList := by
  unfold fromUtf8 String.fromUTF8?
  constructor
  · intro h
    split at h
    case isTrue hv =>
      cases h
      rfl
    case isFalse => cases h
  · rintro rfl
    exact dif_pos s.isValidUTF8

/-! ### The first occurrence of a pattern -/

theorem afterFirst_none {pat s : List Char} (h : ¬ pat <:+: s) : afterFirst pat s = none := by
  induction s with
  | nil =>
    rw [afterFirst, if_neg]
    rintro rfl
    exact h List.infix_rfl
  | cons c s ih =>
    rw [afterFirst, if_neg fun hp => h (List.isPrefixOf_iff_prefix.mp hp).isInfix]
    exact ih fun hi => h (List.infix_cons hi)

theorem afterFirst_some {pat before after : List Char}
    (h : ∀ u v, before ++ (pat ++ after) = u ++ (pat ++ v) → before.length ≤ u.length) :
    afterFirst pat (before ++ (pat ++ after)) = some after := by
  induction before with
  | nil =>
    cases hs : pat ++ after with
    | nil =>
      obtain ⟨rfl, rfl⟩ := List.append_eq_nil_iff.mp hs
      rfl
    | cons c s =>
      have hp : pat.isPrefixOf (c :: s) = true :=
        List.isPrefixOf_iff_prefix.mpr (hs ▸ List.prefix_append pat after)
      rw [List.nil_append, afterFirst, if_pos hp, ← hs, List.drop_left]
  | cons c before ih =>
    rw [List.cons_append, afterFirst, if_neg]
    · refine ih fun u v he => ?_
      exact Nat.le_of_succ_le_succ (h (c :: u) v (congrArg (c :: ·) he))
    · intro hp
      obtain ⟨v, hv⟩ := List.isPrefixOf_iff_prefix.mp hp
      exact Nat.not_succ_le_zero _ (h [] v hv.symm)

/-! ### Byte offsets -/

section Offsets

variable {a b : Char} {s t : List Char}

@[simp] theorem utf8Len_nil : utf8Len [] = 0 := rfl

@[simp] theorem utf8Len_cons : utf8Len (a :: s) = a.utf8Size + utf8Len s := by
  simp [utf8Len]

@[simp] theorem utf8Len_append : utf8Len (s ++ t) = utf8Len s + utf8Len t := by
  simp [utf8Len]

/-- The end of a prefix is a character boundary. -/
theorem splitAtByte_append (s t : List Char) : splitAtByte (s ++ t) (utf8Len s) = .ok (s, t) := by
  induction s with
  | nil => cases t <;> rfl
  | cons c s ih =>
    have hc := c.utf8Size_pos
    obtain ⟨n, hn⟩ : ∃ n, c.utf8Size + utf8Len s = n + 1 := ⟨c.utf8Size + utf8Len s - 1, by omega⟩
    have hr : n + 1 - c.utf8Size = utf8Len s := by omega
    simp only [List.cons_append, utf8Len_cons, hn, splitAtByte, hr, ih]
    simp [show c.utf8Size ≤ n + 1 by omega]

/-- A slice that starts at the end of a prefix. -/
theorem strSlice_append (s t : List Char) (n : ℕ) :
    strSlice (s ++ t) (utf8Len s) (utf8Len s + n) = (splitAtByte t n).map Prod.fst := by
  simp only [strSlice, Nat.le_add_right, if_true, splitAtByte_append, ok_bind,
    Nat.add_sub_cancel_left]
  cases splitAtByte t n <;> rfl

/-- The ways to take two bytes from a text: two characters, one character, or a cut through
the first or the second one. -/
theorem splitAtByte_two_narrow (ha : a.utf8Size = 1) (hb : b.utf8Size = 1) :
    splitAtByte (a :: b :: s) 2 = .ok ([a, b], s) := by
  have h := splitAtByte_append [a, b] s
  simpa [ha, hb] using h

theorem splitAtByte_two_wide (ha : a.utf8Size = 2) : splitAtByte (a :: s) 2 = .ok ([a], s) := by
  have h := splitAtByte_append [a] s
  simpa [ha] using h

theorem splitAtByte_two_long (ha : 2 < a.utf8Size) :
    splitAtByte (a :: s) 2 = .error .sliceRange := by
  simp [splitAtByte, Nat.not_le.mpr ha]

theorem splitAtByte_two_cut (ha : a.utf8Size = 1) (hb : 1 < b.utf8Size) :
    splitAtByte (a :: b :: s) 2 = .error .sliceRange := by
  simp only [splitAtByte, ha, Nat.reduceAdd, Nat.reduceSub, Nat.reduceLeDiff, if_true,
    Nat.not_le.mpr hb, if_false]
  rfl

end Offsets

/-! ### Prefixes -/

section Prefixes

variable {pat s : List Char}

theorem trimPrefixes_replicate (h : pat.isPrefixOf s = false) (n : ℕ) {fuel : ℕ} (hf : n ≤ fuel) :
    trimPrefixes pat fuel ((List.replicate n pat).flatten ++ s) = s := by
  induction n generalizing fuel with
  | zero => cases fuel <;> simp [trimPrefixes, h]
  | succ n ih =>
    obtain ⟨fuel, rfl⟩ : ∃ k, fuel = k + 1 := ⟨fuel - 1, by omega⟩
    have hs := ih (Nat.le_of_succ_le_succ hf)
    have hp : pat.isPrefixOf (pat ++ ((List.replicate n pat).flatten ++ s)) = true := by
      rw [List.isPrefixOf_iff_prefix]
      exact List.prefix_append _ _
    simp only [List.replicate_succ, List.flatten_cons, List.append_assoc, trimPrefixes, hp,
      if_true, List.drop_left, hs]

/-- All repetitions of the pattern are removed from the start of a string. -/
theorem trimStartMatches_replicate (hp : pat ≠ []) (h : pat.isPrefixOf s = false) (n : ℕ) :
    trimStartMatches pat ((List.replicate n pat).flatten ++ s) = s := by
  apply trimPrefixes_replicate h
  have hl : 1 ≤ pat.length := List.length_pos_of_ne_nil hp
  simp only [List.length_append, List.length_flatten, List.map_replicate, List.sum_replicate_nat]
  have := Nat.le_mul_of_pos_right n hl
  omega

/-- What is removed is repetitions of the pattern. -/
theorem exists_trimPrefixes (pat s : List Char) (fuel : ℕ) :
    ∃ n, s = (List.replicate n pat).flatten ++ trimPrefixes pat fuel s := by
  induction fuel generalizing s with
  | zero => exact ⟨0, rfl⟩
  | succ fuel ih =>
    unfold trimPrefixes
    split
    case isTrue h =>
      rw [List.isPrefixOf_iff_prefix] at h
      obtain ⟨t, rfl⟩ := h
      obtain ⟨n, hn⟩ := ih t
      refine ⟨n + 1, ?_⟩
      rw [List.drop_left, List.replicate_succ, List.flatten_cons, List.append_assoc, ← hn]
    case isFalse => exact ⟨0, rfl⟩

theorem exists_trimStartMatches (pat s : List Char) :
    ∃ n, s = (List.replicate n pat).flatten ++ trimStartMatches pat s :=
  exists_trimPrefixes pat s s.length

end Prefixes

/-- A text is split at the first separator in one way. -/
theorem append_sep_inj {sep : Char} {s t u v : List Char} (hs : sep ∉ s) (ht : sep ∉ t)
    (h : s ++ sep :: u = t ++ sep :: v) : s = t ∧ u = v := by
  induction s generalizing t with
  | nil =>
    cases t with
    | nil => exact ⟨rfl, (List.cons.inj h).2⟩
    | cons d t =>
      obtain ⟨rfl, -⟩ := List.cons.inj h
      exact absurd List.mem_cons_self ht
  | cons c s ih =>
    cases t with
    | nil =>
      obtain ⟨rfl, -⟩ := List.cons.inj h
      exact absurd List.mem_cons_self hs
    | cons d t =>
      obtain ⟨rfl, h'⟩ := List.cons.inj h
      simp only [List.mem_cons, not_or] at hs ht
      obtain ⟨rfl, rfl⟩ := ih hs.2 ht.2 h'
      exact ⟨rfl, rfl⟩

/-- A string that lacks a character of the pattern does not start with it. -/
theorem trimStartMatches_of_notMem {pat s : List Char} {c : Char} (hp : c ∈ pat) (hs : c ∉ s) :
    trimStartMatches pat s = s := by
  have hpre : pat.isPrefixOf s = false := by
    rw [Bool.eq_false_iff, ne_eq, List.isPrefixOf_iff_prefix]
    exact fun h => hs (h.subset hp)
  unfold trimStartMatches
  cases s.length with
  | zero => rfl
  | succ n => simp [trimPrefixes, hpre]

end Rust
