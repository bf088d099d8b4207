import Mcanbus.Rust.Checked

/-! # Words in native byte order

A `u32` occupies four bytes of memory in the byte order of the target and a
`u16` two. Reading the bytes back in the same order returns the word.
-/

namespace Rust

/-- The byte order of the target. -/
inductive Endian | little | big
  deriving DecidableEq, Repr

namespace Endian

variable (e : Endian)

/-- The bytes of a word from the least significant one. -/
def leBytes (w : UInt32) : List UInt8 :=
  [.ofNat w.toNat, .ofNat (w.toNat / 2 ^ 8), .ofNat (w.toNat / 2 ^ 16), .ofNat (w.toNat / 2 ^ 24)]

/-- The memory representation of a word. -/
def toNeBytes (w : UInt32) : List UInt8 :=
  match e with
  | little => leBytes w
  | big => (leBytes w).reverse

/-- The word whose bytes are given from the least significant one. -/
def fromLeBytes (b₀ b₁ b₂ b₃ : UInt8) : UInt32 :=
  .ofNat (b₀.toNat + 2 ^ 8 * b₁.toNat + 2 ^ 16 * b₂.toNat + 2 ^ 24 * b₃.toNat)

/-- `u32::from_ne_bytes` of four bytes in memory order. -/
def fromNeBytes (b₀ b₁ b₂ b₃ : UInt8) : UInt32 :=
  match e with
  | little => fromLeBytes b₀ b₁ b₂ b₃
  | big => fromLeBytes b₃ b₂ b₁ b₀

@[simp] theorem length_toNeBytes (w : UInt32) : (e.toNeBytes w).length = 4 := by
  cases e <;> rfl

theorem fromLeBytes_leBytes (w : UInt32) :
    fromLeBytes (.ofNat w.toNat) (.ofNat (w.toNat / 2 ^ 8)) (.ofNat (w.toNat / 2 ^ 16))
      (.ofNat (w.toNat / 2 ^ 24)) = w := by
  apply UInt32.toNat_inj.mp
  have hw := w.toNat_lt
  simp only [fromLeBytes, UInt32.toNat_ofNat', UInt8.toNat_ofNat']
  omega

/-- A word in memory is four bytes that read back as the word. -/
theorem exists_toNeBytes (w : UInt32) :
    ∃ b₀ b₁ b₂ b₃, e.toNeBytes w = [b₀, b₁, b₂, b₃] ∧ e.fromNeBytes b₀ b₁ b₂ b₃ = w := by
  cases e
  · exact ⟨_, _, _, _, rfl, fromLeBytes_leBytes w⟩
  · exact ⟨_, _, _, _, rfl, fromLeBytes_leBytes w⟩

/-! ### Words of two bytes -/

/-- The memory representation of a word of two bytes. -/
def toNeBytes16 (w : UInt16) : List UInt8 :=
  match e with
  | little => [.ofNat w.toNat, .ofNat (w.toNat / 2 ^ 8)]
  | big => [.ofNat (w.toNat / 2 ^ 8), .ofNat w.toNat]

/-- `u16::from_ne_bytes` of two bytes in memory order. -/
def fromNeBytes16 (b₀ b₁ : UInt8) : UInt16 :=
  match e with
  | little => .ofNat (b₀.toNat + 2 ^ 8 * b₁.toNat)
  | big => .ofNat (b₁.toNat + 2 ^ 8 * b₀.toNat)

@[simp] theorem length_toNeBytes16 (w : UInt16) : (e.toNeBytes16 w).length = 2 := by
  cases e <;> rfl

theorem exists_toNeBytes16 (w : UInt16) :
    ∃ b₀ b₁, e.toNeBytes16 w = [b₀, b₁] ∧ e.fromNeBytes16 b₀ b₁ = w := by
  have hw := w.toNat_lt
  have h : (UInt16.ofNat ((UInt8.ofNat w.toNat).toNat +
      2 ^ 8 * (UInt8.ofNat (w.toNat / 2 ^ 8)).toNat)) = w := by
    apply UInt16.toNat_inj.mp
    simp only [UInt16.toNat_ofNat', UInt8.toNat_ofNat']
    omega
  cases e
  · exact ⟨_, _, rfl, h⟩
  · exact ⟨_, _, rfl, h⟩

/-! ### Reading from a buffer -/

/-- The word of two bytes at an offset of a buffer. -/
def readU16 (buf : List UInt8) (i : ℕ) : Checked UInt16 := do
  return e.fromNeBytes16 (← index buf i) (← index buf (i + 1))

/-- The word of four bytes at an offset of a buffer. -/
def readU32 (buf : List UInt8) (i : ℕ) : Checked UInt32 := do
  return e.fromNeBytes (← index buf i) (← index buf (i + 1)) (← index buf (i + 2))
    (← index buf (i + 3))

variable {e} {buf before after : List UInt8} {i : ℕ}

theorem readU16_ok (h : i + 2 ≤ buf.length) : ∃ w, e.readU16 buf i = .ok w := by
  rw [readU16, index_eq (show i < buf.length by omega),
    index_eq (show i + 1 < buf.length by omega)]
  exact ⟨_, rfl⟩

theorem readU16_take {n : ℕ} (h : i + 2 ≤ n) : e.readU16 (buf.take n) i = e.readU16 buf i := by
  have hi : (buf.take n)[i]? = buf[i]? := List.getElem?_take_of_lt (by omega)
  have hi' : (buf.take n)[i + 1]? = buf[i + 1]? := List.getElem?_take_of_lt (by omega)
  rw [readU16, readU16, index, index, index, index, hi, hi']

theorem index_append {α : Type} {before after : List α} {x : α} :
    index (before ++ x :: after) before.length = .ok x := by
  simp [index]

theorem readU16_append (w : UInt16) (hi : i = before.length) :
    e.readU16 (before ++ (e.toNeBytes16 w ++ after)) i = .ok w := by
  obtain ⟨b₀, b₁, hb, hw⟩ := e.exists_toNeBytes16 w
  have h₁ : before ++ b₀ :: b₁ :: after = (before ++ [b₀]) ++ b₁ :: after := by simp
  have h₀ : i + 1 = (before ++ [b₀]).length := by simp [hi]
  rw [readU16, hb, List.cons_append, List.cons_append, List.nil_append, hi, index_append, ok_bind,
    ← hi, h₁, h₀, index_append, ok_bind, hw]
  rfl

end Endian

end Rust
