import Mathlib.Algebra.Ring.Nat
import Mathlib.Data.List.Basic

/-! # Checked slices, buffers and machine arithmetic

A Rust operation that can panic returns its panic as an exception. Overflow
counts as a panic, as in a build with overflow checks, so a computation that
never panics gives the same result when the arithmetic wraps.
-/

namespace Rust

/-- The ways a checked operation stops the thread. -/
inductive Panic
  | sliceRange
  | indexRange
  | copyLength
  | assertion
  | overflow
  deriving DecidableEq, Repr

abbrev Checked (α : Type*) := Except Panic α

variable {α : Type*} {n : ℕ}

/-- The slice `xs[a..b]`. -/
def slice (xs : List α) (a b : ℕ) : Checked (List α) :=
  if a ≤ b ∧ b ≤ xs.length then .ok ((xs.drop a).take (b - a)) else .error .sliceRange

/-- The element `xs[i]`. -/
def index (xs : List α) (i : ℕ) : Checked α :=
  match xs[i]? with
  | some x => .ok x
  | none => .error .indexRange

/-- The assignment `xs[i] = x`. -/
def assign (xs : List α) (i : ℕ) (x : α) : Checked (List α) :=
  if i < xs.length then .ok (xs.set i x) else .error .indexRange

/-- Subtraction of `usize` values. -/
def sub (a b : ℕ) : Checked ℕ :=
  if b ≤ a then .ok (a - b) else .error .overflow

/-- Addition of `u8` values. -/
def addU8 (a b : UInt8) : Checked UInt8 :=
  if a.toNat + b.toNat < 256 then .ok (a + b) else .error .overflow

/-- Saturating addition of `u8` values. -/
def saturatingAddU8 (a b : UInt8) : UInt8 := .ofNat (min (a.toNat + b.toNat) 255)

/-- The assertion made by `debug_assert!`. -/
def debugAssert (p : Prop) [Decidable p] : Checked Unit :=
  if p then .ok () else .error .assertion

/-- The array with `src` written over its elements from position `a` on. -/
def overwrite (dst : Vector α n) (a : ℕ) (src : List α) : Vector α n :=
  Vector.ofFn fun i =>
    if h : a ≤ i.val ∧ i.val - a < src.length then src.get ⟨i.val - a, h.2⟩ else dst[i]

/-- The copy `dst[a..b].copy_from_slice(src)`. -/
def copyFromSlice (dst : Vector α n) (a b : ℕ) (src : List α) : Checked (Vector α n) :=
  if a ≤ b ∧ b ≤ n then
    if src.length = b - a then .ok (overwrite dst a src) else .error .copyLength
  else .error .sliceRange

section Bind

universe u

variable {α β : Type u}

-- rewriting with these keeps the kernel from unfolding the monad in large goals
@[simp] theorem ok_bind (a : α) (f : α → Checked β) : (.ok a >>= f : Checked β) = f a := by rfl

@[simp] theorem pure_eq_ok (a : α) : (pure a : Checked α) = .ok a := by rfl

end Bind

theorem slice_eq {xs : List α} {a b : ℕ} (h : a ≤ b) (hb : b ≤ xs.length) :
    slice xs a b = .ok ((xs.drop a).take (b - a)) := by
  simp [slice, h, hb]

theorem slice_zero {xs : List α} {b : ℕ} (h : b ≤ xs.length) :
    slice xs 0 b = .ok (xs.take b) := by
  simp [slice, h]

theorem slice_to_end {xs : List α} {a : ℕ} (h : a ≤ xs.length) :
    slice xs a xs.length = .ok (xs.drop a) := by
  rw [slice_eq h (Nat.le_refl _), List.take_of_length_le (by simp)]

@[simp] theorem index_zero_cons (x : α) (xs : List α) : index (x :: xs) 0 = .ok x := rfl

theorem index_eq {xs : List α} {i : ℕ} (h : i < xs.length) : index xs i = .ok xs[i] := by
  simp [index, h]

theorem assign_eq {xs : List α} {i : ℕ} (x : α) (h : i < xs.length) :
    assign xs i x = .ok (xs.set i x) := if_pos h

theorem sub_eq {a b : ℕ} (h : b ≤ a) : sub a b = .ok (a - b) := if_pos h

theorem addU8_eq {a b : UInt8} (h : a.toNat + b.toNat < 256) : addU8 a b = .ok (a + b) :=
  if_pos h

theorem debugAssert_eq {p : Prop} [Decidable p] (h : p) : debugAssert p = .ok () := if_pos h

theorem copyFromSlice_eq {dst : Vector α n} {a b : ℕ} {src : List α} (h : a ≤ b) (hb : b ≤ n)
    (hs : src.length = b - a) : copyFromSlice dst a b src = .ok (overwrite dst a src) := by
  simp [copyFromSlice, h, hb, hs]

theorem toList_overwrite (dst : Vector α n) (a : ℕ) (src : List α) (h : a + src.length ≤ n) :
    (overwrite dst a src).toList =
      dst.toList.take a ++ (src ++ dst.toList.drop (a + src.length)) := by
  apply List.ext_getElem
  · simp only [Vector.length_toList, List.length_append, List.length_take, List.length_drop]
    omega
  · intro i hi _
    have hn : i < n := by simpa using hi
    have ha : min a n = a := Nat.min_eq_left (by omega)
    simp only [overwrite, Vector.getElem_toList, Vector.getElem_ofFn, List.getElem_append,
      List.length_take, Vector.length_toList, List.getElem_take, List.getElem_drop,
      List.get_eq_getElem, ha]
    by_cases h₁ : i < a
    · have h₂ : ¬ (a ≤ i ∧ i - a < src.length) := by omega
      simp [h₁, h₂]
    · by_cases h₂ : i - a < src.length
      · have h₃ : a ≤ i ∧ i - a < src.length := ⟨by omega, h₂⟩
        simp [h₁, h₂, h₃]
      · have he : a + src.length + (i - a - src.length) = i := by omega
        simp [h₁, h₂, he]

end Rust
