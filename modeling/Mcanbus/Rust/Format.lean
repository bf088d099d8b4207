import Mathlib.Data.Nat.Notation

/-! # Formatting of numbers

Upper-case hexadecimal digits, as many as the number has or padded with zeros
to a minimal width.
-/

namespace Rust

/-- The format `{:0width$X}`; a width of zero is the format `{:X}`. -/
def upperHex (width n : ℕ) : String :=
  let digits := (Nat.toDigits 16 n).map Char.toUpper
  String.ofList (List.replicate (width - digits.length) '0' ++ digits)

example : upperHex 2 0x0A = "0A" ∧ upperHex 0 0x1F = "1F" := by decide

end Rust
