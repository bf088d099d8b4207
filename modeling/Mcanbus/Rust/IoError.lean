import Mathlib.Data.Int.Notation

/-! # Errors of input and output operations

An error is the error number of a failed system call, or a kind with a message.
-/

namespace Rust

abbrev Errno := ℤ

namespace Errno

def eagain : Errno := 11
def eintr : Errno := 4

end Errno

/-- The kinds of errors that a program builds. -/
inductive ErrorKind
  | InvalidInput
  | InvalidData
  | TimedOut
  | Unsupported
  | WriteZero
  | Other
  deriving DecidableEq, Repr

/-- An error reported by the operating system, or built with a kind and a message. -/
inductive IoError
  | os (errno : Errno)
  | new (kind : ErrorKind) (message : String)
  deriving DecidableEq, Repr

end Rust
