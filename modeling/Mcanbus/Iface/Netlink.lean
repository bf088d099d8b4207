import Mathlib.Algebra.Ring.Int.Defs
import Mcanbus.Rust.Endian
import Mcanbus.Rust.IoError
import Mcanbus.Rust.Text

/-! # The controller state over netlink

A request for the link is answered with a message of nested attributes, each
with its length and type in a header of four bytes and aligned to four bytes.
The answers of the system calls are arguments.
-/

namespace Mcanbus.Iface

open Rust

def iflaLinkinfo : UInt16 := 18
def iflaInfoKind : UInt16 := 1
def iflaInfoData : UInt16 := 2
def iflaCanState : UInt16 := 4
def nlaTypeMask : UInt16 := 0x3FFF

def nlmsgError : UInt16 := 2
def rtmGetlink : UInt16 := 18
/-- `NLM_F_REQUEST | NLM_F_ACK`. -/
def requestFlags : UInt16 := 5

/-- The size of `nlmsghdr`. -/
def hdrLen : ℕ := 16
/-- The size of `ifinfomsg`. -/
def infoLen : ℕ := 16
/-- The size of the receive buffer. -/
def rbufLen : ℕ := 8192

/-- The length rounded up to a multiple of four. -/
def nlaAlign (len : ℕ) : ℕ := (len + 3) / 4 * 4

theorem le_nlaAlign (len : ℕ) : len ≤ nlaAlign len := by
  unfold nlaAlign
  omega

theorem nlaAlign_lt (len : ℕ) : nlaAlign len < len + 4 := by
  unfold nlaAlign
  omega

theorem nlaAlign_mod (len : ℕ) : nlaAlign len % 4 = 0 := Nat.mul_mod_left _ 4

/-- In 64 bits, rounding up is the mask `(len + 3) & !3`. -/
theorem nlaAlign_eq_and {len : ℕ} (h : len + 3 < 2 ^ 64) :
    nlaAlign len = (len + 3) &&& (2 ^ 64 - 1 - 3) := by
  have hmask : 2 ^ 64 - 1 - 3 = (2 ^ 62 - 1) * 2 ^ 2 := by decide
  have hand : (len + 3) &&& (2 ^ 64 - 1 - 3) = (len + 3) / 2 ^ 2 * 2 ^ 2 := by
    apply Nat.eq_of_testBit_eq
    intro i
    rw [hmask, Nat.testBit_and, Nat.testBit_mul_two_pow, Nat.testBit_mul_two_pow,
      Nat.testBit_two_pow_sub_one, Nat.testBit_div_two_pow]
    rcases Nat.lt_or_ge i 2 with hi | hi
    · simp [Nat.not_le.mpr hi]
    rcases Nat.lt_or_ge (i - 2) 62 with hb | hb
    · simp [hi, hb, Nat.sub_add_cancel hi]
    · have hle : 2 ^ 64 ≤ 2 ^ i := Nat.pow_le_pow_right (by decide) (by omega)
      have hz : (len + 3).testBit i = false := Nat.testBit_lt_two_pow (Nat.lt_of_lt_of_le h hle)
      simp [hz, Nat.sub_add_cancel hi]
  rw [hand]
  rfl

section Parse

variable (e : Endian)

/-- Find the first attribute of the type at or behind the offset. -/
def nlFindAttrFrom (buf : List UInt8) (nlaType : UInt16) (off : ℕ) :
    Checked (Option (List UInt8)) :=
  if off + 4 ≤ buf.length then do
    let lenField ← e.readU16 buf off
    let typeField ← e.readU16 buf (off + 2)
    let nlaLen := lenField.toNat
    let ty := typeField &&& nlaTypeMask
    if nlaLen < 4 ∨ off + nlaLen > buf.length then
      return none
    else if ty = nlaType then
      return some (← slice buf (off + 4) (off + nlaLen))
    else nlFindAttrFrom buf nlaType (off + nlaAlign nlaLen)
  else .ok none
termination_by buf.length - off
decreasing_by
  have := le_nlaAlign lenField.toNat
  omega

/-- Find the first attribute with the given type. -/
def nlFindAttr (buf : List UInt8) (nlaType : UInt16) : Checked (Option (List UInt8)) :=
  nlFindAttrFrom e buf nlaType 0

/-- The text of an attribute up to its first NUL; empty when it is not UTF-8. -/
def kindText (b : List UInt8) : Checked String := do
  let len := b.findIdx (· == 0)
  return (fromUtf8 (← slice b 0 len)).getD ""

/-- The kind of the link, empty when there is none. -/
def linkKind (linkinfo : List UInt8) : Checked String := do
  match ← nlFindAttr e linkinfo iflaInfoKind with
  | some b => kindText b
  | none => return ""

/-- The state in the attribute `iflaLinkinfo`. -/
def linkState (linkinfo : List UInt8) : Checked (Option UInt32) := do
  if (← linkKind e linkinfo) ≠ "can" then
    return none
  else
    match ← nlFindAttr e linkinfo iflaInfoData with
    | none => return none
    | some infoData =>
      match ← nlFindAttr e infoData iflaCanState with
      | none => return none
      | some stateBytes =>
        if stateBytes.length < 4 then return none
        else return some (← e.readU32 stateBytes 0)

/-- A word as a signed number. -/
def toI32 (w : UInt32) : ℤ := if w.toNat < 2 ^ 31 then w.toNat else w.toNat - 2 ^ 32

/-- Negation of `i32` values. -/
def negI32 (x : ℤ) : Checked ℤ := if x = -2 ^ 31 then .error .overflow else .ok (-x)

/-- What the received part of the buffer says. -/
def parseReply (rbuf : List UInt8) : Checked (Except IoError (Option UInt32)) := do
  let n := rbuf.length
  if n < hdrLen + infoLen then
    return .ok none
  else if (← e.readU16 rbuf 4) = nlmsgError then
    let errCode := toI32 (← e.readU32 rbuf hdrLen)
    if errCode = 0 then return .ok none
    else return .error (.os (← negI32 errCode))
  else
    let attrsStart := hdrLen + infoLen
    if attrsStart ≥ n then
      return .ok none
    else
      match ← nlFindAttr e (← slice rbuf attrsStart n) iflaLinkinfo with
      | none => return .ok none
      | some linkinfo => return .ok (← linkState e linkinfo)

/-- The request for a link: `nlmsghdr` and `ifinfomsg`. -/
def linkRequest (ifindex : UInt32) : List UInt8 :=
  e.toNeBytes (.ofNat (hdrLen + infoLen)) ++ e.toNeBytes16 rtmGetlink ++
    e.toNeBytes16 requestFlags ++ e.toNeBytes 2 ++ e.toNeBytes 0 ++
    [0, 0] ++ e.toNeBytes16 0 ++ e.toNeBytes ifindex ++ e.toNeBytes 0 ++ e.toNeBytes 0

/-- The answers of the system calls on the netlink socket. -/
structure NetlinkAnswers where
  socket : Except Errno Unit
  bind : Except Errno Unit
  sendto : List UInt8 → Except Errno Unit
  recv : Except Errno (List UInt8)

def getCanStateRaw (ifindex : UInt32) (os : NetlinkAnswers) :
    Checked (Except IoError (Option UInt32)) :=
  match os.socket, os.bind, os.sendto (linkRequest e ifindex), os.recv with
  | .error err, _, _, _ => .ok (.error (.os err))
  | _, .error err, _, _ => .ok (.error (.os err))
  | _, _, .error err, _ => .ok (.error (.os err))
  | _, _, _, .error err => .ok (.error (.os err))
  | .ok (), .ok (), .ok (), .ok datagram => parseReply e (datagram.take rbufLen)

end Parse

end Mcanbus.Iface
