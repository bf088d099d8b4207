import Mathlib.Data.List.TakeWhile
import Mcanbus.Frame.Wire
import Mcanbus.Iface.Basic

/-! # Requests that change a link

The request that brings a link up or down, the acknowledgement of the kernel,
and the kernel's side of both: what it reads in a request, what it changes, and
how the flags of the link are printed.
-/

namespace Mcanbus.Iface

open Rust

def rtmNewlink : UInt16 := 16
def iffUp : UInt32 := 1

/-- The size of the buffer for an acknowledgement. -/
def ackLen : ℕ := 4096

section Wire

variable (e : Endian)

/-- The request to bring a link up or down: `nlmsghdr` and `ifinfomsg`. -/
def newLinkRequest (ifindex : UInt32) (up : Bool) : List UInt8 :=
  e.toNeBytes (.ofNat (hdrLen + infoLen)) ++ e.toNeBytes16 rtmNewlink ++
    e.toNeBytes16 requestFlags ++ e.toNeBytes 1 ++ e.toNeBytes 0 ++
    [0, 0] ++ e.toNeBytes16 0 ++ e.toNeBytes ifindex ++
    e.toNeBytes (if up then iffUp else 0) ++ e.toNeBytes iffUp

/-- What the received acknowledgement says. -/
def parseAck (rbuf : List UInt8) : Checked (Except IoError Unit) := do
  let n := rbuf.length
  if n < hdrLen then
    return .error (.new .Other "netlink response shorter than nlmsghdr")
  else
    let nlmsgType ← e.readU16 rbuf 4
    if nlmsgType ≠ nlmsgError then
      return .error (.new .Other s!"unexpected netlink response type {nlmsgType}")
    else if n < hdrLen + 4 then
      return .error (.new .Other "netlink error response truncated")
    else
      let errCode := toI32 (← e.readU32 rbuf hdrLen)
      if errCode = 0 then return .ok ()
      else return .error (.os (← negI32 errCode))

/-! ### The kernel -/

/-- What a request asks for. -/
structure LinkChange where
  index : UInt32
  flags : UInt32
  change : UInt32
  deriving DecidableEq, Repr

/-- The fields of `ifinfomsg` in a request of the type `rtmNewlink`. -/
def readChange (bytes : List UInt8) : Checked (Option LinkChange) := do
  if (← e.readU16 bytes 4) = rtmNewlink then
    let index ← e.readU32 bytes 20
    let flags ← e.readU32 bytes 24
    let change ← e.readU32 bytes 28
    return some ⟨index, flags, change⟩
  else return none

/-- A link of the kernel. -/
structure Link where
  index : UInt32
  flags : UInt32
  deriving DecidableEq, Repr

/-- The flags under the mask are changed. -/
def Link.change (l : Link) (c : LinkChange) : Link :=
  if c.index = l.index then { l with flags := (l.flags &&& ~~~c.change) ||| (c.flags &&& c.change) }
  else l

/-- The link after a granted request. -/
def Link.grant (l : Link) (bytes : List UInt8) : Link :=
  match readChange e bytes with
  | .ok (some c) => l.change c
  | _ => l

/-- The bytes are an acknowledgement with the error number, which is zero or negative. -/
structure IsAck (bytes : List UInt8) (errno : UInt32) : Prop where
  length_le : hdrLen + 4 ≤ bytes.length
  type_eq : e.readU16 bytes 4 = .ok nlmsgError
  error_eq : e.readU32 bytes hdrLen = .ok errno

/-- The bytes are a message about a link. -/
def IsLinkMessage (bytes : List UInt8) : Prop := e.readU16 bytes 4 = .ok rtmNewlink

/-- The request asks for the message about a link. -/
def IsQuery (bytes : List UInt8) : Prop := e.readU16 bytes 4 = .ok rtmGetlink

/-- The link up or down, with all other flags as they are. -/
def Link.set (l : Link) (up : Bool) : Link :=
  { l with flags := (l.flags &&& ~~~iffUp) ||| if up then iffUp else 0 }

/-- The file `/sys/class/net/<iface>/flags`. -/
def Link.flagsFile (l : Link) : String :=
  "0x" ++ String.ofList (Nat.toDigits 16 l.flags.toNat) ++ "\n"

variable {e} {l : Link} {ifindex errno : UInt32} {up : Bool} {bytes : List UInt8}

/-- The kernel reads in the request what it was made from. -/
theorem readChange_newLinkRequest : readChange e (newLinkRequest e ifindex up) =
    .ok (some ⟨ifindex, if up then iffUp else 0, iffUp⟩) := by
  obtain ⟨i₀, i₁, i₂, i₃, hi, hi'⟩ := e.exists_toNeBytes ifindex
  obtain ⟨f₀, f₁, f₂, f₃, hf, hf'⟩ := e.exists_toNeBytes (if up then iffUp else 0)
  obtain ⟨c₀, c₁, c₂, c₃, hc, hc'⟩ := e.exists_toNeBytes iffUp
  obtain ⟨n₀, n₁, n₂, n₃, hn, -⟩ := e.exists_toNeBytes (.ofNat (hdrLen + infoLen))
  obtain ⟨s₀, s₁, s₂, s₃, hs, -⟩ := e.exists_toNeBytes 1
  obtain ⟨p₀, p₁, p₂, p₃, hp, -⟩ := e.exists_toNeBytes 0
  obtain ⟨t₀, t₁, ht, ht'⟩ := e.exists_toNeBytes16 rtmNewlink
  obtain ⟨g₀, g₁, hg, -⟩ := e.exists_toNeBytes16 requestFlags
  obtain ⟨z₀, z₁, hz, -⟩ := e.exists_toNeBytes16 0
  have hbytes : newLinkRequest e ifindex up = [n₀, n₁, n₂, n₃, t₀, t₁, g₀, g₁, s₀, s₁, s₂, s₃,
      p₀, p₁, p₂, p₃, 0, 0, z₀, z₁, i₀, i₁, i₂, i₃, f₀, f₁, f₂, f₃, c₀, c₁, c₂, c₃] := by
    rw [newLinkRequest, hi, hf, hc, hn, hs, hp, ht, hg, hz]
    rfl
  have htype : e.readU16 (newLinkRequest e ifindex up) 4 = .ok rtmNewlink := by
    rw [hbytes, ← ht']
    rfl
  rw [readChange, htype, ok_bind, if_pos rfl, hbytes, ← hi', ← hf', ← hc']
  rfl

/-- A granted request brings the link up or down, and no other. -/
theorem grant_newLinkRequest : l.grant e (newLinkRequest e ifindex up) =
    if ifindex = l.index then l.set up else l := by
  have hmask : (if up then iffUp else 0) &&& iffUp = if up then iffUp else 0 := by
    cases up <;> rfl
  rw [Link.grant, readChange_newLinkRequest]
  dsimp only
  rw [Link.change, hmask]
  rfl

theorem set_and_up (l : Link) (up : Bool) :
    (l.set up).flags &&& iffUp = if up then iffUp else 0 := by
  have hclear : l.flags &&& ~~~iffUp &&& iffUp = 0 := by
    rw [UInt32.and_assoc, show ~~~iffUp &&& iffUp = 0 by decide, UInt32.and_zero]
  have hmask : (if up then iffUp else 0) &&& iffUp = if up then iffUp else 0 := by
    cases up <;> rfl
  rw [Link.set, or_and_right, hclear, hmask, UInt32.zero_or]

theorem set_and_not (l : Link) (up : Bool) :
    (l.set up).flags &&& ~~~iffUp = l.flags &&& ~~~iffUp := by
  have hmask : (if up then iffUp else 0) &&& ~~~iffUp = 0 := by
    cases up <;> rfl
  rw [Link.set, or_and_right, UInt32.and_assoc, UInt32.and_self, hmask,
    UInt32.or_zero]

theorem set_set (l : Link) (up up' : Bool) : (l.set up).set up' = l.set up' := by
  rw [Link.set, set_and_not]
  rfl

/-- An acknowledgement is success exactly when its error number is zero. -/
theorem parseAck_isAck (h : IsAck e bytes errno) : parseAck e bytes =
    if toI32 errno = 0 then .ok (.ok ())
    else (negI32 (toI32 errno)).map fun n => .error (.os n) := by
  have hl := h.length_le
  unfold parseAck
  rw [if_neg (by omega), h.type_eq, ok_bind, if_neg (not_not.mpr rfl), if_neg (by omega),
    h.error_eq, ok_bind]
  dsimp only
  split
  · rfl
  · cases negI32 (toI32 errno) <;> rfl

/-- A message about a link is no acknowledgement. -/
theorem parseAck_isLinkMessage (h : IsLinkMessage e bytes) : parseAck e bytes ≠ .ok (.ok ()) := by
  unfold parseAck
  by_cases hl : bytes.length < hdrLen
  · rw [if_pos hl]
    rintro ⟨⟩
  · rw [if_neg hl, h, ok_bind, if_pos (by decide)]
    rintro ⟨⟩

theorem isQuery_linkRequest (ifindex : UInt32) : IsQuery e (linkRequest e ifindex) := by
  rw [IsQuery, linkRequest]
  simp only [List.append_assoc]
  exact Endian.readU16_append rtmGetlink (by simp)

/-- A query asks for no change. -/
theorem grant_isQuery (h : IsQuery e bytes) : l.grant e bytes = l := by
  have hread : readChange e bytes = .ok none := by
    rw [readChange, h, ok_bind, if_neg (by decide)]
    rfl
  rw [Link.grant, hread]

theorem toI32_eq_zero {w : UInt32} : toI32 w = 0 ↔ w = 0 := by
  have hlt := w.toNat_lt
  rw [← UInt32.toNat_inj, UInt32.toNat_zero]
  unfold toI32
  split <;> omega

theorem parseU32_toDigits (w : UInt32) : parseU32 (Nat.toDigits 16 w.toNat) = .ok w := by
  rw [parseU32, fromStrRadix_toDigits (by decide) (Nat.le_refl 16) w.toNat_lt]
  simp [Except.map]

/-- A line is a text without its end. -/
theorem trim_newline {s : List Char} (h0 : s ≠ []) (h : ∀ c ∈ s, isWhitespace c = false) :
    trim (s ++ ['\n']) = s := by
  obtain ⟨c, t, rfl⟩ := List.exists_cons_of_ne_nil h0
  have hstart : trimStart ((c :: t) ++ ['\n']) = (c :: t) ++ ['\n'] :=
    List.dropWhile_cons_of_neg (by rw [h c List.mem_cons_self]; exact Bool.false_ne_true)
  have hend : (c :: t).reverse.dropWhile isWhitespace = (c :: t).reverse := by
    rw [List.dropWhile_eq_self_iff]
    intro hl
    rw [h _ (List.mem_reverse.mp (List.getElem_mem hl))]
    exact Bool.false_ne_true
  rw [trim, hstart, trimEnd, List.reverse_append, List.reverse_singleton, List.singleton_append,
    List.dropWhile_cons_of_pos (by decide), hend, List.reverse_reverse]

/-- The flags are read back from the file. -/
theorem isUp_flagsFile (l : Link) :
    Interface.isUp (.ok l.flagsFile) = .ok (some (l.flags &&& iffUp != 0)) := by
  have hblank : ∀ c ∈ Nat.toDigits 16 l.flags.toNat, isWhitespace c = false := by
    intro c hc
    obtain ⟨d, hd, rfl⟩ := mem_toDigits (by decide) hc
    exact (by decide : ∀ d < 16, isWhitespace d.digitChar = false) d hd
  have htext : l.flagsFile.toList = ('0' :: 'x' :: Nat.toDigits 16 l.flags.toNat) ++ ['\n'] := by
    simp [Link.flagsFile]
  have hall : ∀ c ∈ '0' :: 'x' :: Nat.toDigits 16 l.flags.toNat, isWhitespace c = false := by
    simpa using ⟨by decide, by decide, hblank⟩
  have htrim : trim l.flagsFile.toList = '0' :: 'x' :: Nat.toDigits 16 l.flags.toNat := by
    rw [htext, trim_newline (List.cons_ne_nil _ _) hall]
  have hprefix : "0x".toList.isPrefixOf ('0' :: 'x' :: Nat.toDigits 16 l.flags.toNat) := by
    simp
  unfold Interface.isUp
  dsimp only
  rw [htrim, if_pos hprefix, List.drop_succ_cons, List.drop_succ_cons, List.drop_zero,
    parseU32_toDigits]
  rfl

end Wire

end Mcanbus.Iface
