import Mcanbus.Frame.Wire
import Mcanbus.Rust.Radix
import Mcanbus.Server.Config

/-! # Frames as text

The server reports a frame with its identifier and payload in hexadecimal, and
builds frames from such text. A reported frame is accepted again and denotes
the same frame.
-/

namespace Mcanbus.Server

open Rust

/-- The bytes as pairs of upper-case hexadecimal digits. -/
def hexText (bytes : List UInt8) : List Char := bytes.flatMap fun b => (upperHex 2 b.toNat).toList

/-- A frame in the answer of a tool. -/
structure FrameJson where
  id : String
  extended : Bool
  fd : Bool
  brs : Bool
  esi : Bool
  dlc : UInt8
  data : String
  timestampNs : Option UInt64
  deriving DecidableEq, Repr

def FrameJson.fromFrame (f : Frame) : Checked FrameJson := do
  let id := match f.id with
    | .Standard id => upperHex 3 id.toNat
    | .Extended id => upperHex 8 id.toNat
  let (fd, brs, esi) := match f.kind with
    | .Classic => (false, false, false)
    | .Fd flags => (true, flags.brs, flags.esi)
  let data ← f.data
  return { id, extended := f.id.isExtended, fd, brs, esi, dlc := f.len,
           data := String.ofList (hexText data), timestampNs := f.timestampNs }

/-- A frame in the arguments of a tool. -/
structure SendFrameInline where
  id : String
  extended : Bool := false
  data : String := ""
  fd : Bool := false
  brs : Bool := false
  deriving DecidableEq, Repr

/-- The text without prefixes of hexadecimal numbers. -/
def stripHexPrefix (s : String) : List Char :=
  trimStartMatches "0X".toList (trimStartMatches "0x".toList s.toList)

def parseHexId (s : String) (extended : Bool) : Except McpError CanId :=
  let s := stripHexPrefix s
  match parseU32 s with
  | .error e => .error (.invalidParams s!"bad id '{String.ofList s}': {e.display}")
  | .ok raw => .ok (if extended then .extended raw else .standard raw.toUInt16)

def parseSingleHexByte (s : String) : Except McpError UInt8 :=
  let s := stripHexPrefix s
  match parseU8 s with
  | .error e => .error (.invalidParams s!"bad hex byte '{String.ofList s}': {e.display}")
  | .ok b => .ok b

/-- The bytes at the given offsets of a text, up to the first one that is not a byte. -/
def parseHexBytesAt (s : List Char) : List ℕ → Checked (Except McpError (List UInt8))
  | [] => .ok (.ok [])
  | i :: is => do
    let pair ← strSlice s i (i + 2)
    match parseU8 pair with
    | .error e =>
      return .error (.invalidParams s!"bad hex byte at offset {i}: {e.display}")
    | .ok b =>
      let bytes ← parseHexBytesAt s is
      return bytes.map (b :: ·)

def parseHexBytes (s : String) : Checked (Except McpError (List UInt8)) :=
  let s := stripHexPrefix s
  if utf8Len s % 2 ≠ 0 then
    .ok (.error (.invalidParams "data hex string must have even length"))
  else parseHexBytesAt s (List.range' 0 ((utf8Len s + 1) / 2) 2)

def buildFrame (args : SendFrameInline) : Checked (Except McpError Frame) :=
  match parseHexId args.id args.extended with
  | .error e => .ok (.error e)
  | .ok id => do
    match ← parseHexBytes args.data with
    | .error e => return .error e
    | .ok data =>
      let frame ← if args.fd then Frame.newFd id data { brs := args.brs, esi := false }
        else Frame.newClassic id data
      return frame.mapError fun e => .invalidParams s!"invalid frame: {e.display}"

/-! ### Hexadecimal text -/

section Text

variable {bytes : List UInt8} {b : UInt8} {c : Char}

theorem length_upperHex_two (b : UInt8) : (upperHex 2 b.toNat).toList.length = 2 :=
  length_upperHex (by decide) b.toNat_lt

@[simp] theorem hexText_nil : hexText [] = [] := rfl

@[simp] theorem hexText_cons :
    hexText (b :: bytes) = (upperHex 2 b.toNat).toList ++ hexText bytes := rfl

@[simp] theorem hexText_append (l : List UInt8) :
    hexText (bytes ++ l) = hexText bytes ++ hexText l :=
  List.flatMap_append

theorem length_hexText : (hexText bytes).length = 2 * bytes.length := by
  induction bytes with
  | nil => rfl
  | cons b bytes ih =>
    rw [hexText_cons, List.length_append, length_upperHex_two, ih, List.length_cons]
    omega

theorem ascii_hexText : Ascii (hexText bytes) := by
  induction bytes with
  | nil => exact fun _ h => nomatch h
  | cons b bytes ih => exact (ascii_upperHex 2 b.toNat).append ih

theorem notMem_hexText (hc : toDigit 16 c = none) : c ∉ hexText bytes := by
  rw [hexText, List.mem_flatMap]
  rintro ⟨b, -, h⟩
  exact notMem_upperHex hc h

theorem stripHexPrefix_eq {s : String} (hx : 'x' ∉ s.toList) (hX : 'X' ∉ s.toList) :
    stripHexPrefix s = s.toList := by
  unfold stripHexPrefix
  rw [trimStartMatches_of_notMem (c := 'x') (by decide) hx,
    trimStartMatches_of_notMem (c := 'X') (by decide) hX]

theorem stripHexPrefix_upperHex (width n : ℕ) :
    stripHexPrefix (upperHex width n) = (upperHex width n).toList :=
  stripHexPrefix_eq (notMem_upperHex (by decide)) (notMem_upperHex (by decide))

theorem stripHexPrefix_hexText :
    stripHexPrefix (String.ofList (hexText bytes)) = hexText bytes := by
  rw [stripHexPrefix_eq, String.toList_ofList] <;> rw [String.toList_ofList] <;>
    exact notMem_hexText (by decide)

/-- The pair of digits behind the text of the earlier bytes. -/
theorem strSlice_hexText (before : List UInt8) :
    strSlice (hexText (before ++ b :: bytes)) (2 * before.length) (2 * before.length + 2) =
      .ok (upperHex 2 b.toNat).toList := by
  have hl : 2 * before.length + 2 ≤ (hexText (before ++ b :: bytes)).length := by
    rw [length_hexText, List.length_append, List.length_cons]
    omega
  rw [strSlice_ascii ascii_hexText (by omega) hl, hexText_append, hexText_cons,
    List.drop_left' length_hexText, Nat.add_sub_cancel_left,
    List.take_left' (length_upperHex_two b)]

theorem parseHexBytesAt_hexText (before : List UInt8) :
    parseHexBytesAt (hexText (before ++ bytes))
      (List.range' (2 * before.length) bytes.length 2) = .ok (.ok bytes) := by
  induction bytes generalizing before with
  | nil => rfl
  | cons b bytes ih =>
    have hs := ih (before ++ [b])
    rw [List.append_assoc, List.singleton_append, List.length_append, List.length_singleton,
      Nat.mul_add] at hs
    rw [List.length_cons, List.range'_succ, parseHexBytesAt, strSlice_hexText, ok_bind,
      parseU8_upperHex]
    simp only [hs, ok_bind]
    rfl

/-- The text of bytes is parsed as the bytes. -/
theorem parseHexBytes_hexText (bytes : List UInt8) :
    parseHexBytes (String.ofList (hexText bytes)) = .ok (.ok bytes) := by
  have hl : utf8Len (hexText bytes) = 2 * bytes.length := by
    rw [utf8Len_ascii ascii_hexText, length_hexText]
  have hn : (2 * bytes.length + 1) / 2 = bytes.length := by omega
  unfold parseHexBytes
  rw [stripHexPrefix_hexText]
  simp only [hl, hn, Nat.mul_mod_right, ne_eq, not_true_eq_false, if_false]
  exact parseHexBytesAt_hexText []

end Text

/-! ### Identifiers -/

theorem parseHexId_standard (id : UInt16) (width : ℕ) :
    parseHexId (upperHex width id.toNat) false = .ok (.standard id) := by
  have h := parseU32_upperHex width id.toUInt32
  rw [UInt16.toNat_toUInt32] at h
  unfold parseHexId
  simp [stripHexPrefix_upperHex, h]

theorem parseHexId_extended (id : UInt32) (width : ℕ) :
    parseHexId (upperHex width id.toNat) true = .ok (.extended id) := by
  unfold parseHexId
  simp only [stripHexPrefix_upperHex, parseU32_upperHex]
  rfl

/-- The text of an identifier in a report. -/
def idText : CanId → String
  | .Standard id => upperHex 3 id.toNat
  | .Extended id => upperHex 8 id.toNat

theorem parseHexId_idText (id : CanId) :
    parseHexId (idText id) id.isExtended = .ok id.masked := by
  cases id with
  | Standard id => exact parseHexId_standard id 3
  | Extended id => exact parseHexId_extended id 8

/-! ### Replaying a reported frame -/

/-- The kind of the frame that is built from a report: the error state is not sent. -/
def replayed : FrameKind → FrameKind
  | .Classic => .Classic
  | .Fd flags => .Fd { flags with esi := false }

/-- The arguments that replay a report. -/
def FrameJson.inline (j : FrameJson) : SendFrameInline where
  id := j.id
  extended := j.extended
  data := j.data
  fd := j.fd
  brs := j.brs

section Replay

variable {f : Frame}

theorem fromFrame_inline (h : f.Fits) :
    ∃ j, FrameJson.fromFrame f = .ok j ∧ j.inline =
      { id := idText f.id, extended := f.id.isExtended,
        data := String.ofList (hexText f.payload), fd := f.kind.isFd,
        brs := match f.kind with | .Classic => false | .Fd flags => flags.brs } := by
  unfold FrameJson.fromFrame
  rw [Frame.data_eq h.len_le]
  rcases f with ⟨id, kind, len, buf, ts⟩
  cases id <;> cases kind <;> exact ⟨_, rfl, rfl⟩

theorem length_payload_le (h : f.Fits) : f.payload.length ≤ f.kind.maxLen :=
  Nat.le_trans (Nat.le_of_eq (Frame.length_payload h.len_le)) h

/-- The frame built from the arguments that replay a report. -/
theorem buildFrame_inline (h : f.Fits) :
    buildFrame
      { id := idText f.id, extended := f.id.isExtended,
        data := String.ofList (hexText f.payload), fd := f.kind.isFd,
        brs := match f.kind with | .Classic => false | .Fd flags => flags.brs } =
      .ok (.ok (.ofPayload (replayed f.kind) f.id.masked f.payload)) := by
  have hl := length_payload_le h
  unfold buildFrame
  simp only [parseHexId_idText, parseHexBytes_hexText, ok_bind]
  cases hk : f.kind with
  | Classic =>
    rw [hk] at hl
    simp [FrameKind.isFd, Frame.newClassic_eq hl, replayed, Except.mapError]
  | Fd flags =>
    rw [hk] at hl
    simp [FrameKind.isFd, Frame.newFd_eq hl, replayed, Except.mapError]

/-- A reported frame is built again from its report, with the error state cleared. -/
theorem buildFrame_fromFrame (f : Frame) (hf : f.Fits)
    (hid : (∃ n, f.id = .standard n) ∨ ∃ n, f.id = .extended n) :
    ∃ j g, FrameJson.fromFrame f = .ok j ∧
      buildFrame { id := j.id, extended := j.extended, data := j.data, fd := j.fd,
                   brs := j.brs } = .ok (.ok g) ∧
      g.id = f.id ∧ g.len = f.len ∧ g.data = f.data ∧
      (f.kind = .Classic ∨ (∃ brs, f.kind = .Fd ⟨brs, false⟩) → g.kind = f.kind) ∧
      (∀ brs, f.kind = .Fd ⟨brs, true⟩ → g.kind = .Fd ⟨brs, false⟩) := by
  obtain ⟨j, hj, hi⟩ := fromFrame_inline hf
  have hm : f.id.masked = f.id := by
    rcases hid with ⟨n, hn⟩ | ⟨n, hn⟩ <;> simp [hn]
  have hl := Nat.le_trans (length_payload_le hf) f.kind.maxLen_le
  have hlen : (Frame.ofPayload (replayed f.kind) f.id f.payload).len = f.len := by
    apply UInt8.toNat_inj.mp
    rw [Frame.len_ofPayload hl, Frame.length_payload hf.len_le]
  have hb : buildFrame j.inline = .ok (.ok (.ofPayload (replayed f.kind) f.id f.payload)) := by
    rw [hi, buildFrame_inline hf, hm]
  refine ⟨j, _, hj, hb, rfl, hlen, ?_, ?_, ?_⟩
  · rw [Frame.data_eq (hlen ▸ hf.len_le), Frame.data_eq hf.len_le, Frame.payload_ofPayload hl]
  · rintro (hk | ⟨brs, hk⟩) <;> rw [hk] <;> rfl
  · intro brs hk
    rw [hk]
    rfl

/-- An FD frame with a payload of three bytes and the error state set. -/
theorem buildFrame_fromFrame_fd :
    let f := Frame.ofPayload (.Fd ⟨true, true⟩) (.extended 0x18DA00F9) [0x02, 0x1A, 0x90]
    f.Fits ∧ ∃ j g, FrameJson.fromFrame f = .ok j ∧ j.id = "18DA00F9" ∧ j.data = "021A90" ∧
      buildFrame { id := j.id, extended := j.extended, data := j.data, fd := j.fd,
                   brs := j.brs } = .ok (.ok g) ∧ g.kind = .Fd ⟨true, false⟩ := by
  refine ⟨by decide, ?_⟩
  obtain ⟨j, g, hj, hg, -, -, -, -, hk⟩ := buildFrame_fromFrame
    (.ofPayload (.Fd ⟨true, true⟩) (.extended 0x18DA00F9) [0x02, 0x1A, 0x90]) (by decide)
    (.inr ⟨_, rfl⟩)
  refine ⟨j, g, hj, ?_, ?_, hg, hk true rfl⟩ <;>
  · cases hj
    decide

end Replay

end Mcanbus.Server
