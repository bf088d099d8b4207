import Mcanbus.Iface.Walk

/-! # Serialised attributes

An attribute is written as its length, its type with flag bits, its payload and
padding to a multiple of four bytes, which the last attribute of a list may
lack. The search finds the first attribute of a type in every serialised list,
so the parser reads the state that a link reply carries.
-/

namespace Mcanbus.Iface

open Rust

/-- An attribute whose length fits the header; the upper bits of the type field are flags. -/
structure Attr where
  typeField : UInt16
  payload : List UInt8
  fits : 4 + payload.length < 2 ^ 16

namespace Attr

variable (e : Endian) (a : Attr)

def type : UInt16 := a.typeField &&& nlaTypeMask

/-- The value of the length field. -/
def len : ℕ := 4 + a.payload.length

def bytes : List UInt8 :=
  e.toNeBytes16 (.ofNat a.len) ++ (e.toNeBytes16 a.typeField ++ a.payload)

theorem toNat_len : (UInt16.ofNat a.len).toNat = a.len := Nat.mod_eq_of_lt a.fits

@[simp] theorem length_bytes : (a.bytes e).length = a.len := by
  simp only [bytes, len, List.length_append, Endian.length_toNeBytes16]
  omega

end Attr

/-- The bytes are the attributes in order, each padded to a multiple of four bytes; the padding
of the last one may be absent. -/
inductive Serialises (e : Endian) : List Attr → List UInt8 → Prop
  | nil : Serialises e [] []
  | last (a : Attr) : Serialises e [a] (a.bytes e)
  | cons {attrs : List Attr} {bytes : List UInt8} (a : Attr) (padding : List UInt8) :
      a.len + padding.length = nlaAlign a.len → Serialises e attrs bytes →
      Serialises e (a :: attrs) (a.bytes e ++ (padding ++ bytes))

/-- The first attribute of a type. -/
def first (attrs : List Attr) (nlaType : UInt16) : Option Attr :=
  attrs.find? fun a => a.type = nlaType

theorem first_cons_of_eq {a : Attr} {attrs : List Attr} {t : UInt16} (h : a.type = t) :
    first (a :: attrs) t = some a :=
  List.find?_cons_of_pos (by simpa using h)

theorem first_cons_of_ne {a : Attr} {attrs : List Attr} {t : UInt16} (h : a.type ≠ t) :
    first (a :: attrs) t = first attrs t :=
  List.find?_cons_of_neg (by simpa using h)

/-! ### The search -/

section Search

variable {e : Endian} {before after bytes : List UInt8} {attrs : List Attr} {t : UInt16} {off : ℕ}
  {buf : List UInt8}

theorem attrAt_bytes (a : Attr) (hb : buf = before ++ (a.bytes e ++ after))
    (ho : off = before.length) : AttrAt e buf off a.len a.typeField where
  readLen := by
    refine ⟨.ofNat a.len, ?_, a.toNat_len⟩
    rw [hb, Attr.bytes, List.append_assoc]
    exact Endian.readU16_append _ ho
  readType := by
    have hsplit : buf = (before ++ e.toNeBytes16 (.ofNat a.len)) ++
        (e.toNeBytes16 a.typeField ++ (a.payload ++ after)) := by
      rw [hb, Attr.bytes]
      simp only [List.append_assoc]
    rw [hsplit]
    exact Endian.readU16_append _ (by simp [ho])
  four_le := Nat.le_add_right 4 _
  within := by
    rw [hb, ho]
    simp

/-- What the search does at an attribute. -/
theorem nlFindAttrFrom_attr (a : Attr) (hb : buf = before ++ (a.bytes e ++ after))
    (ho : off = before.length) :
    nlFindAttrFrom e buf t off =
      if a.type = t then .ok (some a.payload)
      else nlFindAttrFrom e buf t (off + nlaAlign a.len) := by
  have hpayload : (buf.drop (off + 4)).take (a.len - 4) = a.payload := by
    have hsplit : buf = (before ++ (e.toNeBytes16 (.ofNat a.len) ++ e.toNeBytes16 a.typeField)) ++
        (a.payload ++ after) := by
      rw [hb, Attr.bytes]
      simp only [List.append_assoc]
    have hpre : (before ++ (e.toNeBytes16 (.ofNat a.len) ++ e.toNeBytes16 a.typeField)).length =
        off + 4 := by
      simp [ho]
    rw [hsplit, List.drop_left' hpre, Attr.len, Nat.add_sub_cancel_left, List.take_left' rfl]
  rw [nlFindAttrFrom_eq, nlFindAttrStep_attr (attrAt_bytes a hb ho), hpayload]
  change (if a.type = t then _ else _) >>= _ = _
  split
  · rfl
  · rfl

/-- The search finds the first attribute of the type in a serialised list. -/
theorem nlFindAttrFrom_serialises (h : Serialises e attrs bytes) (hb : buf = before ++ bytes)
    (ho : off = before.length) :
    nlFindAttrFrom e buf t off = .ok ((first attrs t).map Attr.payload) := by
  induction h generalizing before off with
  | nil => exact nlFindAttrFrom_end (by simp [hb, ho])
  | last a =>
    rw [nlFindAttrFrom_attr a (show buf = before ++ (a.bytes e ++ []) by simp [hb]) ho]
    split
    case isTrue ht => rw [first_cons_of_eq ht, Option.map_some]
    case isFalse ht =>
      have hle := le_nlaAlign a.len
      have hlen : buf.length = off + a.len := by simp [hb, ho]
      rw [first_cons_of_ne ht, nlFindAttrFrom_end (by omega)]
      rfl
  | @cons attrs bytes a padding hp hs ih =>
    rw [nlFindAttrFrom_attr a hb ho]
    split
    case isTrue ht => rw [first_cons_of_eq ht, Option.map_some]
    case isFalse ht =>
      rw [first_cons_of_ne ht]
      have hb' : buf = before ++ (a.bytes e ++ padding) ++ bytes := by
        simp only [hb, List.append_assoc]
      exact ih hb' (by simp [ho, ← hp])

theorem nlFindAttr_serialises (h : Serialises e attrs bytes) (t : UInt16) :
    nlFindAttr e bytes t = .ok ((first attrs t).map Attr.payload) :=
  nlFindAttrFrom_serialises h (List.nil_append bytes).symm rfl

end Search

/-! ### Link replies -/

/-- A reply that is not an error: headers and serialised attributes, down to those that may
hold the state of the controller. -/
structure LinkReply (e : Endian) where
  header : List UInt8
  info : List UInt8
  attrs : List Attr
  bytes : List UInt8
  length_header : header.length = hdrLen
  length_info : info.length = infoLen
  not_error : e.readU16 header 4 ≠ .ok nlmsgError
  serialises : Serialises e attrs bytes
  linkinfo : ∀ a, first attrs iflaLinkinfo = some a → ∃ inner, Serialises e inner a.payload ∧
    ∀ b, first inner iflaInfoData = some b → ∃ data, Serialises e data b.payload
  fits : hdrLen + infoLen + bytes.length ≤ rbufLen

namespace LinkReply

variable {e : Endian} (r : LinkReply e) (v : UInt32)

def message : List UInt8 := r.header ++ (r.info ++ r.bytes)

/-- The link information says that the link is a CAN device in the given state. -/
def InfoHasState (e : Endian) (linkinfo : List UInt8) (v : UInt32) : Prop :=
  ∃ inner kind infoData data state, Serialises e inner linkinfo ∧
    first inner iflaInfoKind = some kind ∧ upToNul kind.payload = canText ∧
    first inner iflaInfoData = some infoData ∧ Serialises e data infoData.payload ∧
    first data iflaCanState = some state ∧
    ∃ b₀ b₁ b₂ b₃ rest, state.payload = b₀ :: b₁ :: b₂ :: b₃ :: rest ∧
      e.fromNeBytes b₀ b₁ b₂ b₃ = v

/-- The first link information of the reply carries the state. -/
def HasState : Prop :=
  ∃ a, first r.attrs iflaLinkinfo = some a ∧ InfoHasState e a.payload v

variable {r v} {inner data : List Attr} {linkinfo : List UInt8} {a : Attr} {t : UInt16}

theorem nlFindAttr_some (h : Serialises e inner linkinfo) (ha : first inner t = some a) :
    nlFindAttr e linkinfo t = .ok (some a.payload) := by
  rw [nlFindAttr_serialises h, ha, Option.map_some]

theorem first_of_nlFindAttr {bytes : List UInt8} (h : Serialises e inner linkinfo)
    (hb : nlFindAttr e linkinfo t = .ok (some bytes)) :
    ∃ a, first inner t = some a ∧ a.payload = bytes := by
  rw [nlFindAttr_serialises h] at hb
  exact Option.map_eq_some_iff.mp (Except.ok.inj hb)

/-- The lookups of the parser find what a link information with a state holds. -/
theorem infoHasState_iff (hi : Serialises e inner linkinfo)
    (hd : ∀ b, first inner iflaInfoData = some b → ∃ data, Serialises e data b.payload) :
    InfoHasState e linkinfo v ↔ Finds e linkinfo v := by
  constructor
  · rintro ⟨inner, kind, infoData, data, state, hi, hk, hcan, hd, hs, hst, b₀, b₁, b₂, b₃, rest,
      hb, hv⟩
    refine ⟨_, _, _, nlFindAttr_some hi hk, hcan, nlFindAttr_some hi hd, nlFindAttr_some hs hst,
      ?_, ?_⟩
    · simp [hb]
    · rw [hb, ← hv]
      rfl
  · rintro ⟨_, _, _, hk, hcan, hf, hst, hlen, hv⟩
    obtain ⟨kind, hkind, rfl⟩ := first_of_nlFindAttr hi hk
    obtain ⟨infoData, hdata, rfl⟩ := first_of_nlFindAttr hi hf
    obtain ⟨data, hs⟩ := hd infoData hdata
    obtain ⟨state, hstate, rfl⟩ := first_of_nlFindAttr hs hst
    obtain ⟨b₀, b₁, b₂, b₃, rest, hb, hr⟩ := readU32_zero (e := e) hlen
    rw [hv] at hr
    exact ⟨inner, kind, infoData, data, state, hi, hkind, hcan, hdata, hs, hstate, b₀, b₁, b₂, b₃,
      rest, hb, (Except.ok.inj hr).symm⟩

theorem length_message : r.message.length = hdrLen + infoLen + r.bytes.length := by
  simp only [message, List.length_append, r.length_header, r.length_info]
  omega

theorem take_message : r.message.take rbufLen = r.message :=
  List.take_of_length_le (r.length_message ▸ r.fits)

theorem readU16_message : e.readU16 r.message 4 = e.readU16 r.header 4 := by
  have hheader : r.message.take hdrLen = r.header := List.take_left' r.length_header
  rw [← hheader, Endian.readU16_take (by decide)]

theorem drop_message : r.message.drop (hdrLen + infoLen) = r.bytes := by
  rw [message, ← List.append_assoc]
  exact List.drop_left' (by rw [List.length_append, r.length_header, r.length_info])

/-- The parser of the reply looks for the state behind the first link information. -/
theorem parseReply_message :
    parseReply e r.message = match first r.attrs iflaLinkinfo with
      | some a => (linkState e a.payload).map .ok
      | none => .ok (.ok none) := by
  have hl : hdrLen + infoLen ≤ r.message.length := by
    rw [r.length_message]
    exact Nat.le_add_right _ _
  have hne : e.readU16 r.message 4 ≠ .ok nlmsgError := by
    rw [r.readU16_message]
    exact r.not_error
  rw [parseReply_eq hl hne, r.drop_message, nlFindAttr_serialises r.serialises, ok_bind]
  cases first r.attrs iflaLinkinfo with
  | none => rfl
  | some a => rfl

/-- The parser returns the state that the reply carries, and nothing when it carries none. -/
theorem parseReply_iff :
    ∃ o, parseReply e r.message = .ok (.ok o) ∧ ∀ v, o = some v ↔ r.HasState v := by
  rw [parseReply_message]
  cases hf : first r.attrs iflaLinkinfo with
  | none =>
    refine ⟨none, rfl, fun v => ⟨nofun, ?_⟩⟩
    rintro ⟨a, ha, -⟩
    rw [hf] at ha
    cases ha
  | some a =>
    obtain ⟨inner, hi, hd⟩ := r.linkinfo a hf
    obtain ⟨o, ho⟩ := linkState_ok e a.payload
    refine ⟨o, by simp only [ho, Except.map], fun v => ?_⟩
    have hiff : o = some v ↔ linkState e a.payload = .ok (some v) := by simp [ho]
    rw [hiff, linkState_some_iff, ← infoHasState_iff hi hd]
    constructor
    · exact fun h => ⟨a, hf, h⟩
    · rintro ⟨a', ha, h⟩
      rw [hf] at ha
      cases ha
      exact h

end LinkReply

/-! ### A controller that is bus-off -/

namespace BusOff

def state : Attr := ⟨iflaCanState, [3, 0, 0, 0], by decide⟩

def kind : Attr := ⟨iflaInfoKind, [0x63, 0x61, 0x6E], by decide⟩

/-- The data with the flag of a nested attribute. -/
def infoData : Attr := ⟨0x8000 ||| iflaInfoData, state.bytes .little, by decide⟩

def linkinfo : Attr :=
  ⟨iflaLinkinfo, kind.bytes .little ++ ([0] ++ infoData.bytes .little), by decide⟩

theorem serialises_infoData : Serialises .little [state] infoData.payload := .last state

theorem serialises_linkinfo : Serialises .little [kind, infoData] linkinfo.payload :=
  .cons kind [0] (by decide) (.last infoData)

theorem first_linkinfo : first [linkinfo] iflaLinkinfo = some linkinfo :=
  first_cons_of_eq (by decide)

theorem first_infoData : first [kind, infoData] iflaInfoData = some infoData :=
  (first_cons_of_ne (by decide)).trans (first_cons_of_eq (by decide))

/-- The message of a link whose controller is bus-off. -/
def reply : LinkReply .little where
  header := List.replicate 4 0 ++ [16, 0] ++ List.replicate 10 0
  info := List.replicate 16 0
  attrs := [linkinfo]
  bytes := linkinfo.bytes .little
  length_header := rfl
  length_info := rfl
  not_error := by decide
  serialises := .last linkinfo
  linkinfo a ha := by
    rw [first_linkinfo] at ha
    obtain rfl := Option.some.inj ha
    refine ⟨_, serialises_linkinfo, fun b hb => ?_⟩
    rw [first_infoData] at hb
    obtain rfl := Option.some.inj hb
    exact ⟨_, serialises_infoData⟩
  fits := by decide

theorem hasState_reply : reply.HasState 3 :=
  ⟨linkinfo, first_linkinfo, [kind, infoData], kind, infoData, [state], state, serialises_linkinfo,
    first_cons_of_eq (by decide), rfl, first_infoData, serialises_infoData,
    first_cons_of_eq (by decide), 3, 0, 0, 0, [], rfl, rfl⟩

end BusOff

/-- The state query returns the state that the reply carries, and nothing in every other case. -/
theorem getCanStateRaw_iff (e : Endian) (ifindex : UInt32) (r : LinkReply e) :
    (∀ v, getCanStateRaw e ifindex (answers r.message) = .ok (.ok (some v)) ↔ r.HasState v) ∧
    ((¬ ∃ v, r.HasState v) → getCanStateRaw e ifindex (answers r.message) = .ok (.ok none)) := by
  have heq : getCanStateRaw e ifindex (answers r.message) = parseReply e r.message := by
    rw [getCanStateRaw_answers, r.take_message]
  obtain ⟨o, ho, hiff⟩ := r.parseReply_iff
  rw [heq, ho]
  constructor
  · intro v
    rw [← hiff v]
    simp
  · intro hnone
    cases o with
    | none => rfl
    | some v => exact absurd ⟨v, (hiff v).mp rfl⟩ hnone

theorem getCanStateRaw_iff_busOff :
    getCanStateRaw .little 5 (answers BusOff.reply.message) = .ok (.ok (some 3)) :=
  ((getCanStateRaw_iff .little 5 BusOff.reply).1 3).mpr BusOff.hasState_reply

end Mcanbus.Iface
