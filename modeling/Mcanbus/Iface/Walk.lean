import Mcanbus.Iface.Netlink
import Mcanbus.Transition.Basic

/-! # The walk over attributes

The search for an attribute is a loop over offsets that the lengths in the
buffer drive. On any bytes an iteration stays in the buffer and goes on by at
least four bytes. The search ends, and what it returns lies behind the header of
an attribute at a multiple of four.
-/

namespace Mcanbus.Iface

open Rust Transition

section Walk

variable (e : Endian) (buf : List UInt8) (nlaType : UInt16)

/-- One iteration of the search: the next offset, or the result. -/
def nlFindAttrStep (off : ℕ) : Checked (ℕ ⊕ Option (List UInt8)) :=
  if off + 4 ≤ buf.length then do
    let lenField ← e.readU16 buf off
    let typeField ← e.readU16 buf (off + 2)
    let nlaLen := lenField.toNat
    let ty := typeField &&& nlaTypeMask
    if nlaLen < 4 ∨ off + nlaLen > buf.length then
      return .inr none
    else if ty = nlaType then
      return .inr (some (← slice buf (off + 4) (off + nlaLen)))
    else return .inl (off + nlaAlign nlaLen)
  else return .inr none

/-- The search goes on from one offset at the other. -/
def Walk (off : ℕ) (_ : Unit) (off' : ℕ) : Prop :=
  nlFindAttrStep e buf nlaType off = .ok (.inl off')

/-- A whole attribute with the given length and type field lies at the offset. -/
structure AttrAt (off len : ℕ) (typeField : UInt16) : Prop where
  readLen : ∃ w, e.readU16 buf off = .ok w ∧ w.toNat = len
  readType : e.readU16 buf (off + 2) = .ok typeField
  four_le : 4 ≤ len
  within : off + len ≤ buf.length

variable {e buf nlaType} {off off' len : ℕ} {typeField : UInt16} {steps : List Unit} {u : Unit}
  {b : List UInt8}

/-! ### Iterations -/

theorem nlFindAttrStep_attr (h : AttrAt e buf off len typeField) :
    nlFindAttrStep e buf nlaType off =
      if typeField &&& nlaTypeMask = nlaType then
        .ok (.inr (some ((buf.drop (off + 4)).take (len - 4))))
      else .ok (.inl (off + nlaAlign len)) := by
  obtain ⟨⟨w, hw, rfl⟩, ht, hfour, hle⟩ := h
  have hs : slice buf (off + 4) (off + w.toNat) =
      .ok ((buf.drop (off + 4)).take (w.toNat - 4)) := by
    rw [slice_eq (by omega) hle, Nat.add_sub_add_left]
  unfold nlFindAttrStep
  rw [if_pos (by omega), hw, ok_bind, ht, ok_bind]
  dsimp only
  rw [if_neg (by omega)]
  split
  · rw [hs]
    rfl
  · rfl

theorem nlFindAttrStep_none (h : ∀ len typeField, ¬ AttrAt e buf off len typeField) :
    nlFindAttrStep e buf nlaType off = .ok (.inr none) := by
  unfold nlFindAttrStep
  split
  case isTrue hoff =>
    obtain ⟨w, hw⟩ : ∃ w, e.readU16 buf off = .ok w := Endian.readU16_ok (by omega)
    obtain ⟨ty, ht⟩ : ∃ ty, e.readU16 buf (off + 2) = .ok ty := Endian.readU16_ok (by omega)
    have hbad : w.toNat < 4 ∨ off + w.toNat > buf.length := by
      by_contra hc
      exact h w.toNat ty ⟨⟨w, hw, rfl⟩, ht, by omega, by omega⟩
    rw [hw, ok_bind, ht, ok_bind]
    exact if_pos hbad
  case isFalse => rfl

theorem nlFindAttrStep_cases (e : Endian) (buf : List UInt8) (nlaType : UInt16) (off : ℕ) :
    nlFindAttrStep e buf nlaType off = .ok (.inr none) ∨
      ∃ len typeField, AttrAt e buf off len typeField := by
  by_cases h : ∃ len typeField, AttrAt e buf off len typeField
  · exact .inr h
  · simp only [not_exists] at h
    exact .inl (nlFindAttrStep_none h)

/-- Every access of an iteration is within the buffer. -/
theorem nlFindAttrStep_ok (e : Endian) (buf : List UInt8) (nlaType : UInt16) (off : ℕ) :
    ∃ r, nlFindAttrStep e buf nlaType off = .ok r := by
  obtain hnone | ⟨len, typeField, ha⟩ := nlFindAttrStep_cases e buf nlaType off
  · exact ⟨_, hnone⟩
  · rw [nlFindAttrStep_attr ha]
    split
    · exact ⟨_, rfl⟩
    · exact ⟨_, rfl⟩

theorem nlFindAttrFrom_end (h : buf.length < off + 4) :
    nlFindAttrFrom e buf nlaType off = .ok none := by
  rw [nlFindAttrFrom, if_neg (Nat.not_le.mpr h)]

/-- The search is the iteration and the search from the next offset. -/
theorem nlFindAttrFrom_eq : nlFindAttrFrom e buf nlaType off =
    nlFindAttrStep e buf nlaType off >>= fun r => match r with
      | .inl off' => nlFindAttrFrom e buf nlaType off'
      | .inr o => .ok o := by
  rw [nlFindAttrFrom, nlFindAttrStep]
  split
  · cases e.readU16 buf off with
    | error p => rfl
    | ok w =>
      cases e.readU16 buf (off + 2) with
      | error p => rfl
      | ok ty =>
        simp only [ok_bind]
        split
        · rfl
        · split
          · cases slice buf (off + 4) (off + w.toNat) <;> rfl
          · rfl
  · rfl

/-- The search goes on past a whole attribute of another type. -/
theorem walk_iff : Walk e buf nlaType off u off' ↔
    ∃ len typeField, AttrAt e buf off len typeField ∧ typeField &&& nlaTypeMask ≠ nlaType ∧
      off' = off + nlaAlign len := by
  constructor
  · intro h
    unfold Walk at h
    obtain hnone | ⟨len, typeField, ha⟩ := nlFindAttrStep_cases e buf nlaType off
    · rw [hnone] at h
      cases h
    · rw [nlFindAttrStep_attr ha] at h
      split at h
      · cases h
      case isFalse hne =>
        cases h
        exact ⟨len, typeField, ha, hne, rfl⟩
  · rintro ⟨len, typeField, ha, hne, rfl⟩
    unfold Walk
    rw [nlFindAttrStep_attr ha, if_neg hne]

/-! ### Runs of the loop -/

theorem Walk.grows (h : Walk e buf nlaType off u off') :
    off + 4 ≤ off' ∧ off + 4 ≤ buf.length ∧ off' ≤ buf.length + 3 := by
  obtain ⟨len, typeField, ⟨-, -, hfour, hle⟩, -, rfl⟩ := walk_iff.mp h
  have hup := le_nlaAlign len
  have hlt := nlaAlign_lt len
  omega

theorem Walk.aligned (h : Walk e buf nlaType off u off') (ho : off % 4 = 0) : off' % 4 = 0 := by
  obtain ⟨len, typeField, -, -, rfl⟩ := walk_iff.mp h
  have hmod := nlaAlign_mod len
  omega

/-- The number of iterations that are left. -/
def itersLeft (buf : List UInt8) (off : ℕ) : ℕ := (buf.length - off) / 4

theorem Walk.descends (h : Walk e buf nlaType off u off') :
    itersLeft buf off' < itersLeft buf off := by
  obtain ⟨hgrow, hle, -⟩ := h.grows
  unfold itersLeft
  omega

/-- The offsets of the loop are aligned and at most three bytes past the end. -/
theorem reachable_offset (h : Reachable (Walk e buf nlaType) 0 off) :
    off % 4 = 0 ∧ off ≤ buf.length + 3 := by
  refine h.invariant (I := fun off => off % 4 = 0 ∧ off ≤ buf.length + 3) ?_ ?_
  · intro off₁ u off₂ hoff hw
    exact ⟨hw.aligned hoff.1, hw.grows.2.2⟩
  · exact ⟨rfl, Nat.zero_le _⟩

example : nlFindAttrStep .little [5, 0, 1, 0, 9] iflaInfoData 0 = .ok (.inl 8) := by decide

/-- The loop goes on at most once for every four bytes of the buffer. -/
theorem length_walk_le (h : Runs (Walk e buf nlaType) 0 steps off) :
    steps.length ≤ buf.length / 4 :=
  h.length_le (I := fun _ => True) (μ := itersLeft buf) (fun _ _ _ _ _ => trivial)
    (fun _ _ _ _ hw => hw.descends) trivial

/-- An iteration does not change the result of the search. -/
theorem nlFindAttrFrom_walk (h : Reachable (Walk e buf nlaType) off off') :
    nlFindAttrFrom e buf nlaType off = nlFindAttrFrom e buf nlaType off' := by
  refine h.invariant (I := fun o => nlFindAttrFrom e buf nlaType off =
    nlFindAttrFrom e buf nlaType o) ?_ rfl
  intro off₁ u off₂ heq hw
  have hstep : nlFindAttrStep e buf nlaType off₁ = .ok (.inl off₂) := hw
  rw [heq, nlFindAttrFrom_eq, hstep, ok_bind]

/-- The loop comes to an iteration that ends the search with its result. -/
theorem exists_result (e : Endian) (buf : List UInt8) (nlaType : UInt16) (off : ℕ) :
    ∃ off' o, Reachable (Walk e buf nlaType) off off' ∧
      nlFindAttrStep e buf nlaType off' = .ok (.inr o) ∧
      nlFindAttrFrom e buf nlaType off = .ok o := by
  obtain ⟨off', hr, hterm⟩ := exists_terminal (I := fun _ => True) (μ := itersLeft buf)
    (fun _ _ _ _ _ => trivial) (fun _ _ _ _ hw => Walk.descends hw) trivial
  obtain ⟨r, hstep⟩ := nlFindAttrStep_ok e buf nlaType off'
  cases r with
  | inl off'' => exact absurd hstep (hterm () off'')
  | inr o =>
    refine ⟨off', o, hr, hstep, ?_⟩
    rw [nlFindAttrFrom_walk hr, nlFindAttrFrom_eq, hstep, ok_bind]

/-- Every access of the search is within the buffer. -/
theorem nlFindAttr_ok (e : Endian) (buf : List UInt8) (t : UInt16) :
    ∃ o, nlFindAttr e buf t = .ok o := by
  obtain ⟨-, o, -, -, ho⟩ := exists_result e buf t 0
  exact ⟨o, ho⟩

/-- What the search returns is behind the header of a whole attribute at an aligned offset. -/
theorem exists_attrAt (h : nlFindAttr e buf nlaType = .ok (some b)) :
    ∃ off len typeField, off % 4 = 0 ∧ AttrAt e buf off len typeField ∧
      typeField &&& nlaTypeMask = nlaType ∧ b = (buf.drop (off + 4)).take (len - 4) := by
  obtain ⟨off, o, hr, hstep, ho⟩ := exists_result e buf nlaType 0
  obtain rfl : o = some b := Except.ok.inj (ho.symm.trans h)
  obtain ⟨hmod, -⟩ := reachable_offset hr
  obtain hnone | ⟨len, typeField, ha⟩ := nlFindAttrStep_cases e buf nlaType off
  · rw [hnone] at hstep
    cases hstep
  · rw [nlFindAttrStep_attr ha] at hstep
    split at hstep
    case isTrue ht =>
      cases hstep
      exact ⟨off, len, typeField, hmod, ha, ht, rfl⟩
    case isFalse => cases hstep

theorem AttrAt.length_payload (h : AttrAt e buf off len typeField) :
    4 + ((buf.drop (off + 4)).take (len - 4)).length = len := by
  have hfour := h.four_le
  have hle := h.within
  simp only [List.length_take, List.length_drop]
  omega

/-- A buffer around an attribute. -/
theorem AttrAt.split (h : AttrAt e buf off len typeField) :
    buf = buf.take off ++ ((buf.drop off).take 4 ++
      ((buf.drop (off + 4)).take (len - 4) ++ buf.drop (off + len))) := by
  have hrest : buf.drop (off + len) = (buf.drop (off + 4)).drop (len - 4) := by
    have hfour := h.four_le
    rw [List.drop_drop]
    congr 1
    omega
  rw [hrest, List.take_append_drop, ← List.drop_drop, List.take_append_drop,
    List.take_append_drop]

/-- What the search returns is a part of the buffer, the payload of a whole attribute. -/
theorem nlFindAttr_found (h : nlFindAttr e buf nlaType = .ok (some b)) :
    ∃ before header after typeField, buf = before ++ (header ++ (b ++ after)) ∧
      before.length % 4 = 0 ∧ header.length = 4 ∧
      AttrAt e buf before.length (4 + b.length) typeField ∧
      typeField &&& nlaTypeMask = nlaType := by
  obtain ⟨off, len, typeField, hmod, ha, ht, rfl⟩ := exists_attrAt h
  have hfour := ha.four_le
  have hle := ha.within
  have hbefore : (buf.take off).length = off := List.length_take_of_le (by omega)
  have hheader : ((buf.drop off).take 4).length = 4 := by
    simp only [List.length_take, List.length_drop]
    omega
  refine ⟨buf.take off, (buf.drop off).take 4, buf.drop (off + len), typeField, ha.split, ?_,
    hheader, ?_, ht⟩
  · rwa [hbefore]
  · rwa [hbefore, ha.length_payload]

end Walk

/-! ### The lookups of a reply -/

/-- The bytes up to the first NUL. -/
def upToNul (b : List UInt8) : List UInt8 := b.take (b.findIdx (· == 0))

/-- The text `can`. -/
def canText : List UInt8 := [0x63, 0x61, 0x6E]

theorem kindText_eq_can (b : List UInt8) :
    ∃ s, kindText b = .ok s ∧ (s = "can" ↔ upToNul b = canText) := by
  have hs : slice b 0 (b.findIdx (· == 0)) = .ok (upToNul b) := slice_zero List.findIdx_le_length
  refine ⟨(fromUtf8 (upToNul b)).getD "", ?_, ?_⟩
  · rw [kindText, hs]
    rfl
  · have hc : canText = "can".toByteArray.data.toList := by decide
    rw [hc, ← fromUtf8_eq_some]
    cases fromUtf8 (upToNul b) with
    | none => simp
    | some s => simp

theorem readU32_zero {e : Endian} {state : List UInt8} (h : 4 ≤ state.length) :
    ∃ b₀ b₁ b₂ b₃ rest, state = b₀ :: b₁ :: b₂ :: b₃ :: rest ∧
      e.readU32 state 0 = .ok (e.fromNeBytes b₀ b₁ b₂ b₃) := by
  match state, h with
  | b₀ :: b₁ :: b₂ :: b₃ :: rest, _ => exact ⟨b₀, b₁, b₂, b₃, rest, rfl, rfl⟩

/-- The three lookups of the parser succeed and end at the state. -/
def Finds (e : Endian) (linkinfo : List UInt8) (v : UInt32) : Prop :=
  ∃ kind infoData state, nlFindAttr e linkinfo iflaInfoKind = .ok (some kind) ∧
    upToNul kind = canText ∧ nlFindAttr e linkinfo iflaInfoData = .ok (some infoData) ∧
    nlFindAttr e infoData iflaCanState = .ok (some state) ∧ 4 ≤ state.length ∧
    e.readU32 state 0 = .ok v

/-- The kind of a link, for any bytes. -/
theorem linkKind_ok (e : Endian) (linkinfo : List UInt8) :
    ∃ s, linkKind e linkinfo = .ok s ∧
      (s = "can" ↔ ∃ kind, nlFindAttr e linkinfo iflaInfoKind = .ok (some kind) ∧
        upToNul kind = canText) := by
  obtain ⟨o, ho⟩ := nlFindAttr_ok e linkinfo iflaInfoKind
  unfold linkKind
  rw [ho]
  cases o with
  | none => exact ⟨"", rfl, by simp⟩
  | some b =>
    obtain ⟨s, hs, hcan⟩ := kindText_eq_can b
    exact ⟨s, hs, hcan.trans (by simp)⟩

/-- The lookups behind the kind, for any bytes. -/
theorem linkState_cases (e : Endian) (linkinfo : List UInt8) :
    linkState e linkinfo = .ok none ∨
    ∃ infoData state w, linkKind e linkinfo = .ok "can" ∧
      nlFindAttr e linkinfo iflaInfoData = .ok (some infoData) ∧
      nlFindAttr e infoData iflaCanState = .ok (some state) ∧ 4 ≤ state.length ∧
      e.readU32 state 0 = .ok w ∧ linkState e linkinfo = .ok (some w) := by
  obtain ⟨s, hs, -⟩ := linkKind_ok e linkinfo
  obtain ⟨d, hd⟩ := nlFindAttr_ok e linkinfo iflaInfoData
  unfold linkState
  rw [hs, ok_bind, hd]
  split
  case isTrue => exact .inl rfl
  case isFalse hcan =>
    obtain rfl := Decidable.not_not.mp hcan
    cases d with
    | none => exact .inl rfl
    | some infoData =>
      obtain ⟨o, ho⟩ := nlFindAttr_ok e infoData iflaCanState
      simp only [ok_bind, ho]
      cases o with
      | none => exact .inl rfl
      | some state =>
        dsimp only
        split
        case isTrue => exact .inl rfl
        case isFalse hlen =>
          obtain ⟨_, _, _, _, _, -, hr⟩ := readU32_zero (e := e) (Nat.not_lt.mp hlen)
          rw [hr]
          exact .inr ⟨infoData, state, _, trivial, rfl, ho, Nat.not_lt.mp hlen, hr, rfl⟩

/-- For any bytes, the parser returns the state that its lookups find. -/
theorem linkState_some_iff {e : Endian} {linkinfo : List UInt8} {v : UInt32} :
    linkState e linkinfo = .ok (some v) ↔ Finds e linkinfo v := by
  constructor
  · intro h
    obtain hn | ⟨infoData, state, w, hk, hd, hst, hlen, hr, hw⟩ := linkState_cases e linkinfo
    · rw [hn] at h
      cases h
    · obtain ⟨s, hs, hcan⟩ := linkKind_ok e linkinfo
      rw [hk] at hs
      obtain ⟨kind, hkind, hc⟩ := hcan.mp (Except.ok.inj hs).symm
      rw [hw] at h
      cases h
      exact ⟨kind, infoData, state, hkind, hc, hd, hst, hlen, hr⟩
  · rintro ⟨kind, infoData, state, hk, hcan, hd, hst, hlen, hr⟩
    obtain ⟨s, hs, hs'⟩ := linkKind_ok e linkinfo
    obtain rfl := hs'.mpr ⟨kind, hk, hcan⟩
    unfold linkState
    simp [hs, hd, hst, hr, Nat.not_lt.mpr hlen]

theorem linkState_ok (e : Endian) (linkinfo : List UInt8) : ∃ o, linkState e linkinfo = .ok o := by
  obtain h | ⟨_, _, w, -, -, -, -, -, h⟩ := linkState_cases e linkinfo
  · exact ⟨none, h⟩
  · exact ⟨some w, h⟩

section Reply

variable {e : Endian} {rbuf : List UInt8}

/-- A reply with both headers that is not an error is searched for the link information. -/
theorem parseReply_eq (hl : hdrLen + infoLen ≤ rbuf.length)
    (hne : e.readU16 rbuf 4 ≠ .ok nlmsgError) :
    parseReply e rbuf = nlFindAttr e (rbuf.drop (hdrLen + infoLen)) iflaLinkinfo >>= fun o =>
      match o with
      | none => .ok (.ok none)
      | some linkinfo => (linkState e linkinfo).map .ok := by
  have hhdr : 4 + 2 ≤ rbuf.length := Nat.le_trans (by decide) hl
  obtain ⟨w, hw⟩ : ∃ w, e.readU16 rbuf 4 = .ok w := Endian.readU16_ok hhdr
  have htype : w ≠ nlmsgError := fun h => hne (hw.trans (congrArg _ h))
  unfold parseReply
  simp only [if_neg (Nat.not_lt.mpr hl), hw, ok_bind, if_neg htype, slice_to_end hl]
  split
  case isTrue hge =>
    have hnil : rbuf.drop (hdrLen + infoLen) = [] := List.drop_eq_nil_of_le hge
    have hnone : nlFindAttr e [] iflaLinkinfo = .ok none := nlFindAttrFrom_end (by decide)
    rw [hnil, hnone]
    rfl
  case isFalse =>
    obtain ⟨o, ho⟩ := nlFindAttr_ok e (rbuf.drop (hdrLen + infoLen)) iflaLinkinfo
    rw [ho]
    cases o with
    | none => rfl
    | some linkinfo =>
      simp only [ok_bind]
      cases linkState e linkinfo <;> rfl

theorem parseReply_ok (hl : hdrLen + infoLen ≤ rbuf.length)
    (hne : e.readU16 rbuf 4 ≠ .ok nlmsgError) : ∃ o, parseReply e rbuf = .ok (.ok o) := by
  obtain ⟨o, ho⟩ := nlFindAttr_ok e (rbuf.drop (hdrLen + infoLen)) iflaLinkinfo
  rw [parseReply_eq hl hne, ho, ok_bind]
  cases o with
  | none => exact ⟨none, rfl⟩
  | some linkinfo =>
    obtain ⟨state, hs⟩ := linkState_ok e linkinfo
    exact ⟨state, by simp only [hs, Except.map]⟩

end Reply

/-- The answers of the system calls when a reply arrives. -/
def answers (message : List UInt8) : NetlinkAnswers where
  socket := .ok ()
  bind := .ok ()
  sendto := fun _ => .ok ()
  recv := .ok message

theorem getCanStateRaw_answers (e : Endian) (ifindex : UInt32) (message : List UInt8) :
    getCanStateRaw e ifindex (answers message) = parseReply e (message.take rbufLen) := rfl

/-! ### Bounds -/

/-- The loop of the search over a buffer stays in it and ends. -/
structure WalkInBounds (e : Endian) (buf : List UInt8) (nlaType : UInt16) : Prop where
  inBounds : ∀ off, ∃ r, nlFindAttrStep e buf nlaType off = .ok r
  offset : ∀ off, Reachable (Walk e buf nlaType) 0 off → off % 4 = 0 ∧ off ≤ buf.length + 3
  grows : ∀ off u off', Walk e buf nlaType off u off' → off + 4 ≤ off'
  ends : ∀ steps off, Runs (Walk e buf nlaType) 0 steps off → steps.length ≤ buf.length / 4
  result : ∃ off o, Reachable (Walk e buf nlaType) 0 off ∧
    nlFindAttrStep e buf nlaType off = .ok (.inr o) ∧ nlFindAttr e buf nlaType = .ok o
  found : ∀ b, nlFindAttr e buf nlaType = .ok (some b) →
    ∃ before header after typeField, buf = before ++ (header ++ (b ++ after)) ∧
      before.length % 4 = 0 ∧ header.length = 4 ∧
      AttrAt e buf before.length (4 + b.length) typeField ∧ typeField &&& nlaTypeMask = nlaType

theorem walkInBounds (e : Endian) (buf : List UInt8) (nlaType : UInt16) :
    WalkInBounds e buf nlaType where
  inBounds := nlFindAttrStep_ok e buf nlaType
  offset _ h := reachable_offset h
  grows _ _ _ h := h.grows.1
  ends _ _ h := length_walk_le h
  result := exists_result e buf nlaType 0
  found _ h := nlFindAttr_found h

/-- On any bytes the search for an attribute stays in the buffer and ends, and so does the query
of the state for every reply with both headers that is not an error. -/
theorem nlFindAttr_inBounds (e : Endian) :
    (∀ buf nlaType, WalkInBounds e buf nlaType) ∧
    ∀ ifindex message, 32 ≤ message.length → e.readU16 message 4 ≠ .ok nlmsgError →
      ∃ state, getCanStateRaw e ifindex (answers message) = .ok (.ok state) := by
  refine ⟨walkInBounds e, ?_⟩
  intro ifindex message hl hne
  rw [getCanStateRaw_answers]
  apply parseReply_ok
  · rw [List.length_take]
    exact Nat.le_min.mpr ⟨by decide, hl⟩
  · rwa [Endian.readU16_take (by decide)]

end Mcanbus.Iface
