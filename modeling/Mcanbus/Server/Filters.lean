import Mcanbus.Rust.Radix
import Mcanbus.Server.Config
import Mcanbus.Socket.Filter

/-! # Receive filters of the server

An entry names identifiers by a pattern, a mask and a format. The filter built
from an entry for standard identifiers does not test the format, so it also
delivers the extended identifiers that agree with the pattern on the mask.
-/

namespace Mcanbus.Server

open Rust

structure FilterEntry where
  id : String
  mask : String
  extended : Bool := false
  deriving DecidableEq, Repr

structure FilterSpec where
  entries : List FilterEntry
  deriving DecidableEq, Repr

/-- A number in an entry; a prefix `0x` is allowed. -/
def filterNumber (s : String) : Except ParseIntError UInt32 :=
  parseU32 (trimStartMatches "0x".toList s.toList)

def buildFilter (e : FilterEntry) : Except McpError CanFilter := do
  let id ← (filterNumber e.id).mapError fun err =>
    .invalidParams s!"bad filter id: {err.display}"
  let mask ← (filterNumber e.mask).mapError fun err =>
    .invalidParams s!"bad filter mask: {err.display}"
  return if e.extended then ⟨id ||| canEffFlag, mask ||| canEffFlag⟩ else ⟨id, mask⟩

def buildFilters (spec : FilterSpec) : Except McpError (List CanFilter) :=
  spec.entries.mapM buildFilter

/-! ### What an entry names -/

namespace FilterEntry

/-- The number agrees with the pattern of the entry on its mask. -/
def Agrees (e : FilterEntry) (raw : UInt32) : Prop :=
  ∃ id mask, filterNumber e.id = .ok id ∧ filterNumber e.mask = .ok mask ∧
    raw &&& mask = id &&& mask

/-- The entry names the identifier. -/
def Selects (e : FilterEntry) (id : CanId) : Prop := e.extended = id.isExtended ∧ e.Agrees id.raw

/-- The largest number of the format of the entry. -/
def limit (e : FilterEntry) : UInt32 := if e.extended then canEffMask else canSffMask

/-- Pattern and mask are numbers of the format of the entry. -/
def Fits (e : FilterEntry) : Prop :=
  ∃ id mask, filterNumber e.id = .ok id ∧ filterNumber e.mask = .ok mask ∧
    id ≤ e.limit ∧ mask ≤ e.limit

end FilterEntry

namespace FilterSpec

def Fits (spec : FilterSpec) : Prop := ∀ e ∈ spec.entries, e.Fits

/-- Some entry names the identifier. -/
def Selects (spec : FilterSpec) (id : CanId) : Prop := ∃ e ∈ spec.entries, e.Selects id

/-- An extended identifier that agrees with an entry for standard ones, and with no entry for
extended ones. -/
def Leaks (spec : FilterSpec) (id : CanId) : Prop :=
  id.isExtended = true ∧ (∃ e ∈ spec.entries, e.extended = false ∧ e.Agrees id.raw) ∧
    ∀ e ∈ spec.entries, e.extended = true → ¬ e.Agrees id.raw

end FilterSpec

/-! ### One entry -/

section Entry

variable {e : FilterEntry} {id mask w : UInt32}

theorem and_of_le_sff (h : mask ≤ canSffMask) : mask &&& canSffMask = mask := by
  apply UInt32.toNat_inj.mp
  rw [UInt32.toNat_and, show canSffMask.toNat = 2 ^ 11 - 1 by decide]
  apply Nat.and_two_pow_sub_one_of_lt_two_pow
  exact Nat.lt_of_le_of_lt (UInt32.le_iff_toNat_le.mp h) (by decide)

theorem and_of_le_eff (h : mask ≤ canEffMask) : mask &&& canEffMask = mask := by
  apply UInt32.toNat_inj.mp
  rw [UInt32.toNat_and, show canEffMask.toNat = 2 ^ 29 - 1 by decide]
  apply Nat.and_two_pow_sub_one_of_lt_two_pow
  exact Nat.lt_of_le_of_lt (UInt32.le_iff_toNat_le.mp h) (by decide)

theorem raw_and_of_le_sff (h : mask ≤ canSffMask) :
    (CanId.fromWire w).raw &&& mask = w &&& mask := by
  by_cases hw : w &&& canEffFlag = 0
  · rw [CanId.raw_fromWire_standard hw, and_and_of_within (and_of_le_sff h)]
  · have he : mask ≤ canEffMask := UInt32.le_trans h (by decide)
    rw [CanId.raw_fromWire_extended hw, and_and_of_within (and_of_le_eff he)]

theorem matches_standard (h : mask ≤ canSffMask) :
    (CanFilter.mk id mask).Matches w ↔ (CanId.fromWire w).raw &&& mask = id &&& mask := by
  rw [raw_and_of_le_sff h]
  exact Iff.rfl

theorem matches_extended (h : mask ≤ canEffMask) :
    (CanFilter.mk (id ||| canEffFlag) (mask ||| canEffFlag)).Matches w ↔
      (CanId.fromWire w).isExtended = true ∧ (CanId.fromWire w).raw &&& mask = id &&& mask := by
  have hz : canEffFlag &&& mask = 0 := by
    rw [← and_of_le_eff h, UInt32.and_comm mask, ← UInt32.and_assoc,
      show canEffFlag &&& canEffMask = 0 by decide, UInt32.zero_and]
  have hp : (id ||| canEffFlag) &&& mask = id &&& mask := by
    rw [or_and_right, hz, UInt32.or_zero]
  have hf : (id ||| canEffFlag) &&& canEffFlag = canEffFlag := by
    rw [UInt32.or_comm, or_and_self_left]
  unfold CanFilter.Matches
  rw [and_or_eq_iff, hp, hf, CanId.isExtended_fromWire]
  constructor
  · rintro ⟨hm, hw⟩
    have hne : w &&& canEffFlag ≠ 0 := by
      rw [hw]
      decide
    rw [CanId.raw_fromWire_extended hne, and_and_of_within (and_of_le_eff h)]
    exact ⟨hne, hm⟩
  · rintro ⟨hne, hm⟩
    rw [CanId.raw_fromWire_extended hne, and_and_of_within (and_of_le_eff h)] at hm
    exact ⟨hm, (CanId.and_eff_cases w).resolve_left hne⟩

/-- What the filter of an entry delivers. -/
theorem buildFilter_matches (h : e.Fits) :
    ∃ filter, buildFilter e = .ok filter ∧ ∀ w, filter.Matches w ↔
      (e.extended = true → (CanId.fromWire w).isExtended = true) ∧
        e.Agrees (CanId.fromWire w).raw := by
  obtain ⟨id, mask, hid, hmask, -, hm⟩ := h
  have ha : ∀ raw, e.Agrees raw ↔ raw &&& mask = id &&& mask := by
    intro raw
    constructor
    · rintro ⟨id', mask', hid', hmask', ha⟩
      rw [hid] at hid'
      rw [hmask] at hmask'
      cases hid'
      cases hmask'
      exact ha
    · exact fun h => ⟨id, mask, hid, hmask, h⟩
  unfold buildFilter
  rw [hid, hmask]
  cases he : e.extended with
  | false =>
    rw [FilterEntry.limit, he] at hm
    refine ⟨_, rfl, fun w => ?_⟩
    simpa [ha] using matches_standard hm
  | true =>
    rw [FilterEntry.limit, he] at hm
    refine ⟨_, rfl, fun w => ?_⟩
    simpa [ha] using matches_extended hm

end Entry

/-! ### The list of filters -/

section Spec

variable {spec : FilterSpec}

theorem mapM_exists_iff {ε α β : Type} {f : α → Except ε β} {P : β → UInt32 → Prop}
    {Q : α → UInt32 → Prop} {l : List α}
    (h : ∀ a ∈ l, ∃ b, f a = .ok b ∧ ∀ w, P b w ↔ Q a w) :
    ∃ bs, l.mapM f = .ok bs ∧ ∀ w, (∃ b ∈ bs, P b w) ↔ ∃ a ∈ l, Q a w := by
  induction l with
  | nil => exact ⟨[], rfl, by simp⟩
  | cons a l ih =>
    obtain ⟨b, hb, hP⟩ := h a List.mem_cons_self
    obtain ⟨bs, hbs, hQ⟩ := ih fun a ha => h a (List.mem_cons_of_mem _ ha)
    refine ⟨b :: bs, ?_, fun w => ?_⟩
    · rw [List.mapM_cons, hb, hbs]
      rfl
    · simp only [List.exists_mem_cons_iff, hP, hQ]

/-- The filters deliver what the entries name, and the extended identifiers that agree with an
entry for standard ones. -/
theorem buildFilters_delivers (h : spec.Fits) :
    ∃ filters, buildFilters spec = .ok filters ∧ ∀ w, Delivers filters w ↔
      ∃ e ∈ spec.entries, (e.extended = true → (CanId.fromWire w).isExtended = true) ∧
        e.Agrees (CanId.fromWire w).raw :=
  mapM_exists_iff fun e he => buildFilter_matches (h e he)

/-- The filters deliver exactly what the entries name, except for the identifiers that leak. -/
theorem buildFilters_exact_iff (spec : FilterSpec) (h : spec.Fits) :
    ∃ filters, buildFilters spec = .ok filters ∧ ∀ w,
      (Delivers filters w ↔ spec.Selects (.fromWire w)) ↔ ¬ spec.Leaks (.fromWire w) := by
  obtain ⟨filters, hf, hd⟩ := buildFilters_delivers h
  refine ⟨filters, hf, fun w => ?_⟩
  rw [hd]
  generalize CanId.fromWire w = id
  constructor
  · rintro hiff ⟨hx, ⟨e, he, hstd, ha⟩, hno⟩
    obtain ⟨e', he', hext, ha'⟩ := hiff.mp ⟨e, he, fun _ => hx, ha⟩
    exact hno e' he' (hext.trans hx) ha'
  · intro hleak
    constructor
    · rintro ⟨e, he, hext, ha⟩
      by_cases hsame : e.extended = id.isExtended
      · exact ⟨e, he, hsame, ha⟩
      · by_contra hsel
        have hstd : e.extended = false := by
          cases hv : e.extended with
          | false => rfl
          | true => exact absurd (hv.trans (hext hv).symm) hsame
        have hx : id.isExtended = true := by
          cases hv : id.isExtended with
          | true => rfl
          | false => exact absurd (hstd.trans hv.symm) hsame
        exact hleak ⟨hx, ⟨e, he, hstd, ha⟩, fun e' he' hext' ha' =>
          hsel ⟨e', he', hext'.trans hx.symm, ha'⟩⟩
    · rintro ⟨e, he, hsame, ha⟩
      exact ⟨e, he, fun hext => hsame ▸ hext, ha⟩

/-- Every entry for standard identifiers delivers an extended one. -/
theorem exists_extended_of_standard {e : FilterEntry} (h : e.Fits) (he : e.extended = false) :
    ∃ filter w, buildFilter e = .ok filter ∧ filter.Matches w ∧
      (CanId.fromWire w).isExtended = true := by
  obtain ⟨filter, hf, hd⟩ := buildFilter_matches h
  obtain ⟨id, mask, hid, hmask, -, hm⟩ := h
  rw [FilterEntry.limit, he] at hm
  have hz : canEffFlag &&& mask = 0 := by
    rw [← and_of_le_sff hm, UInt32.and_comm mask, ← UInt32.and_assoc,
      show canEffFlag &&& canSffMask = 0 by decide, UInt32.zero_and]
  have hx : (CanId.fromWire (id ||| canEffFlag)).isExtended = true := by
    rw [CanId.isExtended_fromWire, UInt32.or_comm, or_and_self_left]
    decide
  have ha : (CanId.fromWire (id ||| canEffFlag)).raw &&& mask = id &&& mask := by
    rw [raw_and_of_le_sff hm, or_and_right, hz, UInt32.or_zero]
  exact ⟨filter, _, hf, (hd _).mpr ⟨fun _ => hx, id, mask, hid, hmask, ha⟩, hx⟩

theorem buildFilters_exact_iff_twoEntries :
    ∃ filters,
      buildFilters ⟨[{ id := "0x123", mask := "7FF" },
        { id := "18DA00F9", mask := "1fff0000", extended := true }]⟩ = .ok filters ∧
      (Delivers filters 0x123 ↔ FilterSpec.Selects
        ⟨[{ id := "0x123", mask := "7FF" },
          { id := "18DA00F9", mask := "1fff0000", extended := true }]⟩ (.fromWire 0x123)) := by
  obtain ⟨filters, hf, h⟩ := buildFilters_exact_iff
    ⟨[{ id := "0x123", mask := "7FF" },
      { id := "18DA00F9", mask := "1fff0000", extended := true }]⟩ (by
    simp only [FilterSpec.Fits, List.forall_mem_cons]
    exact ⟨⟨0x123, 0x7FF, by decide, by decide, by decide, by decide⟩,
      ⟨0x18DA00F9, 0x1FFF0000, by decide, by decide, by decide, by decide⟩,
      fun _ he => nomatch he⟩)
  exact ⟨filters, hf, (h 0x123).mpr fun hl => absurd hl.1 (by decide)⟩

/-- The filter for the standard identifier 0x123 delivers the extended identifier 0x123. -/
theorem not_buildFilters_exact :
    FilterSpec.Fits ⟨[{ id := "123", mask := "7FF" }]⟩ ∧
    0x80000123 &&& canErrFlag = 0 ∧ 0x80000123 &&& canRtrFlag = 0 ∧
    ∃ filters, buildFilters ⟨[{ id := "123", mask := "7FF" }]⟩ = .ok filters ∧
      ¬ (Delivers filters 0x80000123 ↔
        FilterSpec.Selects ⟨[{ id := "123", mask := "7FF" }]⟩ (.fromWire 0x80000123)) := by
  refine ⟨?_, by decide, by decide, [⟨0x123, 0x7FF⟩], by decide, fun h => ?_⟩
  · simp only [FilterSpec.Fits, List.forall_mem_singleton]
    exact ⟨0x123, 0x7FF, by decide, by decide, by decide, by decide⟩
  · obtain ⟨e, he, hs, -⟩ := h.mp (by decide)
    rw [List.mem_singleton] at he
    subst he
    exact absurd hs (by decide)

end Spec

end Mcanbus.Server
