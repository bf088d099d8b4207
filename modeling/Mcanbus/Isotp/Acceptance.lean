import Mcanbus.Isotp.Reassembly

/-! # Accepted messages

The sequences of frames that the receiver turns into a response, described by
their data alone, and the well-formed classic messages. An accepted sequence is
well formed exactly when its First Frame and all Consecutive Frames but the last
are full.
-/

namespace Mcanbus.Isotp

open Rust Effect Effect.Process

variable {pci low : UInt8} {first rest v : List UInt8} {cfs datas : List (List UInt8)}
  {i n total : ℕ} {s : CollectState} {rx : Rx}

/-! ### Accepted sequences -/

/-- The first byte of the Consecutive Frame at the given position. -/
structure IsConsecutive (i : ℕ) (pci : UInt8) : Prop where
  type_eq : pci &&& pciTypeMask = pciCf
  seq_eq : pci &&& 0x0F = .ofNat ((i + 1) % 16)

/-- Consecutive Frames numbered in order from the given position on. -/
def Numbered : ℕ → List (List UInt8) → Prop
  | _, [] => True
  | i, cf :: cfs => (∃ pci rest, cf = pci :: rest ∧ IsConsecutive i pci) ∧ Numbered (i + 1) cfs

/-- The bytes of Consecutive Frames, at most seven of each. -/
def carried (cfs : List (List UInt8)) : List UInt8 :=
  (cfs.map fun cf => cf.tail.take cfPayload).flatten

/-- The last of the frames brings the bytes from `n` to the announced length. -/
structure Completes (total n : ℕ) (cfs : List (List UInt8)) : Prop where
  reaches : total ≤ n + (carried cfs).length
  short : ∀ j < cfs.length, n + (carried (cfs.take j)).length < total

@[simp] theorem carried_nil : carried [] = [] := rfl

@[simp] theorem carried_cons (cf : List UInt8) (cfs : List (List UInt8)) :
    carried (cf :: cfs) = cf.tail.take cfPayload ++ carried cfs := rfl

theorem completes_nil : Completes total n [] ↔ total ≤ n :=
  ⟨fun h => h.reaches, fun h => ⟨h, fun _ hj => absurd hj (Nat.not_lt_zero _)⟩⟩

theorem completes_cons {cf : List UInt8} : Completes total n (cf :: cfs) ↔
    n < total ∧ Completes total (n + (cf.tail.take cfPayload).length) cfs := by
  constructor
  · rintro ⟨hr, hs⟩
    rw [carried_cons, List.length_append, ← Nat.add_assoc] at hr
    refine ⟨hs 0 (Nat.zero_lt_succ _), hr, fun j hj => ?_⟩
    have h := hs (j + 1) (Nat.succ_lt_succ hj)
    rwa [List.take_succ_cons, carried_cons, List.length_append, ← Nat.add_assoc] at h
  · rintro ⟨hn, hr, hs⟩
    refine ⟨by rwa [carried_cons, List.length_append, ← Nat.add_assoc], fun j hj => ?_⟩
    cases j with
    | zero => exact hn
    | succ j =>
      have h := hs j (Nat.lt_of_succ_lt_succ hj)
      rwa [List.take_succ_cons, carried_cons, List.length_append, ← Nat.add_assoc]

/-- Bytes past the announced length make no difference. -/
theorem completes_min : Completes total (min n total) cfs ↔ Completes total n cfs := by
  rcases Nat.lt_or_ge n total with h | h
  · rw [Nat.min_eq_left (Nat.le_of_lt h)]
  · rw [Nat.min_eq_right h]
    cases cfs with
    | nil => rw [completes_nil, completes_nil]; omega
    | cons cf cfs => rw [completes_cons, completes_cons]; omega

/-- The two ways to complete a message within one sequence are the same. -/
theorem Completes.unique {cfs' later later' : List (List UInt8)} (h : Completes total n cfs)
    (h' : Completes total n cfs') (he : cfs ++ later = cfs' ++ later') : cfs = cfs' := by
  have aux : ∀ {a b c d : List (List UInt8)}, Completes total n a → Completes total n b →
      a ++ c = b ++ d → b.length ≤ a.length := by
    intro a b c d ha hb he
    by_contra hlt
    have hs := hb.short a.length (Nat.lt_of_not_le hlt)
    have ht : b.take a.length = a := by
      have hb' : (b ++ d).take a.length = b.take a.length :=
        List.take_append_of_le_length (Nat.le_of_not_le hlt)
      rw [← hb', ← he, List.take_left' rfl]
    rw [ht] at hs
    exact absurd ha.reaches (Nat.not_le.mpr hs)
  have hl : cfs.length = cfs'.length := Nat.le_antisymm (aux h' h he.symm) (aux h h' he)
  exact (List.append_inj he hl).1

/-- The receiver needs all of the frames and returns the bytes. -/
def Accepts (rx : Rx) (datas : List (List UInt8)) (v : List UInt8) : Prop :=
  rx.Needs datas ∧ rx.feedAll datas = .accepted v

theorem accepts_nil : Accepts rx [] v ↔ rx = .accepted v :=
  ⟨fun h => h.2, fun h => ⟨Rx.needs_nil, h⟩⟩

theorem accepts_cons {data : List UInt8} :
    Accepts rx (data :: datas) v ↔ rx.Waiting ∧ Accepts (rx.feed data) datas v := by
  rw [Accepts, Accepts, Rx.needs_cons, Rx.feedAll_cons, and_assoc]

theorem not_accepts_stopped {h : Halt IoError} : ¬ Accepts (.stopped h) datas v := by
  rintro ⟨-, hf⟩
  rw [Rx.feedAll_stopped] at hf
  cases hf

theorem accepts_accepted {w : List UInt8} : Accepts (.accepted w) datas v ↔ datas = [] ∧ w = v := by
  cases datas with
  | nil =>
    rw [accepts_nil]
    exact ⟨fun h => ⟨rfl, Rx.accepted.inj h⟩, fun h => congrArg _ h.2⟩
  | cons data datas =>
    rw [accepts_cons]
    exact ⟨fun h => h.1.elim, fun h => nomatch h.1⟩

theorem seq_next {s : CollectState} (hs : s.expectedSeq = .ofNat ((i + 1) % 16)) :
    s.expectedSeq + 1 &&& 0x0F = .ofNat ((i + 1 + 1) % 16) := by
  have hm : ((i + 1) % 16 + 1) % 16 = (i + 1 + 1) % 16 := by omega
  rw [hs, ← hm, ← seq_mask (Nat.mod_lt _ (by decide)), UInt8.ofNat_add]
  rfl

theorem take_take_append {α : Type} (k : ℕ) (r c : List α) :
    (r.take k ++ c).take k = (r ++ c).take k := by
  rw [List.take_append, List.take_append, List.take_take, Nat.min_self, List.length_take]
  congr 2
  omega

/-- The number of bytes after a Consecutive Frame, which brings no more than are missing. -/
theorem length_append_missing {out : List UInt8} (hl : out.length ≤ total) (rest : List UInt8) :
    (out ++ rest.take (min (total - out.length) cfPayload)).length =
      min (out.length + (rest.take cfPayload).length) total := by
  simp only [List.length_append, List.length_take]
  omega

/-- The bytes that a Consecutive Frame brings too many are past the announced length. -/
theorem take_append_missing (total : ℕ) (out rest later : List UInt8) :
    (out ++ rest.take (min (total - out.length) cfPayload) ++ later).take total =
      (out ++ (rest.take cfPayload ++ later)).take total := by
  rw [← List.take_take, List.append_assoc, List.take_append, take_take_append, ← List.take_append]

theorem settle_eq_accepted_iff :
    Rx.settle total s = .accepted v ↔ total ≤ s.out.length ∧ v = s.out := by
  rcases Nat.lt_or_ge s.out.length total with h | h
  · rw [Rx.settle_collecting h]
    constructor
    · intro hc
      cases hc
    · rintro ⟨hc, -⟩
      exact absurd hc (Nat.not_le.mpr h)
  · rw [Rx.settle_accepted h]
    constructor
    · intro hc
      exact ⟨h, (Rx.accepted.inj hc).symm⟩
    · rintro ⟨-, rfl⟩
      rfl

/-- A frame that is not the expected Consecutive Frame stops the receiver. -/
theorem not_accepts_collecting (hs : s.expectedSeq = .ofNat ((i + 1) % 16))
    (h : s.out.length < total) {cf : List UInt8}
    (hcf : ¬ ∃ pci rest, cf = pci :: rest ∧ IsConsecutive i pci) :
    ¬ Accepts ((Rx.collecting total s h).feed cf) cfs v := by
  obtain ⟨message, hf⟩ | ⟨pci, rest, rfl, hp, hseq, -⟩ := Rx.feed_collecting_cases h cf
  · rw [hf]
    exact not_accepts_stopped
  · exact absurd ⟨pci, rest, rfl, hp, hseq.trans hs⟩ hcf

/-- What the loop that collects Consecutive Frames accepts. -/
theorem accepts_settle_iff (hs : s.expectedSeq = .ofNat ((i + 1) % 16))
    (hl : s.out.length ≤ total) :
    Accepts (.settle total s) cfs v ↔ Numbered i cfs ∧ Completes total s.out.length cfs ∧
      v = (s.out ++ carried cfs).take total := by
  induction cfs generalizing i s with
  | nil =>
    rw [accepts_nil, completes_nil, carried_nil, List.append_nil, List.take_of_length_le hl,
      settle_eq_accepted_iff]
    exact ⟨fun h => ⟨trivial, h⟩, fun h => h.2⟩
  | cons cf cfs ih =>
    rw [accepts_cons, completes_cons, Numbered]
    rcases Nat.lt_or_ge s.out.length total with h | h
    case inr =>
      rw [Rx.settle_accepted h]
      constructor
      · rintro ⟨hw, -⟩
        exact hw.elim
      · rintro ⟨-, ⟨hlt, -⟩, -⟩
        exact absurd hlt (Nat.not_lt.mpr h)
    rw [Rx.settle_collecting h]
    by_cases hcf : ∃ pci rest, cf = pci :: rest ∧ IsConsecutive i pci
    · obtain ⟨pci, rest, rfl, hc⟩ := hcf
      have hl' := length_append_missing hl rest
      rw [Rx.feed_consecutive h hc.type_eq (hc.seq_eq.trans hs.symm), ih (seq_next hs), hl',
        completes_min, take_append_missing]
      · constructor
        · rintro ⟨-, hn, hcomp, hv⟩
          exact ⟨⟨⟨pci, rest, rfl, hc⟩, hn⟩, ⟨h, hcomp⟩, hv⟩
        · rintro ⟨⟨-, hn⟩, ⟨-, hcomp⟩, hv⟩
          exact ⟨trivial, hn, hcomp, hv⟩
      · rw [hl']
        exact Nat.min_le_right _ _
    · constructor
      · rintro ⟨-, ha⟩
        exact absurd ha (not_accepts_collecting hs h hcf)
      · rintro ⟨⟨hc, -⟩, -⟩
        exact absurd hc hcf

/-- What the receiver accepts: a Single Frame, or a First Frame with Consecutive Frames that
complete it. -/
theorem accepts_idle_iff : Accepts .idle datas v ↔
    (∃ pci rest, datas = [pci :: rest] ∧ IsSingle pci rest ∧ v = rest.take (sfLength pci)) ∨
    (∃ pci low first cfs, datas = (pci :: low :: first) :: cfs ∧ IsFirst pci low ∧
      Numbered 0 cfs ∧ Completes (ffLength pci low) first.length cfs ∧
      v = (first ++ carried cfs).take (ffLength pci low)) := by
  have hfirst {pci low : UInt8} {first : List UInt8} {cfs : List (List UInt8)}
      (hf : IsFirst pci low) : Accepts .idle ((pci :: low :: first) :: cfs) v ↔
        Numbered 0 cfs ∧ Completes (ffLength pci low) first.length cfs ∧
        v = (first ++ carried cfs).take (ffLength pci low) := by
    have hl : (first.take (ffLength pci low)).length ≤ ffLength pci low := List.length_take_le _ _
    rw [accepts_cons, Rx.feed_first hf, accepts_settle_iff (i := 0) rfl hl,
      List.length_take, Nat.min_comm, completes_min, take_take_append]
    exact ⟨fun h => h.2, fun h => ⟨trivial, h⟩⟩
  constructor
  · intro h
    rcases datas with _ | ⟨data, datas⟩
    · cases accepts_nil.mp h
    obtain ⟨message, hm⟩ | ⟨pci, rest, rfl, hs, ha⟩ | ⟨pci, low, rest, rfl, hf, -⟩ :=
      Rx.feed_idle_cases data
    · rw [accepts_cons, hm] at h
      exact absurd h.2 not_accepts_stopped
    · rw [accepts_cons, ha] at h
      obtain ⟨rfl, rfl⟩ := accepts_accepted.mp h.2
      exact .inl ⟨pci, rest, rfl, hs, rfl⟩
    · exact .inr ⟨pci, low, rest, datas, rfl, hf, (hfirst hf).mp h⟩
  · rintro (⟨pci, rest, rfl, hs, rfl⟩ | ⟨pci, low, first, cfs, rfl, hf, h⟩)
    · rw [accepts_cons, Rx.feed_single hs, accepts_nil]
      exact ⟨trivial, rfl⟩
    · exact (hfirst hf).mpr h

/-- Consecutive Frames in order take the loop to where it has their bytes. -/
theorem feedAll_numbered (hn : Numbered i cfs) (hs : s.expectedSeq = .ofNat ((i + 1) % 16))
    (hl : s.out.length ≤ total) : ∃ s', (Rx.settle total s).feedAll cfs = .settle total s' ∧
      s'.out = (s.out ++ carried cfs).take total := by
  induction cfs generalizing i s with
  | nil =>
    rw [carried_nil, List.append_nil, List.take_of_length_le hl]
    exact ⟨s, rfl, rfl⟩
  | cons cf cfs ih =>
    obtain ⟨⟨pci, rest, rfl, hc⟩, hn⟩ := hn
    rcases Nat.lt_or_ge s.out.length total with h | h
    · have hl' : (s.out ++ rest.take (min (total - s.out.length) cfPayload)).length ≤ total := by
        rw [length_append_missing hl]
        exact Nat.min_le_right _ _
      rw [Rx.settle_collecting h, Rx.feedAll_cons,
        Rx.feed_consecutive h hc.type_eq (hc.seq_eq.trans hs.symm), carried_cons, List.tail_cons,
        ← take_append_missing]
      exact ih hn (seq_next hs) hl'
    · rw [Rx.settle_accepted h, Rx.feedAll_accepted, ← Rx.settle_accepted h,
        List.take_left' (Nat.le_antisymm hl h)]
      exact ⟨s, rfl, rfl⟩

/-- The loop that collects Consecutive Frames needs another one after Consecutive Frames in order
that leave bytes missing. -/
theorem waiting_settle_iff (hs : s.expectedSeq = .ofNat ((i + 1) % 16))
    (hl : s.out.length ≤ total) :
    ((Rx.settle total s).feedAll cfs).Waiting ↔
      Numbered i cfs ∧ s.out.length + (carried cfs).length < total := by
  induction cfs generalizing i s with
  | nil =>
    rw [Rx.feedAll_nil, carried_nil, List.length_nil, Nat.add_zero]
    rcases Nat.lt_or_ge s.out.length total with h | h
    · rw [Rx.settle_collecting h]
      exact iff_of_true trivial ⟨trivial, h⟩
    · rw [Rx.settle_accepted h]
      exact iff_of_false Rx.not_waiting_accepted fun hc => absurd hc.2 (Nat.not_lt.mpr h)
  | cons cf cfs ih =>
    rw [Rx.feedAll_cons, Numbered, carried_cons, List.length_append, ← Nat.add_assoc]
    rcases Nat.lt_or_ge s.out.length total with h | h
    case inr =>
      rw [Rx.settle_accepted h, ← Rx.feedAll_cons, Rx.feedAll_accepted]
      refine iff_of_false Rx.not_waiting_accepted ?_
      rintro ⟨-, hlt⟩
      omega
    rw [Rx.settle_collecting h]
    by_cases hcf : ∃ pci rest, cf = pci :: rest ∧ IsConsecutive i pci
    · obtain ⟨pci, rest, rfl, hc⟩ := hcf
      have hl' := length_append_missing hl rest
      have hle : min (s.out.length + (rest.take cfPayload).length) total ≤ total :=
        Nat.min_le_right _ _
      rw [Rx.feed_consecutive h hc.type_eq (hc.seq_eq.trans hs.symm), ih (seq_next hs), hl',
        List.tail_cons]
      · constructor
        · rintro ⟨hn, hlt⟩
          exact ⟨⟨⟨pci, rest, rfl, hc⟩, hn⟩, by omega⟩
        · rintro ⟨⟨-, hn⟩, hlt⟩
          exact ⟨hn, by omega⟩
      · rw [hl']
        exact hle
    · obtain ⟨message, hf⟩ | ⟨pci, rest, rfl, hp, hseq, -⟩ := Rx.feed_collecting_cases h cf
      · rw [hf, Rx.feedAll_stopped]
        exact iff_of_false Rx.not_waiting_stopped fun hc => absurd hc.1.1 hcf
      · exact absurd ⟨pci, rest, rfl, hp, hseq.trans hs⟩ hcf

/-- When the receiver needs another frame: at the start, and while bytes of a message are
missing. -/
theorem waiting_idle_iff : (Rx.idle.feedAll datas).Waiting ↔
    datas = [] ∨ ∃ pci low first cfs, datas = (pci :: low :: first) :: cfs ∧ IsFirst pci low ∧
      Numbered 0 cfs ∧ first.length + (carried cfs).length < ffLength pci low := by
  have hfirst {pci low : UInt8} {first : List UInt8} {cfs : List (List UInt8)}
      (hf : IsFirst pci low) : (Rx.idle.feedAll ((pci :: low :: first) :: cfs)).Waiting ↔
        Numbered 0 cfs ∧ first.length + (carried cfs).length < ffLength pci low := by
    have hl : (first.take (ffLength pci low)).length ≤ ffLength pci low := List.length_take_le _ _
    rw [Rx.feedAll_cons, Rx.feed_first hf, waiting_settle_iff (i := 0) rfl hl, List.length_take]
    refine and_congr_right fun _ => ?_
    omega
  constructor
  · intro hw
    rcases datas with _ | ⟨data, datas⟩
    · exact .inl rfl
    obtain ⟨message, hm⟩ | ⟨pci, rest, rfl, -, ha⟩ | ⟨pci, low, rest, rfl, hf, -⟩ :=
      Rx.feed_idle_cases data
    · rw [Rx.feedAll_cons, hm, Rx.feedAll_stopped] at hw
      exact hw.elim
    · rw [Rx.feedAll_cons, ha, Rx.feedAll_accepted] at hw
      exact hw.elim
    · exact .inr ⟨pci, low, rest, datas, rfl, hf, (hfirst hf).mp hw⟩
  · rintro (rfl | ⟨pci, low, first, cfs, rfl, hf, h⟩)
    · trivial
    · exact (hfirst hf).mpr h

/-! ### Well-formed messages -/

/-- Consecutive Frames that carry the bytes in order, all but the last seven of them each. -/
inductive Carries : ℕ → List UInt8 → List (List UInt8) → Prop
  | nil (i : ℕ) : Carries i [] []
  | cons {i : ℕ} {pci : UInt8} {rest bytes : List UInt8} {cfs : List (List UInt8)} :
      bytes ≠ [] → IsConsecutive i pci → bytes.take cfPayload <+: rest →
      Carries (i + 1) (bytes.drop cfPayload) cfs → Carries i bytes ((pci :: rest) :: cfs)

/-- The data of the frames of a well-formed classic message that carries the bytes. -/
inductive WellFormed (v : List UInt8) : List (List UInt8) → Prop
  | single {pci : UInt8} {rest : List UInt8} : IsSingle pci rest → v = rest.take (sfLength pci) →
      WellFormed v [pci :: rest]
  | segmented {pci low : UInt8} {cfs : List (List UInt8)} : IsFirst pci low →
      ffLength pci low = v.length → Carries 0 (v.drop ffFirstPayload) cfs →
      WellFormed v ((pci :: low :: v.take ffFirstPayload) :: cfs)

/-- The number of Consecutive Frames is the number of bytes over seven, rounded up. -/
theorem Carries.length_eq (h : Carries i v cfs) : cfs.length = cfCount v := by
  induction h with
  | nil => rfl
  | cons hne _ _ _ ih =>
    have := List.length_pos_iff.mpr hne
    rw [List.length_cons, ih, cfCount, cfCount, List.length_drop, cfPayload]
    omega

theorem wellFormed_first_iff (hf : IsFirst pci low) :
    WellFormed v ((pci :: low :: first) :: cfs) ↔ ffLength pci low = v.length ∧
      first = v.take ffFirstPayload ∧ Carries 0 (v.drop ffFirstPayload) cfs := by
  constructor
  · intro h
    cases h with
    | single hs => exact absurd hs hf.not_single
    | segmented _ hl hc => exact ⟨hl, rfl, hc⟩
  · rintro ⟨hl, rfl, hc⟩
    exact .segmented hf hl hc

/-- The First Frame of a well-formed message has exactly eight bytes. -/
theorem WellFormed.length_first (h : WellFormed v ((pci :: low :: first) :: cfs))
    (hf : IsFirst pci low) : (pci :: low :: first).length = frameDlc := by
  obtain ⟨hl, rfl, -⟩ := (wellFormed_first_iff hf).mp h
  have hlt := hf.length_gt
  simp only [sfMaxLen] at hlt
  simp only [List.length_cons, List.length_take, ffFirstPayload, frameDlc]
  omega

theorem carries_cons : Carries i v ((pci :: rest) :: cfs) ↔ v ≠ [] ∧ IsConsecutive i pci ∧
    v.take cfPayload <+: rest ∧ Carries (i + 1) (v.drop cfPayload) cfs := by
  constructor
  · intro h
    cases h with
    | cons hne hcf hpre hcar => exact ⟨hne, hcf, hpre, hcar⟩
  · rintro ⟨hne, hcf, hpre, hcar⟩
    exact .cons hne hcf hpre hcar

/-- The last Consecutive Frame carries the bytes that are left. -/
theorem carries_last (hcf : IsConsecutive i pci) (hlt : n < total)
    (ht : total ≤ n + (rest.take cfPayload).length) :
    Carries i ((rest.take cfPayload).take (total - n)) [pci :: rest] := by
  apply carries_cons.mpr ⟨?_, hcf, ?_, ?_⟩
  · rw [← List.length_pos_iff, List.length_take]
    omega
  · exact (List.take_prefix _ _).trans ((List.take_prefix _ _).trans (List.take_prefix _ _))
  · rw [List.drop_eq_nil_of_le]
    · exact .nil _
    · rw [List.length_take, List.length_take]
      omega

/-- The bytes of a full Consecutive Frame and the bytes behind them. -/
theorem take_full (h7 : cfPayload ≤ rest.length) (hlt : n + (rest.take cfPayload).length < total)
    (bytes : List UInt8) :
    ((rest.take cfPayload ++ bytes).take (total - n)).take cfPayload = rest.take cfPayload ∧
      ((rest.take cfPayload ++ bytes).take (total - n)).drop cfPayload =
        bytes.take (total - (n + (rest.take cfPayload).length)) := by
  have hr : (rest.take cfPayload).length = cfPayload := List.length_take_of_le h7
  rw [hr] at hlt ⊢
  rw [List.take_take, List.drop_take, Nat.min_eq_left (by omega), List.take_left' hr,
    List.drop_left' hr, Nat.sub_add_eq]
  exact ⟨rfl, rfl⟩

/-- Frames that complete a message carry its bytes when all but the last of them are full. -/
theorem carries_iff (hn : Numbered i cfs) (hc : Completes total n cfs) :
    Carries i ((carried cfs).take (total - n)) cfs ↔ ∀ cf ∈ cfs.dropLast, frameDlc ≤ cf.length := by
  induction cfs generalizing i n with
  | nil =>
    rw [carried_nil, List.take_nil]
    exact ⟨fun _ _ h => absurd h List.not_mem_nil, fun _ => .nil i⟩
  | cons cf cfs ih =>
    obtain ⟨⟨pci, rest, rfl, hcf⟩, hn⟩ := hn
    obtain ⟨hlt, hc⟩ := completes_cons.mp hc
    rw [List.tail_cons] at hc
    rw [carried_cons, List.tail_cons]
    rcases cfs with _ | ⟨cf', cfs⟩
    · have ht := completes_nil.mp hc
      rw [carried_nil, List.append_nil]
      exact ⟨fun _ _ h => absurd h List.not_mem_nil, fun _ => carries_last hcf hlt ht⟩
    · have hshort := (completes_cons.mp hc).1
      have hreach := hc.reaches
      rw [List.dropLast_cons_of_ne_nil (List.cons_ne_nil _ _), List.forall_mem_cons, ← ih hn hc,
        carries_cons]
      constructor
      · rintro ⟨-, -, hpre, hcar⟩
        have h7 : cfPayload ≤ rest.length := by
          have hle := hpre.length_le
          simp only [List.length_take, List.length_append] at hle hshort hreach
          omega
        rw [(take_full h7 hshort _).2] at hcar
        exact ⟨Nat.succ_le_succ h7, hcar⟩
      · rintro ⟨h8, hcar⟩
        have h7 : cfPayload ≤ rest.length := Nat.le_of_succ_le_succ h8
        obtain ⟨htake, hdrop⟩ := take_full h7 hshort (carried (cf' :: cfs))
        rw [htake, hdrop]
        refine ⟨?_, hcf, List.take_prefix _ _, hcar⟩
        intro hnil
        rw [hnil, List.take_nil] at htake
        have := congrArg List.length htake.symm
        rw [List.length_take_of_le h7] at this
        cases this

/-- The First Frame has six payload bytes and the Consecutive Frames at least seven. -/
def Whole (first : List UInt8) (cfs : List (List UInt8)) : Prop :=
  first.length = ffFirstPayload ∧ ∀ cf ∈ cfs, frameDlc ≤ cf.length

/-- An accepted message is well formed when all its frames but the last are whole. -/
theorem wellFormed_iff (hf : IsFirst pci low) (hn : Numbered 0 cfs)
    (hc : Completes (ffLength pci low) first.length cfs) :
    WellFormed ((first ++ carried cfs).take (ffLength pci low)) ((pci :: low :: first) :: cfs) ↔
      Whole first cfs.dropLast := by
  have hlt : ffFirstPayload < ffLength pci low := Nat.lt_trans (by decide) hf.length_gt
  have hl : ((first ++ carried cfs).take (ffLength pci low)).length = ffLength pci low := by
    rw [List.length_take_of_le]
    rw [List.length_append]
    exact hc.reaches
  have hbytes (h6 : first.length = ffFirstPayload) :
      ((first ++ carried cfs).take (ffLength pci low)).take ffFirstPayload = first ∧
      ((first ++ carried cfs).take (ffLength pci low)).drop ffFirstPayload =
        (carried cfs).take (ffLength pci low - first.length) := by
    rw [List.take_take, List.drop_take, Nat.min_eq_left (Nat.le_of_lt hlt), List.take_left' h6,
      List.drop_left' h6, h6]
    exact ⟨rfl, rfl⟩
  rw [wellFormed_first_iff hf, Whole, ← carries_iff hn hc]
  constructor
  · rintro ⟨-, hfirst, hcar⟩
    have h6 : first.length = ffFirstPayload := by
      rw [hfirst, List.length_take, hl]
      exact Nat.min_eq_left (Nat.le_of_lt hlt)
    rw [(hbytes h6).2] at hcar
    exact ⟨h6, hcar⟩
  · rintro ⟨h6, hcar⟩
    obtain ⟨htake, hdrop⟩ := hbytes h6
    rw [htake, hdrop]
    exact ⟨hl.symm, rfl, hcar⟩

/-! ### The beginnings of well-formed messages -/

/-- The Consecutive Frames of a well-formed message complete it, and bring its bytes. -/
theorem Carries.brings (h : Carries i v cfs) :
    Numbered i cfs ∧ v <+: carried cfs ∧ ∀ n, Completes (n + v.length) n cfs := by
  induction h with
  | nil => exact ⟨trivial, List.prefix_refl [], fun n => completes_nil.mpr (Nat.le_refl n)⟩
  | @cons i pci rest bytes cfs hne hcf hpre hcar ih =>
    obtain ⟨hn, hp, hc⟩ := ih
    have hpos := List.length_pos_iff.mpr hne
    have htake : bytes.take cfPayload <+: rest.take cfPayload :=
      List.prefix_take_iff.mpr ⟨hpre, List.length_take_le _ _⟩
    refine ⟨⟨⟨pci, rest, rfl, hcf⟩, hn⟩, ?_⟩
    rw [carried_cons, List.tail_cons]
    rcases Nat.lt_or_ge cfPayload bytes.length with h7 | h7
    · have hfull : (bytes.take cfPayload).length = cfPayload :=
        List.length_take_of_le (Nat.le_of_lt h7)
      have heq : bytes.take cfPayload = rest.take cfPayload := by
        refine htake.eq_of_length_le ?_
        rw [hfull]
        exact List.length_take_le _ _
      refine ⟨?_, fun n => completes_cons.mpr ⟨by omega, ?_⟩⟩
      · rw [← heq]
        have happ := (List.prefix_append_right_inj (bytes.take cfPayload)).mpr hp
        rwa [List.take_append_drop] at happ
      · have hcn := hc (n + cfPayload)
        rw [List.length_drop, Nat.add_assoc, Nat.add_sub_cancel' (Nat.le_of_lt h7)] at hcn
        rw [List.tail_cons, ← heq, hfull]
        exact hcn
    · rw [List.take_of_length_le h7] at htake
      rw [List.drop_eq_nil_of_le h7] at hcar
      obtain rfl : cfs = [] := List.length_eq_zero_iff.mp hcar.length_eq
      have hle := htake.length_le
      rw [carried_nil, List.append_nil]
      refine ⟨htake, fun n => completes_cons.mpr ⟨by omega, completes_nil.mpr ?_⟩⟩
      rw [List.tail_cons]
      omega

/-- Well-formed messages are accepted. -/
theorem WellFormed.accepts (h : WellFormed v datas) : Accepts .idle datas v := by
  cases h with
  | single hs hv => exact accepts_idle_iff.mpr (.inl ⟨_, _, rfl, hs, hv⟩)
  | @segmented pci low cfs hf hl hc =>
    obtain ⟨hn, hp, hcomp⟩ := hc.brings
    have hlt : ffFirstPayload < v.length := hl ▸ Nat.lt_trans (by decide) hf.length_gt
    have h6 : (v.take ffFirstPayload).length = ffFirstPayload :=
      List.length_take_of_le (Nat.le_of_lt hlt)
    refine accepts_idle_iff.mpr (.inr ⟨pci, low, _, cfs, rfl, hf, hn, ?_, ?_⟩)
    · have hc6 := hcomp ffFirstPayload
      rw [List.length_drop, Nat.add_sub_cancel' (Nat.le_of_lt hlt)] at hc6
      rw [hl, h6]
      exact hc6
    · have happ := (List.prefix_append_right_inj (v.take ffFirstPayload)).mpr hp
      rw [List.take_append_drop] at happ
      rw [hl]
      exact List.prefix_iff_eq_take.mp happ

/-- Any bytes can be carried by Consecutive Frames. -/
theorem exists_carries (i : ℕ) (bytes : List UInt8) : ∃ cfs, Carries i bytes cfs := by
  induction hk : bytes.length using Nat.strongRecOn generalizing i bytes with
  | ind k ih =>
    by_cases hpos : bytes = []
    · subst hpos
      exact ⟨[], .nil i⟩
    have hlt : (bytes.drop cfPayload).length < k := by
      have := List.length_pos_iff.mpr hpos
      rw [List.length_drop, cfPayload, hk]
      omega
    obtain ⟨cfs, hc⟩ := ih _ hlt (i + 1) (bytes.drop cfPayload) rfl
    have hpci := cf_pci (Nat.mod_lt (i + 1) (show 16 > 0 by decide))
    exact ⟨_, .cons hpos ⟨hpci.1, hpci.2⟩ (List.prefix_refl _) hc⟩

/-- Full Consecutive Frames carry their bytes before any others. -/
theorem Carries.append {bytes : List UInt8} {later : List (List UInt8)} (hn : Numbered i cfs)
    (hfull : ∀ cf ∈ cfs, frameDlc ≤ cf.length) (h : Carries (i + cfs.length) bytes later) :
    Carries i (carried cfs ++ bytes) (cfs ++ later) := by
  induction cfs generalizing i with
  | nil => exact h
  | cons cf cfs ih =>
    obtain ⟨⟨pci, rest, rfl, hcf⟩, hn⟩ := hn
    obtain ⟨h8, hfull⟩ := List.forall_mem_cons.mp hfull
    have h7 : (rest.take cfPayload).length = cfPayload :=
      List.length_take_of_le (Nat.le_of_succ_le_succ h8)
    rw [List.length_cons, Nat.add_comm cfs.length, ← Nat.add_assoc] at h
    rw [carried_cons, List.tail_cons, List.cons_append, List.append_assoc]
    refine carries_cons.mpr ⟨?_, hcf, ?_, ?_⟩
    · intro hnil
      rw [(List.append_eq_nil_iff.mp hnil).1] at h7
      cases h7
    · rw [List.take_left' h7]
      exact List.take_prefix _ _
    · rw [List.drop_left' h7]
      exact ih hn hfull h

/-- The Consecutive Frames before another one are full. -/
theorem Carries.full {later : List (List UInt8)} (h : Carries i v (cfs ++ later))
    (hl : later ≠ []) : ∀ cf ∈ cfs, frameDlc ≤ cf.length := by
  induction cfs generalizing i v with
  | nil => exact fun _ hm => absurd hm List.not_mem_nil
  | cons cf cfs ih =>
    rw [List.cons_append] at h
    cases h with
    | @cons _ pci rest _ _ _ _ hpre hcar =>
      refine List.forall_mem_cons.mpr ⟨?_, ih hcar⟩
      have hmore : v.drop cfPayload ≠ [] := by
        intro hnil
        rw [hnil] at hcar
        have hlen := hcar.length_eq
        have hpos := List.length_pos_iff.mpr hl
        rw [List.length_append] at hlen
        change _ = 0 at hlen
        omega
      have hle := hpre.length_le
      rw [Ne, List.drop_eq_nil_iff] at hmore
      rw [List.length_take_of_le (Nat.le_of_not_le hmore)] at hle
      exact Nat.succ_le_succ hle

/-- A well-formed message goes on after the data. -/
def Begun (datas : List (List UInt8)) : Prop :=
  ∃ v later, later ≠ [] ∧ WellFormed v (datas ++ later)

theorem begun_nil : Begun [] :=
  have hs : IsSingle 1 [0] := ⟨by decide, by decide, by decide, by decide⟩
  ⟨[0], [[1, 0]], List.cons_ne_nil _ _, .single hs rfl⟩

/-- Frames that leave bytes missing are the beginning of a well-formed message when all of them
are whole. -/
theorem begun_iff (hf : IsFirst pci low) (hn : Numbered 0 cfs)
    (hlt : first.length + (carried cfs).length < ffLength pci low) :
    Begun ((pci :: low :: first) :: cfs) ↔ Whole first cfs := by
  constructor
  · rintro ⟨v, later, hne, hw⟩
    obtain ⟨hl, hfirst, hcar⟩ := (wellFormed_first_iff hf).mp hw
    have hgt := hf.length_gt
    refine ⟨?_, hcar.full hne⟩
    rw [hfirst, List.length_take_of_le]
    exact hl ▸ Nat.le_of_lt (Nat.lt_trans (by decide) hgt)
  · rintro ⟨h6, hfull⟩
    let missing := ffLength pci low - (first.length + (carried cfs).length)
    obtain ⟨later, hc⟩ := exists_carries (0 + cfs.length) (List.replicate missing 0)
    have hcar := Carries.append hn hfull hc
    refine ⟨first ++ (carried cfs ++ List.replicate missing 0), later, ?_, ?_⟩
    · rintro rfl
      have hlen := hc.length_eq
      rw [List.length_nil, cfCount, List.length_replicate] at hlen
      omega
    · rw [List.cons_append]
      refine (wellFormed_first_iff hf).mpr ⟨?_, (List.take_left' h6).symm, ?_⟩
      · rw [List.length_append, List.length_append, List.length_replicate]
        omega
      · rw [List.drop_left' h6]
        exact hcar

/-! ### What the code accepts -/

/-- A response is returned for a well-formed message only. Frames that begin no well-formed
message are answered with invalid data, and silence after the beginning of one with a timeout. -/
def Acceptance (arrivals : List Arrival) (run : Run Env IoError Event (List UInt8)) : Prop :=
  let datas := (receivedFrames run.trace).map Frame.payload
  match run.outcome with
  | .done v => WellFormed v datas
  | .halted (.failed (.new .InvalidData _)) => ¬ ∃ v later, WellFormed v (datas ++ later)
  | .halted (.failed (.new .TimedOut _)) =>
    receivedFrames run.trace = arrivals.map Arrival.frame ∧ Begun datas
  | _ => False

/-- The data starts with a First Frame and Consecutive Frames in order. Where the announced length
completes them, all but the last are whole; where no frame is left and bytes are missing, all
are. -/
def WholeFrames (datas : List (List UInt8)) : Prop :=
  ∀ pci low first cfs later, datas = (pci :: low :: first) :: (cfs ++ later) → IsFirst pci low →
    Numbered 0 cfs →
    (Completes (ffLength pci low) first.length cfs → Whole first cfs.dropLast) ∧
    (later = [] → first.length + (carried cfs).length < ffLength pci low → Whole first cfs)

/-- Consecutive Frames that leave bytes missing complete nothing on the way. -/
theorem not_completes {later : List (List UInt8)}
    (h : n + (carried (cfs ++ later)).length < total) : ¬ Completes total n cfs := by
  intro hc
  have hr := hc.reaches
  have happ : (carried (cfs ++ later)).length = (carried cfs).length + (carried later).length := by
    rw [carried, carried, carried, List.map_append, List.flatten_append, List.length_append]
  omega

/-- Data on which the receiver stops is no message, and no beginning of one. -/
theorem wholeFrames_of_stopped {h : Halt IoError} (hs : Rx.idle.feedAll datas = .stopped h) :
    WholeFrames datas := by
  rintro pci low first cfs later rfl hf hn
  constructor
  · intro hc
    have ha := accepts_idle_iff.mpr (.inr ⟨pci, low, first, cfs, rfl, hf, hn, hc, rfl⟩)
    rw [← List.cons_append, Rx.feedAll_append, ha.2, Rx.feedAll_accepted] at hs
    cases hs
  · rintro rfl hlt
    rw [List.append_nil] at hs
    have hw := waiting_idle_iff.mpr (.inr ⟨pci, low, first, cfs, rfl, hf, hn, hlt⟩)
    rw [hs] at hw
    exact absurd hw Rx.not_waiting_stopped

/-- The receiver stops on no frame of a well-formed message. -/
theorem not_wellFormed_of_stopped {h : Halt IoError} (hs : Rx.idle.feedAll datas = .stopped h) :
    ¬ ∃ v later, WellFormed v (datas ++ later) := by
  rintro ⟨v, later, hw⟩
  have ha := hw.accepts.2
  rw [Rx.feedAll_append, hs, Rx.feedAll_stopped] at ha
  cases ha

/-- Where the receiver returns a response, the message is the one that the data starts with. -/
theorem wholeFrames_iff {later : List (List UInt8)} (h : Accepts .idle datas v) :
    WellFormed v datas ↔ WholeFrames (datas ++ later) := by
  rw [accepts_idle_iff] at h
  rcases h with ⟨pci, rest, rfl, hs, rfl⟩ | ⟨pci, low, first, cfs, rfl, hf, hn, hc, rfl⟩
  · refine ⟨?_, fun _ => .single hs rfl⟩
    rintro - pci' low first cfs later' he hf
    obtain ⟨rfl, rfl⟩ := List.cons.inj (List.cons.inj he).1
    exact absurd hs hf.not_single
  · rw [wellFormed_iff hf hn hc]
    constructor
    · intro h pci' low' first' cfs' later' he _ _
      obtain ⟨he₁, he₂⟩ := List.cons.inj he
      cases he₁
      constructor
      · intro hc'
        rw [← hc.unique hc' he₂]
        exact h
      · rintro rfl hlt
        rw [List.append_nil] at he₂
        rw [← he₂] at hlt
        exact absurd hc (not_completes hlt)
    · intro h
      exact (h pci low first cfs later rfl hf hn).1 hc

/-- Where the receiver needs another frame, the data is the beginning of a message. -/
theorem begun_iff_wholeFrames (hw : (Rx.idle.feedAll datas).Waiting) :
    Begun datas ↔ WholeFrames datas := by
  obtain rfl | ⟨pci, low, first, cfs, rfl, hf, hn, hlt⟩ := waiting_idle_iff.mp hw
  · refine iff_of_true begun_nil ?_
    rintro pci low first cfs later ⟨⟩
  · rw [begun_iff hf hn hlt]
    constructor
    · intro h pci' low' first' cfs' later' he _ _
      obtain ⟨he₁, rfl⟩ := List.cons.inj he
      cases he₁
      refine ⟨fun hc => absurd hc (not_completes hlt), ?_⟩
      rintro rfl -
      rwa [List.append_nil] at h
    · intro h
      exact (h pci low first cfs [] (by rw [List.append_nil]) hf hn).2 rfl hlt

/-- The frames that are received before the deadline, and then silence: a response is returned for
well-formed messages only, and every other sequence is answered with the error that is due,
exactly when the frames of every message are whole. -/
theorem acceptance_iff {txId rxId : CanId} {deadline : ℕ} {opts : Options} {env : Env}
    {arrivals : List Arrival} {delays : List ℕ} (hfits : ∀ a ∈ arrivals, a.Fits rxId)
    (hd : Delivers deadline arrivals (Rx.silence delays) env)
    (hlate : deadline ≤ env.clock + (arrivals.map Arrival.delay).sum + delays.sum) :
    Acceptance arrivals (receiveResponse txId rxId deadline opts env) ↔
      WholeFrames (arrivals.map (·.frame.payload)) := by
  obtain ⟨used, left, env', t, he, hrun, hd', hc, hrec, -, hneeds, hleft⟩ :=
    Rx.resume_run txId opts .idle hd hfits
  have hdatas : arrivals.map (·.frame.payload) =
      used.map (·.frame.payload) ++ left.map (·.frame.payload) := by
    rw [he, List.map_append]
  have hpayload : (used.map Arrival.frame).map Frame.payload = used.map (·.frame.payload) :=
    List.map_map
  rw [Rx.resume] at hrun
  by_cases hw : (Rx.idle.feedAll (used.map (·.frame.payload))).Waiting
  · obtain rfl := hleft hw
    rw [List.append_nil] at he
    subst he
    have hlate' : deadline ≤ env'.clock + delays.sum := by omega
    obtain ⟨message, env'', u, hs, hrec'⟩ := Rx.resume_silence hw hd'.recvs hlate'
    rw [hs] at hrun
    rw [← begun_iff_wholeFrames hw, Acceptance, hrun]
    simp only [Run.outcome_after, Run.trace_after, receivedFrames_append, hrec, hrec',
      List.append_nil, hpayload, true_and]
  · cases hR : Rx.idle.feedAll (used.map (·.frame.payload)) with
    | idle | collecting =>
      rw [hR] at hw
      exact absurd trivial hw
    | accepted v =>
      rw [hR] at hrun
      rw [hdatas, ← wholeFrames_iff ⟨hneeds, hR⟩, Acceptance, hrun]
      simp only [Rx.resume, Run.outcome_after, Process.pure_apply, Run.trace_after, List.append_nil,
        hrec, hpayload]
    | stopped h =>
      obtain ⟨message, rfl⟩ := Rx.sound_idle.feedAll _ h hR
      have hacc : Acceptance arrivals (receiveResponse txId rxId deadline opts env) := by
        rw [Acceptance, hrun, hR]
        have hrec' : receivedFrames (t ++ [.raised (invalidData message)]) =
            used.map Arrival.frame := by
          rw [receivedFrames_append, hrec]
          exact List.append_nil _
        have hnot := not_wellFormed_of_stopped hR
        rw [← hpayload, ← hrec'] at hnot
        exact hnot
      refine iff_of_true hacc (wholeFrames_of_stopped (h := .failed (invalidData message)) ?_)
      rw [hdatas, Rx.feedAll_append, hR, Rx.feedAll_stopped]

/-- A CAN-FD frame of twelve bytes that announces ten bytes and brings all of them. -/
def fdFirst : Arrival :=
  ⟨5, .ofPayload (.Fd ⟨false, false⟩) (.standard 0x7E8) ([0x10, 10] ++ (List.range 10).map .ofNat)⟩

def fdEnv : Env := ⟨10, fdFirst.answer :: Rx.silence [200], [], []⟩

theorem delivers_fdEnv : Delivers 100 [fdFirst] (Rx.silence [200]) fdEnv :=
  ⟨rfl, fun _ h => absurd h List.not_mem_nil, by decide⟩

theorem fits_fdFirst : fdFirst.Fits (.standard 0x7E8) := ⟨rfl, by decide⟩

/-- The receiver returns the ten bytes although no Consecutive Frame was sent. -/
theorem not_acceptance_fdFirst :
    fdFirst.Fits (.standard 0x7E8) ∧ Delivers 100 [fdFirst] (Rx.silence [200]) fdEnv ∧
    ¬ Acceptance [fdFirst]
      (receiveResponse (.standard 0x7E0) (.standard 0x7E8) 100 default fdEnv) := by
  refine ⟨fits_fdFirst, delivers_fdEnv, ?_⟩
  intro h
  have hw : WellFormed ((List.range 10).map .ofNat)
    [0x10 :: 10 :: (List.range 10).map .ofNat] := h
  have hf : IsFirst 0x10 10 := ⟨by decide, by decide⟩
  obtain ⟨-, hfirst, -⟩ := (wellFormed_first_iff hf).mp hw
  revert hfirst
  decide

theorem acceptance_iff_fdFirst :
    Acceptance [fdFirst] (receiveResponse (.standard 0x7E0) (.standard 0x7E8) 100 default fdEnv) ↔
      WholeFrames ([fdFirst].map (·.frame.payload)) :=
  acceptance_iff (List.forall_mem_singleton.mpr fits_fdFirst) delivers_fdEnv (by decide)

end Mcanbus.Isotp
