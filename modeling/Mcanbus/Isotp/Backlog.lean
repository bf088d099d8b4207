import Mcanbus.Isotp.Acceptance
import Mcanbus.Isotp.History

/-! # What waiting data permits

The data of frames that a request reads first, on its own: which of it delays
the payload or clears it, and which begins a response. The automaton of a request
goes on after the frames, and has used one of them, exactly when the data says so.
-/

namespace Mcanbus.Isotp

open Rust Effect Effect.Process

/-- An empty frame, or one that asks to wait. -/
def Stalls (data : List UInt8) : Prop := data = [] ∨ IsWait data

/-- The number of the frames that ask to wait. -/
def waitsIn (datas : List (List UInt8)) : ℕ := datas.countP fun data => decide (IsWait data)

/-- The data begins with a response, or with the beginning of one and nothing behind it, and
brings the bytes. -/
inductive Opens (datas : List (List UInt8)) (bytes : List UInt8) : Prop
  | nothing : datas = [] → bytes = [] → Opens datas bytes
  | single {pci : UInt8} {rest : List UInt8} {later : List (List UInt8)} :
      datas = (pci :: rest) :: later → IsSingle pci rest → bytes = rest.take (sfLength pci) →
      Opens datas bytes
  | first {pci low : UInt8} {first : List UInt8} {cfs later : List (List UInt8)} :
      datas = (pci :: low :: first) :: (cfs ++ later) → IsFirst pci low → Numbered 0 cfs →
      (Completes (ffLength pci low) first.length cfs ∨
        later = [] ∧ first.length + (carried cfs).length < ffLength pci low) →
      bytes = first ++ carried cfs → Opens datas bytes

namespace Call

variable (c : Call)

/-- What may follow a First Frame: frames that stall the request within the budget, and then
perhaps a clearance for the whole payload, whose sleeps end in time, and what opens a response. -/
inductive Permits (budget : ℕ) (datas : List (List UInt8)) : Prop
  | stalled : (∀ data ∈ datas, Stalls data) → waitsIn datas ≤ budget → Permits budget datas
  | cleared {before after : List (List UInt8)} {cts bytes : List UInt8} :
      datas = before ++ cts :: after → (∀ data ∈ before, Stalls data) →
      waitsIn before ≤ budget → IsClearToSend cts →
      ((ctsParams cts).1 = 0 ∨ cfCount c.rest ≤ (ctsParams cts).1.toNat) →
      (cfCount c.rest - 1) * ((ctsParams cts).2.toNat * 1000000) < c.opts.timeout →
      Opens after bytes → Permits budget datas

/-- The data of the frames from the peer, in order. -/
def heard (frames : List Frame) : List (List UInt8) :=
  (frames.filter (·.id = c.rxId)).map Frame.payload

/-- A request goes on after the data, and has obeyed some of it or taken bytes from it. -/
structure Draws (datas : List (List UInt8)) : Prop where
  inTime : 0 < c.opts.timeout
  single : c.payload.length ≤ sfMaxLen → ∃ bytes, Opens datas bytes ∧ bytes ≠ []
  segmented : sfMaxLen < c.payload.length →
    c.Permits c.opts.maxWaits.toNat datas ∧ ∃ data ∈ datas, data ≠ []

/-- The request obeys one of the frames after the stage, or takes a byte from it. -/
def Touches (p : Stage) (frames : List Frame) : Prop :=
  ∃ i frame, frames[i]? = some frame ∧ c.Uses (c.steps p (frames.take i)) frame

end Call

/-! ### The beginning of a response -/

section Response

variable {datas : List (List UInt8)} {bytes v : List UInt8} {rx : Rx}

/-- A First Frame and Consecutive Frames in order take the receiver to where it has their bytes. -/
theorem feedAll_first {pci low : UInt8} {first : List UInt8} {cfs : List (List UInt8)}
    (hf : IsFirst pci low) (hn : Numbered 0 cfs) :
    ∃ s, Rx.idle.feedAll ((pci :: low :: first) :: cfs) = .settle (ffLength pci low) s ∧
      s.out = (first ++ carried cfs).take (ffLength pci low) := by
  have hl : (first.take (ffLength pci low)).length ≤ ffLength pci low := List.length_take_le _ _
  obtain ⟨s, hs, hout⟩ := feedAll_numbered (s := ⟨1, first.take (ffLength pci low)⟩) hn rfl hl
  refine ⟨s, ?_, ?_⟩
  · rw [Rx.feedAll_cons, Rx.feed_first hf, hs]
  · rw [hout, take_take_append]

/-- Where the data opens a response, the receiver goes on, and it has bytes if the data brings
some. -/
theorem Opens.held (h : Opens datas bytes) : (∀ x, Rx.idle.feedAll datas ≠ .stopped x) ∧
    ((Rx.idle.feedAll datas).held = [] ↔ bytes = []) := by
  cases h with
  | nothing hd hb =>
    subst hd hb
    refine ⟨?_, iff_of_true rfl rfl⟩
    rintro x ⟨⟩
  | single hd hs hb =>
    subst hd hb
    rw [Rx.feedAll_cons, Rx.feed_single hs, Rx.feedAll_accepted]
    refine ⟨?_, Iff.rfl⟩
    rintro x ⟨⟩
  | @first pci low first cfs later hd hf hn hend hb =>
    subst hd hb
    obtain ⟨s, hs, hout⟩ := @feedAll_first _ _ first _ hf hn
    have hall : Rx.idle.feedAll ((pci :: low :: first) :: (cfs ++ later)) =
        .settle (ffLength pci low) s := by
      rcases hend with hc | ⟨rfl, -⟩
      · have ha := accepts_idle_iff.mpr (.inr ⟨pci, low, first, cfs, rfl, hf, hn, hc, rfl⟩)
        rw [← List.cons_append, Rx.feedAll_append, ha.2, Rx.feedAll_accepted, ← ha.2, hs]
      · rw [List.append_nil, hs]
    have hpos : ffLength pci low ≠ 0 := by
      have hgt := hf.length_gt
      omega
    rw [hall, Rx.held_settle, hout, List.take_eq_nil_iff]
    refine ⟨fun x hx => ?_, or_iff_right hpos⟩
    unfold Rx.settle at hx
    split at hx <;> cases hx

/-- The data up to the frame that completes a response. -/
theorem exists_accepts (h : rx.feedAll datas = .accepted v) :
    ∃ used later, datas = used ++ later ∧ Accepts rx used v := by
  induction datas generalizing rx with
  | nil => exact ⟨[], [], rfl, accepts_nil.mpr h⟩
  | cons data datas ih =>
    by_cases hw : rx.Waiting
    · obtain ⟨used, later, rfl, ha⟩ := ih h
      exact ⟨data :: used, later, rfl, accepts_cons.mpr ⟨hw, ha⟩⟩
    · rw [Rx.feedAll_not_waiting hw] at h
      exact ⟨[], data :: datas, rfl, accepts_nil.mpr h⟩

/-- Data on which the receiver goes on opens a response. -/
theorem exists_opens (h : ∀ x, Rx.idle.feedAll datas ≠ .stopped x) :
    ∃ bytes, Opens datas bytes := by
  by_cases hw : (Rx.idle.feedAll datas).Waiting
  · obtain rfl | ⟨pci, low, first, cfs, rfl, hf, hn, hlt⟩ := waiting_idle_iff.mp hw
    · exact ⟨[], .nothing rfl rfl⟩
    · exact ⟨_, .first (by rw [List.append_nil]) hf hn (.inr ⟨rfl, hlt⟩) rfl⟩
  · cases hR : Rx.idle.feedAll datas with
    | idle | collecting =>
      rw [hR] at hw
      exact absurd trivial hw
    | stopped x => exact absurd hR (h x)
    | accepted v =>
      obtain ⟨used, later, rfl, ha⟩ := exists_accepts hR
      obtain ⟨pci, rest, rfl, hs, -⟩ | ⟨pci, low, first, cfs, rfl, hf, hn, hc, -⟩ :=
        accepts_idle_iff.mp ha
      · exact ⟨_, .single rfl hs rfl⟩
      · exact ⟨_, .first rfl hf hn (.inl hc) rfl⟩

end Response

namespace Call

variable {c : Call} {p : Stage} {frame : Frame} {frames : List Frame} {env env' : Env}
  {t : List Event} {v : List UInt8} {slept budget : ℕ} {rx : Rx} {data : List UInt8}
  {datas : List (List UInt8)}

/-! ### Contributions -/

variable (c) in
/-- The bytes that frames contribute to the response, in order. -/
def contributed : Stage → List Frame → List UInt8
  | _, [] => []
  | p, frame :: frames =>
    (if frame.id = c.rxId then p.contribution frame else []) ++
      contributed (c.step p frame) frames

theorem held_answered (r : Checked (Except IoError (UInt8 ⊕ UInt8 × UInt8))) :
    (c.answered r).held = [] := by
  rcases r with p | (err | (waits' | ⟨bs, st⟩))
  · rfl
  · rfl
  · rfl
  · unfold answered cleared
    dsimp only
    split <;> rfl

theorem held_take {rx : Rx} (hs : ∀ h, rx.take frame ≠ .stopped h) :
    (rx.take frame).held = rx.held ++ rx.contribution frame.payload := by
  rcases hd : frame.data with panic | data
  · unfold Rx.take at hs ⊢
    rw [hd] at hs ⊢
    cases rx with
    | idle | collecting => exact absurd rfl (hs (.panicked panic))
    | accepted v => exact (List.append_nil v).symm
    | stopped h => exact absurd rfl (hs h)
  · obtain ⟨-, rfl⟩ := frame.of_data_eq hd
    rw [Rx.take_ok hd] at hs ⊢
    exact Rx.held_feed hs

theorem held_step (hs : ¬ (c.step p frame).Stopped) : (c.step p frame).held =
    p.held ++ if frame.id = c.rxId then p.contribution frame else [] := by
  by_cases hid : frame.id = c.rxId
  · rw [if_pos hid]
    cases p with
    | waiting waits =>
      rw [step_waiting hid, held_answered]
      rfl
    | receiving slept rx =>
      rw [step_receiving hid] at hs ⊢
      apply held_take
      intro h he
      rw [he] at hs
      exact hs trivial
  · rw [if_neg hid, step_foreign hid, List.append_nil]

theorem held_steps (hs : ¬ (c.steps p frames).Stopped) :
    (c.steps p frames).held = p.held ++ c.contributed p frames := by
  induction frames generalizing p with
  | nil => exact (List.append_nil _).symm
  | cons frame frames ih =>
    rw [steps_cons, ih hs, held_step (not_stopped_of_steps hs), contributed, List.append_assoc]

/-- A response consists of what the received frames contribute to it. -/
theorem run_contributed (h : c.run env = ⟨.done v, env', t⟩) :
    v = c.contributed c.start (receivedFrames t) := by
  obtain ⟨-, -, -, slept, -, hsteps⟩ := run_done h
  have hheld := held_steps (not_stopped_of_accepted hsteps)
  rw [hsteps, held_start, List.nil_append] at hheld
  exact hheld

/-! ### Frames and their data -/

theorem heard_cons (h : frame.id = c.rxId) :
    c.heard (frame :: frames) = frame.payload :: c.heard frames := by
  unfold heard
  simp only [List.filter_cons, decide_eq_true h, if_true, List.map_cons]

theorem heard_foreign (h : frame.id ≠ c.rxId) : c.heard (frame :: frames) = c.heard frames := by
  unfold heard
  simp only [List.filter_cons, decide_eq_false h, Bool.false_eq_true, if_false]

/-- A receiver is fed the data of the frames. -/
theorem steps_heard (hf : ∀ frame ∈ frames, frame.len.toNat ≤ maxFdDataLen) :
    c.steps (.receiving slept rx) frames = .receiving slept (rx.feedAll (c.heard frames)) :=
  steps_receiving slept rx fun frame hm _ => hf frame hm

theorem not_touches_nil : ¬ c.Touches p [] := by
  rintro ⟨i, frame, hi, -⟩
  rw [List.getElem?_nil] at hi
  cases hi

theorem touches_cons :
    c.Touches p (frame :: frames) ↔ c.Uses p frame ∨ c.Touches (c.step p frame) frames := by
  constructor
  · rintro ⟨i, f, hi, hu⟩
    cases i with
    | zero =>
      cases hi
      exact .inl hu
    | succ i => exact .inr ⟨i, f, hi, hu⟩
  · rintro (hu | ⟨i, f, hi, hu⟩)
    · exact ⟨0, frame, rfl, hu⟩
    · exact ⟨i + 1, f, hi, hu⟩

/-- A receiver uses a frame exactly when the frames contribute something. -/
theorem touches_receiving : c.Touches (.receiving slept rx) frames ↔
    c.contributed (.receiving slept rx) frames ≠ [] := by
  induction frames generalizing rx with
  | nil => exact iff_of_false not_touches_nil fun h => h rfl
  | cons frame frames ih =>
    rw [touches_cons, contributed, Ne, List.append_eq_nil_iff, not_and_or]
    by_cases hid : frame.id = c.rxId
    · rw [step_receiving hid, ih, if_pos hid]
      refine or_congr_left ⟨fun hu => hu.2.resolve_left id, fun hc => ⟨hid, .inr hc⟩⟩
    · rw [step_foreign hid, ih, if_neg hid]
      exact or_congr_left (iff_of_false (fun hu => hid hu.1) fun hc => hc rfl)

/-! ### The frames that stall or clear a request -/

theorem not_isWait_nil : ¬ IsWait [] := by
  rintro ⟨pci, rest, h, -⟩
  cases h

theorem waitsIn_cons_wait (h : IsWait data) (datas : List (List UInt8)) :
    waitsIn (data :: datas) = waitsIn datas + 1 :=
  List.countP_cons_of_pos (decide_eq_true h)

theorem waitsIn_cons_nil (datas : List (List UInt8)) : waitsIn ([] :: datas) = waitsIn datas :=
  List.countP_cons_of_neg (by rw [decide_eq_true_eq]; exact not_isWait_nil)

theorem not_stalls_of_clears (h : IsClearToSend data) : ¬ Stalls data := by
  obtain ⟨pci, rest, rfl, -, hcts⟩ := h
  rintro (hnil | ⟨pci', rest', he, -, hwait⟩)
  · cases hnil
  · cases he
    rw [hcts] at hwait
    revert hwait
    decide

variable (c) in
/-- The clearance is for the whole payload, and what follows it opens a response. -/
structure Clears (data : List UInt8) (datas : List (List UInt8)) : Prop where
  block : (ctsParams data).1 = 0 ∨ cfCount c.rest ≤ (ctsParams data).1.toNat
  inTime : (cfCount c.rest - 1) * ((ctsParams data).2.toNat * 1000000) < c.opts.timeout
  opens : ∃ bytes, Opens datas bytes

/-- What is permitted starts with a frame that stalls the request or clears it. -/
theorem Permits.head (h : c.Permits budget (data :: datas)) :
    Stalls data ∨ IsClearToSend data := by
  cases h with
  | stalled hs hb => exact .inl (hs data List.mem_cons_self)
  | @cleared before after cts bytes hd hs hb hcts =>
    cases before with
    | nil =>
      obtain ⟨rfl, rfl⟩ := List.cons.inj hd
      exact .inr hcts
    | cons first before =>
      obtain ⟨rfl, rfl⟩ := List.cons.inj hd
      exact .inl (hs data List.mem_cons_self)

/-- A frame that stalls the request takes its part of the budget. -/
theorem permits_stalls {w : ℕ} (hstalls : Stalls data)
    (hw : ∀ datas, waitsIn (data :: datas) = waitsIn datas + w) :
    c.Permits budget (data :: datas) ↔ w ≤ budget ∧ c.Permits (budget - w) datas := by
  constructor
  · intro h
    cases h with
    | stalled hs hb =>
      rw [hw] at hb
      exact ⟨by omega, .stalled (List.forall_mem_cons.mp hs).2 (by omega)⟩
    | @cleared before after cts bytes hd hs hb hcts hblock htime hopens =>
      cases before with
      | nil =>
        obtain ⟨rfl, rfl⟩ := List.cons.inj hd
        exact absurd hstalls (not_stalls_of_clears hcts)
      | cons first before =>
        obtain ⟨rfl, rfl⟩ := List.cons.inj hd
        rw [hw] at hb
        refine ⟨by omega, ?_⟩
        exact .cleared rfl (List.forall_mem_cons.mp hs).2 (by omega) hcts hblock htime hopens
  · rintro ⟨hle, h⟩
    cases h with
    | stalled hs hb =>
      refine .stalled (List.forall_mem_cons.mpr ⟨hstalls, hs⟩) ?_
      rw [hw]
      omega
    | cleared hd hs hb hcts hblock htime hopens =>
      subst hd
      refine .cleared List.cons_append.symm (List.forall_mem_cons.mpr ⟨hstalls, hs⟩) ?_ hcts hblock
        htime hopens
      rw [hw]
      omega

theorem permits_empty : c.Permits budget ([] :: datas) ↔ c.Permits budget datas := by
  rw [permits_stalls (w := 0) (.inl rfl) waitsIn_cons_nil, and_iff_right (Nat.zero_le _),
    Nat.sub_zero]

theorem permits_wait (h : IsWait data) :
    c.Permits budget (data :: datas) ↔ 0 < budget ∧ c.Permits (budget - 1) datas :=
  permits_stalls (.inr h) (waitsIn_cons_wait h)

theorem permits_clears (hcts : IsClearToSend data) :
    c.Permits budget (data :: datas) ↔ c.Clears data datas := by
  constructor
  · intro h
    cases h with
    | stalled hs hb => exact absurd (hs data List.mem_cons_self) (not_stalls_of_clears hcts)
    | @cleared before after cts bytes hd hs hb _ hblock htime hopens =>
      cases before with
      | nil =>
        obtain ⟨rfl, rfl⟩ := List.cons.inj hd
        exact ⟨hblock, htime, bytes, hopens⟩
      | cons first before =>
        obtain ⟨rfl, rfl⟩ := List.cons.inj hd
        exact absurd (hs data List.mem_cons_self) (not_stalls_of_clears hcts)
  · rintro ⟨hblock, htime, bytes, hopens⟩
    have hnone : ∀ d ∈ ([] : List (List UInt8)), Stalls d := fun _ h => absurd h List.not_mem_nil
    exact .cleared (List.nil_append _).symm hnone (Nat.zero_le _) hcts hblock htime hopens

/-! ### What the automaton goes on after -/

theorem stopped_receiving : (Stage.receiving slept rx).Stopped ↔ ∃ x, rx = .stopped x := by
  cases rx with
  | stopped x => exact iff_of_true trivial ⟨x, rfl⟩
  | idle | collecting | accepted =>
    refine iff_of_false id ?_
    rintro ⟨x, ⟨⟩⟩

theorem live_receiving_iff (hf : ∀ frame ∈ frames, frame.len.toNat ≤ maxFdDataLen) :
    ¬ (c.steps (.receiving slept .idle) frames).Stopped ↔
      ∃ bytes, Opens (c.heard frames) bytes := by
  rw [steps_heard hf, stopped_receiving, not_exists]
  exact ⟨exists_opens, fun ⟨bytes, h⟩ => h.held.1⟩

/-- The sleeps between the Consecutive Frames, when they are exact. -/
theorem pause_nil (stMinMs : UInt8) (n : ℕ) :
    pause stMinMs [] n = n * (stMinMs.toNat * 1000000) := by
  unfold pause
  split
  case isTrue => rw [List.take_nil, List.sum_nil, Nat.add_zero]
  case isFalse h =>
    have h0 : stMinMs = 0 := by
      by_contra hne
      exact h (UInt8.pos_iff_ne_zero.mpr hne)
    rw [h0]
    exact (Nat.mul_zero n).symm

/-- A request that was cleared to send goes on after the frames. -/
theorem live_cleared_iff (hf : ∀ frame ∈ frames, frame.len.toNat ≤ maxFdDataLen)
    (bs stMinMs : UInt8) :
    ¬ (c.steps (c.cleared bs stMinMs) frames).Stopped ∧
        (c.steps (c.cleared bs stMinMs) frames).clock < c.opts.timeout ↔
      (bs = 0 ∨ cfCount c.rest ≤ bs.toNat) ∧
        (cfCount c.rest - 1) * (stMinMs.toNat * 1000000) < c.opts.timeout ∧
        ∃ bytes, Opens (c.heard frames) bytes := by
  by_cases hb : bs ≠ 0 ∧ bs.toNat < cfCount c.rest
  · have hstopped : (c.cleared bs stMinMs).Stopped := by
      unfold cleared
      rw [if_pos hb]
      trivial
    refine iff_of_false (fun h => not_stopped_of_steps h.1 hstopped) ?_
    rintro ⟨h0 | hle, -⟩
    · exact hb.1 h0
    · exact Nat.not_le.mpr hb.2 hle
  · have hblock : bs = 0 ∨ cfCount c.rest ≤ bs.toNat := by
      by_cases h0 : bs = 0
      · exact .inl h0
      · exact .inr (Nat.le_of_not_lt fun hlt => hb ⟨h0, hlt⟩)
    have hclock :
        (c.steps (.receiving (pause stMinMs [] (cfCount c.rest - 1)) .idle) frames).clock =
          (cfCount c.rest - 1) * (stMinMs.toNat * 1000000) := by
      rw [steps_heard hf, ← pause_nil]
      rfl
    rw [cleared_of_not hb, live_receiving_iff hf, hclock, and_iff_right hblock]
    exact and_comm

/-- What is permitted is no error of the wait for a Flow Control. -/
theorem Permits.ok {waits : UInt8}
    (h : c.Permits (c.opts.maxWaits.toNat - waits.toNat) (data :: datas)) :
    ∃ r, flowControlData c.opts waits data = .ok (.ok r) := by
  obtain (rfl | hw) | hcts := h.head
  · exact ⟨_, flowControlData_empty c.opts waits⟩
  · have hpos := ((permits_wait hw).mp h).1
    exact ⟨_, flowControlData_wait_ok hw (by omega)⟩
  · exact ⟨_, flowControlData_cts hcts⟩

/-- A request that waits for a Flow Control goes on after the frames. -/
theorem live_waiting_iff {waits : UInt8} (hf : ∀ frame ∈ frames, frame.len.toNat ≤ maxFdDataLen)
    (h0 : 0 < c.opts.timeout) :
    ¬ (c.steps (.waiting waits) frames).Stopped ∧
        (c.steps (.waiting waits) frames).clock < c.opts.timeout ↔
      c.Permits (c.opts.maxWaits.toNat - waits.toNat) (c.heard frames) := by
  induction frames generalizing waits with
  | nil =>
    refine iff_of_true ⟨id, h0⟩ (.stalled ?_ (Nat.zero_le _))
    exact fun _ h => absurd h List.not_mem_nil
  | cons frame frames ih =>
    obtain ⟨hl, hf⟩ := List.forall_mem_cons.mp hf
    rw [steps_cons]
    by_cases hid : frame.id = c.rxId
    case neg => rw [step_foreign hid, ih hf, heard_foreign hid]
    rw [step_waiting hid, Frame.data_eq hl, ok_bind, heard_cons hid]
    have hended {r : Checked (Except IoError (UInt8 ⊕ UInt8 × UInt8))}
        (hr : flowControlData c.opts waits frame.payload = r) (hs : (c.answered r).Stopped)
        (hne : ∀ a, r ≠ .ok (.ok a)) :
        ¬ (c.steps (c.answered r) frames).Stopped ∧
            (c.steps (c.answered r) frames).clock < c.opts.timeout ↔
          c.Permits (c.opts.maxWaits.toNat - waits.toNat) (frame.payload :: c.heard frames) := by
      refine iff_of_false (fun h => not_stopped_of_steps h.1 hs) fun h => ?_
      obtain ⟨a, ha⟩ := h.ok
      exact hne a (hr.symm.trans ha)
    rcases hr : flowControlData c.opts waits frame.payload with
      panic | (err | (waits' | ⟨bs, stMinMs⟩))
    · refine hended hr trivial ?_
      rintro a ⟨⟩
    · refine hended hr trivial ?_
      rintro a ⟨⟩
    · change ¬ (c.steps (.waiting waits') frames).Stopped ∧
        (c.steps (.waiting waits') frames).clock < c.opts.timeout ↔ _
      rw [ih hf]
      obtain ⟨hnil, rfl⟩ | ⟨hw, hsucc⟩ := flowControlData_continues hr
      · rw [hnil, permits_empty]
      · have hlt := flowControlData_wait_lt hw hr
        rw [permits_wait hw, and_iff_right (Nat.sub_pos_of_lt hlt), hsucc, Nat.sub_add_eq]
    · have hcts := flowControlData_clear hr
      obtain ⟨hbs, hst⟩ : (ctsParams frame.payload).1 = bs ∧
          (ctsParams frame.payload).2 = stMinMs := by
        rw [flowControlData_cts hcts] at hr
        cases hr
        exact ⟨rfl, rfl⟩
      change ¬ (c.steps (c.cleared bs stMinMs) frames).Stopped ∧
        (c.steps (c.cleared bs stMinMs) frames).clock < c.opts.timeout ↔ _
      rw [live_cleared_iff hf, ← hbs, ← hst, permits_clears hcts]
      exact ⟨fun h => ⟨h.1, h.2.1, h.2.2⟩, fun h => ⟨h.block, h.inTime, h.opens⟩⟩

/-- A request that waits for a Flow Control obeys a frame unless all of them are empty. -/
theorem touches_waiting {waits : UInt8} (hf : ∀ frame ∈ frames, frame.len.toNat ≤ maxFdDataLen)
    (hs : ¬ (c.steps (.waiting waits) frames).Stopped) :
    c.Touches (.waiting waits) frames ↔ ∃ data ∈ c.heard frames, data ≠ [] := by
  induction frames generalizing waits with
  | nil =>
    refine iff_of_false not_touches_nil ?_
    rintro ⟨data, hd, -⟩
    exact absurd hd List.not_mem_nil
  | cons frame frames ih =>
    obtain ⟨hl, hf⟩ := List.forall_mem_cons.mp hf
    rw [steps_cons] at hs
    rw [touches_cons]
    by_cases hid : frame.id = c.rxId
    case neg =>
      rw [step_foreign hid] at hs ⊢
      rw [ih hf hs, heard_foreign hid]
      exact or_iff_right fun hu => hid hu.1
    simp only [heard_cons hid, List.mem_cons, exists_eq_or_imp]
    have hstep := step_waiting (c := c) hid waits
    rw [Frame.data_eq hl, ok_bind] at hstep
    by_cases hnil : frame.payload = []
    · rw [hnil, flowControlData_empty] at hstep
      have hgo : c.step (.waiting waits) frame = .waiting waits := hstep
      rw [hgo] at hs ⊢
      rw [ih hf hs]
      refine or_congr_left (iff_of_false ?_ fun h => h hnil)
      rintro ⟨-, hheeds | hbytes⟩
      · exact hheeds.1 hnil
      · exact hbytes rfl
    · refine iff_of_true (.inl ⟨hid, .inl ⟨hnil, ?_⟩⟩) (.inl hnil)
      rw [hstep] at hs
      rcases hr : flowControlData c.opts waits frame.payload with panic | (err | r)
      · rw [hr] at hs
        exact absurd trivial (not_stopped_of_steps hs)
      · rw [hr] at hs
        exact absurd trivial (not_stopped_of_steps hs)
      · exact ⟨r, rfl⟩

/-- The frames do not keep a request from its response, and one of them is used. -/
theorem draws_iff (hf : ∀ frame ∈ frames, frame.len.toNat ≤ maxFdDataLen) :
    c.Draws (c.heard frames) ↔ ¬ (c.steps c.start frames).Stopped ∧
      (c.steps c.start frames).clock < c.opts.timeout ∧ c.Touches c.start frames := by
  unfold start
  rcases Nat.lt_or_ge sfMaxLen c.payload.length with hl | hl
  · rw [if_neg (Nat.not_le.mpr hl), ← and_assoc]
    have hsub : c.opts.maxWaits.toNat - (0 : UInt8).toNat = c.opts.maxWaits.toNat := Nat.sub_zero _
    constructor
    · rintro ⟨h0, -, hseg⟩
      obtain ⟨hpermits, hne⟩ := hseg hl
      rw [← hsub] at hpermits
      have hlive := (live_waiting_iff hf h0).mpr hpermits
      exact ⟨hlive, (touches_waiting hf hlive.1).mpr hne⟩
    · rintro ⟨hlive, ht⟩
      have h0 : 0 < c.opts.timeout := Nat.lt_of_le_of_lt (Nat.zero_le _) hlive.2
      have hpermits := (live_waiting_iff hf h0).mp hlive
      rw [hsub] at hpermits
      exact ⟨h0, fun hle => absurd hl (Nat.not_lt.mpr hle),
        fun _ => ⟨hpermits, (touches_waiting hf hlive.1).mp ht⟩⟩
  · rw [if_pos hl]
    have hclock : (c.steps (.receiving 0 .idle) frames).clock = 0 := by
      rw [steps_heard hf]
      rfl
    have hused (hs : ¬ (c.steps (.receiving 0 .idle) frames).Stopped) :
        c.Touches (.receiving 0 .idle) frames ↔ (Rx.idle.feedAll (c.heard frames)).held ≠ [] := by
      have hheld := held_steps hs
      rw [steps_heard hf] at hheld
      rw [touches_receiving]
      exact not_congr (by rw [← List.nil_append (c.contributed _ _)]; exact hheld ▸ Iff.rfl)
    rw [hclock]
    constructor
    · rintro ⟨h0, hsingle, -⟩
      obtain ⟨bytes, hopens, hne⟩ := hsingle hl
      have hs : ¬ (c.steps (.receiving 0 .idle) frames).Stopped :=
        (live_receiving_iff hf).mpr ⟨bytes, hopens⟩
      exact ⟨hs, h0, (hused hs).mpr fun hnil => hne (hopens.held.2.mp hnil)⟩
    · rintro ⟨hs, h0, ht⟩
      obtain ⟨bytes, hopens⟩ := (live_receiving_iff hf).mp hs
      refine ⟨h0, fun _ => ⟨bytes, hopens, fun hnil => (hused hs).mp ht (hopens.held.2.mpr hnil)⟩,
        fun hlt => absurd hl (Nat.not_le.mpr hlt)⟩

end Call

end Mcanbus.Isotp
