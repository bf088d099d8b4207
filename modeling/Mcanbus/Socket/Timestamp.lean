import Mcanbus.Socket.Basic

/-! # The choice of a timestamp

The control messages of a frame carry stamps of several sources. The loop over
them keeps the best stamp so far, and with at most one message of each kind it
prefers hardware to software and software to the plain stamp in any order.
-/

namespace Mcanbus

namespace Cmsg

/-- A message with the stamps of `soTimestamping`. -/
def IsTimestamping (m : Cmsg) : Prop := m.level = solSocket ∧ m.type = soTimestamping

/-- A message with the stamp of `soTimestampns`. -/
def IsTimestampns (m : Cmsg) : Prop := m.level = solSocket ∧ m.type = soTimestampns

instance : DecidablePred IsTimestamping := fun m =>
  inferInstanceAs (Decidable (m.level = solSocket ∧ m.type = soTimestamping))

instance : DecidablePred IsTimestampns := fun m =>
  inferInstanceAs (Decidable (m.level = solSocket ∧ m.type = soTimestampns))

/-- The stamp at a position of the message if it is not zero. -/
def stamp (i : ℕ) (m : Cmsg) : Option UInt64 :=
  if (m.data i).isSet then some (timespecToNs (m.data i)) else none

/-- The plain stamp, zero or not. -/
def plain (m : Cmsg) : Option UInt64 := some (timespecToNs (m.data 0))

theorem IsTimestamping.not_isTimestampns {m : Cmsg} (h : m.IsTimestamping) :
    ¬ m.IsTimestampns := by
  rintro ⟨-, hn⟩
  rw [h.2] at hn
  exact absurd hn (by decide)

end Cmsg

/-- The hardware stamp if there is one, then the software stamp, then the plain stamp. -/
def preferredStamp (timestamping timestampns : Option Cmsg) : Option UInt64 :=
  (timestamping.bind (Cmsg.stamp 2)).or
    ((timestamping.bind (Cmsg.stamp 0)).or (timestampns.bind Cmsg.plain))

section Loop

variable {control control' : List Cmsg} {m : Cmsg} {best : Option UInt64}
  {timestamping timestampns : Option Cmsg}

/-- The loop at the message of `soTimestamping`: a hardware stamp ends it, and a software stamp
replaces the best one. -/
theorem extractTimestampLoop_timestamping (h : m.IsTimestamping) :
    extractTimestampLoop best (m :: control) =
      (m.stamp 2).or (extractTimestampLoop ((m.stamp 0).or best) control) := by
  rw [extractTimestampLoop, if_pos h.1, if_pos h.2]
  unfold Cmsg.stamp
  split_ifs <;> simp

/-- The loop at the message of `soTimestampns`, which does not replace a stamp. -/
theorem extractTimestampLoop_timestampns (h : m.IsTimestampns) :
    extractTimestampLoop best (m :: control) = extractTimestampLoop (best.or m.plain) control := by
  have hne : m.type ≠ soTimestamping := by
    rw [h.2]
    decide
  rw [extractTimestampLoop, if_pos h.1, if_neg hne]
  cases best with
  | none => simp [h.2, Cmsg.plain]
  | some ns => simp

/-- The loop passes over the other messages. -/
theorem extractTimestampLoop_other (ht : ¬ m.IsTimestamping) (hn : ¬ m.IsTimestampns) :
    extractTimestampLoop best (m :: control) = extractTimestampLoop best control := by
  rw [extractTimestampLoop]
  by_cases hl : m.level = solSocket
  · have h₁ : m.type ≠ soTimestamping := fun h => ht ⟨hl, h⟩
    have h₂ : m.type ≠ soTimestampns := fun h => hn ⟨hl, h⟩
    simp [hl, h₁, h₂]
  · simp [hl]

/-- With at most one message of each kind the best stamp so far counts as a plain stamp. -/
theorem extractTimestampLoop_eq
    (ht : control.filter (·.IsTimestamping) = timestamping.toList)
    (hn : control.filter (·.IsTimestampns) = timestampns.toList) :
    extractTimestampLoop best control =
      (timestamping.bind (Cmsg.stamp 2)).or
        ((timestamping.bind (Cmsg.stamp 0)).or (best.or (timestampns.bind Cmsg.plain))) := by
  induction control generalizing best timestamping timestampns with
  | nil =>
    cases timestamping with
    | some m => cases ht
    | none =>
      cases timestampns with
      | some m => cases hn
      | none => simp [extractTimestampLoop]
  | cons m control ih =>
    by_cases hm : m.IsTimestamping
    · have hm' : ¬ m.IsTimestampns := hm.not_isTimestampns
      simp only [List.filter_cons, hm, hm', decide_true, decide_false, if_true, Bool.false_eq_true,
        if_false] at ht hn
      cases timestamping with
      | none => cases ht
      | some m' =>
        obtain ⟨rfl, hrest⟩ := List.cons.inj ht
        have hr : control.filter (·.IsTimestamping) = (none : Option Cmsg).toList := hrest
        rw [extractTimestampLoop_timestamping hm, ih hr hn]
        simp [Option.or_assoc]
    · by_cases hm' : m.IsTimestampns
      · simp only [List.filter_cons, hm, hm', decide_true, decide_false, if_true,
          Bool.false_eq_true, if_false] at ht hn
        cases timestampns with
        | none => cases hn
        | some m' =>
          obtain ⟨rfl, hrest⟩ := List.cons.inj hn
          have hr : control.filter (·.IsTimestampns) = (none : Option Cmsg).toList := hrest
          rw [extractTimestampLoop_timestampns hm', ih ht hr]
          simp
      · simp only [List.filter_cons, hm, hm', decide_false, Bool.false_eq_true, if_false] at ht hn
        rw [extractTimestampLoop_other hm hm', ih ht hn]

theorem extractTimestampNs_eq
    (ht : control.filter (·.IsTimestamping) = timestamping.toList)
    (hn : control.filter (·.IsTimestampns) = timestampns.toList) :
    extractTimestampNs control = preferredStamp timestamping timestampns := by
  rw [extractTimestampNs, extractTimestampLoop_eq ht hn, Option.none_or, preferredStamp]

/-- A list with at most one element has one order. -/
theorem eq_toList_of_perm {α : Type} {l : List α} {o : Option α} (h : l.Perm o.toList) :
    l = o.toList := by
  cases o with
  | none => exact h.eq_nil
  | some a => exact List.perm_singleton.mp h

/-- The stamp does not depend on the order of the control messages: with at most one message of
each kind it is the preferred one. -/
theorem extractTimestampNs_perm (control control' : List Cmsg)
    (timestamping timestampns : Option Cmsg)
    (ht : control.filter (·.IsTimestamping) = timestamping.toList)
    (hn : control.filter (·.IsTimestampns) = timestampns.toList)
    (hp : control'.Perm control) :
    extractTimestampNs control' = extractTimestampNs control ∧
      extractTimestampNs control' = preferredStamp timestamping timestampns := by
  have ht' : control'.filter (·.IsTimestamping) = timestamping.toList := by
    apply eq_toList_of_perm
    rw [← ht]
    exact hp.filter _
  have hn' : control'.filter (·.IsTimestampns) = timestampns.toList := by
    apply eq_toList_of_perm
    rw [← hn]
    exact hp.filter _
  rw [extractTimestampNs_eq ht hn, extractTimestampNs_eq ht' hn']
  exact ⟨rfl, rfl⟩

/-- A plain stamp, a message of another level and a software stamp, in two orders. -/
theorem extractTimestampNs_perm_software :
    let ns : Cmsg := ⟨solSocket, soTimestampns, 32, fun _ => ⟨2, 5⟩⟩
    let other : Cmsg := ⟨0, soTimestamping, 32, fun _ => ⟨9, 9⟩⟩
    let sw : Cmsg := ⟨solSocket, soTimestamping, 64, fun i => if i = 0 then ⟨1, 7⟩ else ⟨0, 0⟩⟩
    extractTimestampNs [ns, other, sw] = extractTimestampNs [sw, ns, other] ∧
      extractTimestampNs [ns, other, sw] = some 1000000007 := by
  intro ns other sw
  obtain ⟨hp, hs⟩ := extractTimestampNs_perm [sw, ns, other] [ns, other, sw] (some sw) (some ns)
    rfl rfl (show ([ns, other] ++ [sw]).Perm ([sw] ++ [ns, other]) from List.perm_append_comm)
  exact ⟨hp, hs.trans (by decide)⟩

end Loop

end Mcanbus
