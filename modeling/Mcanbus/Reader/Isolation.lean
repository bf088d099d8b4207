import Mcanbus.Reader.FanOut

/-! # Isolation of the subscribers

What a subscriber is offered depends on the batches since it subscribed, and
what becomes of it on its own channel and consumer. Two runs that agree on
these agree on its frames and counters, whatever the other subscribers do.
-/

namespace Mcanbus.Reader

open Transition

variable {batchSize : ℕ} {s t : State} {i j : ℕ} {sub : Subscription} {frame : Frame}
  {as bs : List Action} {a : Action} {capacity : Option ℕ}

/-! ### Histories -/

/-- What the consumer of a subscription does to its channel. -/
inductive Op where
  | pop
  | wait
  | giveUp
  | drop
  deriving DecidableEq

/-- What happens to a subscription while its receiver exists. -/
inductive Touch where
  | offer (frame : Frame)
  | op (op : Op)

namespace Action

def snapshotted : Action → Option (List Frame)
  | .snapshot batch => some batch
  | _ => none

def touch (i : ℕ) : Action → List Touch
  | .trySend j frame result => if j = i ∧ result ≠ .disconnected then [.offer frame] else []
  | .pop j _ => if j = i then [.op .pop] else []
  | .wait j => if j = i then [.op .wait] else []
  | .giveUp j => if j = i then [.op .giveUp] else []
  | .dropRx j => if j = i then [.op .drop] else []
  | _ => []

def accepted (i : ℕ) : Action → List Frame
  | .trySend j frame result => if j = i then Channel.accepted frame result else []
  | _ => []

def rejected (i : ℕ) : Action → List Frame
  | .trySend j frame result => if j = i then Channel.refused frame result else []
  | _ => []

end Action

/-- The batches of a run. -/
def batches (as : List Action) : List (List Frame) := as.filterMap Action.snapshotted

/-- The number of batches before the call of `subscribe`. -/
def boundary (i : ℕ) (as : List Action) : ℕ :=
  (batches (as.takeWhile fun a => ¬ a.subscribes i)).length

def touches (i : ℕ) (as : List Action) : List Touch := as.flatMap (Action.touch i)

/-- The frames that a subscription accepts. -/
def accepted (i : ℕ) (as : List Action) : List Frame := as.flatMap (Action.accepted i)

/-- The frames that are dropped for a subscription. -/
def rejected (i : ℕ) (as : List Action) : List Frame := as.flatMap (Action.rejected i)

def offers (l : List Touch) : List Frame :=
  l.filterMap fun
    | .offer frame => some frame
    | .op _ => none

/-- What the consumer does, with the number of frames offered before. -/
def points (n : ℕ) : List Touch → List (ℕ × Op)
  | [] => []
  | .offer _ :: l => points (n + 1) l
  | .op op :: l => (n, op) :: points n l

theorem bus_eq (h : as.any (Action.subscribes i) = true) :
    bus i as = ((batches as).drop (boundary i as)).flatten := by
  induction as with
  | nil => cases h
  | cons a as ih =>
    have hflat : as.flatMap Action.batch = (batches as).flatten := by
      clear ih h
      induction as with
      | nil => rfl
      | cons b as ih =>
        simp only [List.flatMap_cons, ih]
        cases b <;> rfl
    rw [bus]
    split
    case isTrue hs =>
      have hb : boundary i (a :: as) = 0 := by simp [boundary, batches, hs]
      rw [hb, List.drop_zero, hflat]
      cases a with
      | subscribe => rfl
      | _ => cases hs
    case isFalse hs =>
      simp only [List.any_cons, Bool.or_eq_true] at h
      rw [ih (h.resolve_left hs)]
      have ht : (a :: as).takeWhile (fun a => ¬ a.subscribes i) =
          a :: as.takeWhile fun a => ¬ a.subscribes i := by simp [hs]
      unfold boundary
      rw [ht]
      cases a <;> rfl

theorem offers_append (l m : List Touch) : offers (l ++ m) = offers l ++ offers m :=
  List.filterMap_append

theorem points_append (n : ℕ) (l m : List Touch) :
    points n (l ++ m) = points n l ++ points (n + (offers l).length) m := by
  induction l generalizing n with
  | nil => rfl
  | cons x l ih =>
    cases x with
    | offer frame =>
      have hlen : n + 1 + (offers l).length = n + (offers (.offer frame :: l)).length :=
        Nat.succ_add_eq_add_succ n _
      rw [List.cons_append, points, points, ih, hlen]
    | op op => exact congrArg ((n, op) :: ·) (ih n)

theorem le_of_mem_points {n k : ℕ} {op : Op} {l : List Touch} (h : (k, op) ∈ points n l) :
    n ≤ k := by
  induction l generalizing n with
  | nil => cases h
  | cons x l ih =>
    cases x with
    | offer => exact Nat.le_of_succ_le (ih h)
    | op =>
      rcases List.mem_cons.mp h with he | h
      · exact Nat.le_of_eq (Prod.mk.inj he).1.symm
      · exact ih h

theorem exists_mem_points {n : ℕ} {op : Op} {l : List Touch} :
    (∃ k, (k, op) ∈ points n l) ↔ .op op ∈ l := by
  induction l generalizing n with
  | nil => simp [points]
  | cons x l ih =>
    cases x with
    | offer => simp [points, ih]
    | op op' =>
      simp only [points, List.mem_cons, Prod.mk.injEq, Touch.op.injEq, exists_or, ih]
      constructor
      · rintro (⟨k, -, h⟩ | h)
        · exact .inl h
        · exact .inr h
      · rintro (h | h)
        · exact .inl ⟨n, rfl, h⟩
        · exact .inr h

/-- The frames offered and the points of the consumer determine what happens. -/
theorem touches_eq {n : ℕ} {l m : List Touch} (ho : offers l = offers m)
    (hp : points n l = points n m) : l = m := by
  induction l generalizing n m with
  | nil =>
    cases m with
    | nil => rfl
    | cons x m => cases x <;> [cases ho; cases hp]
  | cons x l ih =>
    cases m with
    | nil => cases x <;> [cases ho; cases hp]
    | cons y m =>
      cases x with
      | offer frame =>
        cases y with
        | offer frame' =>
          obtain ⟨rfl, ho'⟩ := List.cons.inj ho
          rw [ih ho' hp]
        | op op =>
          have hm : (n, op) ∈ points (n + 1) l := by
            have hp' : points (n + 1) l = (n, op) :: points n m := hp
            rw [hp']
            exact List.mem_cons_self
          exact absurd (le_of_mem_points hm) (Nat.not_succ_le_self n)
      | op op =>
        cases y with
        | offer frame =>
          have hm : (n, op) ∈ points (n + 1) m := by
            have hp' : (n, op) :: points n l = points (n + 1) m := hp
            rw [← hp']
            exact List.mem_cons_self
          exact absurd (le_of_mem_points hm) (Nat.not_succ_le_self n)
        | op op' =>
          obtain ⟨he, hp'⟩ := List.cons.inj hp
          rw [(Prod.mk.inj he).2, ih (m := m) ho hp']

/-! ### The replay of a subscription -/

/-- What the thread and the consumer work on. -/
def Subscription.core (sub : Subscription) : Subscription := { sub with addr := 0, inner := true }

def Op.apply : Op → Subscription → Subscription
  | .pop, sub => { sub with channel := sub.channel.pop }
  | .wait, sub => { sub with channel := sub.channel.wait }
  | .giveUp, sub => { sub with channel := sub.channel.giveUp }
  | .drop, sub => { sub with channel := sub.channel.disconnect }

/-- A subscription with the frames that it has accepted and that were dropped for it. -/
structure Ledger where
  sub : Subscription
  accepted : List Frame
  rejected : List Frame

namespace Ledger

def touch (L : Ledger) : Touch → Ledger
  | .offer frame =>
    let result := (L.sub.channel.trySend frame).1
    ⟨L.sub.trySend frame, L.accepted ++ Channel.accepted frame result,
      L.rejected ++ Channel.refused frame result⟩
  | .op op => { L with sub := op.apply L.sub }

/-- The ledger of a new subscription after what has happened to it. -/
def replay (capacity : Option ℕ) (l : List Touch) : Ledger :=
  l.foldl touch ⟨.new 0 capacity, [], []⟩

/-- The ledger of a subscription in a run. -/
def of (i : ℕ) (as : List Action) (s : State) : Ledger :=
  ⟨(s.sub i).core, Reader.accepted i as, Reader.rejected i as⟩

theorem replay_append (capacity : Option ℕ) (l m : List Touch) :
    replay capacity (l ++ m) = m.foldl touch (replay capacity l) := List.foldl_append

theorem capacity_touch (L : Ledger) (x : Touch) :
    (L.touch x).sub.channel.capacity = L.sub.channel.capacity := by
  cases x with
  | offer frame =>
    exact (congrArg Channel.capacity (L.sub.channel_trySend frame)).trans Channel.capacity_trySend
  | op op => cases op <;> rfl

theorem connected_touch (L : Ledger) (x : Touch) : (L.touch x).sub.channel.connected = true ↔
    L.sub.channel.connected = true ∧ x ≠ .op .drop := by
  cases x with
  | offer frame =>
    have hc : (L.touch (.offer frame)).sub.channel.connected = L.sub.channel.connected :=
      (congrArg Channel.connected (L.sub.channel_trySend frame)).trans Channel.connected_trySend
    simp [hc]
  | op op => cases op <;> simp [touch, Op.apply, Channel.pop, Channel.wait, Channel.giveUp,
      Channel.disconnect]

theorem capacity_foldl (L : Ledger) (l : List Touch) :
    (l.foldl touch L).sub.channel.capacity = L.sub.channel.capacity := by
  induction l generalizing L with
  | nil => rfl
  | cons x l ih => rw [List.foldl_cons, ih, capacity_touch]

theorem connected_foldl (L : Ledger) (l : List Touch) :
    (l.foldl touch L).sub.channel.connected = true ↔
      L.sub.channel.connected = true ∧ .op .drop ∉ l := by
  induction l generalizing L with
  | nil => simp
  | cons x l ih =>
    simp only [List.foldl_cons, ih, connected_touch, List.mem_cons, not_or, and_assoc, ne_comm]

end Ledger

theorem Subscription.trySend_disconnected (h : (sub.channel.trySend frame).1 = .disconnected) :
    sub.trySend frame = sub := by
  have hc := Channel.trySend_disconnected.mp h
  rcases sub.channel.trySend_cases frame with ⟨-, hs⟩ | ⟨hc', -⟩ | ⟨hc', -⟩ | ⟨hc', -⟩
  · unfold trySend
    rw [hs]
  · rw [hc] at hc'
    cases hc'
  · rw [hc] at hc'
    cases hc'
  · rw [hc] at hc'
    cases hc'

theorem Subscription.core_trySend (sub : Subscription) (frame : Frame) :
    (sub.trySend frame).core = sub.core.trySend frame := by
  unfold trySend core
  dsimp only
  cases (sub.channel.trySend frame).1 <;> rfl

theorem touch_of_subject (h : a.subject ≠ some i) :
    a.touch i = [] ∧ a.accepted i = [] ∧ a.rejected i = [] := by
  cases a with
  | pop j | wait j | giveUp j | dropRx j =>
    have hj : ¬ j = i := fun he => h (congrArg some he)
    exact ⟨if_neg hj, rfl, rfl⟩
  | trySend j frame result =>
    have hj : ¬ j = i := fun he => h (congrArg some he)
    exact ⟨if_neg fun hc => hj hc.1, if_neg hj, if_neg hj⟩
  | _ => exact ⟨rfl, rfl, rfl⟩

theorem ledger_trySend (frame : Frame) :
    let a := Action.trySend i frame ((s.sub i).channel.trySend frame).1
    (⟨((s.sub i).trySend frame).core, accepted i as ++ a.accepted i,
      rejected i as ++ a.rejected i⟩ : Ledger) =
      (a.touch i).foldl Ledger.touch (.of i as s) := by
  intro a
  have haccepted : a.accepted i = Channel.accepted frame ((s.sub i).channel.trySend frame).1 :=
    if_pos rfl
  have hrejected : a.rejected i = Channel.refused frame ((s.sub i).channel.trySend frame).1 :=
    if_pos rfl
  rw [haccepted, hrejected]
  by_cases hd : ((s.sub i).channel.trySend frame).1 = .disconnected
  · have htouch : a.touch i = [] := if_neg fun h => h.2 hd
    rw [htouch, Subscription.trySend_disconnected hd, hd]
    simp only [Channel.accepted, Channel.refused, List.append_nil]
    rfl
  · have htouch : a.touch i = [.offer frame] := if_pos ⟨rfl, hd⟩
    rw [htouch, Subscription.core_trySend]
    rfl

/-- A step does to a subscription what is recorded of it. -/
theorem ledger_step (ha : Step batchSize s a t) (hn : a.subscribes i = false) :
    Ledger.of i (as ++ [a]) t = (a.touch i).foldl Ledger.touch (.of i as s) := by
  have happend : Ledger.of i (as ++ [a]) t =
      ⟨(t.sub i).core, accepted i as ++ a.accepted i, rejected i as ++ a.rejected i⟩ := by
    unfold Ledger.of accepted rejected
    simp only [List.flatMap_append, List.flatMap_singleton]
  rw [happend]
  by_cases hs : a.subject = some i
  case neg =>
    obtain ⟨htouch, haccepted, hrejected⟩ := touch_of_subject hs
    rw [sub_step ha hs hn, htouch, haccepted, hrejected, List.append_nil, List.append_nil]
    rfl
  cases ha with
  | pop | wait | giveUp | dropRx | dropInner =>
    cases hs
    simp only [Action.touch, if_pos, State.sub_update, Action.accepted, Action.rejected,
      List.append_nil]
    rfl
  | trySend =>
    cases hs
    dsimp only
    rw [State.sub_update, if_pos rfl]
    exact ledger_trySend _
  | _ => cases hs

theorem offers_touch (i : ℕ) (a : Action) : offers (a.touch i) = a.sent i := by
  cases a with
  | trySend | pop | wait | giveUp | dropRx =>
    simp only [Action.touch, Action.sent]
    split <;> rfl
  | _ => rfl

/-- Nothing is offered to a dropped receiver, and it is not dropped again. -/
theorem touch_disconnected (ha : Step batchSize s a t)
    (hc : (s.sub i).channel.connected = false) : ∀ x ∈ a.touch i, x = .op .giveUp := by
  intro x hx
  cases ha with
  | pop hs | wait hs | dropRx hs =>
    simp only [Action.touch] at hx
    split at hx
    case isTrue he =>
      have hc' := hs.1
      rw [he, hc] at hc'
      cases hc'
    case isFalse => cases hx
  | giveUp =>
    simp only [Action.touch] at hx
    split at hx
    case isTrue => exact List.mem_singleton.mp hx
    case isFalse => cases hx
  | trySend =>
    simp only [Action.touch] at hx
    split at hx
    case isTrue he =>
      obtain ⟨rfl, hd⟩ := he
      exact absurd (Channel.trySend_disconnected.mpr hc) hd
    case isFalse => cases hx
  | _ => cases hx

theorem touch_cases (i : ℕ) (a : Action) : a.touch i = [] ∨ ∃ x, a.touch i = [x] := by
  cases a with
  | trySend | pop | wait | giveUp | dropRx =>
    simp only [Action.touch]
    split
    · exact .inr ⟨_, rfl⟩
    · exact .inl rfl
  | _ => exact .inl rfl

theorem touches_concat : touches i (as ++ [a]) = touches i as ++ a.touch i := by
  unfold touches
  simp only [List.flatMap_append, List.flatMap_singleton]

/-! ### The invariant -/

/-- What a run has done to its subscriptions. -/
structure Recorded (as : List Action) (s : State) : Prop where
  fanOut : FanOut as s
  fresh : s.Fresh
  named : ∀ a ∈ as, ∀ i, a.subject = some i → i < s.count
  replayed : ∀ i < s.count, ∃ capacity, Ledger.of i as s = .replay capacity (touches i as)
  stream : ∀ i, (s.sub i).channel.connected = true →
    bus i as = offers (touches i as) ++ s.thread.remaining i
  cut : ∀ i < s.count, (s.sub i).channel.connected = false →
    (offers (touches i as)).IsPrefix (bus i as) ∧
      ∀ n, (n, .drop) ∈ points 0 (touches i as) → n = (offers (touches i as)).length

namespace Recorded

theorem start : Recorded [] .start where
  fanOut := .start
  fresh := .start
  named := fun _ h => absurd h List.not_mem_nil
  replayed := fun _ h => absurd h (Nat.not_lt_zero _)
  stream := fun _ h => nomatch h
  cut := fun _ h => absurd h (Nat.not_lt_zero _)

/-- Nothing has happened to a subscription to come. -/
theorem silent (h : Recorded as s) (hi : s.count ≤ i) :
    touches i as = [] ∧ accepted i as = [] ∧ rejected i as = [] := by
  have hall : ∀ a ∈ as, a.touch i = [] ∧ a.accepted i = [] ∧ a.rejected i = [] := by
    intro a ha
    refine touch_of_subject fun hs => ?_
    exact absurd (h.named a ha i hs) (Nat.not_lt.mpr hi)
  refine ⟨List.flatMap_eq_nil_iff.mpr ?_, List.flatMap_eq_nil_iff.mpr ?_,
    List.flatMap_eq_nil_iff.mpr ?_⟩
  · exact fun a ha => (hall a ha).1
  · exact fun a ha => (hall a ha).2.1
  · exact fun a ha => (hall a ha).2.2

/-- The receiver exists as long as the consumer has not dropped it. -/
theorem connected_iff (h : Recorded as s) (hi : i < s.count) :
    (s.sub i).channel.connected = true ↔ ¬ ∃ n, (n, .drop) ∈ points 0 (touches i as) := by
  obtain ⟨capacity, hr⟩ := h.replayed i hi
  have hc : (s.sub i).channel = (Ledger.replay capacity (touches i as)).sub.channel :=
    congrArg (fun L => L.sub.channel) hr
  rw [hc, exists_mem_points]
  refine (Ledger.connected_foldl _ _).trans ?_
  exact and_iff_right rfl

theorem capacity_eq (h : Recorded as s) (hi : i < s.count) :
    Ledger.of i as s = .replay (s.sub i).channel.capacity (touches i as) := by
  obtain ⟨capacity, hr⟩ := h.replayed i hi
  have hc : (s.sub i).channel.capacity = capacity :=
    (congrArg (fun L => L.sub.channel.capacity) hr).trans (Ledger.capacity_foldl _ _)
  rw [hc, hr]

theorem step_named (h : Recorded as s) (ha : Step batchSize s a t) :
    ∀ b ∈ as ++ [a], ∀ i, b.subject = some i → i < t.count := by
  intro b hb i hs
  rcases List.mem_append.mp hb with hb | hb
  · exact Nat.lt_of_lt_of_le (h.named b hb i hs) (count_le_step ha)
  · rw [List.mem_singleton.mp hb] at hs
    exact Nat.lt_of_lt_of_le (subject_lt h.fanOut.owned h.fresh ha hs) (count_le_step ha)

theorem step_replayed (h : Recorded as s) (ha : Step batchSize s a t) (hi : i < t.count) :
    ∃ capacity, Ledger.of i (as ++ [a]) t = .replay capacity (touches i (as ++ [a])) := by
  rcases lt_or_subscribes ha hi with hlt | ⟨rfl, hs⟩
  · obtain ⟨capacity, hr⟩ := h.replayed i hlt
    refine ⟨capacity, ?_⟩
    rw [ledger_step ha (subscribes_eq_false ha hlt), hr, touches_concat, Ledger.replay_append]
  · obtain ⟨htouches, haccepted, hrejected⟩ := h.silent (Nat.le_refl s.count)
    cases ha with
    | @subscribe addr capacity =>
      refine ⟨capacity, ?_⟩
      unfold Ledger.of
      rw [touches_concat, htouches, State.sub_subscribe_count]
      unfold accepted at haccepted ⊢
      unfold rejected at hrejected ⊢
      rw [List.flatMap_append, List.flatMap_append, haccepted, hrejected]
      rfl
    | _ => cases hs

theorem step_stream (h : Recorded as s) (ha : Step batchSize s a t)
    (hc : (t.sub i).channel.connected = true) :
    bus i (as ++ [a]) = offers (touches i (as ++ [a])) ++ t.thread.remaining i := by
  have hi := (h.fanOut.owned.step ha).lt_count hc
  rcases lt_or_subscribes ha hi with hlt | ⟨rfl, hs⟩
  · have hc' := connected_of_step ha hlt hc
    rw [h.fanOut.bus_concat hlt, h.stream i hc', List.append_assoc,
      sent_step h.fanOut.owned ha hc', touches_concat, offers_append, offers_touch,
      List.append_assoc]
  · obtain ⟨offered, ho, -⟩ := (h.fanOut.step ha).accounted s.count hc
    rw [bus_fresh h.fanOut.not_subscribed] at ho ⊢
    obtain ⟨-, hr⟩ := List.append_eq_nil_iff.mp ho.symm
    have htouch : a.touch s.count = [] := by
      cases a with
      | subscribe => rfl
      | _ => cases hs
    rw [hr, touches_concat, (h.silent (Nat.le_refl _)).1, htouch]
    rfl

/-- Nothing more is offered after the receiver was dropped. -/
theorem cut_of_disconnected (h : Recorded as s) (ha : Step batchSize s a t) (hi : i < s.count)
    (hc : (s.sub i).channel.connected = false) :
    (offers (touches i (as ++ [a]))).IsPrefix (bus i (as ++ [a])) ∧
      ∀ n, (n, .drop) ∈ points 0 (touches i (as ++ [a])) →
        n = (offers (touches i (as ++ [a]))).length := by
  obtain ⟨hbegin, hdrop⟩ := h.cut i hi hc
  have hgive := touch_disconnected ha hc
  have hoffers : offers (a.touch i) = [] := by
    refine List.filterMap_eq_nil_iff.mpr fun x hx => ?_
    rw [hgive x hx]
  rw [touches_concat, offers_append, points_append, h.fanOut.bus_concat hi, hoffers,
    List.append_nil]
  refine ⟨hbegin.trans (List.prefix_append _ _), fun n hn => ?_⟩
  rcases List.mem_append.mp hn with hn | hn
  · exact hdrop n hn
  · have hmem := hgive _ (exists_mem_points.mp ⟨n, hn⟩)
    cases hmem

/-- The receiver is dropped behind what has been offered so far. -/
theorem cut_of_connected (h : Recorded as s) (ha : Step batchSize s a t) (hi : i < s.count)
    (hc : (s.sub i).channel.connected = true) :
    (offers (touches i (as ++ [a]))).IsPrefix (bus i (as ++ [a])) ∧
      ∀ n, (n, .drop) ∈ points 0 (touches i (as ++ [a])) →
        n = (offers (touches i (as ++ [a]))).length := by
  have hstream := sent_step h.fanOut.owned ha hc
  rw [← offers_touch] at hstream
  rw [touches_concat, offers_append, points_append, h.fanOut.bus_concat hi, Nat.zero_add,
    h.stream i hc, List.append_assoc, hstream, ← List.append_assoc]
  refine ⟨List.prefix_append _ _, fun n hn => ?_⟩
  rcases List.mem_append.mp hn with hn | hn
  · exact absurd ⟨n, hn⟩ ((h.connected_iff hi).mp hc)
  obtain he | ⟨x, he⟩ := touch_cases i a <;> rw [he] at hn ⊢
  · cases hn
  · cases x with
    | offer frame => cases hn
    | op op =>
      obtain ⟨rfl, -⟩ := Prod.mk.inj (List.mem_singleton.mp hn)
      exact congrArg List.length (List.append_nil _).symm

theorem step_cut (h : Recorded as s) (ha : Step batchSize s a t) (hi : i < t.count)
    (hc : (t.sub i).channel.connected = false) :
    (offers (touches i (as ++ [a]))).IsPrefix (bus i (as ++ [a])) ∧
      ∀ n, (n, .drop) ∈ points 0 (touches i (as ++ [a])) →
        n = (offers (touches i (as ++ [a]))).length := by
  rcases lt_or_subscribes ha hi with hlt | ⟨rfl, hs⟩
  · cases hc' : (s.sub i).channel.connected with
    | false => exact h.cut_of_disconnected ha hlt hc'
    | true => exact h.cut_of_connected ha hlt hc'
  · cases ha with
    | subscribe =>
      rw [State.sub_subscribe_count] at hc
      cases hc
    | _ => cases hs

theorem step (h : Recorded as s) (ha : Step batchSize s a t) : Recorded (as ++ [a]) t where
  fanOut := h.fanOut.step ha
  fresh := h.fresh.step h.fanOut.owned ha
  named := h.step_named ha
  replayed := fun _ hi => h.step_replayed ha hi
  stream := fun _ hc => h.step_stream ha hc
  cut := fun _ hi hc => h.step_cut ha hi hc

/-- The same bus and the same consumer: the same frames are offered. -/
theorem offers_eq (hs : Recorded as s) (ht : Recorded bs t) (hi : i < s.count) (hj : j < t.count)
    (hbus : bus i as = bus j bs) (hp : points 0 (touches i as) = points 0 (touches j bs))
    (hr : s.thread.remaining i = t.thread.remaining j) :
    offers (touches i as) = offers (touches j bs) := by
  cases hc : (s.sub i).channel.connected with
  | true =>
    have hc' : (t.sub j).channel.connected = true := by
      rw [ht.connected_iff hj, ← hp]
      exact (hs.connected_iff hi).mp hc
    have heq := hs.stream i hc
    rw [hbus, ht.stream j hc', hr] at heq
    exact (List.append_cancel_right heq).symm
  | false =>
    have hn : ¬ (s.sub i).channel.connected = true := by simp [hc]
    rw [hs.connected_iff hi, not_not] at hn
    obtain ⟨n, hn⟩ := hn
    have hc' : (t.sub j).channel.connected = false := by
      rw [← Bool.not_eq_true, ht.connected_iff hj, ← hp, not_not]
      exact ⟨n, hn⟩
    obtain ⟨hbegin, hlen⟩ := hs.cut i hi hc
    obtain ⟨hbegin', hlen'⟩ := ht.cut j hj hc'
    rw [hbus] at hbegin
    rw [List.prefix_iff_eq_take] at hbegin hbegin'
    rw [hbegin, hbegin', ← hlen n hn, ← hlen' n (hp ▸ hn)]

end Recorded

theorem runs_recorded (h : Runs (Step batchSize) .start as s) : Recorded as s :=
  h.history (fun _ _ _ _ hs ha => hs.step ha) .start

/-- Two runs over the same batches treat a subscriber alike: which frames it accepts, which are
dropped for it and what its counters say depends on the batch before which it subscribes, the
capacity of its channel and what its consumer does between the frames offered to it. Between two
iterations no frame of a batch is left for it. -/
theorem isolated {size size' : ℕ} (has : Runs (Step size) .start as s)
    (hbs : Runs (Step size') .start bs t) (hi : i < s.count) (hj : j < t.count)
    (hbatches : batches as = batches bs) (hboundary : boundary i as = boundary j bs)
    (hcapacity : (s.sub i).channel.capacity = (t.sub j).channel.capacity)
    (hpoints : points 0 (touches i as) = points 0 (touches j bs))
    (hrest : s.thread.remaining i = t.thread.remaining j) :
    accepted i as = accepted j bs ∧ rejected i as = rejected j bs ∧
      (s.sub i).received = (t.sub j).received ∧ (s.sub i).dropped = (t.sub j).dropped := by
  have hs := runs_recorded has
  have ht := runs_recorded hbs
  have hbus : bus i as = bus j bs := by
    rw [bus_eq (hs.fanOut.any_subscribes hi), hbatches, hboundary,
      bus_eq (ht.fanOut.any_subscribes hj)]
  have htouches : touches i as = touches j bs :=
    touches_eq (hs.offers_eq ht hi hj hbus hpoints hrest) hpoints
  have hledger : Ledger.of i as s = Ledger.of j bs t := by
    rw [hs.capacity_eq hi, ht.capacity_eq hj, hcapacity, htouches]
  obtain ⟨hsub, haccepted, hrejected⟩ := Ledger.mk.inj hledger
  have hreceived : (s.sub i).core.received = (t.sub j).core.received :=
    congrArg Subscription.received hsub
  have hdropped : (s.sub i).core.dropped = (t.sub j).core.dropped :=
    congrArg Subscription.dropped hsub
  exact ⟨haccepted, hrejected, hreceived, hdropped⟩

/-- The batch of `fullRun`, with another subscriber that is dropped and culled. -/
def culledRun (frame : Frame) : List Action :=
  [.subscribe 0 0 none, .subscribe 1 1 (some 1), .check, .recvBatch (some [frame, frame]),
    .snapshot [frame, frame], .dropRx 0, .trySend 0 frame .disconnected, .next,
    .trySend 1 frame .queued, .trySend 1 frame .full, .next, .release, .cull]

theorem runs_culled (frame : Frame) : ∃ t, Runs (Step 64) .start (culledRun frame) t ∧
    t.thread = .head ∧ t.subscribers = [1] ∧ t.count = 2 ∧
      t.sub 1 = ⟨1, ⟨some 1, [frame], 0, true⟩, 1, 1, true⟩ :=
  ⟨_, .cons (.subscribe rfl (State.fresh_start 0))
    (.cons (.subscribe rfl (fresh_subscribe (by decide))) (.cons (.check rfl)
    (.cons (.recvBatch rfl (by simp) (Nat.le_of_ble_eq_true rfl)) (.cons (.snapshot rfl)
    (.cons (.dropRx ⟨rfl, rfl⟩ rfl) (.cons (.trySend rfl) (.cons (.next rfl)
    (.cons (.trySend rfl) (.cons (.trySend rfl) (.cons (.next rfl) (.cons (.release rfl)
    (.cons (.cull rfl) (.nil _))))))))))))), rfl, rfl, rfl, rfl⟩

theorem isolated_culled : ∃ s t, Runs (Step 2) .start (fullRun .zeroed) s ∧
    Runs (Step 64) .start (culledRun .zeroed) t ∧
      accepted 0 (fullRun .zeroed) = accepted 1 (culledRun .zeroed) ∧
      rejected 0 (fullRun .zeroed) = rejected 1 (culledRun .zeroed) ∧
      (s.sub 0).received = (t.sub 1).received ∧ (s.sub 0).dropped = (t.sub 1).dropped := by
  obtain ⟨s, has, hs, hsub⟩ := runs_full .zeroed
  obtain ⟨t, hbs, ht, -, hcount, hsub'⟩ := runs_culled .zeroed
  have hi : 0 < s.count := (runs_fanOut has).owned.lt_count (by rw [hsub])
  refine ⟨s, t, has, hbs, isolated has hbs hi (by rw [hcount]; decide) rfl rfl ?_ rfl ?_⟩
  · rw [hsub, hsub']
  · rw [hs, ht]
    rfl

end Mcanbus.Reader
