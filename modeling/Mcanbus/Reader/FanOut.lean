import Mcanbus.Reader.Stream

/-! # Conservation of the fan-out

Between two iterations of the reader thread the frames that a subscriber has
popped and queued are among those of the bus since it subscribed, in order, and
its counters account for the rest.
-/

namespace Mcanbus.Reader

open Transition

variable {batchSize : ℕ} {s t : State} {i j : ℕ} {sub : Subscription} {frame : Frame}
  {as bs : List Action} {a : Action} {out offered : List Frame}

/-! ### Histories -/

namespace Action

/-- The frames that reach the consumer of a subscription. -/
def taken (i : ℕ) : Action → List Frame
  | .pop j frame => if j = i then [frame] else []
  | .trySend j frame result => if j = i then Channel.handedOver frame result else []
  | _ => []

end Action

/-- The frames popped from the queue of a subscription, in order. -/
def popped (i : ℕ) (as : List Action) : List Frame := as.flatMap (Action.taken i)

/-- The batches snapshotted after the subscription was pushed, in bus order. -/
def bus (i : ℕ) : List Action → List Frame
  | [] => []
  | a :: as => if a.subscribes i then as.flatMap Action.batch else bus i as

theorem popped_concat : popped i (as ++ [a]) = popped i as ++ a.taken i := by
  simp only [popped, List.flatMap_append, List.flatMap_singleton]

theorem bus_concat (h : as.any (Action.subscribes i) = true) :
    bus i (as ++ [a]) = bus i as ++ a.batch := by
  induction as with
  | nil => cases h
  | cons b as ih =>
    simp only [List.cons_append, bus]
    split
    · simp only [List.flatMap_append, List.flatMap_singleton]
    case isFalse hb =>
      simp only [List.any_cons, Bool.or_eq_true] at h
      exact ih (h.resolve_left hb)

theorem bus_fresh (h : as.any (Action.subscribes i) = false) : bus i (as ++ [a]) = [] := by
  induction as with
  | nil =>
    simp only [List.nil_append, bus]
    split <;> rfl
  | cons b as ih =>
    obtain ⟨hb, has⟩ := Bool.or_eq_false_iff.mp h
    rw [List.cons_append, bus, hb]
    exact ih has

/-! ### One subscription -/

/-- The channel conserves the frames offered to it, and the counters account for them. -/
structure Subscription.Accounts (sub : Subscription) (taken offered : List Frame) : Prop where
  conserves : sub.channel.Conserves taken offered
  received : sub.received = .ofNat (taken ++ sub.channel.queue).length
  dropped : sub.dropped = .ofNat (offered.length - (taken ++ sub.channel.queue).length)

namespace Subscription.Accounts

theorem new (addr : ℕ) (capacity : Option ℕ) : (Subscription.new addr capacity).Accounts [] [] :=
  ⟨.new capacity, rfl, rfl⟩

theorem pop (h : sub.Accounts out offered) {rest : List Frame}
    (hq : sub.channel.queue = frame :: rest) :
    Accounts { sub with channel := sub.channel.pop } (out ++ [frame]) offered := by
  have he := Channel.content_pop out hq
  refine ⟨h.conserves.pop hq, ?_, ?_⟩
  · exact h.received.trans (by rw [he])
  · exact h.dropped.trans (by rw [he])

theorem wait (h : sub.Accounts out offered) :
    Accounts { sub with channel := sub.channel.wait } out offered :=
  ⟨⟨h.conserves.bounded, h.conserves.sublist, h.conserves.lossless⟩, h.received, h.dropped⟩

theorem giveUp (h : sub.Accounts out offered) :
    Accounts { sub with channel := sub.channel.giveUp } out offered :=
  ⟨⟨h.conserves.bounded, h.conserves.sublist, h.conserves.lossless⟩, h.received, h.dropped⟩

theorem trySend (h : sub.Accounts out offered) (hc : sub.channel.connected = true) :
    (sub.trySend frame).Accounts
      (out ++ Channel.handedOver frame (sub.channel.trySend frame).1) (offered ++ [frame]) := by
  have hcons := h.conserves.trySend hc (a := frame)
  have hle := h.conserves.sublist.length_le
  have hone : (Channel.accepted frame (sub.channel.trySend frame).1).length ≤ 1 := by
    cases (sub.channel.trySend frame).1 with
    | queued | handed => exact Nat.le_refl 1
    | full | disconnected => exact Nat.zero_le 1
  have hoffered : (offered ++ [frame]).length = offered.length + 1 := List.length_append
  have hcontent : (out ++ Channel.handedOver frame (sub.channel.trySend frame).1 ++
      (sub.trySend frame).channel.queue).length = (out ++ sub.channel.queue).length +
        (Channel.accepted frame (sub.channel.trySend frame).1).length := by
    rw [Subscription.channel_trySend, Channel.content_trySend out h.conserves.bounded,
      List.length_append]
  refine ⟨by simpa using hcons, ?_, ?_⟩ <;> rw [hcontent]
  · simp only [received_trySend, h.received, UInt64.ofNat_add]
  · rw [dropped_trySend _ _ hc, h.dropped, hoffered, ← UInt64.ofNat_add]
    congr 1
    omega

end Subscription.Accounts

theorem taken_of_subject (h : a.subject ≠ some i) : a.taken i = [] := by
  cases a with
  | pop j | trySend j => exact if_neg fun he => h (congrArg some he)
  | _ => rfl

/-- A step keeps the accounts of a subscription whose receiver is not dropped. -/
theorem accounts_step (ha : Step batchSize s a t) (hi : i < s.count)
    (hc : (t.sub i).channel.connected = true) (h : (s.sub i).Accounts out offered) :
    (t.sub i).Accounts (out ++ a.taken i) (offered ++ a.sent i) := by
  by_cases hs : a.subject = some i
  case neg =>
    rw [sub_step ha hs (subscribes_eq_false ha hi), taken_of_subject hs,
      Action.sent_of_subject hs, List.append_nil, List.append_nil]
    exact h
  cases ha with
  | pop hsubscribed hq =>
    cases hs
    simp only [State.sub_update, if_pos, Action.taken, Action.sent, List.append_nil]
    exact h.pop hq
  | wait =>
    cases hs
    simp only [State.sub_update, if_pos, Action.taken, Action.sent, List.append_nil]
    exact h.wait
  | giveUp =>
    cases hs
    simp only [State.sub_update, if_pos, Action.taken, Action.sent, List.append_nil]
    exact h.giveUp
  | dropRx =>
    cases hs
    rw [State.sub_update, if_pos rfl] at hc
    cases hc
  | dropInner =>
    cases hs
    simp only [State.sub_update, if_pos, Action.taken, Action.sent, List.append_nil]
    exact ⟨h.conserves, h.received, h.dropped⟩
  | trySend =>
    cases hs
    dsimp only at hc ⊢
    rw [State.sub_update, if_pos rfl] at hc ⊢
    simp only [Subscription.channel_trySend, Channel.connected_trySend] at hc
    rw [Action.taken, if_pos rfl, Action.sent,
      if_pos ⟨rfl, Channel.trySend_ne_disconnected hc _⟩]
    exact h.trySend hc
  | _ => cases hs

/-! ### The invariant -/

/-- The subscription has been offered what the thread has sent of the bus. -/
def Accounted (as : List Action) (s : State) (i : ℕ) : Prop :=
  ∃ offered, bus i as = offered ++ s.thread.remaining i ∧
    (s.sub i).Accounts (popped i as) offered

/-- The history of a run up to a state. -/
structure FanOut (as : List Action) (s : State) : Prop where
  owned : s.Owned
  subscribed : ∀ i, as.any (Action.subscribes i) = decide (i < s.count)
  fresh : ∀ i, s.count ≤ i → popped i as = []
  accounted : ∀ i, (s.sub i).channel.connected = true → Accounted as s i

namespace FanOut

theorem start : FanOut [] .start where
  owned := .start
  subscribed := fun _ => rfl
  fresh := fun _ _ => rfl
  accounted := fun _ h => nomatch h

theorem any_subscribes (h : FanOut as s) (hi : i < s.count) :
    as.any (Action.subscribes i) = true := by
  rw [h.subscribed, decide_eq_true hi]

theorem not_subscribed (h : FanOut as s) : as.any (Action.subscribes s.count) = false := by
  rw [h.subscribed, decide_eq_false (Nat.lt_irrefl _)]

theorem bus_concat (h : FanOut as s) (hi : i < s.count) :
    bus i (as ++ [a]) = bus i as ++ a.batch :=
  Reader.bus_concat (h.any_subscribes hi)

theorem accounted_step (h : FanOut as s) (ha : Step batchSize s a t)
    (hc : (t.sub i).channel.connected = true) : Accounted (as ++ [a]) t i := by
  rcases lt_or_subscribes ha ((h.owned.step ha).lt_count hc) with hlt | ⟨rfl, hs⟩
  · have hc' := connected_of_step ha hlt hc
    obtain ⟨offered, ho, hacc⟩ := h.accounted i hc'
    refine ⟨offered ++ a.sent i, ?_, ?_⟩
    · rw [h.bus_concat hlt, ho, List.append_assoc, sent_step h.owned ha hc', List.append_assoc]
    · rw [popped_concat]
      exact accounts_step ha hlt hc hacc
  · refine ⟨[], ?_, ?_⟩
    · have hn : s.count ∉ s.subscribers :=
        fun hm => Nat.lt_irrefl _ (h.owned.created _ (.inl hm))
      rw [bus_fresh h.not_subscribed]
      cases ha with
      | subscribe => exact (h.owned.remaining_eq_nil hn).symm
      | _ => cases hs
    · rw [popped_concat, h.fresh _ (Nat.le_refl _)]
      cases ha with
      | @subscribe addr capacity =>
        rw [State.sub_subscribe_count]
        exact .new addr capacity
      | _ => cases hs

theorem subscribed_step (h : FanOut as s) (ha : Step batchSize s a t) (i : ℕ) :
    (as ++ [a]).any (Action.subscribes i) = decide (i < t.count) := by
  simp only [List.any_append, h.subscribed]
  cases ha with
  | subscribe =>
    apply Bool.eq_iff_iff.mpr
    simp only [List.any_cons, List.any_nil, Bool.or_false, Action.subscribes, Bool.or_eq_true,
      decide_eq_true_eq]
    rw [eq_comm]
    exact Nat.lt_succ_iff_lt_or_eq.symm
  | _ => exact Bool.or_false _

theorem fresh_step (h : FanOut as s) (ha : Step batchSize s a t) (hi : t.count ≤ i) :
    popped i (as ++ [a]) = [] := by
  have hne {j : ℕ} (hj : j < s.count) (hc : s.count ≤ i) : j ≠ i :=
    Nat.ne_of_lt (Nat.lt_of_lt_of_le hj hc)
  rw [popped_concat]
  cases ha with
  | subscribe => exact (List.append_nil _).trans (h.fresh i (Nat.le_of_succ_le hi))
  | pop hs hq =>
    rw [h.fresh i hi]
    exact if_neg (hne (h.owned.lt_count hs.1) hi)
  | trySend ht =>
    obtain ⟨hs, -, hsuf, -⟩ := h.owned.sending ht
    rw [h.fresh i hi]
    exact if_neg (hne (h.owned.created _ (.inl (hs (hsuf.subset List.mem_cons_self)))) hi)
  | _ => exact (List.append_nil _).trans (h.fresh i hi)

theorem step (h : FanOut as s) (ha : Step batchSize s a t) : FanOut (as ++ [a]) t where
  owned := h.owned.step ha
  subscribed := h.subscribed_step ha
  fresh := fun _ hi => h.fresh_step ha hi
  accounted := fun _ hc => h.accounted_step ha hc

end FanOut

/-- The history of every run. -/
theorem runs_fanOut (h : Runs (Step batchSize) .start as s) : FanOut as s :=
  h.history (fun _ _ _ _ hs ha => hs.step ha) .start

/-- The fan-out loses only what does not fit in the queue, and counts it. The counters are
exact as long as the bus has carried fewer than `2 ^ 64` frames. -/
theorem fanOut_conserves (h : Runs (Step batchSize) .start as s) (hb : s.thread.Between)
    (hi : s.Subscribed i) :
    let content := popped i as ++ (s.sub i).channel.queue
    content.Sublist (bus i as) ∧
    (s.sub i).received = .ofNat content.length ∧
    (s.sub i).received + (s.sub i).dropped = .ofNat (bus i as).length ∧
    ((bus i as).length < 2 ^ 64 → (s.sub i).received.toNat = content.length ∧
      (s.sub i).received.toNat + (s.sub i).dropped.toNat = (bus i as).length) ∧
    (∀ capacity ∈ (s.sub i).channel.capacity, (s.sub i).channel.queue.length ≤ capacity) ∧
    ((s.sub i).channel.capacity = none → (s.sub i).dropped = 0 ∧ content = bus i as) := by
  obtain ⟨offered, ho, hc, hr, hd⟩ := (runs_fanOut h).accounted i hi.1
  simp only [hb.remaining, List.append_nil] at ho
  subst ho
  have hle := hc.sublist.length_le
  refine ⟨hc.sublist, hr, ?_, ?_, hc.bounded, ?_⟩
  · rw [hr, hd, ← UInt64.ofNat_add, Nat.add_sub_cancel' hle]
  · intro hlt
    rw [hr, hd, UInt64.toNat_ofNat_of_lt' (Nat.lt_of_le_of_lt hle hlt),
      UInt64.toNat_ofNat_of_lt' (Nat.lt_of_le_of_lt (Nat.sub_le _ _) hlt)]
    exact ⟨rfl, Nat.add_sub_cancel' hle⟩
  · intro hn
    have he := hc.lossless hn
    refine ⟨?_, he⟩
    rw [hd, he, Nat.sub_self]
    rfl

/-- A batch of two frames for a queue with room for one. -/
def fullRun (frame : Frame) : List Action :=
  [.subscribe 0 0 (some 1), .check, .recvBatch (some [frame, frame]), .snapshot [frame, frame],
    .trySend 0 frame .queued, .trySend 0 frame .full, .next, .release]

theorem runs_full (frame : Frame) : ∃ s, Runs (Step 2) .start (fullRun frame) s ∧
    s.thread = .head ∧ s.sub 0 = ⟨0, ⟨some 1, [frame], 0, true⟩, 1, 1, true⟩ :=
  ⟨_, .cons (.subscribe rfl (State.fresh_start 0)) (.cons (.check rfl)
    (.cons (.recvBatch rfl (by simp) (Nat.le_refl 2)) (.cons (.snapshot rfl) (.cons (.trySend rfl)
    (.cons (.trySend rfl) (.cons (.next rfl) (.cons (.release rfl) (.nil _)))))))), rfl, rfl⟩

theorem fanOut_conserves_full : ∃ s, Runs (Step 2) .start (fullRun .zeroed) s ∧
    (s.sub 0).received.toNat = 1 ∧ (s.sub 0).received.toNat + (s.sub 0).dropped.toNat = 2 := by
  obtain ⟨s, hr, ht, hs⟩ := runs_full .zeroed
  have hi : s.Subscribed 0 := by
    unfold State.Subscribed
    rw [hs]
    exact ⟨rfl, rfl⟩
  have hc := (fanOut_conserves hr (by rw [ht]; trivial) hi).2.2.2.1 (by decide)
  rw [hs] at hc
  exact ⟨s, hr, by rw [hs]; exact hc⟩

end Mcanbus.Reader
