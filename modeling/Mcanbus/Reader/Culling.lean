import Mcanbus.Reader.Stream

/-! # Culling

The thread compares addresses of subscribers that it no longer owns. As the list
keeps every dead subscriber until it is culled, and an address is used again only
when no subscriber is left at it, culling removes those that are dead and no others.
-/

namespace Mcanbus.Reader

open Transition

variable {batchSize : ℕ} {s t : State} {i j : ℕ} {frame : Frame} {as bs : List Action}
  {a : Action}

namespace Thread

/-- The addresses to cull. -/
def dead : Thread → List ℕ
  | .sending _ _ _ _ dead => dead
  | .culling dead => dead
  | _ => []

/-- No iteration with frames is under way. -/
def Idle : Thread → Prop
  | .sending .. | .culling _ => False
  | _ => True

/-- The batch in hand has frames. -/
def Filled : Thread → Prop
  | .received batch | .sending batch .. => batch ≠ []
  | _ => True

end Thread

theorem filled_step (h : s.thread.Filled) (ha : Step batchSize s a t) : t.thread.Filled := by
  cases ha with
  | check | release =>
    dsimp only
    split <;> trivial
  | recvBatch ht hn => exact hn
  | snapshot ht | next ht =>
    rw [ht] at h
    exact h
  | trySend ht =>
    rw [ht] at h
    dsimp only
    unfold Thread.afterSend
    split <;> exact h
  | recvNone | cull => trivial
  | _ => exact h

/-- Only culling forgets an address. -/
theorem dead_step (ha : Step batchSize s a t) (hn : a ≠ .cull) :
    s.thread.dead ⊆ t.thread.dead := by
  cases ha with
  | check ht | recvNone ht | recvBatch ht | snapshot ht =>
    rw [ht]
    exact List.nil_subset _
  | trySend ht =>
    rw [ht]
    dsimp only
    unfold Thread.afterSend
    split
    · exact List.subset_append_left _ _
    · exact List.Subset.refl _
  | next ht =>
    rw [ht]
    exact List.Subset.refl _
  | release ht =>
    rw [ht]
    dsimp only
    split
    case isTrue hd => exact List.subset_nil.mpr hd
    case isFalse => exact List.Subset.refl _
  | cull => exact absurd rfl hn
  | _ => exact List.Subset.refl _

theorem not_mem_step (ha : Step batchSize s a t) (hi : i < s.count) (hn : i ∉ s.subscribers) :
    i ∉ t.subscribers := by
  cases ha with
  | subscribe =>
    intro hm
    rcases List.mem_append.mp hm with hm | hm
    · exact hn hm
    · exact absurd (List.mem_singleton.mp hm) (Nat.ne_of_lt hi)
  | join => exact List.not_mem_nil
  | cull => exact fun hm => hn (List.mem_filter.mp hm).1
  | _ => exact hn

/-- The thread has a batch for the subscription only while it sends. -/
theorem batch_of_remaining (ha : Step batchSize s a t) (hr : s.thread.remaining i ≠ []) :
    a.batch = [] := by
  cases ha with
  | snapshot ht =>
    rw [ht] at hr
    exact absurd rfl hr
  | _ => rfl

/-! ### Dropped subscribers -/

/-- The receiver has been dropped, and the thread is to send to it or to cull it, if it has not. -/
structure Leaving (i : ℕ) (s : State) : Prop where
  lt : i < s.count
  dropped : (s.sub i).channel.connected = false
  doomed : i ∉ s.subscribers ∨ (s.sub i).addr ∈ s.thread.dead ∨ s.thread.remaining i ≠ []

namespace Leaving

theorem doomed_step (h : Leaving i s) (ho : s.Owned) (ha : Step batchSize s a t)
    (hi : i ∈ s.subscribers) :
    i ∉ t.subscribers ∨ (s.sub i).addr ∈ t.thread.dead ∨ t.thread.remaining i ≠ [] := by
  rcases h.doomed with hn | hd | hr
  · exact absurd hi hn
  · by_cases hcull : a = .cull
    · subst hcull
      cases ha with
      | cull ht =>
        rw [ht] at hd
        refine .inl fun hm => ?_
        obtain ⟨-, hkept⟩ := List.mem_filter.mp hm
        exact of_decide_eq_true hkept hd
    · exact .inr (.inl (dead_step ha hcull hd))
  · by_cases hs : ∃ frame result, a = .trySend i frame result
    · obtain ⟨frame, result, rfl⟩ := hs
      cases ha with
      | trySend ht =>
        rw [Channel.trySend_disconnected.mpr h.dropped]
        exact .inr (.inl (List.mem_append_right _ List.mem_cons_self))
    · have hne (frame : Frame) (result : SendResult) : a ≠ .trySend i frame result :=
        fun he => hs ⟨frame, result, he⟩
      rw [remaining_step ho ha (batch_of_remaining ha hr) hne]
      exact .inr (.inr hr)

theorem step (h : Leaving i s) (ho : s.Owned) (ha : Step batchSize s a t) : Leaving i t := by
  obtain ⟨haddr, hdropped⟩ := kept_step ha h.lt
  refine ⟨Nat.lt_of_lt_of_le h.lt (count_le_step ha), hdropped h.dropped, ?_⟩
  by_cases hi : i ∈ s.subscribers
  · rw [haddr]
    exact h.doomed_step ho ha hi
  · exact .inl (not_mem_step ha h.lt hi)

theorem not_mem (h : Leaving i s) (hidle : s.thread.Idle) : i ∉ s.subscribers := by
  rcases h.doomed with hn | hd | hr
  · exact hn
  · cases ht : s.thread with
    | sending | culling =>
      rw [ht] at hidle
      exact hidle.elim
    | _ =>
      rw [ht] at hd
      cases hd
  · cases ht : s.thread with
    | sending =>
      rw [ht] at hidle
      exact hidle.elim
    | _ =>
      rw [ht] at hr
      exact absurd rfl hr

end Leaving

/-- What is left for a subscription stays until the first frame is sent to it. -/
theorem remaining_runs (h : Runs (Step batchSize) s as t) (ho : s.Owned)
    (hr : s.thread.remaining i ≠ []) (hs : ∀ frame result, .trySend i frame result ∉ as) :
    t.thread.remaining i = s.thread.remaining i := by
  induction h with
  | nil => rfl
  | @cons s u t a as ha _ ih =>
    have hne (frame : Frame) (result : SendResult) : a ≠ .trySend i frame result := by
      rintro rfl
      exact hs frame result List.mem_cons_self
    have hstep : u.thread.remaining i = s.thread.remaining i :=
      remaining_step ho ha (batch_of_remaining ha hr) hne
    rw [ih (ho.step ha) (by rw [hstep]; exact hr)
      fun frame result hm => hs frame result (List.mem_cons_of_mem _ hm), hstep]

theorem mem_of_step (h : s.Owned) (ha : Step batchSize s a t) (hj : a ≠ .join)
    (hi : i ∈ s.subscribers) (hc : (s.sub i).channel.connected = true) : i ∈ t.subscribers := by
  cases ha with
  | subscribe => exact List.mem_append_left _ hi
  | join => exact absurd rfl hj
  | cull ht =>
    have hd := h.threadOk
    rw [ht] at hd
    exact h.mem_retained hd hi hc
  | _ => exact hi

/-- Culling removes exactly the dead. In every reachable state the list has every subscriber with
a receiver, until the `Reader` is dropped with its list; no step before that removes one. A
subscriber of a snapshot whose receiver is dropped before anything is sent to it is gone after
the iteration, and stays away. -/
theorem culls_exactly (hs : Reachable (Step batchSize) .start s) :
    (∀ i, (s.sub i).channel.connected = true → s.handle ≠ .gone → i ∈ s.subscribers) ∧
    (∀ i a t, Step batchSize s a t → a ≠ .join → i ∈ s.subscribers →
      (s.sub i).channel.connected = true → i ∈ t.subscribers) ∧
    ∀ i batch s' before t after u, Step batchSize s (.snapshot batch) s' → i ∈ s.subscribers →
      Runs (Step batchSize) s' before t → (∀ frame result, .trySend i frame result ∉ before) →
      (t.sub i).channel.connected = false → Runs (Step batchSize) t after u → u.thread.Idle →
      i ∉ u.subscribers := by
  have ho := reachable_owned hs
  refine ⟨ho.listed, fun i a t ha hj hi hc => mem_of_step ho ha hj hi hc, ?_⟩
  intro i batch s' before t after u ha hi hbefore hnone hdropped hafter hidle
  have ho' : s'.Owned := ho.step ha
  have hfilled : s'.thread.Filled :=
    filled_step (hs.invariant (I := fun s => s.thread.Filled) (fun _ _ _ h ha => filled_step h ha)
      trivial) ha
  have hlt : i < s.count := ho.created i (.inl hi)
  have hremaining : s'.thread.remaining i = batch ∧ batch ≠ [] := by
    cases ha with
    | snapshot ht => exact ⟨Thread.remaining_sending hi, hfilled⟩
  have hr : s'.thread.remaining i ≠ [] := by
    rw [hremaining.1]
    exact hremaining.2
  have htail := remaining_runs hbefore ho' hr hnone
  have hcount : i < t.count := hbefore.invariant (I := fun s => i < s.count)
    (fun _ _ _ h ha => Nat.lt_of_lt_of_le h (count_le_step ha))
    (Nat.lt_of_lt_of_le hlt (count_le_step ha))
  have hot : t.Owned := hbefore.invariant (fun _ _ _ h ha => h.step ha) ho'
  have hleaving : Leaving i t := ⟨hcount, hdropped, .inr (.inr (by rw [htail]; exact hr))⟩
  have hend : u.Owned ∧ Leaving i u :=
    hafter.invariant (I := fun s => s.Owned ∧ Leaving i s)
      (fun _ _ _ h ha => ⟨h.1.step ha, h.2.step h.1 ha⟩) ⟨hot, hleaving⟩
  exact hend.2.not_mem hidle

/-- Two subscribers and a batch of one frame. -/
def pair : State where
  handle := .running
  stop := false
  subscribers := [0, 1]
  thread := .received [.zeroed]
  count := 2
  sub := Function.update (Function.update State.start.sub 0 (.new 0 none)) 1 (.new 1 (some 1))

theorem reachable_pair : Reachable (Step 64) .start pair :=
  ⟨[.subscribe 0 0 none, .subscribe 1 1 (some 1), .check, .recvBatch (some [.zeroed])],
    .cons (.subscribe rfl (State.fresh_start 0))
      (.cons (.subscribe rfl (fresh_subscribe (by decide)))
      (.cons (.check rfl) (.cons (.recvBatch rfl (by decide) (by decide)) (.nil _))))⟩

theorem culls_exactly_pair : 1 ∈ pair.subscribers ∧ ∃ u,
    Runs (Step 64) pair [.snapshot [.zeroed], .dropRx 0, .trySend 0 .zeroed .disconnected, .next,
      .trySend 1 .zeroed .queued, .next, .release, .cull] u ∧ 0 ∉ u.subscribers := by
  obtain ⟨hlisted, -, hculled⟩ := culls_exactly reachable_pair
  have hsnapshot : Step 64 pair (.snapshot [.zeroed]) _ := .snapshot rfl
  refine ⟨hlisted 1 rfl nofun, _, .cons hsnapshot (.cons (.dropRx ⟨rfl, rfl⟩ rfl)
    (.cons (.trySend rfl) (.cons (.next rfl) (.cons (.trySend rfl) (.cons (.next rfl)
    (.cons (.release rfl) (.cons (.cull rfl) (.nil _)))))))), ?_⟩
  refine hculled 0 _ _ [.dropRx 0] _ _ _ hsnapshot List.mem_cons_self
    (.cons (.dropRx ⟨rfl, rfl⟩ rfl) (.nil _)) (by simp) rfl (.cons (.trySend rfl)
    (.cons (.next rfl) (.cons (.trySend rfl) (.cons (.next rfl) (.cons (.release rfl)
    (.cons (.cull rfl) (.nil _))))))) trivial

end Mcanbus.Reader
