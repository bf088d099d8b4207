import Mcanbus.Reader.Ownership

/-! # The stream of one subscription

What a step does to one subscription, and to the frames of the current batch
that the thread has yet to send to it. A step that does not act on a
subscription leaves both as they are.
-/

namespace Mcanbus.Reader

open Transition

variable {batchSize : ℕ} {s t : State} {i j : ℕ} {sub : Subscription} {frame : Frame}
  {as bs : List Action} {a : Action}

namespace Action

/-- The frames of a snapshotted batch. -/
def batch : Action → List Frame
  | .snapshot batch => batch
  | _ => []

/-- The call of `subscribe` that makes the subscription. -/
def subscribes (i : ℕ) : Action → Bool
  | .subscribe j _ _ => j = i
  | _ => false

/-- The subscription on which a step acts. -/
def subject : Action → Option ℕ
  | .pop i _ | .wait i | .giveUp i | .dropRx i | .dropInner i | .trySend i _ _ => some i
  | _ => none

/-- The frames offered to a receiver that exists. -/
def sent (i : ℕ) : Action → List Frame
  | .trySend j frame result => if j = i ∧ result ≠ .disconnected then [frame] else []
  | _ => []

theorem sent_of_subject (h : a.subject ≠ some i) : a.sent i = [] := by
  cases a with
  | trySend j frame result => exact if_neg fun hc => h (congrArg some hc.1)
  | _ => rfl

end Action

/-! ### The subscriptions -/

/-- The subscriptions to come have not been touched. -/
def State.Fresh (s : State) : Prop := ∀ i, s.count ≤ i → s.sub i = State.start.sub i

theorem State.Fresh.start : State.start.Fresh := fun _ _ => rfl

/-- A step acts on a subscription that exists. -/
theorem subject_lt (h : s.Owned) (hf : s.Fresh) (ha : Step batchSize s a t)
    (hs : a.subject = some i) : i < s.count := by
  refine Nat.lt_of_not_le fun hi => ?_
  have hsub := hf i hi
  cases ha with
  | pop hsubscribed | wait hsubscribed | dropRx hsubscribed =>
    cases hs
    unfold State.Subscribed at hsubscribed
    rw [hsub] at hsubscribed
    cases hsubscribed.1
  | giveUp hw =>
    cases hs
    rw [hsub] at hw
    exact absurd hw (Nat.lt_irrefl 0)
  | dropInner hc hinner =>
    cases hs
    rw [hsub] at hinner
    cases hinner
  | trySend ht =>
    cases hs
    obtain ⟨hsnapshot, -, hsuf, -⟩ := h.sending ht
    have hlt := h.created i (.inl (hsnapshot (hsuf.subset List.mem_cons_self)))
    exact absurd hlt (Nat.not_lt.mpr hi)
  | _ => cases hs

theorem count_le_step (ha : Step batchSize s a t) : s.count ≤ t.count := by
  cases ha with
  | subscribe => exact Nat.le_succ _
  | _ => exact Nat.le_refl _

/-- A step that does not act on a subscription leaves it as it is. -/
theorem sub_step (ha : Step batchSize s a t) (hn : a.subject ≠ some i)
    (hi : a.subscribes i = false) : t.sub i = s.sub i := by
  cases ha with
  | subscribe =>
    refine State.sub_subscribe fun he => ?_
    rw [he] at hi
    exact absurd hi (by simp [Action.subscribes])
  | pop | wait | giveUp | dropRx | dropInner | trySend =>
    exact State.sub_update.trans (if_neg fun he => hn (congrArg some he.symm))
  | _ => rfl

theorem subscribes_eq_false (ha : Step batchSize s a t) (hi : i < s.count) :
    a.subscribes i = false := by
  cases ha with
  | subscribe => exact decide_eq_false (Nat.ne_of_gt hi)
  | _ => rfl

/-- A subscription is there before the step, unless the step makes it. -/
theorem lt_or_subscribes (ha : Step batchSize s a t) (hi : i < t.count) :
    i < s.count ∨ i = s.count ∧ a.subscribes i = true := by
  cases ha with
  | subscribe =>
    rcases Nat.lt_succ_iff_lt_or_eq.mp hi with hi | rfl
    · exact .inl hi
    · exact .inr ⟨rfl, decide_eq_true rfl⟩
  | _ => exact .inl hi

theorem State.Fresh.step (h : s.Owned) (hf : s.Fresh) (ha : Step batchSize s a t) : t.Fresh := by
  intro i hi
  have hle : s.count ≤ i := Nat.le_trans (count_le_step ha) hi
  have hn : a.subject ≠ some i := fun hs => absurd (subject_lt h hf ha hs) (Nat.not_lt.mpr hle)
  have hsubscribes : a.subscribes i = false := by
    cases ha with
    | subscribe => exact decide_eq_false (Nat.ne_of_lt hi)
    | _ => rfl
  rw [sub_step ha hn hsubscribes]
  exact hf i hle

/-- A subscription keeps its address, and a dropped receiver stays dropped. -/
theorem kept_step (ha : Step batchSize s a t) (hi : i < s.count) :
    (t.sub i).addr = (s.sub i).addr ∧
      ((s.sub i).channel.connected = false → (t.sub i).channel.connected = false) := by
  by_cases hs : a.subject = some i
  · cases ha with
    | pop | wait | giveUp | dropInner =>
      cases hs
      rw [State.sub_update, if_pos rfl]
      exact ⟨rfl, id⟩
    | dropRx =>
      cases hs
      rw [State.sub_update, if_pos rfl]
      exact ⟨rfl, fun _ => rfl⟩
    | trySend =>
      cases hs
      dsimp only
      rw [State.sub_update, if_pos rfl, Subscription.addr_trySend, Subscription.channel_trySend,
        Channel.connected_trySend]
      exact ⟨rfl, id⟩
    | _ => cases hs
  · rw [sub_step ha hs (subscribes_eq_false ha hi)]
    exact ⟨rfl, id⟩

theorem connected_of_step (ha : Step batchSize s a t) (hi : i < s.count)
    (hc : (t.sub i).channel.connected = true) : (s.sub i).channel.connected = true := by
  by_contra hn
  rw [(kept_step ha hi).2 (by simpa using hn)] at hc
  cases hc

/-- Another address is not taken by the first subscription. -/
theorem fresh_subscribe {addr addr' : ℕ} {capacity : Option ℕ} (hne : addr ≠ addr') (i : ℕ)
    (hi : (State.start.subscribe addr capacity).Allocated i) :
    ((State.start.subscribe addr capacity).sub i).addr ≠ addr' := by
  have hlt := (State.Owned.start.subscribe rfl (State.fresh_start addr)).created i hi
  obtain rfl : i = 0 := Nat.lt_one_iff.mp hlt
  exact hne

/-! ### The frames to come -/

/-- The frames of the current batch that the thread has yet to send to a subscription. -/
def Thread.remaining (i : ℕ) : Thread → List Frame
  | .sending batch _ (j :: rest) frames _ =>
    if i = j then frames else if i ∈ rest then batch else []
  | _ => []

/-- No fan-out is under way. -/
def Thread.Between : Thread → Prop
  | .sending .. => False
  | _ => True

theorem Thread.Between.remaining {thread : Thread} (h : thread.Between) (i : ℕ) :
    thread.remaining i = [] := by
  cases thread with
  | sending => exact h.elim
  | _ => rfl

theorem State.Owned.remaining_eq_nil (h : s.Owned) (hi : i ∉ s.subscribers) :
    s.thread.remaining i = [] := by
  cases ht : s.thread with
  | sending batch snapshot todo frames dead =>
    obtain ⟨hs, -, hsuf, -⟩ := h.sending ht
    have hi' : i ∉ todo := fun hm => hi (hs (hsuf.subset hm))
    cases todo with
    | nil => rfl
    | cons j rest =>
      simp only [List.mem_cons, not_or] at hi'
      rw [Thread.remaining, if_neg hi'.1, if_neg hi'.2]
  | _ => rfl

/-- At the start of a subscription the whole batch is left for those to come. -/
theorem Thread.remaining_sending {batch : List Frame} {snapshot todo dead : List ℕ}
    (hi : i ∈ todo) : (Thread.sending batch snapshot todo batch dead).remaining i = batch := by
  cases todo with
  | nil => cases hi
  | cons j rest =>
    rw [remaining]
    split
    · rfl
    case isFalse hij => exact if_pos ((List.mem_cons.mp hi).resolve_left hij)

theorem Thread.remaining_next {batch : List Frame} {snapshot rest dead : List ℕ}
    (hn : (j :: rest).Nodup) (i : ℕ) :
    (Thread.sending batch snapshot rest batch dead).remaining i =
      (Thread.sending batch snapshot (j :: rest) [] dead).remaining i := by
  obtain ⟨hj, -⟩ := List.nodup_cons.mp hn
  cases rest with
  | nil => by_cases hij : i = j <;> simp [remaining, hij]
  | cons k rest =>
    simp only [remaining]
    by_cases hij : i = j
    · subst hij
      simp only [List.mem_cons, not_or] at hj
      rw [if_pos rfl, if_neg hj.1, if_neg hj.2]
    · rw [if_neg hij]
      by_cases hik : i = k <;> simp [hik]

section AfterSend

variable {batch frames : List Frame} {snapshot rest dead : List ℕ} {addr : ℕ} {r : SendResult}

theorem Thread.afterSend_connected (h : r ≠ .disconnected) :
    Thread.afterSend batch snapshot j rest frames dead addr r =
      .sending batch snapshot (j :: rest) frames dead := by
  cases r with
  | disconnected => exact absurd rfl h
  | _ => rfl

/-- What is left for the other subscriptions does not depend on the result. -/
theorem Thread.remaining_afterSend (h : i ≠ j) :
    (Thread.afterSend batch snapshot j rest frames dead addr r).remaining i =
      (Thread.sending batch snapshot (j :: rest) (frame :: frames) dead).remaining i := by
  cases r <;> simp only [afterSend, remaining, if_neg h]

end AfterSend

/-- Only a new batch and what is sent to a subscription change what is left for it. -/
theorem remaining_step (h : s.Owned) (ha : Step batchSize s a t) (hb : a.batch = [])
    (hs : ∀ frame result, a ≠ .trySend i frame result) :
    t.thread.remaining i = s.thread.remaining i := by
  cases ha with
  | check ht | release ht =>
    rw [ht]
    dsimp only
    split <;> rfl
  | recvNone ht | recvBatch ht | cull ht =>
    rw [ht]
    rfl
  | snapshot ht =>
    obtain rfl : _ = [] := hb
    rw [ht]
    cases s.subscribers with
    | nil => rfl
    | cons j rest =>
      rw [Thread.remaining, ite_self, ite_self]
      rfl
  | @trySend _ _ _ _ _ j frame ht =>
    rw [ht]
    refine Thread.remaining_afterSend fun he => ?_
    rw [he] at hs
    exact hs frame _ rfl
  | next ht =>
    obtain ⟨-, hn, hsuf, -⟩ := h.sending ht
    rw [ht]
    exact Thread.remaining_next (hsuf.sublist.nodup hn) i
  | _ => rfl

/-- What is new on the bus or was left for a subscription is offered to it or still left. -/
theorem sent_step (h : s.Owned) (ha : Step batchSize s a t)
    (hc : (s.sub i).channel.connected = true) :
    s.thread.remaining i ++ a.batch = a.sent i ++ t.thread.remaining i := by
  by_cases hs : ∃ frame result, a = .trySend i frame result
  · obtain ⟨frame, result, rfl⟩ := hs
    cases ha with
    | trySend ht =>
      have hd := Channel.trySend_ne_disconnected hc frame
      have hsent : Action.sent i (.trySend i frame ((s.sub i).channel.trySend frame).1) =
          [frame] := if_pos ⟨rfl, hd⟩
      rw [ht, hsent]
      dsimp only
      rw [Thread.afterSend_connected hd, Thread.remaining, Thread.remaining, if_pos rfl, if_pos rfl]
      exact List.append_nil _
  · have hsent : a.sent i = [] := by
      cases a with
      | trySend j frame result =>
        refine if_neg ?_
        rintro ⟨rfl, -⟩
        exact hs ⟨frame, result, rfl⟩
      | _ => rfl
    rw [hsent, List.nil_append]
    by_cases hb : a.batch = []
    · have hne (frame : Frame) (result : SendResult) : a ≠ .trySend i frame result :=
        fun he => hs ⟨frame, result, he⟩
      rw [hb, List.append_nil, remaining_step h ha hb hne]
    · cases ha with
      | snapshot ht =>
        have hi : i ∈ s.subscribers := by
          refine h.listed i hc fun hg => ?_
          obtain ⟨he, -⟩ := h.gone hg
          rw [ht] at he
          cases he
        rw [ht]
        exact (Thread.remaining_sending hi).symm
      | _ => exact absurd rfl hb

end Mcanbus.Reader
