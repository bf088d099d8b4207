import Mcanbus.Reader.Basic
import Mathlib.Data.List.Nodup

/-! # Ownership of the subscriptions

Every subscriber stays in the list of the `Reader`, and addresses tell the
allocated subscriptions apart, so that culling removes dead subscriptions only.
A `Subscriber` owns a sender of its own channel, so that the end of the reader
never releases it.
-/

namespace Mcanbus.Reader

open Transition

variable {batchSize : ℕ} {s t : State} {i j : ℕ} {sub : Subscription} {dead : List ℕ}

namespace State

/-- The addresses of subscriptions in the list whose receiver has been dropped. -/
def Dead (s : State) (dead : List ℕ) : Prop :=
  ∀ addr ∈ dead, ∃ i ∈ s.subscribers,
    (s.sub i).addr = addr ∧ (s.sub i).channel.connected = false

/-- What the thread may rely on at a place in its loop. -/
def ThreadOk (s : State) : Thread → Prop
  | .sending _ snapshot todo _ dead =>
    snapshot ⊆ s.subscribers ∧ snapshot.Nodup ∧ todo.IsSuffix snapshot ∧ s.Dead dead
  | .culling dead => s.Dead dead
  | _ => True

/-- Who owns the subscriptions. -/
structure Owned (s : State) : Prop where
  created : ∀ i, s.Allocated i → i < s.count
  inner : ∀ i, (s.sub i).channel.connected = true → (s.sub i).inner = true
  nodup : s.subscribers.Nodup
  distinct : ∀ i j, s.Allocated i → s.Allocated j → (s.sub i).addr = (s.sub j).addr → i = j
  listed : ∀ i, (s.sub i).channel.connected = true → s.handle ≠ .gone → i ∈ s.subscribers
  threadOk : s.ThreadOk s.thread
  gone : s.handle = .gone → s.thread = .exited ∧ s.subscribers = []

theorem sub_update : (s.update i sub).sub j = if j = i then sub else s.sub j :=
  Function.update_apply _ _ _ _

@[simp] theorem thread_update : (s.update i sub).thread = s.thread := rfl

theorem snapshot_subset (h : s.ThreadOk s.thread) : s.thread.snapshot ⊆ s.subscribers := by
  cases ht : s.thread with
  | sending =>
    rw [ht] at h
    exact h.1
  | _ => exact List.nil_subset _

/-- A subscription is allocated as long as the list or its subscriber keeps it. -/
theorem allocated_iff (h : s.ThreadOk s.thread) :
    s.Allocated i ↔ i ∈ s.subscribers ∨ (s.sub i).inner = true := by
  constructor
  · rintro (hi | hi | hi)
    · exact .inl hi
    · exact .inl (snapshot_subset h hi)
    · exact .inr hi
  · rintro (hi | hi)
    · exact .inl hi
    · exact .inr (.inr hi)

theorem Dead.mono (hd : s.Dead dead) (hs : s.subscribers ⊆ t.subscribers)
    (hk : ∀ i ∈ s.subscribers, (t.sub i).addr = (s.sub i).addr ∧
      ((s.sub i).channel.connected = false → (t.sub i).channel.connected = false)) :
    t.Dead dead := by
  intro addr hm
  obtain ⟨i, hi, ha, hn⟩ := hd addr hm
  obtain ⟨ha', hn'⟩ := hk i hi
  exact ⟨i, hs hi, ha'.trans ha, hn' hn⟩

/-- What the thread relies on is kept when subscribers are added or dropped. -/
theorem ThreadOk.mono {thread : Thread} (hok : s.ThreadOk thread)
    (hs : s.subscribers ⊆ t.subscribers)
    (hk : ∀ i ∈ s.subscribers, (t.sub i).addr = (s.sub i).addr ∧
      ((s.sub i).channel.connected = false → (t.sub i).channel.connected = false)) :
    t.ThreadOk thread := by
  cases thread with
  | sending batch snapshot todo frames dead =>
    obtain ⟨hsub, hn, hsuf, hd⟩ := hok
    exact ⟨fun _ hi => hs (hsub hi), hn, hsuf, hd.mono hs hk⟩
  | culling dead => exact Dead.mono hok hs hk
  | _ => trivial

section Subscribe

variable {addr : ℕ} {capacity : Option ℕ}

theorem sub_subscribe (h : i ≠ s.count) : (s.subscribe addr capacity).sub i = s.sub i :=
  Function.update_of_ne h _ _

theorem sub_subscribe_count :
    (s.subscribe addr capacity).sub s.count = .new addr capacity :=
  Function.update_self _ _ _

theorem allocated_subscribe (h : (s.subscribe addr capacity).Allocated i) :
    i = s.count ∨ s.Allocated i := by
  by_cases hi : i = s.count
  · exact .inl hi
  · right
    rcases h with h | h | h
    · rcases List.mem_append.mp h with h | h
      · exact .inl h
      · exact absurd (List.mem_singleton.mp h) hi
    · exact .inr (.inl h)
    · rw [sub_subscribe hi] at h
      exact .inr (.inr h)

end Subscribe

namespace Owned

theorem start : State.start.Owned where
  created := fun i h => by simp [Allocated, State.start, Thread.snapshot] at h
  inner := fun _ h => nomatch h
  nodup := List.nodup_nil
  distinct := fun i _ h => by simp [Allocated, State.start, Thread.snapshot] at h
  listed := fun _ h => nomatch h
  threadOk := trivial
  gone := fun h => nomatch h

end Owned

/-- No address is taken at the start. -/
theorem fresh_start (addr i : ℕ) (hi : start.Allocated i) : (start.sub i).addr ≠ addr :=
  absurd (Owned.start.created i hi) (Nat.not_lt_zero _)

namespace Owned

theorem lt_count (h : s.Owned) (hc : (s.sub i).channel.connected = true) : i < s.count :=
  h.created i (.inr (.inr (h.inner i hc)))

/-- A step on one subscription that keeps its address and adds no owner. -/
theorem update (h : s.Owned) (haddr : sub.addr = (s.sub i).addr)
    (hc : sub.channel.connected = true →
      (s.sub i).channel.connected = true ∧ sub.inner = true)
    (hi : sub.inner = true → (s.sub i).inner = true) : (s.update i sub).Owned := by
  have ha (j : ℕ) : ((s.update i sub).sub j).addr = (s.sub j).addr := by
    rw [sub_update]
    split
    case isTrue hj => rw [haddr, hj]
    case isFalse => rfl
  have hconn (j : ℕ) (hj : ((s.update i sub).sub j).channel.connected = true) :
      (s.sub j).channel.connected = true ∧ ((s.update i sub).sub j).inner = true := by
    rw [sub_update] at hj ⊢
    split at hj
    case isTrue he =>
      rw [if_pos he, he]
      exact hc hj
    case isFalse he =>
      rw [if_neg he]
      exact ⟨hj, h.inner j hj⟩
  have halloc (j : ℕ) (hj : (s.update i sub).Allocated j) : s.Allocated j := by
    rcases hj with hj | hj | hj
    · exact .inl hj
    · exact .inr (.inl hj)
    · apply Or.inr ∘ Or.inr
      rw [sub_update] at hj
      split at hj
      case isTrue he => exact he ▸ hi hj
      case isFalse => exact hj
  constructor
  case created => exact fun j hj => h.created j (halloc j hj)
  case inner => exact fun j hj => (hconn j hj).2
  case nodup => exact h.nodup
  case distinct =>
    intro j k hj hk he
    rw [ha, ha] at he
    exact h.distinct j k (halloc j hj) (halloc k hk) he
  case listed => exact fun j hj => h.listed j (hconn j hj).1
  case threadOk =>
    apply h.threadOk.mono (t := s.update i sub) (List.Subset.refl _)
    intro j _
    refine ⟨ha j, fun hn => ?_⟩
    by_contra hc'
    rw [(hconn j (by simpa using hc')).1] at hn
    cases hn
  case gone => exact h.gone

/-- A step of the thread that leaves the subscriptions as they are. -/
theorem setThread (h : s.Owned) {thread : Thread} (hok : s.ThreadOk thread)
    (hg : s.thread ≠ .exited) : State.Owned { s with thread } := by
  have halloc (j : ℕ) (hj : State.Allocated { s with thread } j) : s.Allocated j := by
    rw [allocated_iff hok] at hj
    exact (allocated_iff h.threadOk).mpr hj
  exact ⟨fun j hj => h.created j (halloc j hj), h.inner, h.nodup,
    fun j k hj hk => h.distinct j k (halloc j hj) (halloc k hk), h.listed, hok,
    fun he => absurd (h.gone he).1 hg⟩

theorem subscribe (h : s.Owned) {addr : ℕ} {capacity : Option ℕ} (hr : s.handle = .running)
    (hfresh : ∀ i, s.Allocated i → (s.sub i).addr ≠ addr) :
    (s.subscribe addr capacity).Owned := by
  have hold {j : ℕ} (hj : s.Allocated j) : (s.subscribe addr capacity).sub j = s.sub j :=
    sub_subscribe (Nat.ne_of_lt (h.created j hj))
  constructor
  case created =>
    intro j hj
    rcases allocated_subscribe hj with rfl | hj
    · exact Nat.lt_succ_self _
    · exact Nat.lt_succ_of_lt (h.created j hj)
  case inner =>
    intro j hj
    by_cases he : j = s.count
    · rw [he, sub_subscribe_count]
      rfl
    · rw [sub_subscribe he] at hj ⊢
      exact h.inner j hj
  case nodup =>
    apply List.nodup_append.mpr ⟨h.nodup, List.nodup_singleton _, ?_⟩
    intro j hj k hk
    rw [List.mem_singleton.mp hk]
    exact Nat.ne_of_lt (h.created j (.inl hj))
  case distinct =>
    intro j k hj hk he
    rcases allocated_subscribe hj with rfl | hj <;> rcases allocated_subscribe hk with rfl | hk
    · rfl
    · rw [sub_subscribe_count, hold hk] at he
      exact absurd he.symm (hfresh k hk)
    · rw [sub_subscribe_count, hold hj] at he
      exact absurd he (hfresh j hj)
    · rw [hold hj, hold hk] at he
      exact h.distinct j k hj hk he
  case listed =>
    intro j hj _
    by_cases he : j = s.count
    · rw [he]
      exact List.mem_append_right _ (List.mem_singleton_self _)
    · rw [sub_subscribe he] at hj
      exact List.mem_append_left _ (h.listed j hj (by rw [hr]; nofun))
  case threadOk =>
    apply h.threadOk.mono (t := s.subscribe addr capacity) fun _ hj => List.mem_append_left _ hj
    intro j hj
    rw [hold (.inl hj)]
    exact ⟨rfl, id⟩
  case gone =>
    intro hg
    change s.handle = .gone at hg
    rw [hr] at hg
    cases hg

/-- Culling removes dead subscriptions only. -/
theorem mem_retained (h : s.Owned) (hd : s.Dead dead) (hi : i ∈ s.subscribers)
    (hc : (s.sub i).channel.connected = true) : i ∈ s.retained dead := by
  refine List.mem_filter.mpr ⟨hi, ?_⟩
  rw [decide_eq_true_iff]
  intro hm
  obtain ⟨j, hj, ha, hn⟩ := hd _ hm
  rw [h.distinct j i (.inl hj) (.inl hi) ha, hc] at hn
  cases hn

theorem cull (h : s.Owned) (ht : s.thread = .culling dead) :
    State.Owned { s with subscribers := s.retained dead, thread := .head } := by
  have hd : s.Dead dead := by
    have hok := h.threadOk
    rw [ht] at hok
    exact hok
  have halloc (j : ℕ) (hj : State.Allocated
      { s with subscribers := s.retained dead, thread := .head } j) : s.Allocated j := by
    rcases hj with hj | hj | hj
    · exact .inl (List.mem_filter.mp hj).1
    · cases hj
    · exact .inr (.inr hj)
  constructor
  case created => exact fun j hj => h.created j (halloc j hj)
  case inner => exact h.inner
  case nodup => exact h.nodup.filter _
  case distinct => exact fun j k hj hk => h.distinct j k (halloc j hj) (halloc k hk)
  case listed => exact fun j hj hn => h.mem_retained hd (h.listed j hj hn) hj
  case threadOk => trivial
  case gone =>
    intro hg
    obtain ⟨he, -⟩ := h.gone hg
    rw [ht] at he
    cases he

/-- The list is dropped with the `Reader`. -/
theorem join (h : s.Owned) (ht : s.thread = .exited) :
    State.Owned { s with handle := .gone, subscribers := [] } := by
  have halloc (j : ℕ) (hj : State.Allocated { s with handle := .gone, subscribers := [] } j) :
      s.Allocated j := by
    rcases hj with hj | hj | hj
    · cases hj
    · exact .inr (.inl hj)
    · exact .inr (.inr hj)
  constructor
  case created => exact fun j hj => h.created j (halloc j hj)
  case inner => exact h.inner
  case nodup => exact List.nodup_nil
  case distinct => exact fun j k hj hk => h.distinct j k (halloc j hj) (halloc k hk)
  case listed => exact fun _ _ hn => absurd rfl hn
  case threadOk =>
    change ThreadOk _ s.thread
    rw [ht]
    trivial
  case gone => exact fun _ => ⟨ht, rfl⟩

section Sending

variable {batch frames : List Frame} {snapshot todo rest : List ℕ} {frame : Frame}

theorem sending (h : s.Owned) (ht : s.thread = .sending batch snapshot todo frames dead) :
    snapshot ⊆ s.subscribers ∧ snapshot.Nodup ∧ todo.IsSuffix snapshot ∧ s.Dead dead := by
  have hok := h.threadOk
  rw [ht] at hok
  exact hok

theorem trySend
    (h : s.Owned) (ht : s.thread = .sending batch snapshot (i :: rest) (frame :: frames) dead) :
    State.Owned
      { s.update i ((s.sub i).trySend frame) with
        thread := .afterSend batch snapshot i rest frames dead (s.sub i).addr
          ((s.sub i).channel.trySend frame).1 } := by
  have hu : (s.update i ((s.sub i).trySend frame)).Owned := by
    refine h.update (by simp) ?_ (by simp)
    intro hc
    rw [Subscription.channel_trySend, Channel.connected_trySend] at hc
    exact ⟨hc, by simpa using h.inner i hc⟩
  have ht' : (s.update i ((s.sub i).trySend frame)).thread =
      .sending batch snapshot (i :: rest) (frame :: frames) dead := ht
  obtain ⟨hs, hn, hsuf, hd⟩ := hu.sending ht'
  refine hu.setThread ?_ (by rw [ht']; nofun)
  unfold Thread.afterSend
  split
  case h_1 hres =>
    refine ⟨hs, hn, hsuf, List.forall_mem_append.mpr ⟨hd, List.forall_mem_singleton.mpr ?_⟩⟩
    have hi : i ∈ s.subscribers := hs (hsuf.subset List.mem_cons_self)
    refine ⟨i, hi, ?_⟩
    simp only [sub_update, if_pos, Subscription.addr_trySend, Subscription.channel_trySend,
      Channel.connected_trySend, true_and]
    exact Channel.trySend_disconnected.mp hres
  case h_2 => exact ⟨hs, hn, hsuf, hd⟩

end Sending

theorem step {action : Action} (h : s.Owned) (ha : Step batchSize s action t) : t.Owned := by
  cases ha with
  | subscribe hr hfresh => exact h.subscribe hr hfresh
  | pop hs hq => exact h.update rfl (fun _ => hs) id
  | wait hs hc => exact h.update rfl (fun _ => hs) id
  | giveUp hw => exact h.update rfl (fun hc => ⟨hc, h.inner _ hc⟩) id
  | dropRx hs hw => exact h.update rfl (fun hc => nomatch hc) id
  | dropInner hc hi => exact h.update rfl (fun hc' => by rw [hc] at hc'; cases hc') (fun _ => hi)
  | stop hr =>
    exact ⟨h.created, h.inner, h.nodup, h.distinct,
      fun j hj _ => h.listed j hj (by rw [hr]; nofun), h.threadOk, nofun⟩
  | join hj ht => exact h.join ht
  | check ht =>
    refine h.setThread ?_ (by rw [ht]; nofun)
    split <;> trivial
  | recvNone ht ho => exact h.setThread trivial (by rw [ht]; nofun)
  | recvBatch ht hn hl => exact h.setThread trivial (by rw [ht]; nofun)
  | snapshot ht =>
    exact h.setThread ⟨List.Subset.refl _, h.nodup, List.suffix_refl _, nofun⟩ (by rw [ht]; nofun)
  | trySend ht => exact h.trySend ht
  | next ht =>
    obtain ⟨hs, hn, hsuf, hd⟩ := h.sending ht
    exact h.setThread ⟨hs, hn, (List.suffix_cons _ _).trans hsuf, hd⟩ (by rw [ht]; nofun)
  | release ht =>
    obtain ⟨-, -, -, hd⟩ := h.sending ht
    refine h.setThread ?_ (by rw [ht]; nofun)
    split
    · trivial
    · exact hd
  | cull ht => exact h.cull ht

end Owned

end State

/-- What is owned in every reachable state. -/
theorem reachable_owned (h : Reachable (Step batchSize) .start s) : s.Owned :=
  h.invariant (fun _ _ _ hs ha => hs.step ha) .start

/-! ### Release of the subscribers -/

/-- No sender is left, so that a call that receives from the empty queue returns. -/
def State.Released (s : State) (i : ℕ) : Prop := ¬ s.Allocated i ∧ s.recv i = .disconnected

/-- The end of the reader releases no subscriber: its own `Arc` keeps the sender. -/
theorem not_released_of_gone (hr : Reachable (Step batchSize) .start s) (hg : s.handle = .gone)
    (hi : s.Subscribed i) (hq : (s.sub i).channel.queue = []) :
    s.thread = .exited ∧ s.subscribers = [] ∧ ¬ s.Released i ∧ s.recv i = .blocks := by
  obtain ⟨ht, hl⟩ := (reachable_owned hr).gone hg
  have ha : s.Allocated i := .inr (.inr hi.2)
  refine ⟨ht, hl, fun h => h.1 ha, ?_⟩
  unfold State.recv Channel.recv
  rw [hq]
  exact if_pos (decide_eq_true ha)

/-- A subscriber that has outlived the reader. -/
def survivor : State where
  handle := .gone
  stop := true
  subscribers := []
  thread := .exited
  count := 1
  sub := Function.update State.start.sub 0 (.new 0 none)

theorem reachable_survivor : Reachable (Step 64) .start survivor :=
  ⟨[.subscribe 0 0 none, .stop, .check, .join], .cons (.subscribe rfl (State.fresh_start 0))
    (.cons (.stop rfl) (.cons (.check rfl) (.cons (.join rfl rfl) (.nil _))))⟩

theorem not_released_survivor : survivor.thread = .exited ∧ survivor.subscribers = [] ∧
    ¬ survivor.Released 0 ∧ survivor.recv 0 = .blocks :=
  not_released_of_gone reachable_survivor rfl ⟨rfl, rfl⟩ rfl

theorem not_released : ¬ ∀ s, Reachable (Step 64) .start s → s.handle = .gone →
    ∀ i, s.Subscribed i → (s.sub i).channel.queue = [] → s.Released i := by
  intro h
  have hr := h survivor reachable_survivor rfl 0 ⟨rfl, rfl⟩ rfl
  exact hr.1 (.inr (.inr rfl))

end Mcanbus.Reader
