import Mathlib.Data.Nat.Notation
import Mathlib.Data.List.Basic

/-! # Channels

First-in-first-out channels with one receiving side and any capacity. A channel
of capacity zero holds no message: it hands one over to a receiver that waits.
-/

/-- A channel as `crossbeam-channel` documents it: messages come out in the order in which they went
in, a send that does not block finds the channel full only when no message fits and disconnected
exactly when there is no receiver, and receiving ends exactly when the queue is empty and there is
no sender. -/
structure Channel (α : Type*) where
  /-- The bound on the queue; none for an unbounded channel. -/
  capacity : Option ℕ
  queue : List α
  /-- The number of receivers that wait for a message to be handed over. -/
  waiting : ℕ
  /-- The receiving side exists. -/
  connected : Bool

/-- The result of a call that sends without blocking. -/
inductive SendResult where
  | queued
  | handed
  | full
  | disconnected
  deriving DecidableEq

/-- The result of a call that receives. -/
inductive RecvResult (α : Type*) where
  | message (a : α)
  | disconnected
  | blocks

namespace Channel

variable {α : Type*}

/-- A new channel. -/
def new (capacity : Option ℕ) : Channel α := ⟨capacity, [], 0, true⟩

/-- The queue has room for a message. -/
def Room (c : Channel α) : Prop := ∀ n ∈ c.capacity, c.queue.length < n

instance (c : Channel α) : Decidable c.Room :=
  match h : c.capacity with
  | none => isTrue fun n hn => by rw [h] at hn; cases hn
  | some n => decidable_of_iff (c.queue.length < n)
      ⟨fun hlt k hk => by rw [h] at hk; exact Option.some.inj hk ▸ hlt, fun hr => hr n h⟩

/-- Send without blocking. -/
def trySend (c : Channel α) (a : α) : SendResult × Channel α :=
  if ¬ c.connected then (.disconnected, c)
  else if c.capacity = some 0 then
    if 0 < c.waiting then (.handed, { c with waiting := c.waiting - 1 }) else (.full, c)
  else if c.Room then (.queued, { c with queue := c.queue ++ [a] })
  else (.full, c)

/-- What a call that receives does, given whether a sender is left. -/
def recv (c : Channel α) (hasSender : Bool) : RecvResult α :=
  match c.queue with
  | a :: _ => .message a
  | [] => if hasSender then .blocks else .disconnected

/-- The queue after its first message is taken. -/
def pop (c : Channel α) : Channel α := { c with queue := c.queue.tail }

/-- Another receiver waits. -/
def wait (c : Channel α) : Channel α := { c with waiting := c.waiting + 1 }

/-- A receiver no longer waits. -/
def giveUp (c : Channel α) : Channel α := { c with waiting := c.waiting - 1 }

/-- The receiving side is dropped, and the messages with it. -/
def disconnect (c : Channel α) : Channel α := { c with queue := [], connected := false }

/-- The queue keeps to the capacity. -/
def Bounded (c : Channel α) : Prop := ∀ n ∈ c.capacity, c.queue.length ≤ n

/-- The message is handed over at once. -/
def handedOver (a : α) : SendResult → List α
  | .handed => [a]
  | _ => []

/-- The message reaches the channel. -/
def accepted (a : α) : SendResult → List α
  | .queued | .handed => [a]
  | _ => []

/-- The message is dropped for want of room. -/
def refused (a : α) : SendResult → List α
  | .full => [a]
  | _ => []

variable {c : Channel α} {a : α} {taken offered : List α}

theorem trySend_cases (c : Channel α) (a : α) :
    (c.connected = false ∧ c.trySend a = (.disconnected, c)) ∨
    (c.connected = true ∧ c.capacity = some 0 ∧
      c.trySend a = (.handed, { c with waiting := c.waiting - 1 })) ∨
    (c.connected = true ∧ c.Room ∧ c.trySend a = (.queued, { c with queue := c.queue ++ [a] })) ∨
    (c.connected = true ∧ ¬ c.Room ∧ c.trySend a = (.full, c)) := by
  unfold trySend
  split
  case isTrue hc => exact .inl ⟨by simpa using hc, rfl⟩
  case isFalse hc =>
    have hc' : c.connected = true := by simpa using hc
    split
    case isTrue h0 =>
      split
      case isTrue => exact .inr (.inl ⟨hc', h0, rfl⟩)
      case isFalse =>
        have hr : ¬ c.Room := fun h => Nat.not_lt_zero _ (h 0 h0)
        exact .inr (.inr (.inr ⟨hc', hr, rfl⟩))
    case isFalse =>
      split
      case isTrue hr => exact .inr (.inr (.inl ⟨hc', hr, rfl⟩))
      case isFalse hr => exact .inr (.inr (.inr ⟨hc', hr, rfl⟩))

theorem capacity_trySend : (c.trySend a).2.capacity = c.capacity := by
  rcases trySend_cases c a with ⟨-, h⟩ | ⟨-, -, h⟩ | ⟨-, -, h⟩ | ⟨-, -, h⟩ <;> rw [h]

theorem connected_trySend : (c.trySend a).2.connected = c.connected := by
  rcases trySend_cases c a with ⟨-, h⟩ | ⟨-, -, h⟩ | ⟨-, -, h⟩ | ⟨-, -, h⟩ <;> rw [h]

theorem trySend_disconnected : (c.trySend a).1 = .disconnected ↔ c.connected = false := by
  rcases trySend_cases c a with ⟨hc, h⟩ | ⟨hc, -, h⟩ | ⟨hc, -, h⟩ | ⟨hc, -, h⟩ <;>
    simp [h, hc]

theorem trySend_ne_disconnected (hc : c.connected = true) (a : α) :
    (c.trySend a).1 ≠ .disconnected := by
  rw [Ne, trySend_disconnected, hc]
  decide

theorem Bounded.trySend (hb : c.Bounded) : (c.trySend a).2.Bounded := by
  rcases trySend_cases c a with ⟨-, h⟩ | ⟨-, -, h⟩ | ⟨-, hr, h⟩ | ⟨-, -, h⟩ <;> rw [h]
  · exact hb
  · exact hb
  · intro n hn
    rw [List.length_append]
    exact hr n hn
  · exact hb

theorem Bounded.pop (hb : c.Bounded) : c.pop.Bounded := fun n hn => by
  have := hb n hn
  simp only [Channel.pop, List.length_tail]
  omega

/-- A message that reaches the channel comes after those in the queue. -/
theorem queue_trySend (hb : c.Bounded) :
    handedOver a (c.trySend a).1 ++ (c.trySend a).2.queue =
      c.queue ++ accepted a (c.trySend a).1 := by
  rcases trySend_cases c a with ⟨-, h⟩ | ⟨-, h0, h⟩ | ⟨-, -, h⟩ | ⟨-, -, h⟩ <;> rw [h]
  · exact (List.append_nil _).symm
  · have hq : c.queue = [] := List.length_eq_zero_iff.mp (Nat.le_zero.mp (hb 0 h0))
    simp only [hq]
    rfl
  · rfl
  · exact (List.append_nil _).symm

theorem content_pop (taken : List α) {rest : List α} (hq : c.queue = a :: rest) :
    taken ++ [a] ++ c.pop.queue = taken ++ c.queue := by
  unfold pop
  rw [hq, List.append_assoc]
  rfl

theorem content_trySend (taken : List α) (hb : c.Bounded) :
    taken ++ handedOver a (c.trySend a).1 ++ (c.trySend a).2.queue =
      taken ++ c.queue ++ accepted a (c.trySend a).1 := by
  rw [List.append_assoc, queue_trySend hb, List.append_assoc]

/-! ### Conservation -/

/-- The messages taken and queued are among those offered, in order. -/
structure Conserves (c : Channel α) (taken offered : List α) : Prop where
  bounded : c.Bounded
  sublist : (taken ++ c.queue).Sublist offered
  lossless : c.capacity = none → taken ++ c.queue = offered

namespace Conserves

theorem new (capacity : Option ℕ) : (Channel.new capacity : Channel α).Conserves [] [] :=
  ⟨fun _ _ => Nat.zero_le _, .slnil, fun _ => rfl⟩

theorem pop (h : c.Conserves taken offered) {rest : List α} (hq : c.queue = a :: rest) :
    c.pop.Conserves (taken ++ [a]) offered := by
  have he := content_pop taken hq
  exact ⟨h.bounded.pop, he ▸ h.sublist, fun hc => he.trans (h.lossless hc)⟩

theorem trySend (h : c.Conserves taken offered) (hc : c.connected = true) :
    (c.trySend a).2.Conserves (taken ++ handedOver a (c.trySend a).1) (offered ++ [a]) := by
  have he := content_trySend taken h.bounded (a := a)
  refine ⟨h.bounded.trySend, ?_, ?_⟩ <;> rw [he]
  · apply h.sublist.append
    cases (c.trySend a).1 with
    | queued | handed => exact .refl _
    | full | disconnected => exact List.nil_sublist _
  · intro hn
    rw [capacity_trySend] at hn
    have hroom : c.Room := fun n hm => by
      rw [hn] at hm
      cases hm
    rw [h.lossless hn]
    rcases trySend_cases c a with ⟨hd, -⟩ | ⟨-, h0, -⟩ | ⟨-, -, hs⟩ | ⟨-, hr, -⟩
    · rw [hc] at hd
      cases hd
    · rw [hn] at h0
      cases h0
    · rw [hs]
      rfl
    · exact absurd hroom hr

end Conserves

end Channel
