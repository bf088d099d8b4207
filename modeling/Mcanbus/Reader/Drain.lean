import Mcanbus.Reader.Bus
import Mcanbus.Reader.Shutdown

/-! # The reader drains the bus

As long as the `Reader` is in use its thread gets back to the head of the loop,
and can take every message that waits in the socket. Nothing that the other
parties have done can stop it, so that what was put on the bus can always be
brought to the subscribers.
-/

namespace Mcanbus

open Rust Transition

namespace Reader

variable {batchSize : ℕ} {s t : State} {as : List Action} {a : Action} {i : ℕ}

/-- The steps of the thread between two calls of `recv_batch`. -/
def Action.within : Action → Bool
  | .snapshot _ | .trySend .. | .next | .release | .cull => true
  | _ => false

/-- What the thread leaves as it is for those that use the reader. -/
structure State.Served (s t : State) : Prop where
  handle : t.handle = s.handle
  stop : t.stop = s.stop
  subscribed : ∀ i, s.Subscribed i → t.Subscribed i
  capacity : ∀ i, (t.sub i).channel.capacity = (s.sub i).channel.capacity

namespace State.Served

theorem refl (s : State) : s.Served s := ⟨rfl, rfl, fun _ => id, fun _ => rfl⟩

theorem trans {u : State} (h : s.Served t) (h' : t.Served u) : s.Served u :=
  ⟨h'.handle.trans h.handle, h'.stop.trans h.stop, fun i hi => h'.subscribed i (h.subscribed i hi),
    fun i => (h'.capacity i).trans (h.capacity i)⟩

end State.Served

theorem served_step (ha : Step batchSize s a t) (h : a.ofThread = true) : s.Served t := by
  cases ha with
  | @trySend batch frames snapshot rest dead j frame ht =>
    have hsub (i : ℕ) : (s.update j ((s.sub j).trySend frame)).sub i =
        if i = j then (s.sub i).trySend frame else s.sub i := by
      rw [State.sub_update]
      split
      case isTrue hij => rw [hij]
      case isFalse => rfl
    refine ⟨rfl, rfl, fun i hi => ?_, fun i => ?_⟩
    · unfold State.Subscribed
      rw [hsub]
      split
      · rw [Subscription.channel_trySend, Channel.connected_trySend, Subscription.inner_trySend]
        exact hi
      · exact hi
    · rw [hsub]
      split
      · rw [Subscription.channel_trySend, Channel.capacity_trySend]
      · rfl
  | check | recvNone | recvBatch | snapshot | next | release | cull =>
    exact ⟨rfl, rfl, fun _ => id, fun _ => rfl⟩
  | _ => cases h

end Reader

namespace Bus

open Reader

variable {k : Kernel} {e : Endian} {batchSize : ℕ} {s t u : Bus} {ls ms : List Label} {i : ℕ}

/-- The steps of the reader thread. -/
def Label.OfThread (l : Label) : Prop := ∃ a, l = .reader a ∧ a.ofThread = true

/-- The thread can go from one state to another that serves its users as well. -/
def Brings (k : Kernel) (e : Endian) (batchSize : ℕ) (s t : Bus) : Prop :=
  ∃ ls, Runs (Step k e batchSize) s ls t ∧ (∀ l ∈ ls, l.OfThread) ∧ s.reader.Served t.reader

namespace Brings

theorem refl (s : Bus) : Brings k e batchSize s s := ⟨[], .nil s, nofun, .refl _⟩

theorem trans (h : Brings k e batchSize s t) (h' : Brings k e batchSize t u) :
    Brings k e batchSize s u := by
  obtain ⟨ls, hr, hl, hs⟩ := h
  obtain ⟨ms, hr', hm, hs'⟩ := h'
  exact ⟨ls ++ ms, hr.append hr', List.forall_mem_append.mpr ⟨hl, hm⟩, hs.trans hs'⟩

theorem step {a : Reader.Action} (hs : Step k e batchSize s (.reader a) t)
    (ha : a.ofThread = true) (hr : Reader.Step batchSize s.reader a t.reader) :
    Brings k e batchSize s t :=
  ⟨[.reader a], .cons hs (.nil t), List.forall_mem_singleton.mpr ⟨a, rfl, ha⟩, served_step hr ha⟩

end Brings

end Bus

end Mcanbus
