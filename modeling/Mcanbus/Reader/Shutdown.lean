import Mathlib.Data.List.Perm.Subperm
import Mcanbus.Reader.Ownership

/-! # Shutdown of the reader

Once the `Reader` stops, the thread is on its way out: it receives at most once
more, sends that batch to the subscribers that are left and returns. Nothing that
the subscribers do in between delays it.
-/

namespace Mcanbus.Reader

open Transition

variable {batchSize : ℕ} {s t : State} {as : List Action} {a : Action}

namespace Action

/-- The steps of the reader thread. -/
def ofThread : Action → Bool
  | .check | .recvBatch _ | .snapshot _ | .trySend .. | .next | .release | .cull => true
  | _ => false

end Action

namespace Thread

/-- The calls of `recv_batch` at most until the thread returns. -/
def calls : Thread → ℕ
  | .receiving => 1
  | _ => 0

/-- The batch in hand is not longer than the buffer. -/
def Within (size : ℕ) : Thread → Prop
  | .received batch => batch.length ≤ size
  | .sending batch _ _ frames _ => batch.length ≤ size ∧ frames.length ≤ batch.length
  | _ => True

end Thread

namespace State

/-- The `Reader` stops. -/
structure Stopping (s : State) : Prop where
  handle : s.handle ≠ .running
  stop : s.stop = true

theorem stop_step (h : s.handle ≠ .running → s.stop = true) (ha : Step batchSize s a t) :
    t.handle ≠ .running → t.stop = true := by
  cases ha with
  | stop => exact fun _ => rfl
  | join hj => exact fun _ => h (by rw [hj]; nofun)
  | _ => exact h

theorem Stopping.step (h : s.Stopping) (ha : Step batchSize s a t) : t.Stopping := by
  refine ⟨?_, stop_step (fun _ => h.stop) ha ?_⟩ <;> cases ha with
  | stop hr => exact absurd hr h.handle
  | join => nofun
  | _ => exact h.handle

end State

/-- The reader is dropped while its thread waits for frames for one subscriber. -/
def stopped : State where
  handle := .joining
  stop := true
  subscribers := [0]
  thread := .receiving
  count := 1
  sub := Function.update State.start.sub 0 (.new 0 none)

end Mcanbus.Reader
