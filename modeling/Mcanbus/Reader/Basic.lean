import Mcanbus.Channel.Basic
import Mcanbus.Frame.Basic
import Mcanbus.Transition.Basic
import Mathlib.Logic.Function.Basic

/-! # The fan-out reader

The reader thread, the `Reader` and its subscribers as a transition system. An
`Arc` is the number of the call of `subscribe` that made it; the address of the
shared part may be used again once no `Arc` to it is left.
-/

namespace Mcanbus.Reader

/-- One call of `subscribe`: its channel, the counters of the shared part `SubscriberInner`,
and whether the `Subscriber` holds its `Arc` to that part. -/
structure Subscription where
  addr : ℕ
  channel : Channel Frame
  received : UInt64
  dropped : UInt64
  inner : Bool

namespace Subscription

def new (addr : ℕ) (capacity : Option ℕ) : Subscription := ⟨addr, .new capacity, 0, 0, true⟩

/-- Send a frame without blocking and count the result. The counters are only ever read by
others, so that the two are one step. -/
def trySend (s : Subscription) (frame : Frame) : Subscription :=
  let s' := { s with channel := (s.channel.trySend frame).2 }
  match (s.channel.trySend frame).1 with
  | .queued | .handed => { s' with received := s.received + 1 }
  | .full => { s' with dropped := s.dropped + 1 }
  | .disconnected => s'

variable (s : Subscription) (frame : Frame)

@[simp] theorem channel_trySend : (s.trySend frame).channel = (s.channel.trySend frame).2 := by
  unfold trySend
  cases (s.channel.trySend frame).1 <;> rfl

@[simp] theorem addr_trySend : (s.trySend frame).addr = s.addr := by
  unfold trySend
  cases (s.channel.trySend frame).1 <;> rfl

@[simp] theorem inner_trySend : (s.trySend frame).inner = s.inner := by
  unfold trySend
  cases (s.channel.trySend frame).1 <;> rfl

theorem received_trySend : (s.trySend frame).received =
    s.received + .ofNat (Channel.accepted frame (s.channel.trySend frame).1).length := by
  unfold trySend
  cases (s.channel.trySend frame).1 with
  | queued | handed => rfl
  | full | disconnected => exact (UInt64.add_zero _).symm

theorem dropped_trySend (hc : s.channel.connected = true) : (s.trySend frame).dropped =
    s.dropped + .ofNat (1 - (Channel.accepted frame (s.channel.trySend frame).1).length) := by
  have hd := Channel.trySend_ne_disconnected hc frame
  unfold trySend
  cases hr : (s.channel.trySend frame).1 with
  | queued | handed => exact (UInt64.add_zero _).symm
  | full => rfl
  | disconnected => exact absurd hr hd

end Subscription

/-- The place of the reader thread in its loop, with its local variables. -/
inductive Thread where
  | head
  | receiving
  | received (batch : List Frame)
  | sending (batch : List Frame) (snapshot todo : List ℕ) (frames : List Frame) (dead : List ℕ)
  | culling (dead : List ℕ)
  | exited

/-- The `Arc`s that the thread holds. -/
def Thread.snapshot : Thread → List ℕ
  | .sending _ snapshot .. => snapshot
  | _ => []

/-- The `Reader`: in use, waiting to join the thread, or gone. -/
inductive Handle where
  | running
  | joining
  | gone
  deriving DecidableEq

structure State where
  handle : Handle
  stop : Bool
  subscribers : List ℕ
  thread : Thread
  /-- The number of calls of `subscribe`. -/
  count : ℕ
  sub : ℕ → Subscription

inductive Action where
  | subscribe (i addr : ℕ) (capacity : Option ℕ)
  | pop (i : ℕ) (frame : Frame)
  | wait (i : ℕ)
  | giveUp (i : ℕ)
  | dropRx (i : ℕ)
  | dropInner (i : ℕ)
  | stop
  | join
  | check
  | recvBatch (outcome : Option (List Frame))
  | snapshot (batch : List Frame)
  | trySend (i : ℕ) (frame : Frame) (result : SendResult)
  | next
  | release
  | cull

/-- The number of frames that a batch holds at most. -/
def active (batchSize : ℕ) : ℕ := min (min (max batchSize 1) 64) 64

namespace State

/-- No call of `subscribe` has been made. -/
def start : State where
  handle := .running
  stop := false
  subscribers := []
  thread := .head
  count := 0
  sub := fun _ => ⟨0, ⟨none, [], 0, false⟩, 0, 0, false⟩

def update (s : State) (i : ℕ) (sub : Subscription) : State :=
  { s with sub := Function.update s.sub i sub }

/-- An `Arc` to the shared part of the subscription is left. -/
def Allocated (s : State) (i : ℕ) : Prop :=
  i ∈ s.subscribers ∨ i ∈ s.thread.snapshot ∨ (s.sub i).inner = true

instance (s : State) (i : ℕ) : Decidable (s.Allocated i) := inferInstanceAs (Decidable (_ ∨ _))

/-- The `Subscriber` exists. -/
def Subscribed (s : State) (i : ℕ) : Prop :=
  (s.sub i).channel.connected = true ∧ (s.sub i).inner = true

/-- What `Subscriber::recv` does. The `Sender` is a field of the shared part. -/
def recv (s : State) (i : ℕ) : RecvResult Frame := (s.sub i).channel.recv (s.Allocated i)

/-- Push a new subscription. -/
def subscribe (s : State) (addr : ℕ) (capacity : Option ℕ) : State :=
  { s with
    subscribers := s.subscribers ++ [s.count]
    count := s.count + 1
    sub := Function.update s.sub s.count (.new addr capacity) }

/-- The subscribers that stay when the given addresses are culled. -/
def retained (s : State) (dead : List ℕ) : List ℕ :=
  s.subscribers.filter fun i => (s.sub i).addr ∉ dead

end State

/-- The thread after a frame was sent to the first subscriber that is left. -/
def Thread.afterSend (batch : List Frame) (snapshot : List ℕ) (i : ℕ) (rest : List ℕ)
    (frames : List Frame) (dead : List ℕ) (addr : ℕ) : SendResult → Thread
  | .disconnected => .sending batch snapshot (i :: rest) [] (dead ++ [addr])
  | _ => .sending batch snapshot (i :: rest) frames dead

variable (batchSize : ℕ)

inductive Step : State → Action → State → Prop
  | subscribe {s : State} {addr : ℕ} {capacity : Option ℕ} : s.handle = .running →
      (∀ i, s.Allocated i → (s.sub i).addr ≠ addr) →
      Step s (.subscribe s.count addr capacity) (s.subscribe addr capacity)
  | pop {s : State} {i : ℕ} {frame : Frame} {rest : List Frame} : s.Subscribed i →
      (s.sub i).channel.queue = frame :: rest →
      Step s (.pop i frame) (s.update i { s.sub i with channel := (s.sub i).channel.pop })
  | wait {s : State} {i : ℕ} : s.Subscribed i → (s.sub i).channel.capacity = some 0 →
      Step s (.wait i) (s.update i { s.sub i with channel := (s.sub i).channel.wait })
  | giveUp {s : State} {i : ℕ} : 0 < (s.sub i).channel.waiting →
      Step s (.giveUp i) (s.update i { s.sub i with channel := (s.sub i).channel.giveUp })
  | dropRx {s : State} {i : ℕ} : s.Subscribed i → (s.sub i).channel.waiting = 0 →
      Step s (.dropRx i) (s.update i { s.sub i with channel := (s.sub i).channel.disconnect })
  | dropInner {s : State} {i : ℕ} : (s.sub i).channel.connected = false →
      (s.sub i).inner = true →
      Step s (.dropInner i) (s.update i { s.sub i with inner := false })
  | stop {s : State} : s.handle = .running →
      Step s .stop { s with handle := .joining, stop := true }
  | join {s : State} : s.handle = .joining → s.thread = .exited →
      Step s .join { s with handle := .gone, subscribers := [] }
  | check {s : State} : s.thread = .head →
      Step s .check { s with thread := if s.stop then .exited else .receiving }
  | recvNone {s : State} {outcome : Option (List Frame)} : s.thread = .receiving →
      outcome.getD [] = [] → Step s (.recvBatch outcome) { s with thread := .head }
  | recvBatch {s : State} {batch : List Frame} : s.thread = .receiving → batch ≠ [] →
      batch.length ≤ active batchSize →
      Step s (.recvBatch (some batch)) { s with thread := .received batch }
  | snapshot {s : State} {batch : List Frame} : s.thread = .received batch →
      Step s (.snapshot batch)
        { s with thread := .sending batch s.subscribers s.subscribers batch [] }
  | trySend {s : State} {batch frames : List Frame} {snapshot rest dead : List ℕ} {i : ℕ}
      {frame : Frame} :
      s.thread = .sending batch snapshot (i :: rest) (frame :: frames) dead →
      Step s (.trySend i frame ((s.sub i).channel.trySend frame).1)
        { s.update i ((s.sub i).trySend frame) with
          thread := .afterSend batch snapshot i rest frames dead (s.sub i).addr
            ((s.sub i).channel.trySend frame).1 }
  | next {s : State} {batch : List Frame} {snapshot rest dead : List ℕ} {i : ℕ} :
      s.thread = .sending batch snapshot (i :: rest) [] dead →
      Step s .next { s with thread := .sending batch snapshot rest batch dead }
  | release {s : State} {batch frames : List Frame} {snapshot dead : List ℕ} :
      s.thread = .sending batch snapshot [] frames dead →
      Step s .release { s with thread := if dead = [] then .head else .culling dead }
  | cull {s : State} {dead : List ℕ} : s.thread = .culling dead →
      Step s .cull { s with subscribers := s.retained dead, thread := .head }

end Mcanbus.Reader
