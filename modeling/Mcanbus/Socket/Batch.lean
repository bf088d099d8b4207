import Mathlib.Data.List.Forall2
import Mcanbus.Socket.Basic

/-! # Batched reception agrees with repeated reception

For a message with a kernel timestamp both receive paths compute the same
frame, or skip the message. The batch loop writes the frames of a batch in
order from the start of the output slice and leaves its rest as it was.
-/

namespace Mcanbus

open Rust

/-- The value of a decoding, which never panics. -/
def decoded (e : Endian) (bytes : List UInt8) (t : Option UInt64) : Option DecodedFrame :=
  (decodeWire e bytes t).toOption.join

theorem decodeWire_eq_decoded (e : Endian) (bytes : List UInt8) (t : Option UInt64) :
    decodeWire e bytes t = .ok (decoded e bytes t) := by
  obtain ⟨d, hd⟩ := exists_decodeWire e bytes t
  simp [decoded, hd, Except.toOption]

/-- The data frame in the bytes of a message, if they hold one. -/
def dataOf (e : Endian) (bytes : List UInt8) (t : Option UInt64) : Option Frame :=
  match decoded e bytes t with
  | some (.Data frame) => some frame
  | _ => none

theorem decoded_short {e : Endian} {bytes : List UInt8} {t : Option UInt64}
    (h : bytes.length < canFrameSize) : decoded e bytes t = none := by
  simp [decoded, decodeWire_short h, Except.toOption]

/-- The frame that the receive paths compute from a message, given the size of the control
buffer and the wall clock. -/
def Message.frameAt (k : Kernel) (e : Endian) (size : ℕ) (now : Option UInt64) (m : Message) :
    Option Frame :=
  dataOf e m.bytes ((extractTimestampNs (k.store size m.control)).or now)

/-- The frames of consecutive messages from index `j` of a batch on. -/
def batchFrames (k : Kernel) (e : Endian) (now : ℕ → Option UInt64) : ℕ → List Message → List Frame
  | _, [] => []
  | j, m :: ms => (m.frameAt k e 128 (now j)).toList ++ batchFrames k e now (j + 1) ms

variable {k : Kernel} {e : Endian} {m : Message}

section Deliver

variable (hm : m.bytes.length ≤ canfdFrameSize) (size : ℕ)
include hm

theorem msgLen_deliver : (k.deliver size m).msgLen = m.bytes.length := Nat.min_eq_left hm

theorem slice_deliver : slice (k.deliver size m).buf.toList 0 m.bytes.length = .ok m.bytes := by
  have ht : m.bytes.take canfdFrameSize = m.bytes := List.take_of_length_le hm
  have hb : (k.deliver size m).buf.toList = m.bytes ++
      (Vector.replicate canfdFrameSize (0 : UInt8)).toList.drop m.bytes.length := by
    unfold Kernel.deliver
    rw [ht, toList_overwrite _ _ _ (by simpa using hm)]
    simp
  rw [hb, slice_zero (by simp)]
  exact congrArg _ (List.take_left' rfl)

/-- A single reception of a message. -/
theorem recv_eq (now : Option UInt64) :
    recv k e now (.ok m) = .ok (.ok (m.frameAt k e 256 now)) := by
  have hr : recvDecoded k e now (.ok m) = .ok (.ok (decoded e m.bytes
      ((extractTimestampNs (k.store 256 m.control)).or now))) := by
    simp only [recvDecoded, msgLen_deliver hm, slice_deliver hm, ok_bind, decodeWire_eq_decoded,
      pure_eq_ok]
    split_ifs with hs
    · rw [decoded_short hs]
    · rfl
  unfold recv
  rw [hr, ok_bind, Message.frameAt, dataOf]
  split <;> simp_all

/-- One iteration of the batch loop. -/
theorem recvBatchLoop_cons {now : ℕ → Option UInt64} {msgs : List Slot} {i : ℕ}
    (hi : msgs[i]? = some (k.deliver 128 m)) (is : List ℕ) (out : List Frame) (delivered : ℕ) :
    recvBatchLoop e now msgs (i :: is) out delivered =
      match m.frameAt k e 128 (now i) with
      | some frame => do
        recvBatchLoop e now msgs is (← assign out delivered frame) (delivered + 1)
      | none => recvBatchLoop e now msgs is out delivered := by
  have hx : index msgs i = .ok (k.deliver 128 m) := by simp [index, hi]
  rw [recvBatchLoop, hx, ok_bind]
  simp only [msgLen_deliver hm, slice_deliver hm, ok_bind, decodeWire_eq_decoded]
  split_ifs with hs
  · rw [Message.frameAt, dataOf, decoded_short hs]
  · rw [Message.frameAt, dataOf]
    change (match decoded e m.bytes ((extractTimestampNs (k.store 128 m.control)).or (now i)) with
      | some (.Data frame) => _
      | _ => _) = _
    split <;> simp_all

end Deliver

/-- The loop over consecutive messages extends the frames written so far. -/
theorem recvBatchLoop_eq (e : Endian) (now : ℕ → Option UInt64) {msgs : List Slot}
    (queue : List Message)
    (hq : ∀ m ∈ queue, m.bytes.length ≤ canfdFrameSize) (j : ℕ)
    (hm : ∀ i (h : i < queue.length), msgs[j + i]? = some (k.deliver 128 queue[i]))
    (written rest : List Frame) (hr : queue.length ≤ rest.length) :
    recvBatchLoop e now msgs (List.range' j queue.length) (written ++ rest) written.length =
      let frames := batchFrames k e now j queue
      .ok (written.length + frames.length, written ++ (frames ++ rest.drop frames.length)) := by
  induction queue generalizing j written rest with
  | nil => simp [recvBatchLoop, batchFrames]
  | cons m queue ih =>
    have hq' : ∀ m ∈ queue, m.bytes.length ≤ canfdFrameSize :=
      fun m h => hq m (List.mem_cons_of_mem _ h)
    have hm' : ∀ i (h : i < queue.length), msgs[j + 1 + i]? = some (k.deliver 128 queue[i]) := by
      intro i h
      have := hm (i + 1) (by simpa using h)
      simpa [Nat.add_assoc, Nat.add_comm 1 i] using this
    have h₀ : msgs[j]? = some (k.deliver 128 m) := hm 0 (Nat.succ_pos _)
    rw [List.length_cons, List.range'_succ, recvBatchLoop_cons (hq m (List.mem_cons_self ..)) h₀]
    cases hf : m.frameAt k e 128 (now j) with
    | none =>
      have hl : queue.length ≤ rest.length := by simp at hr; omega
      simpa [batchFrames, hf] using ih hq' (j + 1) hm' written rest hl
    | some frame =>
      obtain ⟨x, rest, rfl⟩ := List.exists_cons_of_length_pos
        (Nat.lt_of_lt_of_le (Nat.succ_pos _) hr)
      have ha : assign (written ++ x :: rest) written.length frame =
          .ok ((written ++ [frame]) ++ rest) := by
        rw [assign_eq _ (by simp), List.set_append_right _ _ (Nat.le_refl _)]
        simp
      have hl : queue.length ≤ rest.length := by simpa using hr
      have hi := ih hq' (j + 1) hm' (written ++ [frame]) rest hl
      rw [List.length_append, List.length_singleton] at hi
      simp only [ha, ok_bind, hi]
      simp [batchFrames, hf, Nat.add_assoc, Nat.add_comm 1]

/-- A batch writes the frames of its messages to the start of the output slice. -/
theorem recvBatch_eq {queue : List Message} (hq : ∀ m ∈ queue, m.bytes.length ≤ canfdFrameSize)
    {out : List Frame} (hn : queue.length ≤ min out.length maxBatch) (now : ℕ → Option UInt64)
    {recvmmsg : ℕ → Except Errno (List Message)}
    (hr : recvmmsg (min out.length maxBatch) = .ok queue) :
    recvBatch k e now recvmmsg out =
      let frames := batchFrames k e now 0 queue
      .ok (.ok frames.length, frames ++ out.drop frames.length) := by
  cases out with
  | nil =>
    obtain rfl : queue = [] := List.eq_nil_of_length_eq_zero (by simpa using hn)
    simp [recvBatch, batchFrames]
  | cons x out =>
    have hm : ∀ i (h : i < queue.length),
        (queue.map (k.deliver 128) ++ List.replicate (maxBatch - queue.length) Slot.zeroed)[0 + i]?
          = some (k.deliver 128 queue[i]) := by
      intro i h
      rw [Nat.zero_add, List.getElem?_append_left (by simpa using h), List.getElem?_map,
        List.getElem?_eq_getElem h, Option.map_some]
    have hl := recvBatchLoop_eq e now queue hq 0 hm [] (x :: out)
      (Nat.le_trans hn (Nat.min_le_left _ _))
    simp only [List.nil_append, List.length_nil, Nat.zero_add] at hl
    simp only [recvBatch, List.isEmpty_cons, Bool.false_eq_true, if_false, hr,
      List.range_eq_range', hl, ok_bind, pure_eq_ok]

/-! ### Messages with a kernel timestamp -/

/-- The message fits the receive buffer and a control buffer of 128 bytes, and has a stamp. -/
structure Message.Stamped (m : Message) : Prop where
  bytes_le : m.bytes.length ≤ canfdFrameSize
  control_le : (m.control.map Cmsg.space).sum ≤ 128
  isSome : (extractTimestampNs m.control).isSome

/-- The frame that a stamped message delivers, on either receive path. -/
def Message.frame (e : Endian) (m : Message) : Option Frame :=
  dataOf e m.bytes (extractTimestampNs m.control)

theorem Message.Stamped.frameAt_eq (h : m.Stamped) {size : ℕ} (hs : 128 ≤ size)
    (now : Option UInt64) : m.frameAt k e size now = m.frame e := by
  obtain ⟨t, ht⟩ := Option.isSome_iff_exists.mp h.isSome
  rw [frameAt, frame, k.store_fits size _ (Nat.le_trans h.control_le hs), ht, Option.some_or]

theorem batchFrames_stamped {queue : List Message} (hq : ∀ m ∈ queue, m.Stamped)
    (now : ℕ → Option UInt64) (j : ℕ) :
    batchFrames k e now j queue = queue.filterMap (Message.frame e) := by
  induction queue generalizing j with
  | nil => rfl
  | cons m queue ih =>
    rw [batchFrames, ih (fun m h => hq m (List.mem_cons_of_mem _ h)),
      (hq m (List.mem_cons_self ..)).frameAt_eq (Nat.le_refl 128)]
    cases hf : m.frame e <;> simp [hf]

/-- Repeated reception of stamped messages, one call for each. -/
theorem forall₂_recv {queue : List Message} (hq : ∀ m ∈ queue, m.Stamped) (now : Option UInt64) :
    List.Forall₂ (fun m r => recv k e now (.ok m) = .ok (.ok r)) queue
      (queue.map (Message.frame e)) := by
  rw [List.forall₂_map_right_iff, List.forall₂_same]
  intro m hm
  rw [recv_eq (hq m hm).bytes_le, (hq m hm).frameAt_eq (by decide : 128 ≤ 256)]

/-- A batch holds the frames that one `recv` for each of its messages returns, in order,
and so do the batches of any division of the queue. -/
theorem recvBatch_agrees_recv (k : Kernel) (e : Endian) (queue : List Message)
    (hbytes : ∀ m ∈ queue, m.bytes.length ≤ canfdFrameSize)
    (hcontrol : ∀ m ∈ queue, (m.control.map Cmsg.space).sum ≤ min 128 256)
    (hstamp : ∀ m ∈ queue, (extractTimestampNs m.control).isSome) :
    (∀ (out : List Frame) (n : ℕ) (now : ℕ → Option UInt64)
      (recvmmsg : ℕ → Except Errno (List Message)),
      n ≤ queue.length → n ≤ min out.length 64 →
      recvmmsg (min out.length 64) = .ok (queue.take n) →
      ∃ results : List (Option Frame),
        (∀ now, List.Forall₂ (fun m r => recv k e now (.ok m) = .ok (.ok r))
          (queue.take n) results) ∧
        let frames := results.filterMap id
        recvBatch k e now recvmmsg out =
          .ok (.ok frames.length, frames ++ out.drop frames.length)) ∧
    (∀ (now : ℕ → Option UInt64) (batches : List (List Message × List Frame)),
      (batches.map Prod.fst).flatten = queue →
      (∀ b ∈ batches, b.1.length ≤ min b.2.length 64) →
      ∃ (results : List (Option Frame)) (delivered : List (List Frame)),
        (∀ now, List.Forall₂ (fun m r => recv k e now (.ok m) = .ok (.ok r)) queue results) ∧
        List.Forall₂ (fun b frames => recvBatch k e now (fun _ => .ok b.1) b.2 =
          .ok (.ok frames.length, frames ++ b.2.drop frames.length)) batches delivered ∧
        delivered.flatten = results.filterMap id) := by
  have hq : ∀ m ∈ queue, m.Stamped :=
    fun m hm => ⟨hbytes m hm, hcontrol m hm, hstamp m hm⟩
  constructor
  · intro out n now recvmmsg hn ho hr
    have hq' : ∀ m ∈ queue.take n, m.Stamped := fun m hm => hq m (List.mem_of_mem_take hm)
    refine ⟨(queue.take n).map (Message.frame e), forall₂_recv hq', ?_⟩
    rw [List.filterMap_map, Function.id_comp, ← batchFrames_stamped hq' now 0]
    exact recvBatch_eq (fun m hm => (hq' m hm).bytes_le)
      (Nat.le_trans (List.length_take_le _ _) ho) now hr
  · rintro now batches rfl hb
    refine ⟨_, batches.map fun b => b.1.filterMap (Message.frame e), forall₂_recv hq, ?_, ?_⟩
    · rw [List.forall₂_map_right_iff, List.forall₂_same]
      intro b hm
      have hq' : ∀ m ∈ b.1, m.Stamped := fun m h =>
        hq m (List.mem_flatten.mpr ⟨b.1, List.mem_map_of_mem hm, h⟩)
      rw [← batchFrames_stamped hq' now 0]
      exact recvBatch_eq (fun m h => (hq' m h).bytes_le) (hb b hm) now rfl
    · rw [List.filterMap_map, Function.id_comp, List.filterMap_flatten, List.map_map]
      rfl

/-- Ancillary data is stored when all of it fits. -/
def Kernel.allOrNothing : Kernel where
  store size l := if (l.map Cmsg.space).sum ≤ size then l else []
  store_fits _ _ h := if_pos h

/-- A remote request, a truncated message and a data frame, each with a software stamp. -/
def mixedQueue : List Message :=
  [[0x23, 0x01, 0, 0x40, 2, 0, 0, 0, 0, 0, 0, 0, 0, 0, 0, 0], [1, 2, 3],
    [0x23, 0x01, 0, 0, 2, 0, 0, 0, 0xDE, 0xAD, 0, 0, 0, 0, 0, 0]].map
    fun bytes => ⟨bytes, [⟨solSocket, soTimestampns, 32, fun _ => ⟨1, 5⟩⟩]⟩

theorem recvBatch_agrees_recv_mixedQueue :
    ∃ results : List (Option Frame),
      (∀ now, List.Forall₂ (fun m r => recv .allOrNothing .little now (.ok m) = .ok (.ok r))
        mixedQueue results) ∧
      recvBatch .allOrNothing .little (fun _ => none) (fun _ => .ok mixedQueue)
        [Frame.zeroed, Frame.zeroed, Frame.zeroed] =
          .ok (.ok (results.filterMap id).length, results.filterMap id ++
            [Frame.zeroed, Frame.zeroed, Frame.zeroed].drop (results.filterMap id).length) :=
  (recvBatch_agrees_recv .allOrNothing .little mixedQueue (by decide) (by decide) (by decide)).1
    [Frame.zeroed, Frame.zeroed, Frame.zeroed] 3 _ (fun _ => .ok mixedQueue) (by decide)
    (by decide) rfl

end Mcanbus
