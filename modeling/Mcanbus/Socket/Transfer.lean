import Mcanbus.Socket.Batch
import Mcanbus.Transition.Basic

/-! # Batched transfer through a lossless queue

A sender offers the frames that are not yet accepted, batch by batch, and a
receiver drains the datagrams in batches of its own, in any interleaving. What
was received, what is in flight and what is unsent always make up the list of
frames, and the datagrams are those of single sends.
-/

namespace Mcanbus

open Rust Transition

/-- The transfer of a list of frames between a sender and a receiver. -/
structure Transfer where
  unsent : List Frame
  /-- Every datagram put on the wire so far. -/
  wire : List (List UInt8)
  /-- The datagrams that the receiver has not read. -/
  fifo : List (List UInt8)
  received : List Frame

namespace Transfer

def start (frames : List Frame) : Transfer := ⟨frames, [], [], []⟩

inductive Call | sendBatch | recvBatch
  deriving DecidableEq

/-- One successful call of either party. The kernel accepts a positive number of the offered
frames, and hands over a positive number of queued datagrams with any ancillary data. -/
inductive Step (k : Kernel) (e : Endian) : Transfer → Call → Transfer → Prop
  | send {s : Transfer} {n : ℕ} {datagrams : List (List UInt8)} (pos : 0 < n)
      (offered : n ≤ min s.unsent.length 64)
      (call : Mcanbus.sendBatch e (fun _ => .ok n) s.unsent = .ok (.ok n, datagrams)) :
      Step k e s .sendBatch
        { s with
          unsent := s.unsent.drop n
          wire := s.wire ++ datagrams
          fifo := s.fifo ++ datagrams }
  | recv {s : Transfer} {msgs : List Message} {now : ℕ → Option UInt64} {out out' : List Frame}
      {delivered : ℕ} (pos : 0 < msgs.length) (room : msgs.length ≤ min out.length 64)
      (queued : s.fifo = msgs.map Message.bytes ++ s.fifo.drop msgs.length)
      (call : Mcanbus.recvBatch k e now (fun _ => .ok msgs) out =
        .ok (.ok delivered, out')) :
      Step k e s .recvBatch
        { s with
          fifo := s.fifo.drop msgs.length
          received := s.received ++ out'.take delivered }

/-- The frames agree in identifier, kind and data. -/
def Same (f g : Frame) : Prop := g.id = f.id ∧ g.kind = f.kind ∧ g.data = f.data

/-- The frame is legal for its kind and has an identifier built by a constructor. -/
structure Sendable (f : Frame) : Prop where
  fits : f.Fits
  id : (∃ n, f.id = .standard n) ∨ ∃ n, f.id = .extended n

end Transfer

open Transfer

section Single

variable {e : Endian} {f : Frame}

@[simp] theorem WireFrame.length_bytes (w : WireFrame) : (w.bytes e).length = canfdFrameSize := by
  have hd : w.data.toList.length = 64 := Vector.length_toList
  simp [bytes, canfdFrameSize, hd]

theorem slice_datagram (f : Frame) :
    slice ((WireFrame.ofFrame f).bytes e) 0 (WireFrame.wireSize f.isFd) = .ok (f.datagram e) := by
  apply slice_zero
  rw [WireFrame.length_bytes]
  unfold WireFrame.wireSize
  split <;> decide

theorem length_datagram (f : Frame) : (f.datagram e).length = WireFrame.wireSize f.isFd := by
  unfold Frame.datagram
  rw [List.length_take, WireFrame.length_bytes]
  unfold WireFrame.wireSize
  split <;> decide

theorem length_datagram_le (f : Frame) : (f.datagram e).length ≤ canfdFrameSize := by
  rw [length_datagram]
  unfold WireFrame.wireSize
  split <;> decide

theorem send_eq (h : f.Fits) :
    send e (.ok (WireFrame.wireSize f.isFd)) f = .ok (.ok (), [f.datagram e]) := by
  simp [send, WireFrame.fromFrame_eq h.len_le, slice_datagram]

theorem sendBatchMsgs_eq (frames : List Frame) (hf : ∀ f ∈ frames, f.Fits) (is : List ℕ)
    (hi : ∀ i ∈ is, i < frames.length) :
    sendBatchMsgs e frames is =
      .ok ((is.filterMap fun i => frames[i]?).map (Frame.datagram e)) := by
  induction is with
  | nil => rfl
  | cons i is ih =>
    have h : i < frames.length := hi i (List.mem_cons_self ..)
    have hfit : frames[i].Fits := hf _ (List.getElem_mem h)
    rw [sendBatchMsgs, index_eq h, ok_bind, WireFrame.fromFrame_eq hfit.len_le, ok_bind,
      slice_datagram, ok_bind, ih fun i h => hi i (List.mem_cons_of_mem _ h)]
    simp [h]

theorem filterMap_range_getElem? {α : Type*} (xs : List α) {n : ℕ} (h : n ≤ xs.length) :
    (List.range n).filterMap (fun i => xs[i]?) = xs.take n := by
  induction n with
  | zero => simp
  | succ n ih =>
    rw [List.range_succ, List.filterMap_append, ih (by omega),
      List.take_succ_eq_append_getElem (by omega)]
    simp [List.getElem?_eq_getElem (show n < xs.length by omega)]

/-- The kernel puts the datagrams of the frames it accepts on the wire. -/
theorem sendBatch_eq {frames : List Frame} (hf : ∀ f ∈ frames, f.Fits) {n : ℕ} (pos : 0 < n)
    (hn : n ≤ min frames.length maxBatch) :
    sendBatch e (fun _ => .ok n) frames =
      .ok (.ok n, (frames.take n).map (Frame.datagram e)) := by
  have hne : frames.isEmpty = false := by
    cases frames with
    | nil => simp at hn; omega
    | cons => rfl
  have hr : ∀ i ∈ List.range (min frames.length maxBatch), i < frames.length := by
    intro i hi
    have := List.mem_range.mp hi
    omega
  unfold sendBatch
  rw [hne]
  simp only [Bool.false_eq_true, if_false, sendBatchMsgs_eq frames hf _ hr,
    filterMap_range_getElem? frames (Nat.min_le_left _ _), ok_bind, pure_eq_ok, ← List.map_take,
    List.take_take, Nat.min_eq_left hn]

theorem frameAt_datagram {k : Kernel} {m : Message} (h : f.Fits) (hm : m.bytes = f.datagram e)
    (size : ℕ) (now : Option UInt64) : ∃ t, m.frameAt k e size now = some (f.received t) := by
  refine ⟨(extractTimestampNs (k.store size m.control)).or now, ?_⟩
  unfold Message.frameAt dataOf
  rw [hm]
  have hd := decodeWire_eq_decoded e (f.datagram e)
    ((extractTimestampNs (k.store size m.control)).or now)
  rw [h.decodeWire_datagram] at hd
  rw [← Except.ok.inj hd]

theorem Transfer.Sendable.same_received (h : Sendable f) (t : Option UInt64) :
    Same f (f.received t) := by
  refine ⟨?_, rfl, received_data h.fits t⟩
  obtain ⟨n, hn⟩ | ⟨n, hn⟩ := h.id <;> simp [Frame.received, hn]

/-- A batch of datagrams of frames decodes to these frames. -/
theorem batchFrames_datagram {k : Kernel} {frames : List Frame} (hf : ∀ f ∈ frames, Sendable f)
    {msgs : List Message} (hm : msgs.map Message.bytes = frames.map (Frame.datagram e))
    (now : ℕ → Option UInt64) (j : ℕ) :
    List.Forall₂ Same frames (batchFrames k e now j msgs) := by
  induction frames generalizing msgs j with
  | nil =>
    obtain rfl : msgs = [] := by simpa using hm
    exact .nil
  | cons f frames ih =>
    cases msgs with
    | nil => simp at hm
    | cons m msgs =>
      obtain ⟨hm₀, hm⟩ := List.cons.inj hm
      have hs : Sendable f := hf f (List.mem_cons_self ..)
      obtain ⟨t, ht⟩ := frameAt_datagram (k := k) hs.fits hm₀ 128 (now j)
      unfold batchFrames
      rw [ht]
      exact .cons (hs.same_received t) (ih (fun f h => hf f (List.mem_cons_of_mem _ h)) hm _)

end Single

namespace Transfer

variable {k : Kernel} {e : Endian} {frames : List Frame} {s : Transfer}

/-- The frames are split into those received, those in flight and those unsent. -/
structure Split (e : Endian) (frames : List Frame) (s : Transfer) : Prop where
  split : ∃ done flight, frames = done ++ flight ++ s.unsent ∧
    s.fifo = flight.map (Frame.datagram e) ∧
    s.wire = (done ++ flight).map (Frame.datagram e) ∧
    List.Forall₂ Same done s.received

theorem split_start : Split e frames (start frames) :=
  ⟨⟨[], [], rfl, rfl, rfl, .nil⟩⟩

/-- The unsent frames are among those that are to be sent. -/
theorem Split.unsent_fits (hf : ∀ f ∈ frames, Sendable f) (h : Split e frames s) :
    ∀ f ∈ s.unsent, f.Fits := by
  obtain ⟨done, flight, hframes, -, -, -⟩ := h.split
  intro f hm
  apply (hf f _).fits
  rw [hframes]
  exact List.mem_append_right _ hm

/-- A call that sends hands over the datagrams of the first unsent frames. -/
theorem Split.datagrams_eq (hf : ∀ f ∈ frames, Sendable f) (h : Split e frames s) {n : ℕ}
    {datagrams : List (List UInt8)} (pos : 0 < n) (offered : n ≤ min s.unsent.length 64)
    (call : Mcanbus.sendBatch e (fun _ => .ok n) s.unsent = .ok (.ok n, datagrams)) :
    datagrams = (s.unsent.take n).map (Frame.datagram e) := by
  rw [sendBatch_eq (h.unsent_fits hf) pos offered] at call
  exact (Prod.mk.inj (Except.ok.inj call)).2.symm

/-- A call that sends takes frames from those unsent to those in flight. -/
theorem Split.sendBatch (hf : ∀ f ∈ frames, Sendable f) (h : Split e frames s) {n : ℕ}
    {datagrams : List (List UInt8)} (pos : 0 < n) (offered : n ≤ min s.unsent.length 64)
    (call : Mcanbus.sendBatch e (fun _ => .ok n) s.unsent = .ok (.ok n, datagrams)) :
    Split e frames
      { s with
        unsent := s.unsent.drop n
        wire := s.wire ++ datagrams
        fifo := s.fifo ++ datagrams } := by
  obtain ⟨done, flight, hframes, hfifo, hwire, hrecv⟩ := h.split
  obtain rfl := h.datagrams_eq hf pos offered call
  refine ⟨done, flight ++ s.unsent.take n, ?_, ?_, ?_, hrecv⟩
  · rw [hframes]; simp
  · simp [hfifo]
  · simp [hwire]

/-- A call that receives takes frames from those in flight to those done. -/
theorem Split.recvBatch (hf : ∀ f ∈ frames, Sendable f) (h : Split e frames s)
    {msgs : List Message} {now : ℕ → Option UInt64} {out out' : List Frame} {delivered : ℕ}
    (room : msgs.length ≤ min out.length 64)
    (queued : s.fifo = msgs.map Message.bytes ++ s.fifo.drop msgs.length)
    (call : Mcanbus.recvBatch k e now (fun _ => .ok msgs) out = .ok (.ok delivered, out')) :
    Split e frames
      { s with
        fifo := s.fifo.drop msgs.length
        received := s.received ++ out'.take delivered } := by
  obtain ⟨done, flight, hframes, hfifo, hwire, hrecv⟩ := h.split
  -- the messages are the datagrams at the head of the queue
  have hlen : msgs.length ≤ flight.length := by
    have := congrArg List.length (hfifo.symm.trans queued)
    simp at this; omega
  have hbytes : msgs.map Message.bytes = (flight.take msgs.length).map (Frame.datagram e) := by
    have := congrArg (List.take msgs.length) queued
    rw [List.take_left' (by simp), hfifo, ← List.map_take] at this
    exact this.symm
  have hle : ∀ m ∈ msgs, m.bytes.length ≤ canfdFrameSize := by
    intro m hm
    obtain ⟨f, _, he⟩ := List.mem_map.mp (hbytes ▸ List.mem_map_of_mem hm)
    exact he ▸ length_datagram_le f
  rw [recvBatch_eq hle room now rfl] at call
  obtain ⟨hd, rfl⟩ := Prod.mk.inj (Except.ok.inj call)
  obtain rfl := Except.ok.inj hd
  have hsame : List.Forall₂ Same (flight.take msgs.length) (batchFrames k e now 0 msgs) :=
    batchFrames_datagram (fun f h => hf f (by
      rw [hframes]
      exact List.mem_append_left _ (List.mem_append_right _ (List.mem_of_mem_take h))))
      hbytes now 0
  refine ⟨done ++ flight.take msgs.length, flight.drop msgs.length, ?_, ?_, ?_, ?_⟩
  · rw [hframes]; simp
  · simp [hfifo]
  · simp [hwire]
  · rw [List.take_left' rfl]
    exact List.rel_append hrecv hsame

theorem Split.step (hf : ∀ f ∈ frames, Sendable f) {c : Call} {t : Transfer}
    (h : Split e frames s) (hs : Step k e s c t) : Split e frames t := by
  cases hs with
  | send pos offered call => exact h.sendBatch hf pos offered call
  | recv _ room queued call => exact h.recvBatch hf room queued call

/-- The calls still possible: every frame is accepted once and read once. -/
def pending (s : Transfer) : ℕ := 2 * s.unsent.length + s.fifo.length

theorem Split.pending_lt (hf : ∀ f ∈ frames, Sendable f) {c : Call} {t : Transfer}
    (h : Split e frames s) (hs : Step k e s c t) : t.pending < s.pending := by
  cases hs with
  | @send n datagrams pos offered call =>
    obtain rfl := h.datagrams_eq hf pos offered call
    simp only [pending, List.length_drop, List.length_append, List.length_map, List.length_take]
    omega
  | @recv msgs now out out' delivered pos room queued call =>
    have hl := congrArg List.length queued
    simp only [List.length_append, List.length_map, List.length_drop] at hl
    simp only [pending, List.length_drop]
    omega

/-- Without a possible call everything was sent and read. -/
theorem Split.terminal (hf : ∀ f ∈ frames, Sendable f) (h : Split e frames s)
    (ht : Terminal (Step k e) s) : s.unsent = [] ∧ s.fifo = [] := by
  obtain ⟨done, flight, -, hfifo, -, -⟩ := h.split
  constructor
  · by_contra hne
    have hpos : 0 < s.unsent.length := List.length_pos_iff.mpr hne
    have hn : 1 ≤ min s.unsent.length 64 := by omega
    exact ht _ _ (.send Nat.one_pos hn (sendBatch_eq (h.unsent_fits hf) Nat.one_pos hn))
  · cases flight with
    | nil => simpa using hfifo
    | cons f flight =>
      have hle : ∀ m ∈ [(⟨f.datagram e, []⟩ : Message)], m.bytes.length ≤ canfdFrameSize := by
        simpa using length_datagram_le f
      have hpos : 0 < [(⟨f.datagram e, []⟩ : Message)].length := Nat.one_pos
      have hroom : 1 ≤ min [Frame.zeroed].length 64 := by decide
      have hqueued : s.fifo = [(⟨f.datagram e, []⟩ : Message)].map Message.bytes ++
          s.fifo.drop 1 := by
        rw [hfifo]; rfl
      have hstep := Step.recv (k := k) (e := e) hpos hroom hqueued
        (recvBatch_eq hle hroom (fun _ => none) rfl)
      exact (ht _ _ hstep).elim

/-- Batched transfer loses, duplicates and reorders nothing: in every run the datagrams are
those of single sends, and what was received agrees with the frames sent; a run has at most
two calls for each frame and can only stop when every frame was received. -/
theorem transfer_lossless (k : Kernel) (e : Endian) (frames : List Frame)
    (hlen : ∀ f ∈ frames, f.len.toNat ≤ f.kind.maxLen)
    (hid : ∀ f ∈ frames, (∃ n, f.id = .standard n) ∨ ∃ n, f.id = .extended n) :
    ∃ datagrams : List (List UInt8),
      List.Forall₂ (fun f d => Mcanbus.send e (.ok (WireFrame.wireSize f.isFd)) f =
        .ok (.ok (), [d])) frames datagrams ∧
      ∀ calls s, Runs (Step k e) (start frames) calls s →
        s.wire <+: datagrams ∧
        (∃ n, List.Forall₂ Same (frames.take n) s.received) ∧
        calls.length ≤ 2 * frames.length ∧
        (Terminal (Step k e) s ↔ s.unsent = [] ∧ s.fifo = []) ∧
        (Terminal (Step k e) s → s.wire = datagrams ∧ List.Forall₂ Same frames s.received) := by
  have hf : ∀ f ∈ frames, Sendable f := fun f h => ⟨hlen f h, hid f h⟩
  refine ⟨frames.map (Frame.datagram e), ?_, fun calls s hr => ?_⟩
  · rw [List.forall₂_map_right_iff, List.forall₂_same]
    exact fun f h => send_eq (hf f h).fits
  have hstep : ∀ s c t, Split e frames s → Step k e s c t → Split e frames t :=
    fun _ _ _ h hs => h.step hf hs
  have hsplit : Split e frames s := hr.invariant hstep split_start
  have hcalls := hr.length_le hstep (fun _ _ _ h hs => h.pending_lt hf hs) split_start
  have hterm := hsplit.terminal (k := k) hf
  obtain ⟨done, flight, hframes, hfifo, hwire, hrecv⟩ := hsplit.split
  refine ⟨?_, ⟨done.length, ?_⟩, by simpa [pending, start] using hcalls,
    ⟨hterm, fun h c t hs => ?_⟩, fun h => ?_⟩
  · rw [hwire, hframes]
    exact ⟨s.unsent.map (Frame.datagram e), by simp⟩
  · rw [hframes, List.append_assoc, List.take_left' rfl]
    exact hrecv
  · have := hsplit.pending_lt hf hs
    simp [pending, h.1, h.2] at this
  · obtain ⟨hu, hq⟩ := hterm h
    obtain rfl : flight = [] := by simpa [hq] using hfifo
    have hd : frames = done := by simpa [hu] using hframes
    exact ⟨by simp [hwire, hd], hd ▸ hrecv⟩

/-- A standard classic frame and an extended FD frame. -/
def mixedFrames : List Frame :=
  [.ofPayload .Classic (.standard 0x123) [0xDE, 0xAD],
    .ofPayload (.Fd ⟨true, false⟩) (.extended 0x18DAF110) [1, 2, 3, 4, 5, 6, 7, 8, 9, 10, 11, 12]]

theorem transfer_lossless_mixedFrames :
    ∃ datagrams : List (List UInt8),
      List.Forall₂ (fun f d => Mcanbus.send .little (.ok (WireFrame.wireSize f.isFd)) f =
        .ok (.ok (), [d])) mixedFrames datagrams ∧
      ∀ calls s, Runs (Step .allOrNothing .little) (start mixedFrames) calls s →
        Terminal (Step .allOrNothing .little) s →
        s.wire = datagrams ∧ List.Forall₂ Same mixedFrames s.received := by
  obtain ⟨datagrams, hsend, h⟩ := transfer_lossless .allOrNothing .little mixedFrames
    (by decide) (by
      intro f hf
      obtain rfl | rfl : f = _ ∨ f = _ := by simpa [mixedFrames] using hf
      · exact .inl ⟨0x123, rfl⟩
      · exact .inr ⟨0x18DAF110, rfl⟩)
  exact ⟨datagrams, hsend, fun calls s hr => (h calls s hr).2.2.2.2⟩

end Transfer

end Mcanbus
