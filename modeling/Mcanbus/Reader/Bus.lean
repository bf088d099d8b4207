import Mcanbus.Frame.Canonical
import Mcanbus.Reader.Isolation
import Mcanbus.Socket.Transfer

/-! # From the bus to the subscribers

Programs transmit frames, one at a time or in batches, other nodes put messages
of their own on the bus, and a reader drains the receiving socket and sends what
it decodes to its subscribers. Every subscriber sees the frames of the bus since
it subscribed, in the order in which they were put on the bus.
-/

namespace Mcanbus

open Rust Transition

/-! ### The content of frames -/

/-- The identifier, the kind and the data of a frame. -/
def Frame.content (f : Frame) : CanId × FrameKind × Checked (List UInt8) := (f.id, f.kind, f.data)

/-- The contents of frames, in order. -/
def contents (frames : List Frame) : List (CanId × FrameKind × Checked (List UInt8)) :=
  frames.map Frame.content

@[simp] theorem contents_nil : contents [] = [] := rfl

@[simp] theorem contents_cons (f : Frame) (frames : List Frame) :
    contents (f :: frames) = f.content :: contents frames := rfl

@[simp] theorem contents_append (frames frames' : List Frame) :
    contents (frames ++ frames') = contents frames ++ contents frames' := List.map_append

/-- The data frame in a message, with no timestamp. -/
def Message.carried (e : Endian) (m : Message) : Option Frame := dataOf e m.bytes none

section Content

variable {k : Kernel} {e : Endian} {m : Message} {f : Frame}

/-- The timestamp is no part of the content. -/
theorem content_dataOf (e : Endian) (bytes : List UInt8) (t : Option UInt64) :
    (dataOf e bytes t).map Frame.content = (dataOf e bytes none).map Frame.content := by
  by_cases h : bytes.length < canFrameSize
  · simp only [dataOf, decoded_short h]
  · obtain ⟨b₀, b₁, b₂, b₃, len, flags, r₀, r₁, payload, rfl, hp⟩ :=
      exists_header (Nat.not_lt.mp h)
    simp only [dataOf, decoded, decodeWire_header hp, Except.toOption, Option.join_some]
    split_ifs <;> rfl

theorem contents_batchFrames (now : ℕ → Option UInt64) (j : ℕ) (msgs : List Message) :
    contents (batchFrames k e now j msgs) = contents (msgs.filterMap (Message.carried e)) := by
  induction msgs generalizing j with
  | nil => rfl
  | cons m msgs ih =>
    have hm : ((m.frameAt k e 128 (now j)).map Frame.content) =
        (m.carried e).map Frame.content := content_dataOf _ _ _
    rw [batchFrames, contents_append, ih]
    cases hc : m.carried e with
    | none =>
      rw [hc] at hm
      rw [Option.map_eq_none_iff.mp hm, List.filterMap_cons_none hc]
      rfl
    | some f =>
      rw [hc] at hm
      obtain ⟨g, hg, he⟩ := Option.map_eq_some_iff.mp hm
      rw [hg, List.filterMap_cons_some hc, contents_cons, ← he]
      rfl

theorem carried_datagram (h : Transfer.Sendable f) (hm : m.bytes = f.datagram e) :
    (m.carried e).map Frame.content = some f.content := by
  have hd := decodeWire_eq_decoded e (f.datagram e) none
  rw [h.fits.decodeWire_datagram] at hd
  obtain ⟨hid, hkind, hdata⟩ := h.same_received none
  rw [Message.carried, dataOf, hm, ← Except.ok.inj hd]
  simp only [Option.map_some, Frame.content, hid, hkind, hdata]

theorem contents_datagrams {frames : List Frame} (hf : ∀ f ∈ frames, Transfer.Sendable f)
    {msgs : List Message} (hm : msgs.map Message.bytes = frames.map (Frame.datagram e)) :
    contents (msgs.filterMap (Message.carried e)) = contents frames := by
  induction frames generalizing msgs with
  | nil =>
    obtain rfl := List.map_eq_nil_iff.mp hm
    rfl
  | cons f frames ih =>
    cases msgs with
    | nil => cases hm
    | cons m msgs =>
      obtain ⟨hb, hm⟩ := List.cons.inj hm
      obtain ⟨g, hg, he⟩ := Option.map_eq_some_iff.mp
        (carried_datagram (hf f List.mem_cons_self) hb)
      rw [List.filterMap_cons_some hg, contents_cons, contents_cons, he,
        ih (fun f h => hf f (List.mem_cons_of_mem _ h)) hm]

end Content

/-! ### The system -/

/-- The messages that wait in the receiving socket, and the reader that drains it. -/
structure Bus where
  fifo : List Message
  reader : Reader.State

namespace Bus

def start : Bus := ⟨[], .start⟩

/-- What a call that transmits reports, what arrives from another node, and what the reader and
its subscribers do. -/
inductive Label
  | send (frame : Frame) (result : Except IoError Unit)
  | sendBatch (frames : List Frame) (result : Except IoError ℕ)
  | arrive (m : Message)
  | reader (a : Reader.Action)

/-- The frames that a step puts on the bus, as its caller was told. -/
def Label.carried (e : Endian) : Label → List Frame
  | .send frame (.ok ()) => [frame]
  | .sendBatch frames (.ok n) => frames.take n
  | .arrive m => (m.carried e).toList
  | _ => []

def Label.action : Label → Option Reader.Action
  | .reader a => some a
  | _ => none

/-- The batch that a call of `recv_batch` returns to the reader thread. -/
def batchOf (out : List Frame) : Except IoError ℕ → Option (List Frame)
  | .ok n => some (out.take n)
  | .error _ => none

/-- A system call takes at most as many frames as it is offered. -/
def Accepts (frames : List Frame) (answer : Except Errno ℕ) : Prop :=
  ∀ n, answer = .ok n → n ≤ min frames.length maxBatch

variable (k : Kernel) (e : Endian) (batchSize : ℕ)

inductive Step : Bus → Label → Bus → Prop
  | send {s : Bus} {frame : Frame} {write : Except Errno ℕ} {result : Except IoError Unit}
      {datagrams : List (List UInt8)} {msgs : List Message} : Transfer.Sendable frame →
      Mcanbus.send e write frame = .ok (result, datagrams) →
      msgs.map Message.bytes = datagrams →
      Step s (.send frame result) { s with fifo := s.fifo ++ msgs }
  | sendBatch {s : Bus} {frames : List Frame} {answer : Except Errno ℕ}
      {result : Except IoError ℕ} {datagrams : List (List UInt8)} {msgs : List Message} :
      (∀ f ∈ frames, Transfer.Sendable f) → Accepts frames answer →
      Mcanbus.sendBatch e (fun _ => answer) frames = .ok (result, datagrams) →
      msgs.map Message.bytes = datagrams →
      Step s (.sendBatch frames result) { s with fifo := s.fifo ++ msgs }
  | arrive {s : Bus} {m : Message} : m.bytes.length ≤ canfdFrameSize →
      Step s (.arrive m) { s with fifo := s.fifo ++ [m] }
  | recvBatch {s : Bus} {r : Reader.State} {msgs rest : List Message}
      {answer : Except Errno (List Message)} {now : ℕ → Option UInt64} {out out' : List Frame}
      {result : Except IoError ℕ} : s.fifo = msgs ++ rest →
      (answer = .ok msgs ∨ msgs = [] ∧ ∃ err, answer = .error err) →
      out.length = Reader.active batchSize → msgs.length ≤ min out.length maxBatch →
      Mcanbus.recvBatch k e now (fun _ => answer) out = .ok (result, out') →
      Reader.Step batchSize s.reader (.recvBatch (batchOf out' result)) r →
      Step s (.reader (.recvBatch (batchOf out' result))) ⟨rest, r⟩
  | reader {s : Bus} {r : Reader.State} {a : Reader.Action} : (∀ batch, a ≠ .recvBatch batch) →
      Reader.Step batchSize s.reader a r → Step s (.reader a) { s with reader := r }

variable {k e batchSize} {s t : Bus} {ls : List Label} {l : Label}

/-! ### The messages on their way -/

/-- The frames on the bus, in order. -/
def carried (e : Endian) (ls : List Label) : List Frame := ls.flatMap (Label.carried e)

/-- What the reader and its subscribers did. -/
def actions (ls : List Label) : List Reader.Action := ls.filterMap Label.action

theorem carried_concat : carried e (ls ++ [l]) = carried e ls ++ l.carried e := by
  simp only [carried, List.flatMap_append, List.flatMap_singleton]

theorem carried_reader {a : Reader.Action} :
    carried e (ls ++ [.reader a]) = carried e ls := by
  rw [carried_concat]
  exact List.append_nil _

theorem actions_concat : actions (ls ++ [l]) = actions ls ++ l.action.toList := by
  rw [actions, List.filterMap_append]
  cases hl : l.action with
  | none => rw [List.filterMap_cons_none hl]; rfl
  | some a => rw [List.filterMap_cons_some hl]; rfl

/-- The frames that `recv_batch` returned to the reader thread. -/
def obtained : Reader.Action → List Frame
  | .recvBatch (some batch) => batch
  | _ => []

/-- The datagrams of a call that sends are those of the frames that it reports as sent. -/
theorem datagrams_send {frame : Frame} {write : Except Errno ℕ} {result : Except IoError Unit}
    {datagrams : List (List UInt8)} (hf : Transfer.Sendable frame)
    (h : Mcanbus.send e write frame = .ok (result, datagrams)) :
    datagrams = (Label.carried e (.send frame result)).map (Frame.datagram e) := by
  simp only [Mcanbus.send, WireFrame.fromFrame_eq hf.fits.len_le, slice_datagram, ok_bind] at h
  cases write with
  | error err =>
    cases h
    rfl
  | ok n =>
    dsimp only at h
    split at h <;> cases h <;> rfl

theorem datagrams_sendBatch {frames : List Frame} {answer : Except Errno ℕ}
    {result : Except IoError ℕ} {datagrams : List (List UInt8)}
    (hf : ∀ f ∈ frames, Transfer.Sendable f) (ha : Accepts frames answer)
    (h : Mcanbus.sendBatch e (fun _ => answer) frames = .ok (result, datagrams)) :
    datagrams = (Label.carried e (.sendBatch frames result)).map (Frame.datagram e) := by
  cases frames with
  | nil =>
    cases h
    rfl
  | cons f frames =>
    have hr : ∀ i ∈ List.range (min (f :: frames).length maxBatch), i < (f :: frames).length :=
      fun i hi => Nat.lt_of_lt_of_le (List.mem_range.mp hi) (Nat.min_le_left _ _)
    simp only [Mcanbus.sendBatch, List.isEmpty_cons, Bool.false_eq_true, if_false,
      sendBatchMsgs_eq _ (fun g hg => (hf g hg).fits) _ hr,
      filterMap_range_getElem? _ (Nat.min_le_left (f :: frames).length maxBatch), ok_bind] at h
    cases answer with
    | error err =>
      cases h
      rfl
    | ok n =>
      cases h
      rw [Label.carried, ← List.map_take, List.take_take, Nat.min_eq_left (ha n rfl)]

/-- What was put on the bus has reached the reader thread or waits in the socket. -/
structure Piped (e : Endian) (ls : List Label) (s : Bus) : Prop where
  bytes_le : ∀ m ∈ s.fifo, m.bytes.length ≤ canfdFrameSize
  split : contents (carried e ls) =
    contents ((actions ls).flatMap obtained) ++ contents (s.fifo.filterMap (Message.carried e))

namespace Piped

theorem start : Piped e [] Bus.start := ⟨nofun, rfl⟩

/-- Messages come behind those that wait. -/
theorem push (h : Piped e ls s) {msgs : List Message}
    (hm : ∀ m ∈ msgs, m.bytes.length ≤ canfdFrameSize)
    (hl : contents (msgs.filterMap (Message.carried e)) = contents (l.carried e))
    (ha : l.action = none) : Piped e (ls ++ [l]) { s with fifo := s.fifo ++ msgs } := by
  refine ⟨List.forall_mem_append.mpr ⟨h.bytes_le, hm⟩, ?_⟩
  rw [carried_concat, actions_concat, ha, Option.toList_none, List.append_nil, contents_append,
    h.split, List.filterMap_append, contents_append, hl, List.append_assoc]

theorem datagrams (h : Piped e ls s) {msgs : List Message}
    (hf : ∀ f ∈ l.carried e, Transfer.Sendable f)
    (hm : msgs.map Message.bytes = (l.carried e).map (Frame.datagram e))
    (ha : l.action = none) : Piped e (ls ++ [l]) { s with fifo := s.fifo ++ msgs } := by
  refine h.push (fun m hmem => ?_) (contents_datagrams hf hm) ha
  obtain ⟨f, -, he⟩ := List.mem_map.mp (hm ▸ List.mem_map_of_mem hmem)
  exact he ▸ length_datagram_le f

/-- What `recv_batch` returns are the frames of the messages that it takes. -/
theorem contents_batchOf {msgs : List Message} {answer : Except Errno (List Message)}
    {now : ℕ → Option UInt64} {out out' : List Frame} {result : Except IoError ℕ}
    (hm : ∀ m ∈ msgs, m.bytes.length ≤ canfdFrameSize)
    (ha : answer = .ok msgs ∨ msgs = [] ∧ ∃ err, answer = .error err)
    (hl : msgs.length ≤ min out.length maxBatch)
    (h : Mcanbus.recvBatch k e now (fun _ => answer) out = .ok (result, out')) :
    contents ((batchOf out' result).getD []) = contents (msgs.filterMap (Message.carried e)) := by
  rcases ha with rfl | ⟨rfl, err, rfl⟩
  · rw [recvBatch_eq hm hl now rfl] at h
    cases h
    rw [batchOf, Option.getD_some, List.take_left' rfl, contents_batchFrames]
  · have hr : result = .ok 0 ∨ ∃ err, result = .error err := by
      unfold recvBatch at h
      split at h
      case isTrue =>
        cases h
        exact .inl rfl
      case isFalse =>
        dsimp only at h
        split at h
        case isTrue =>
          cases h
          exact .inl rfl
        case isFalse =>
          cases h
          exact .inr ⟨_, rfl⟩
    obtain rfl | ⟨err, rfl⟩ := hr
    · rw [batchOf, List.take_zero]
      rfl
    · rfl

theorem step (h : Piped e ls s) (hs : Step k e batchSize s l t) : Piped e (ls ++ [l]) t := by
  cases hs with
  | @send frame write result datagrams msgs hf call hm =>
    refine h.datagrams ?_ (hm.trans (datagrams_send hf call)) rfl
    rcases result with err | ⟨⟩
    · exact fun f hmem => absurd hmem List.not_mem_nil
    · exact List.forall_mem_singleton.mpr hf
  | @sendBatch frames answer result datagrams msgs hf hans call hm =>
    refine h.datagrams ?_ (hm.trans (datagrams_sendBatch hf hans call)) rfl
    rcases result with err | n
    · exact fun f hmem => absurd hmem List.not_mem_nil
    · exact fun f hmem => hf f (List.mem_of_mem_take hmem)
  | @arrive m hm =>
    refine h.push (List.forall_mem_singleton.mpr hm) ?_ rfl
    rw [Label.carried]
    cases hc : m.carried e with
    | none => rw [List.filterMap_cons_none hc]; rfl
    | some f => rw [List.filterMap_cons_some hc]; rfl
  | @recvBatch r msgs rest answer now out out' result hq hans hsize hl call hr =>
    have hle := h.bytes_le
    rw [hq, List.forall_mem_append] at hle
    refine ⟨hle.2, ?_⟩
    have hc := contents_batchOf (e := e) hle.1 hans hl call
    have hb : obtained (.recvBatch (batchOf out' result)) = (batchOf out' result).getD [] := by
      cases batchOf out' result <;> rfl
    have hs := h.split
    rw [hq, List.filterMap_append, contents_append] at hs
    rw [carried_reader, actions_concat, Label.action, Option.toList_some, List.flatMap_append,
      List.flatMap_singleton, contents_append, hb, hc, hs, List.append_assoc]
  | @reader r a hn ha =>
    refine ⟨h.bytes_le, ?_⟩
    have hb : obtained a = [] := by
      cases a with
      | recvBatch batch => exact absurd rfl (hn batch)
      | _ => rfl
    rw [carried_reader, actions_concat, Label.action, Option.toList_some, List.flatMap_append,
      List.flatMap_singleton, hb, List.append_nil, h.split]

end Piped

end Bus

/-! ### The batches of the reader -/

namespace Reader

variable {batchSize : ℕ} {s t : State} {as : List Action} {a : Action}

end Reader

namespace Bus

open Reader

variable {k : Kernel} {e : Endian} {batchSize : ℕ} {s : Bus} {ls : List Label} {i : ℕ}

end Bus

end Mcanbus
