import Mcanbus.Isotp.Reassembly
import Mcanbus.Transition.Basic

/-! # Flow control of a long response

A sender that keeps to the advertised block size and the receiver, over queues
in both directions. The receiver is the code, run on the frames that it has
taken. It sends one Flow Control, so that the response arrives if and only if
the Consecutive Frames fit in one block.
-/

namespace Mcanbus.Isotp

open Rust Effect Transition

/-- A response in several frames, and what the receiver is called with. -/
structure Session where
  payload : List UInt8
  txId : CanId
  rxId : CanId
  deadline : ℕ
  opts : Options
  clock : ℕ
  sends : List SendAnswer
  long : sfMaxLen < payload.length
  fits : payload.length ≤ maxFfLength
  accepts : ∀ a ∈ sends, a.error = none
  inTime : clock + (sends.map SendAnswer.delay).sum < deadline

inductive Phase where
  | starting
  | awaiting
  | sending (credit : Option ℕ)
  | finished

/-- The frames that may follow a Flow Control; a block size of zero does not limit them. -/
def blockCredit (blockSize : UInt8) : Option ℕ :=
  if blockSize = 0 then none else some blockSize.toNat

/-- The phase after the given number of frames out of a total. -/
def Phase.afterFrame (total sent : ℕ) (credit : Option ℕ) : Phase :=
  if total ≤ sent then .finished
  else match credit with
    | none => .sending none
    | some credit => if credit ≤ 1 then .awaiting else .sending (some (credit - 1))

/-- The block size of a Flow Control that is clear to send. -/
def clearedBlock (frame : Frame) : Option UInt8 :=
  match frame.payload with
  | pci :: blockSize :: _ :: _ => if pci = pciFc ||| fcCts then some blockSize else none
  | _ => none

/-- The sender, the frames in flight in each direction, and what the receiver has taken. -/
structure Link where
  phase : Phase
  sent : ℕ
  toReceiver : List Frame
  toSender : List Frame
  taken : List Arrival

def Link.start : Link := ⟨.starting, 0, [], [], []⟩

inductive LinkAction where
  | announce
  | clear
  | transmit (tail : List UInt8)
  | take (delay : ℕ)

namespace Session

variable (c : Session)

/-- The number of Consecutive Frames. -/
def blocks : ℕ := cfCount (c.payload.drop ffFirstPayload)

/-- The data of a Consecutive Frame, with any bytes behind the bytes that it carries. -/
def consecutive (i : ℕ) (tail : List UInt8) : List UInt8 :=
  (pciCf ||| .ofNat ((i + 1) % 16)) :: (chunk (c.payload.drop ffFirstPayload) i ++ tail)

/-- The run of the receiver on the frames that it has taken. -/
def reception (taken : List Arrival) : Run Env IoError Event (List UInt8) :=
  receiveResponse c.txId c.rxId c.deadline c.opts ⟨c.clock, taken.map Arrival.answer, c.sends, []⟩

/-- The receiver has taken the frames before the deadline. -/
def InTime (taken : List Arrival) : Prop :=
  c.clock + (taken.map Arrival.delay).sum + (c.sends.map SendAnswer.delay).sum < c.deadline

/-- What the receiver sends when it takes another frame. -/
def answers (taken : List Arrival) (a : Arrival) : List Frame :=
  (sentFrames (c.reception (taken ++ [a])).trace).drop (sentFrames (c.reception taken).trace).length

inductive Step : Link → LinkAction → Link → Prop
  | announce {s : Link} : s.phase = .starting → Step s .announce
      { s with
        phase := .awaiting
        sent := 1
        toReceiver := s.toReceiver ++ [classicFrame c.rxId (firstFrame c.payload)] }
  | clear {s : Link} {frame : Frame} {rest : List Frame} {blockSize : UInt8} :
      s.phase = .awaiting → s.toSender = frame :: rest → clearedBlock frame = some blockSize →
      Step s .clear { s with phase := .sending (blockCredit blockSize), toSender := rest }
  | transmit {s : Link} {credit : Option ℕ} {tail : List UInt8} :
      s.phase = .sending credit → (c.consecutive (s.sent - 1) tail).length ≤ frameDlc →
      Step s (.transmit tail)
        { s with
          phase := .afterFrame (c.blocks + 1) (s.sent + 1) credit
          sent := s.sent + 1
          toReceiver := s.toReceiver ++ [classicFrame c.rxId (c.consecutive (s.sent - 1) tail)] }
  | take {s : Link} {frame : Frame} {rest : List Frame} {delay : ℕ} :
      s.toReceiver = frame :: rest → (c.reception s.taken).outcome = .halted .pending →
      c.InTime (s.taken ++ [⟨delay, frame⟩]) →
      Step s (.take delay)
        { s with
          toReceiver := rest
          toSender := s.toSender ++ c.answers s.taken ⟨delay, frame⟩
          taken := s.taken ++ [⟨delay, frame⟩] }

/-- The receiver waits for a Consecutive Frame, the sender for a Flow Control, and nothing is
in flight. -/
structure Deadlocked (s : Link) : Prop where
  started : s.taken ≠ []
  receiver : (c.reception s.taken).outcome = .halted .pending
  sender : s.phase = .awaiting
  quiet : s.toReceiver = [] ∧ s.toSender = []

/-- No run deadlocks, and every run ends with the response. -/
structure Completes : Prop where
  live : ∀ s, Reachable c.Step .start s → ¬ c.Deadlocked s
  ends : ∃ bound, ∀ as s, Runs c.Step .start as s → as.length ≤ bound
  response : ∀ s, Reachable c.Step .start s → Terminal c.Step s →
    (c.reception s.taken).outcome = .done c.payload

/-! ### The receiver after some of the frames -/

/-- The state of the receiver after the given number of frames. -/
def position : ℕ → Rx
  | 0 => .idle
  | i + 1 => collected c.payload i

/-- The data of the frame at the given place. -/
inductive Segment : ℕ → Frame → Prop
  | first : Segment 0 (classicFrame c.rxId (firstFrame c.payload))
  | consecutive {i : ℕ} {tail : List UInt8} : (c.consecutive i tail).length ≤ frameDlc →
      Segment (i + 1) (classicFrame c.rxId (c.consecutive i tail))

variable {c} {s t : Link} {i : ℕ} {frame : Frame} {taken : List Arrival} {a : Arrival}

theorem blocks_pos : 0 < c.blocks := by
  have h : 7 < c.payload.length := c.long
  unfold blocks
  rw [lt_cfCount, List.length_drop, ffFirstPayload]
  omega

theorem position_waiting (h : i ≤ c.blocks) : (c.position i).Waiting := by
  cases i with
  | zero => trivial
  | succ i =>
    have hb := lt_cfCount.mp (Nat.lt_of_succ_le h)
    rw [List.length_drop] at hb
    exact collected_waiting (by omega)

theorem position_last : c.position (c.blocks + 1) = .accepted c.payload := by
  apply collected_all
  unfold blocks cfCount
  rw [List.length_drop]
  omega

theorem length_firstFrame : (firstFrame c.payload).length = frameDlc := by
  have h : 7 < c.payload.length := c.long
  simp only [firstFrame, List.length_cons, List.length_take, ffFirstPayload, frameDlc]
  omega

namespace Segment

theorem fits (h : c.Segment i frame) (delay : ℕ) : Arrival.Fits c.rxId ⟨delay, frame⟩ := by
  have hdlc : frameDlc ≤ maxFdDataLen := by decide
  cases h with
  | first =>
    have hl := length_firstFrame (c := c)
    exact ⟨rfl, by rw [Frame.len_ofPayload (hl ▸ hdlc), hl]; exact hdlc⟩
  | consecutive hl =>
    have hl' := Nat.le_trans hl hdlc
    exact ⟨rfl, by rw [Frame.len_ofPayload hl']; exact hl'⟩

/-- Each frame takes the receiver to the next state. -/
theorem feed (h : c.Segment i frame) (hi : i ≤ c.blocks) :
    (c.position i).feed frame.payload = c.position (i + 1) := by
  have hdlc : frameDlc ≤ maxFdDataLen := by decide
  cases h with
  | first =>
    have hl := length_firstFrame (c := c)
    rw [Frame.payload_ofPayload (hl ▸ hdlc)]
    exact feed_firstFrame c.long c.fits
  | consecutive hl =>
    have hb := lt_cfCount.mp (Nat.lt_of_succ_le hi)
    rw [List.length_drop] at hb
    rw [Frame.payload_ofPayload (Nat.le_trans hl hdlc)]
    exact feed_chunk (by omega) _

/-- The First Frame alone is answered. -/
theorem replies (h : c.Segment i frame) : (c.position i).replies c.txId c.opts frame.payload =
    if i = 0 then [flowControl c.txId c.opts] else [] := by
  cases h with
  | first =>
    have hl := length_firstFrame (c := c)
    rw [Frame.payload_ofPayload (by rw [hl]; decide)]
    exact Rx.replies_first (isFirst_firstFrame c.long c.fits)
  | consecutive => exact Rx.replies_settle

end Segment

variable (c) in
/-- The receiver has taken the first frames of the response before the deadline. -/
structure Received (taken : List Arrival) : Prop where
  inTime : c.InTime taken
  fits : ∀ a ∈ taken, a.Fits c.rxId
  needs : Rx.idle.Needs (taken.map (·.frame.payload))
  position : Rx.idle.feedAll (taken.map (·.frame.payload)) = c.position taken.length
  replies : Rx.idle.repliesAll c.txId c.opts (taken.map (·.frame.payload)) =
    if taken.length = 0 then [] else [flowControl c.txId c.opts]

namespace Received

theorem nil : c.Received [] where
  inTime := c.inTime
  fits := fun _ h => absurd h List.not_mem_nil
  needs := Rx.needs_nil
  position := rfl
  replies := rfl

theorem concat (h : c.Received taken) (hs : c.Segment taken.length a.frame)
    (hl : taken.length ≤ c.blocks) (ht : c.InTime (taken ++ [a])) : c.Received (taken ++ [a]) where
  inTime := ht
  fits := List.forall_mem_append.mpr ⟨h.fits, List.forall_mem_singleton.mpr (hs.fits a.delay)⟩
  needs := by
    rw [List.map_append]
    exact Rx.needs_concat.mpr ⟨h.needs, h.position ▸ position_waiting hl⟩
  position := by
    rw [List.map_append, Rx.feedAll_append, h.position, List.length_append]
    exact hs.feed hl
  replies := by
    rw [List.map_append, Rx.repliesAll_append, h.replies, h.position, List.length_append]
    simp only [List.map_cons, List.map_nil, Rx.repliesAll, hs.replies, List.append_nil,
      List.length_singleton]
    split <;> rfl

/-- The code is in the state that the number of frames determines. -/
theorem reception (h : c.Received taken) : ∃ env t,
    c.reception taken =
      ((c.position taken.length).resume c.txId c.rxId c.deadline c.opts env).after t ∧
    env.clock < c.deadline ∧ env.recvs = [] ∧
    sentFrames t = if taken.length = 0 then [] else [flowControl c.txId c.opts] := by
  have hd : Delivers c.deadline taken []
      ⟨c.clock, taken.map Arrival.answer, c.sends, []⟩ :=
    ⟨(List.append_nil _).symm, c.accepts, h.inTime⟩
  obtain ⟨env, t, hr, hd', -, hsent⟩ := Rx.resume_needs c.txId c.opts hd h.fits h.needs
  rw [h.position] at hr
  exact ⟨env, t, hr, hd'.clock_lt, hd'.recvs, hsent.trans h.replies⟩

theorem pending (h : c.Received taken) (hl : taken.length ≤ c.blocks) :
    (c.reception taken).outcome = .halted .pending := by
  obtain ⟨env, t, hr, hc, he, -⟩ := h.reception
  rw [hr, Rx.resume_pending (position_waiting hl) hc he]
  rfl

theorem done (h : c.Received taken) (hl : taken.length = c.blocks + 1) :
    (c.reception taken).outcome = .done c.payload := by
  obtain ⟨env, t, hr, -, -, -⟩ := h.reception
  rw [hr, hl, position_last]
  rfl

/-- One Flow Control is sent, in answer to the First Frame. -/
theorem sent (h : c.Received taken) (hl : taken.length ≤ c.blocks + 1) :
    sentFrames (c.reception taken).trace =
      if taken.length = 0 then [] else [flowControl c.txId c.opts] := by
  obtain ⟨env, t, hr, hc, he, ht⟩ := h.reception
  rw [hr, Run.trace_after, sentFrames_append, ht]
  rcases Nat.le_or_eq_of_le_succ hl with hl | hl
  · rw [Rx.resume_pending (position_waiting hl) hc he]
    exact List.append_nil _
  · rw [hl, position_last]
    exact List.append_nil _

theorem answers (h : c.Received taken) (hs : c.Segment taken.length a.frame)
    (hl : taken.length ≤ c.blocks) (ht : c.InTime (taken ++ [a])) :
    c.answers taken a = if taken.length = 0 then [flowControl c.txId c.opts] else [] := by
  have hlen : (taken ++ [a]).length = taken.length + 1 := List.length_append
  unfold Session.answers
  rw [(h.concat hs hl ht).sent (by omega), h.sent (by omega), hlen]
  split <;> rfl

end Received

/-! ### The invariant -/

theorem clearedBlock_flowControl (txId : CanId) (opts : Options) :
    clearedBlock (flowControl txId opts) = some opts.blockSize := by
  unfold clearedBlock
  rw [payload_flowControl]
  rfl

variable (c) in
/-- The response fits in one block. -/
def OneBlock : Prop := c.opts.blockSize = 0 ∨ c.blocks ≤ c.opts.blockSize.toNat

variable (c) in
/-- The phases, the frames sent and taken in them, and the Flow Controls in flight. -/
inductive Stage : Phase → ℕ → ℕ → List Frame → Prop
  | starting : Stage .starting 0 0 []
  | announced : Stage .awaiting 1 0 []
  | answered : Stage .awaiting 1 1 [flowControl c.txId c.opts]
  | unlimited {sent taken : ℕ} : c.opts.blockSize = 0 → 0 < sent → sent ≤ c.blocks →
      0 < taken → Stage (.sending none) sent taken []
  | limited {left sent taken : ℕ} : 0 < left → sent + left = c.opts.blockSize.toNat + 1 →
      0 < sent → sent ≤ c.blocks → 0 < taken → Stage (.sending (some left)) sent taken []
  | exhausted {taken : ℕ} : ¬ c.OneBlock → 0 < taken →
      Stage .awaiting (c.opts.blockSize.toNat + 1) taken []
  | finished {taken : ℕ} : c.OneBlock → 0 < taken → Stage .finished (c.blocks + 1) taken []

namespace Stage

variable {phase : Phase} {sent received : ℕ} {out : List Frame}

theorem sent_le (h : c.Stage phase sent received out) : sent ≤ c.blocks + 1 := by
  have hb := blocks_pos (c := c)
  cases h with
  | exhausted hn => 
    rw [OneBlock, not_or] at hn
    omega
  | _ => omega

theorem take (h : c.Stage phase sent received out) (hlt : received < sent) :
    c.Stage phase sent (received + 1)
      (out ++ if received = 0 then [flowControl c.txId c.opts] else []) := by
  cases h with
  | starting => omega
  | announced => exact .answered
  | answered => omega
  | unlimited hb h0 hl ht =>
    rw [if_neg (by omega)]
    exact .unlimited hb h0 hl (by omega)
  | limited h0 hs hp hl ht =>
    rw [if_neg (by omega)]
    exact .limited h0 hs hp hl (by omega)
  | exhausted hn ht =>
    rw [if_neg (by omega)]
    exact .exhausted hn (by omega)
  | finished hf ht =>
    rw [if_neg (by omega)]
    exact .finished hf (by omega)

theorem clear {rest : List Frame} {blockSize : UInt8}
    (h : c.Stage .awaiting sent received (frame :: rest))
    (hc : clearedBlock frame = some blockSize) :
    c.Stage (.sending (blockCredit blockSize)) sent received rest := by
  have hb := blocks_pos (c := c)
  cases h with
  | answered =>
    rw [clearedBlock_flowControl] at hc
    obtain rfl := Option.some.inj hc
    unfold blockCredit
    split
    case isTrue h0 => exact .unlimited h0 (by omega) hb (by omega)
    case isFalse h0 =>
      have hpos : 0 < c.opts.blockSize.toNat := by
        rw [Nat.pos_iff_ne_zero]
        exact fun h => h0 (UInt8.toNat_inj.mp h)
      exact .limited hpos (by omega) (by omega) hb (by omega)

theorem transmit {credit : Option ℕ} (h : c.Stage (.sending credit) sent received out) :
    c.Stage (.afterFrame (c.blocks + 1) (sent + 1) credit) (sent + 1) received out := by
  unfold Phase.afterFrame
  split
  case isTrue hf => 
    cases h with
    | unlimited hb h0 hl ht =>
      obtain rfl : sent = c.blocks := by omega
      exact .finished (.inl hb) ht
    | limited h0 hs hp hl ht =>
      obtain rfl : sent = c.blocks := by omega
      exact .finished (.inr (by omega)) ht
  case isFalse hf =>
    cases h with
    | unlimited hb h0 hl ht => exact .unlimited hb (by omega) (by omega) ht
    | @limited left _ _ h0 hs hp hl ht =>
      dsimp only
      split
      case isTrue h1 =>
        obtain rfl : left = 1 := by omega
        have hn : ¬ c.OneBlock := by
          rintro (hz | hle)
          · have h0' : c.opts.blockSize.toNat = 0 := congrArg UInt8.toNat hz
            omega
          · omega
        rw [hs]
        exact .exhausted hn ht
      case isFalse h1 => exact .limited (by omega) (by omega) (by omega) (by omega) ht

end Stage

variable (c) in
structure Inv (s : Link) : Prop where
  received : c.Received s.taken
  inFlight : ∀ i frame, s.toReceiver[i]? = some frame → c.Segment (s.taken.length + i) frame
  count : s.taken.length + s.toReceiver.length = s.sent
  stage : c.Stage s.phase s.sent s.taken.length s.toSender

theorem inv_start : c.Inv .start where
  received := .nil
  inFlight := fun _ _ h => absurd h (by simp [Link.start])
  count := rfl
  stage := .starting

/-- A frame behind the frames in flight. -/
theorem inFlight_concat {frames : List Frame} {n : ℕ}
    (h : ∀ i frame, frames[i]? = some frame → c.Segment (n + i) frame)
    (hf : c.Segment (n + frames.length) frame) (i : ℕ) (frame' : Frame)
    (hi : (frames ++ [frame])[i]? = some frame') : c.Segment (n + i) frame' := by
  rcases Nat.lt_trichotomy i frames.length with hlt | rfl | hlt
  · rw [List.getElem?_append_left hlt] at hi
    exact h i frame' hi
  · rw [List.getElem?_concat_length] at hi
    exact Option.some.inj hi ▸ hf
  · rw [List.getElem?_eq_none (by rw [List.length_append]; exact hlt)] at hi
    cases hi

/-- The frame that the receiver takes next. -/
theorem Inv.next (h : c.Inv s) {rest : List Frame} (hr : s.toReceiver = frame :: rest) :
    c.Segment s.taken.length frame ∧ s.taken.length < s.sent ∧ s.taken.length ≤ c.blocks := by
  have hc := h.count
  have hs := h.stage.sent_le
  rw [hr, List.length_cons] at hc
  exact ⟨h.inFlight 0 frame (by rw [hr]; rfl), by omega, by omega⟩

theorem Inv.answers (h : c.Inv s) {rest : List Frame} {delay : ℕ}
    (hr : s.toReceiver = frame :: rest) (ht : c.InTime (s.taken ++ [⟨delay, frame⟩])) :
    c.answers s.taken ⟨delay, frame⟩ =
      if s.taken.length = 0 then [flowControl c.txId c.opts] else [] := by
  obtain ⟨hseg, -, hle⟩ := h.next hr
  exact h.received.answers hseg hle ht

theorem Stage.of_starting {sent received : ℕ} {out : List Frame}
    (h : c.Stage .starting sent received out) : sent = 0 ∧ received = 0 ∧ out = [] := by
  cases h
  exact ⟨rfl, rfl, rfl⟩

theorem Stage.of_sending {credit : Option ℕ} {sent received : ℕ} {out : List Frame}
    (h : c.Stage (.sending credit) sent received out) : 0 < sent ∧ sent ≤ c.blocks := by
  cases h with
  | unlimited _ h0 hl => exact ⟨h0, hl⟩
  | limited _ _ h0 hl => exact ⟨h0, hl⟩

theorem Stage.of_awaiting {sent received : ℕ} {out : List Frame}
    (h : c.Stage .awaiting sent received out) :
    (sent = 1 ∧ received = 0) ∨ out = [flowControl c.txId c.opts] ∨
      (¬ c.OneBlock ∧ sent = c.opts.blockSize.toNat + 1 ∧ out = []) := by
  cases h with
  | announced => exact .inl ⟨rfl, rfl⟩
  | answered => exact .inr (.inl rfl)
  | exhausted hn => exact .inr (.inr ⟨hn, rfl, rfl⟩)

theorem Stage.of_finished {sent received : ℕ} {out : List Frame}
    (h : c.Stage .finished sent received out) : c.OneBlock ∧ sent = c.blocks + 1 := by
  cases h with
  | finished hf => exact ⟨hf, rfl⟩

theorem Inv.step {action : LinkAction} (h : c.Inv s) (ha : c.Step s action t) : c.Inv t := by
  obtain ⟨hrec, hfl, hcount, hstage⟩ := id h
  cases ha with
  | announce hp =>
    rw [hp] at hstage
    obtain ⟨hs, ht, ho⟩ := hstage.of_starting
    have hq : s.taken.length + s.toReceiver.length = 0 := hcount.trans hs
    refine ⟨hrec, inFlight_concat hfl (hq ▸ .first), ?_, ?_⟩
    · simp only [List.length_append, List.length_singleton]
      omega
    · rw [ht, ho]
      exact .announced
  | clear hp hq hb =>
    rw [hp, hq] at hstage
    exact ⟨hrec, hfl, hcount, hstage.clear hb⟩
  | transmit hp hl =>
    rw [hp] at hstage
    obtain ⟨hpos, hle⟩ := hstage.of_sending
    refine ⟨hrec, inFlight_concat hfl ?_, ?_, hstage.transmit⟩
    · have hn : s.taken.length + s.toReceiver.length = s.sent - 1 + 1 := by omega
      rw [hn]
      exact .consecutive hl
    · simp only [List.length_append, List.length_singleton]
      omega
  | @take frame rest delay hr hw ht =>
    obtain ⟨hseg, hlt, hle⟩ := h.next hr
    have hlen : (s.taken ++ [Arrival.mk delay frame]).length = s.taken.length + 1 :=
      List.length_append
    refine ⟨hrec.concat hseg hle ht, ?_, ?_, ?_⟩
    · intro i frame' hi
      rw [hlen, Nat.add_right_comm]
      exact hfl (i + 1) frame' (by rw [hr]; exact hi)
    · rw [hr, List.length_cons] at hcount
      simp only [hlen]
      omega
    · rw [h.answers hr ht, hlen]
      exact hstage.take hlt

/-- The frames still to be sent, to be taken, and the Flow Controls to be read. -/
def measure (c : Session) (s : Link) : ℕ :=
  c.blocks + 1 - s.sent + 2 * (c.blocks + 1 - s.taken.length) + s.toSender.length

theorem Inv.descends {action : LinkAction} (h : c.Inv s) (ha : c.Step s action t) :
    c.measure t < c.measure s := by
  obtain ⟨-, -, -, hstage⟩ := id h
  cases ha with
  | announce hp =>
    rw [hp] at hstage
    obtain ⟨hs, -, -⟩ := hstage.of_starting
    simp only [measure]
    omega
  | clear hp hq hb =>
    simp only [measure, hq, List.length_cons]
    omega
  | transmit hp hl =>
    rw [hp] at hstage
    obtain ⟨hpos, hle⟩ := hstage.of_sending
    simp only [measure]
    omega
  | @take frame rest delay hr hw ht =>
    obtain ⟨-, -, hle⟩ := h.next hr
    have hone : (c.answers s.taken ⟨delay, frame⟩).length ≤ 1 := by
      rw [h.answers hr ht]
      split
      · exact Nat.le_refl 1
      · exact Nat.zero_le 1
    simp only [measure, List.length_append, List.length_singleton]
    omega

theorem reachable_inv (h : Reachable c.Step .start s) : c.Inv s :=
  h.invariant (fun _ _ _ h ha => h.step ha) inv_start

/-! ### Terminal states and deadlocks -/

theorem Inv.of_deadlocked (h : c.Inv s) (hd : c.Deadlocked s) : ¬ c.OneBlock := by
  obtain ⟨-, -, hcount, hstage⟩ := h
  obtain ⟨hstart, -, hp, hr, ho⟩ := hd
  have hpos := List.length_pos_iff.mpr hstart
  rw [hp, ho] at hstage
  rcases hstage.of_awaiting with ⟨-, h0⟩ | hout | ⟨hn, -⟩
  · omega
  · cases hout
  · exact hn

/-- The receiver has taken every frame when no step is left. -/
theorem Inv.drained (h : c.Inv s) (ht : Terminal c.Step s) : s.toReceiver = [] := by
  cases hr : s.toReceiver with
  | nil => rfl
  | cons frame rest =>
    obtain ⟨-, -, hle⟩ := h.next hr
    have hin : c.InTime (s.taken ++ [⟨0, frame⟩]) := by
      have hin := h.received.inTime
      simpa [InTime] using hin
    exact absurd (.take hr (h.received.pending hle) hin) (ht (.take 0) _)

/-- A terminal state has the whole response, or is a deadlock after one block. -/
theorem Inv.terminal_cases (h : c.Inv s) (ht : Terminal c.Step s) :
    (c.OneBlock ∧ s.taken.length = c.blocks + 1) ∨ (¬ c.OneBlock ∧ c.Deadlocked s) := by
  have hr := h.drained ht
  obtain ⟨hrec, -, hcount, hstage⟩ := h
  rw [hr, List.length_nil, Nat.add_zero] at hcount
  cases hp : s.phase with
  | starting => exact absurd (.announce hp) (ht .announce _)
  | awaiting =>
    rw [hp] at hstage
    rcases hstage.of_awaiting with ⟨hs, h0⟩ | ho | ⟨hn, hs, ho⟩
    · omega
    · exact absurd (.clear hp ho (clearedBlock_flowControl c.txId c.opts)) (ht .clear _)
    · have hb := not_or.mp hn
      have hpos : 0 < s.taken.length := by omega
      refine .inr ⟨hn, List.length_pos_iff.mp hpos, hrec.pending ?_, hp, hr, ho⟩
      omega
  | sending credit =>
    have hl : (c.consecutive (s.sent - 1) []).length ≤ frameDlc := by
      unfold consecutive
      rw [List.append_nil]
      exact Nat.succ_le_succ length_chunk_le
    exact absurd (.transmit hp hl) (ht (.transmit []) _)
  | finished =>
    rw [hp] at hstage
    obtain ⟨hf, hs⟩ := hstage.of_finished
    exact .inl ⟨hf, hcount.trans hs⟩

/-- More Consecutive Frames than one block lead to a deadlock. -/
theorem exists_deadlock (h : ¬ c.OneBlock) : ∃ s, Reachable c.Step .start s ∧ c.Deadlocked s := by
  obtain ⟨s, hs, ht⟩ : ∃ s, Reachable c.Step .start s ∧ Terminal c.Step s :=
    exists_terminal (fun _ _ _ hI ha => Inv.step hI ha) (fun _ _ _ hI ha => hI.descends ha)
      inv_start
  rcases (reachable_inv hs).terminal_cases ht with ⟨hf, -⟩ | ⟨-, hd⟩
  · exact absurd hf h
  · exact ⟨s, hs, hd⟩

/-- The response arrives if and only if it fits in one block. -/
theorem completes_iff (c : Session) : c.Completes ↔ c.opts.blockSize = 0 ∨
    cfCount (c.payload.drop ffFirstPayload) ≤ c.opts.blockSize.toNat := by
  constructor
  · intro h
    by_contra hn
    obtain ⟨s, hs, hd⟩ := exists_deadlock hn
    exact h.live s hs hd
  · intro hf
    refine ⟨fun s hs hd => (reachable_inv hs).of_deadlocked hd hf, ⟨c.measure .start, ?_⟩, ?_⟩
    · intro as s hr
      exact hr.length_le (fun _ _ _ hI ha => Inv.step hI ha) (fun _ _ _ hI ha => hI.descends ha)
        inv_start
    · intro s hs ht
      have hI := reachable_inv hs
      rcases hI.terminal_cases ht with ⟨-, hl⟩ | ⟨hn, -⟩
      · exact hI.received.done hl
      · exact absurd hf hn

/-- Twenty bytes with a block size of one: two Consecutive Frames, and one Flow Control. -/
def twoBlocks : Session where
  payload := twentyBytes
  txId := .standard 0x7E0
  rxId := .standard 0x7E8
  deadline := 100
  opts := { (default : Options) with blockSize := 1 }
  clock := 0
  sends := []
  long := by decide
  fits := by decide
  accepts := fun _ h => absurd h List.not_mem_nil
  inTime := by decide

theorem not_completes_twoBlocks : ¬ twoBlocks.Completes := by
  have hn : ¬ twoBlocks.OneBlock := by
    unfold OneBlock blocks
    decide
  obtain ⟨s, hs, hd⟩ := exists_deadlock hn
  exact fun h => h.live s hs hd

end Session

end Mcanbus.Isotp
