import Mathlib.Data.Int.ModEq
import Mcanbus.Effect.Within
import Mcanbus.Sys.Calls

/-! # Opening a socket

A socket is opened, set up with the options and bound to its interface, under a
guard that closes it on failure. Until it is bound nothing is delivered, so that
the filters decide about every frame that it ever queues.
-/

namespace Mcanbus.Sys

open Rust Effect Effect.Process

/-- A `CAN_RAW` socket, which owns its descriptor. -/
structure Socket where
  fd : ℕ
  fdRxEnabled : Bool
  deriving DecidableEq, Repr

def ifnamsiz : ℕ := 16
def O_NONBLOCK : ℕ := 2048

def sofTimestampingRxHardware : UInt32 := 4
def sofTimestampingRxSoftware : UInt32 := 8
def sofTimestampingSoftware : UInt32 := 16
def sofTimestampingRawHardware : UInt32 := 64

/-- The field `ifr_name`, filled up with zeros. -/
def ifrName (nameBytes : List UInt8) : List UInt8 :=
  nameBytes ++ List.replicate (ifnamsiz - nameBytes.length) 0

/-- A `usize` as a `c_int`. -/
def toCInt (n : ℕ) : ℤ := Int.bmod n (2 ^ 32)

/-- A `u64` as a `time_t`. -/
def toTime (n : ℕ) : ℤ := Int.bmod n (2 ^ 64)

/-- A failed call is an error. -/
def must {α : Type} (r : Except Errno α) : SysM α := ofExcept (r.mapError .os)

/-- Set an option, if any; a failure is an error. -/
def mustSet (fd : ℕ) : Option SocketOption → SysM Unit
  | none => pure ()
  | some option => do
    let r ← call fd (.setOption option)
    let _ ← must r

/-- Set an option, if any; a failure makes no difference. -/
def maySet (fd : ℕ) : Option SocketOption → SysM Unit
  | none => pure ()
  | some option => do
    let _ ← call fd (.setOption option)

/-- Whether the delivery of FD frames was requested and granted. -/
def enableFd (fd : ℕ) (requested : Bool) : SysM Bool :=
  if requested then do
    let r ← call fd (.setOption (.fdFrames 1))
    return r.toOption.isSome
  else pure false

/-- The filters to set; `filter` takes precedence over `clearFilter`. -/
def filterToApply (opts : OpenOpts) : Option (List CanFilter) :=
  match opts.filter, opts.clearFilter with
  | some entries, _ => some entries
  | none, true => some []
  | none, false => none

def requestTimestamps (fd : ℕ) : Timestamping → SysM Unit
  | .BestAvailable => do
    let tsFlags := sofTimestampingRxHardware ||| sofTimestampingRxSoftware |||
      sofTimestampingSoftware ||| sofTimestampingRawHardware
    match ← call fd (.setOption (.timestamping tsFlags)) with
    | .ok _ => pure ()
    | .error _ => maySet fd (some (.timestampns 1))
  | .Software => maySet fd (some (.timestampns 1))
  | .None => pure ()

def setNonblocking (fd : ℕ) (requested : Bool) : SysM Unit :=
  if requested then do
    match ← call fd .getFlags with
    | .ok flags =>
      let _ ← call fd (.setFlags (flags.value ||| O_NONBLOCK))
    | .error _ => pure ()
  else pure ()

/-- What is done with the descriptor before it is bound: the interface index, and whether FD frames
are delivered. -/
def prepare (fd : ℕ) (nameBytes : List UInt8) (opts : OpenOpts) : SysM (ℕ × Bool) := do
  let ifr ← must (← call fd (.ifIndex (ifrName nameBytes)))
  let fdRxEnabled ← enableFd fd opts.fd
  mustSet fd ((filterToApply opts).map .filter)
  mustSet fd (opts.errorFilter.map .errFilter)
  maySet fd (opts.recvBufBytes.map fun bytes => .rcvBuf (toCInt bytes))
  maySet fd (opts.sendBufBytes.map fun bytes => .sndBuf (toCInt bytes))
  requestTimestamps fd opts.timestamping
  maySet fd (opts.recvTimeout.map fun timeout =>
    .rcvTimeo (toTime (timeout / 10 ^ 9)) (.ofNat (timeout % 10 ^ 9 / 1000)))
  setNonblocking fd opts.nonblocking
  return (ifr.value, fdRxEnabled)

/-- What is done with the descriptor under the guard. -/
def configure (fd : ℕ) (nameBytes : List UInt8) (opts : OpenOpts) : SysM Socket := do
  let (ifindex, fdRxEnabled) ← prepare fd nameBytes opts
  let _ ← must (← call fd (.bindCan ifindex))
  return ⟨fd, fdRxEnabled⟩

/-- `Socket::open`. -/
def Socket.open (iface : String) (opts : OpenOpts) : SysM Socket := do
  let nameBytes := iface.toByteArray.data.toList
  if nameBytes.isEmpty ∨ nameBytes.length ≥ ifnamsiz then
    raise (.new .InvalidInput "interface name has invalid length")
  else
    let fd ← must (← socket .canRaw)
    withGuard fd (configure fd nameBytes opts)

/-- `Socket::try_clone`. -/
def Socket.tryClone (sock : Socket) : SysM Socket := do
  let newFd ← must (← dup sock.fd)
  return { sock with fd := newFd }

/-- `Drop` of a socket. -/
def Socket.drop (sock : Socket) : SysM Unit := close sock.fd

/-! ### Ownership -/

section Ownership

variable {α β : Type} {fd : ℕ} {given : Finset ℕ} {kept : α → Finset ℕ} {kept' : β → Finset ℕ}

/-- A call whose failure is an error. -/
theorem owns_must {m : SysM (Except Errno α)} {f : α → SysM β} {K : Except Errno α → Finset ℕ}
    (hm : SysM.Owns given m K given) (herr : ∀ err, K (.error err) = given)
    (hf : ∀ a, SysM.Owns (K (.ok a)) (f a) kept' given) :
    SysM.Owns given (do let a ← must (← m); f a) kept' given := by
  refine hm.bind ?_
  rintro (err | a)
  · exact herr err ▸ Owns.halt nofun
  · exact hf a

theorem owns_call_bind {f : Except Errno Reply → SysM β} (c : Call)
    (hf : ∀ r, SysM.Owns {fd} (f r) kept' {fd}) : SysM.Owns {fd} (call fd c >>= f) kept' {fd} :=
  (owns_call fd c).bind hf

theorem owns_mustSet (o : Option SocketOption) :
    SysM.Owns {fd} (mustSet fd o) (fun _ => {fd}) {fd} := by
  cases o with
  | none => exact .pure rfl
  | some option => exact owns_must (owns_call fd _) (fun _ => rfl) fun _ => .pure rfl

theorem owns_maySet (o : Option SocketOption) :
    SysM.Owns {fd} (maySet fd o) (fun _ => {fd}) {fd} := by
  cases o with
  | none => exact .pure rfl
  | some option => exact owns_call_bind _ fun _ => .pure rfl

theorem owns_enableFd (requested : Bool) :
    SysM.Owns {fd} (enableFd fd requested) (fun _ => {fd}) {fd} := by
  cases requested with
  | false => exact .pure rfl
  | true => exact owns_call_bind _ fun _ => .pure rfl

theorem owns_requestTimestamps (timestamping : Timestamping) :
    SysM.Owns {fd} (requestTimestamps fd timestamping) (fun _ => {fd}) {fd} := by
  cases timestamping with
  | BestAvailable =>
    refine owns_call_bind _ ?_
    rintro (err | reply)
    · exact owns_maySet _
    · exact .pure rfl
  | Software => exact owns_maySet (some (.timestampns 1))
  | None => exact .pure rfl

theorem owns_setNonblocking (requested : Bool) :
    SysM.Owns {fd} (setNonblocking fd requested) (fun _ => {fd}) {fd} := by
  cases requested with
  | false => exact .pure rfl
  | true =>
    refine owns_call_bind _ ?_
    rintro (err | flags)
    · exact .pure rfl
    · exact owns_call_bind _ fun _ => .pure rfl

theorem owns_prepare (nameBytes : List UInt8) (opts : OpenOpts) :
    SysM.Owns {fd} (prepare fd nameBytes opts) (fun _ => {fd}) {fd} := by
  refine owns_must (owns_call fd _) (fun _ => rfl) fun ifr => ?_
  refine (owns_enableFd opts.fd).bind fun fdRxEnabled => ?_
  refine (owns_mustSet _).bind fun _ => (owns_mustSet _).bind fun _ => ?_
  refine (owns_maySet _).bind fun _ => (owns_maySet _).bind fun _ => ?_
  refine (owns_requestTimestamps _).bind fun _ => (owns_maySet _).bind fun _ => ?_
  exact (owns_setNonblocking _).bind fun _ => .pure rfl

theorem owns_configure (nameBytes : List UInt8) (opts : OpenOpts) :
    SysM.Owns {fd} (configure fd nameBytes opts) (fun sock => {sock.fd}) {fd} :=
  (owns_prepare nameBytes opts).bind fun _ =>
    owns_must (owns_call fd _) (fun _ => rfl) fun _ => .pure rfl

/-- A socket that is opened owns its descriptor, and one that is not leaves none. -/
theorem owns_open (iface : String) (opts : OpenOpts) :
    SysM.Owns ∅ (Socket.open iface opts) (fun sock => {sock.fd}) ∅ := by
  unfold Socket.open
  dsimp only
  split
  · exact owns_raise _
  · exact owns_must (owns_socket _) (fun _ => rfl) fun fd => owns_withGuard (owns_configure _ opts)

theorem owns_tryClone (sock : Socket) :
    SysM.Owns {sock.fd} sock.tryClone (fun new => {sock.fd} ∪ {new.fd}) {sock.fd} :=
  owns_must (owns_dup sock.fd) (fun _ => Finset.union_empty _) fun _ => .pure rfl

end Ownership

end Mcanbus.Sys
