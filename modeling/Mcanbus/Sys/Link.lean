import Mcanbus.Effect.Peer
import Mcanbus.Iface.Control
import Mcanbus.Sys.Open

/-! # Links over netlink

An interface is brought up or down with a request over a netlink socket of its
own. The kernel grants or denies what it is sent and owes an acknowledgement;
the program learns from it alone whether the link has changed.
-/

namespace Mcanbus.Sys

open Rust Effect Effect.Process Transition Iface

/-- Send a request on a bound netlink socket and receive the answer. -/
def exchange (fd : ℕ) (request : List UInt8) (len : ℕ) : SysM (Except Errno Reply) := do
  match ← call fd .bindNetlink with
  | .error err => return .error err
  | .ok _ =>
    match ← call fd (.sendto request) with
    | .error err => return .error err
    | .ok _ => call fd (.recv len)

/-- A request on a netlink socket of its own, which is closed on every path, and what is read in the
received part of the buffer. -/
def transact {α : Type} (request : List UInt8) (len : ℕ)
    (parse : List UInt8 → Checked (Except IoError α)) : SysM α := do
  let fd ← must (← socket .netlinkRoute)
  let answer ← exchange fd request len
  close fd
  let reply ← must answer
  let result ← parse (reply.data.take len)
  ofExcept result

section Interface

variable (e : Endian)

/-- `nl_set_iface_up`. -/
def nlSetIfaceUp (ifindex : UInt32) (up : Bool) : SysM Unit :=
  transact (newLinkRequest e ifindex up) ackLen (parseAck e)

/-- `get_can_state_raw`. -/
def getCanState (ifindex : UInt32) : SysM (Option UInt32) :=
  transact (linkRequest e ifindex) rbufLen (parseReply e)

variable (iface : Interface)

/-- `Interface::index`. -/
def index : SysM UInt32 :=
  if '\x00' ∈ iface.name.toList then
    raise (.new .InvalidInput "interface name has nul byte")
  else do must (← ifNameToIndex iface.name)

def setUp : SysM Unit := do nlSetIfaceUp e (← index iface) true

def setDown : SysM Unit := do nlSetIfaceUp e (← index iface) false

/-- The time between down and up, in nanoseconds. -/
def settleTime : ℕ := 150000000

def cycle : SysM Unit := do
  let idx ← index iface
  nlSetIfaceUp e idx false
  sleep settleTime
  nlSetIfaceUp e idx true

def state : SysM (Option CanState) := do
  let raw ← getCanState e (← index iface)
  return raw.bind CanState.fromRaw

end Interface

variable {α β : Type} {e : Endian} {fd len : ℕ} {request : List UInt8} {c : Call} {ifindex : UInt32}
  {parse : List UInt8 → Checked (Except IoError α)} {iface : Interface} {up : Bool}

/-! ### Ownership -/

theorem owns_exchange (fd : ℕ) (request : List UInt8) (len : ℕ) {lost : Finset ℕ} :
    SysM.Owns {fd} (exchange fd request len) (fun _ => {fd}) lost := by
  refine (owns_call fd _).bind ?_
  rintro (err | _)
  · exact .pure rfl
  · refine (owns_call fd _).bind ?_
    rintro (err | _)
    · exact .pure rfl
    · exact owns_call fd _

theorem owns_ofExcept {given : Finset ℕ} (r : Except IoError α) :
    SysM.Owns given (ofExcept r) (fun _ => given) given := by
  cases r with
  | error err => exact .halt nofun
  | ok a => exact .pure rfl

/-- A transaction closes its socket, however it ends. -/
theorem owns_transact : SysM.Owns ∅ (transact request len parse) (fun _ => ∅) ∅ := by
  refine owns_must (owns_socket _) (fun _ => rfl) fun fd => ?_
  refine (owns_exchange fd request len).bind fun answer => (owns_close fd).bind fun _ => ?_
  refine (owns_ofExcept _).bind fun reply => ?_
  exact (Owns.ofChecked fun _ _ => rfl).bind fun result => owns_ofExcept result

theorem owns_index (iface : Interface) : SysM.Owns ∅ (index iface) (fun _ => ∅) ∅ := by
  unfold index
  split
  · exact owns_raise _
  · exact (owns_ifNameToIndex _).bind fun _ => owns_ofExcept _

theorem owns_nlSetIfaceUp : SysM.Owns ∅ (nlSetIfaceUp e ifindex up) (fun _ => ∅) ∅ :=
  owns_transact

theorem owns_setUp : SysM.Owns ∅ (setUp e iface) (fun _ => ∅) ∅ :=
  (owns_index iface).bind fun _ => owns_nlSetIfaceUp

theorem owns_setDown : SysM.Owns ∅ (setDown e iface) (fun _ => ∅) ∅ :=
  (owns_index iface).bind fun _ => owns_nlSetIfaceUp

theorem owns_cycle : SysM.Owns ∅ (cycle e iface) (fun _ => ∅) ∅ :=
  (owns_index iface).bind fun _ => owns_nlSetIfaceUp.bind fun _ =>
    (owns_sleep _).bind fun _ => owns_nlSetIfaceUp

theorem owns_state : SysM.Owns ∅ (state e iface) (fun _ => ∅) ∅ :=
  (owns_index iface).bind fun _ => owns_transact.bind fun _ => .pure rfl

/-! ### The query on the answers -/

/-- How a process ends with a result. -/
def ending {α : Type} : Checked (Except IoError α) → Outcome IoError α
  | .ok (.ok a) => .done a
  | .ok (.error err) => .halted (.failed err)
  | .error p => .halted (.panicked p)

/-- What is read of the answer to a transaction. -/
def concluded {α : Type} (len : ℕ) (parse : List UInt8 → Checked (Except IoError α)) :
    Except Errno Reply → Checked (Except IoError α)
  | .ok reply => parse (reply.data.take len)
  | .error err => .ok (.error (.os err))

/-- The answers about a link are those to the calls of a query, in order. -/
structure Given (os : LinkAnswers) (resolved opened bound sent received : Except Errno Reply) :
    Prop where
  index : os.ifNameToIndex = resolved.map fun reply => .ofNat reply.value
  socket : os.netlink.socket = opened.map fun _ => ()
  bind : os.netlink.bind = bound.map fun _ => ()
  sendto : ∀ bytes, os.netlink.sendto bytes = sent.map fun _ => ()
  recv : os.netlink.recv = received.map Reply.data

section Query

variable {h : Host} {answer resolved opened bound sent received : Except Errno Reply}
  {answers : List (Except Errno Reply)} {os : LinkAnswers}

theorem call_answer (hfd : fd ∈ h.table) (ha : h.answers = answer :: answers) (c : Call) :
    call fd c h = ⟨.done answer, { h with answers }, [.called fd c answer]⟩ := by
  unfold call
  rw [if_pos hfd, ha]

theorem exchange_answers (hfd : fd ∈ h.table)
    (ha : h.answers = bound :: sent :: received :: answers) (request : List UInt8)
    (len : ℕ) : ∃ h' t, exchange fd request len h =
      ⟨.done (bound.bind fun _ => sent.bind fun _ => received), h', t⟩ := by
  unfold exchange
  rw [bind_done (call_answer hfd ha .bindNetlink)]
  cases bound with
  | error err => exact ⟨_, _, rfl⟩
  | ok reply =>
    dsimp only
    rw [bind_done (@call_answer _ { h with answers := sent :: received :: answers } _ _ hfd rfl
      (.sendto request))]
    cases sent with
    | error err => exact ⟨_, _, rfl⟩
    | ok reply' =>
      dsimp only
      rw [@call_answer _ { h with answers := received :: answers } _ _ hfd rfl (.recv len)]
      exact ⟨_, _, rfl⟩

theorem outcome_map {m : SysM α} {c : Checked (Except IoError α)} (f : α → β)
    (hm : (m h).outcome = ending c) :
    ((do let a ← m; return f a : SysM β) h).outcome = ending (do let r ← c; return r.map f) := by
  rcases hr : m h with ⟨o, h', t⟩
  rw [hr] at hm
  obtain rfl : o = ending c := hm
  rcases c with p | (err | a)
  · rw [bind_halted hr]
    rfl
  · rw [bind_halted hr]
    rfl
  · rw [bind_done hr]
    rfl

theorem outcome_conclude (r : Except Errno Reply) : ((do
    let reply ← must r
    let result ← parse (reply.data.take len)
    ofExcept result : SysM α) h).outcome = ending (concluded len parse r) := by
  cases r with
  | error err => rfl
  | ok reply =>
    change ((ofChecked (parse (reply.data.take len)) >>=
      fun r => ofExcept r : SysM α) h).outcome = _
    rw [concluded]
    rcases parse (reply.data.take len) with p | (err | a) <;> rfl

theorem exists_close (fd : ℕ) (h : Host) : ∃ h' t, close fd h = ⟨.done (), h', t⟩ := by
  unfold close
  split
  · exact ⟨_, _, rfl⟩
  · exact ⟨_, _, rfl⟩

theorem outcome_transact (ha : h.answers = opened :: bound :: sent :: received :: answers) :
    (transact request len parse h).outcome = ending (concluded len parse
      (opened.bind fun _ => bound.bind fun _ => sent.bind fun _ => received)) := by
  unfold transact
  rcases h with ⟨alloc, table, _⟩
  obtain rfl := ha
  cases opened with
  | error err => rfl
  | ok reply =>
    have hopen : socket .netlinkRoute
        ⟨alloc, table, .ok reply :: bound :: sent :: received :: answers⟩ =
          ⟨.done (.ok (alloc.next table)),
            ⟨alloc, table ∪ {alloc.next table}, bound :: sent :: received :: answers⟩,
            [.opened .netlinkRoute (alloc.next table)]⟩ := rfl
    have hfd : alloc.next table ∈ table ∪ {alloc.next table} :=
      Finset.mem_union_right _ (Finset.mem_singleton_self _)
    have hmust : (must (.ok (alloc.next table)) : SysM ℕ) = pure (alloc.next table) := rfl
    obtain ⟨h₁, t₁, hexchange⟩ := @exchange_answers _ ⟨alloc, table ∪ {alloc.next table},
      bound :: sent :: received :: answers⟩ _ _ _ _ hfd rfl request len
    obtain ⟨h₂, t₂, hclose⟩ := exists_close (alloc.next table) h₁
    rw [bind_done hopen, hmust, Process.pure_bind, Run.outcome_after, bind_done hexchange,
      Run.outcome_after, bind_done hclose, Run.outcome_after, outcome_conclude]
    rfl

theorem getCanStateRaw_given (hos : Given os resolved opened bound sent received)
    (idx : UInt32) : getCanStateRaw e idx os.netlink = concluded rbufLen (parseReply e)
      (opened.bind fun _ => bound.bind fun _ => sent.bind fun _ => received) := by
  unfold getCanStateRaw
  rw [hos.socket, hos.bind, hos.sendto, hos.recv]
  cases opened with
  | error err => rfl
  | ok _ =>
    cases bound with
    | error err => rfl
    | ok _ =>
      cases sent with
      | error err => rfl
      | ok _ => cases received <;> rfl

/-- The query over system calls and the query on their answers have the same result. -/
theorem outcome_state (hos : Given os resolved opened bound sent received)
    (ha : h.answers = resolved :: opened :: bound :: sent :: received :: answers) :
    (state e iface h).outcome = ending (iface.state e os) := by
  unfold state index Interface.state Interface.index
  split
  · rfl
  · rw [hos.index]
    rcases h with ⟨alloc, table, _⟩
    obtain rfl := ha
    cases resolved with
    | error err => rfl
    | ok reply =>
      have hindex : (do must (← ifNameToIndex iface.name) : SysM UInt32)
          ⟨alloc, table, .ok reply :: opened :: bound :: sent :: received :: answers⟩ =
            ⟨.done (.ofNat reply.value), ⟨alloc, table,
              opened :: bound :: sent :: received :: answers⟩,
              [.resolved iface.name (.ok reply)]⟩ := rfl
      have hraw : (getCanState e (.ofNat reply.value) ⟨alloc, table,
          opened :: bound :: sent :: received :: answers⟩).outcome =
            ending (getCanStateRaw e (.ofNat reply.value) os.netlink) := by
        rw [getCanStateRaw_given hos]
        exact outcome_transact rfl
      rw [bind_done hindex, Run.outcome_after]
      exact outcome_map (·.bind CanState.fromRaw) hraw

end Query

end Mcanbus.Sys
