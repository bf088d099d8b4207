import Mcanbus.Iface.Attributes
import Mcanbus.Sys.Link

/-! # Bringing links up and down

The kernel grants or denies the requests that it is sent and acknowledges what
it did; a query it answers with a message about the link. A program that is told
of success has changed the flag of its interface and nothing else, and whatever
happens no other flag and no other link changes.
-/

namespace Mcanbus.Sys

open Rust Effect Effect.Process Transition Iface

/-- What a request is answered with: an acknowledgement with an error number, or a message about
the link. -/
inductive Owed
  | ack (errno : UInt32)
  | link
  deriving DecidableEq, Repr

/-- The bytes are the answer that is owed. -/
def Owed.Pays (e : Endian) (bytes : List UInt8) : Owed → Prop
  | .ack errno => IsAck e bytes errno
  | .link => IsLinkMessage e bytes

/-- A link of the kernel, and the answer that is owed. -/
structure Peer where
  link : Link
  owed : Option Owed

/-- The event neither delivers a request nor an acknowledgement. -/
def Event.Silent : Event → Prop
  | .called _ (.sendto _) (.ok _) => False
  | .called _ (.recv _) (.ok _) => False
  | _ => True

/-- What the kernel may do on an event. The message about a link is followed by the acknowledgement
of the query. -/
inductive Peer.Step (e : Endian) : Peer → Event → Peer → Prop
  | granted {p : Peer} {fd : ℕ} {bytes : List UInt8} {reply : Reply} :
      Step e p (.called fd (.sendto bytes) (.ok reply)) ⟨p.link.grant e bytes, some (.ack 0)⟩
  | denied {p : Peer} {fd : ℕ} {bytes : List UInt8} {reply : Reply} {errno : UInt32} : errno ≠ 0 →
      Step e p (.called fd (.sendto bytes) (.ok reply)) ⟨p.link, some (.ack errno)⟩
  | queried {p : Peer} {fd : ℕ} {bytes : List UInt8} {reply : Reply} : IsQuery e bytes →
      Step e p (.called fd (.sendto bytes) (.ok reply)) ⟨p.link, some .link⟩
  | acknowledged {p : Peer} {fd len : ℕ} {reply : Reply} {errno : UInt32} :
      p.owed = some (.ack errno) → IsAck e (reply.data.take len) errno →
      Step e p (.called fd (.recv len) (.ok reply)) ⟨p.link, none⟩
  | reported {p : Peer} {fd len : ℕ} {reply : Reply} :
      p.owed = some .link → IsLinkMessage e (reply.data.take len) →
      Step e p (.called fd (.recv len) (.ok reply)) ⟨p.link, some (.ack 0)⟩
  | silent {p : Peer} {event : Event} : event.Silent → Step e p event p

variable {α β : Type} {e : Endian} {fd len : ℕ} {request : List UInt8} {c : Call} {ifindex : UInt32}
  {parse : List UInt8 → Checked (Except IoError α)} {iface : Interface} {up : Bool}
  {p q : Peer} {event : Event} {t : List Event} {m : SysM α}

/-- The outcome and the states of the kernel before and after are in the relation. -/
abbrev SysM.Drives (e : Endian) (m : SysM α) (Φ : Outcome IoError α → Peer → Peer → Prop) : Prop :=
  Process.Drives (Peer.Step e) m Φ

theorem Peer.step_silent (he : event.Silent) (h : Peer.Step e p event q) : q = p := by
  cases h with
  | granted | denied | queried | acknowledged | reported => exact he.elim
  | silent => rfl

theorem Peer.runs_silent (ht : ∀ event ∈ t, event.Silent) (h : Runs (Peer.Step e) p t q) :
    q = p := by
  induction h with
  | nil => rfl
  | cons hs _ ih =>
    obtain ⟨he, hes⟩ := List.forall_mem_cons.mp ht
    rw [ih hes, step_silent he hs]

/-- A process without requests leaves the kernel as it is. -/
theorem drives_silent (hm : Traces m fun _ t => ∀ event ∈ t, event.Silent) :
    SysM.Drives e m fun _ p q => q = p :=
  Traces.mono hm fun _ _ ht _ _ hr => Peer.runs_silent ht hr

/-! ### The calls -/

theorem drives_socket (kind : SocketKind) : SysM.Drives e (socket kind) fun _ p q => q = p := by
  refine drives_silent fun h => ?_
  unfold socket
  split <;> simp [Event.Silent]

theorem drives_close (fd : ℕ) : SysM.Drives e (close fd) fun _ p q => q = p := by
  refine drives_silent fun h => ?_
  unfold close
  split <;> simp [Event.Silent]

theorem drives_sleep (duration : ℕ) : SysM.Drives e (sleep duration) fun _ p q => q = p :=
  drives_silent fun _ => by simp [sleep, Event.Silent]

theorem drives_must (r : Except Errno α) :
    SysM.Drives e (must r) fun o p q => q = p ∧ ∀ a, o = .done a → r = .ok a := by
  cases r with
  | error err => exact Drives.halt fun _ => ⟨rfl, nofun⟩
  | ok a =>
    refine Drives.pure fun _ => ⟨rfl, ?_⟩
    rintro _ ⟨⟩
    rfl

/-- The ways in which a call runs. -/
theorem call_cases (fd : ℕ) (c : Call) (h : Host) :
    (∃ answer h', call fd c h = ⟨.done answer, h', [.called fd c answer]⟩) ∨
    call fd c h = ⟨.done (.error ebadf), h, [.misused fd]⟩ ∨
    call fd c h = ⟨.halted .pending, h, []⟩ := by
  unfold call
  split
  · split
    · exact .inr (.inr rfl)
    · exact .inl ⟨_, _, rfl⟩
  · exact .inr (.inl rfl)

/-- A call changes the kernel when it succeeds, and only then. -/
theorem drives_call {Φ : Reply → Peer → Peer → Prop}
    (hok : ∀ reply p q, Peer.Step e p (.called fd c (.ok reply)) q → Φ reply p q) :
    SysM.Drives e (call fd c) fun o p q => match o with
      | .done (.ok reply) => Φ reply p q
      | _ => q = p := by
  intro h p q hr
  obtain ⟨answer, h', hc⟩ | hc | hc := call_cases fd c h <;> rw [hc] at hr ⊢
  · cases hr with
    | cons hs hn =>
      cases hn
      cases answer with
      | ok reply => exact hok reply p q hs
      | error err =>
        refine Peer.step_silent ?_ hs
        cases c <;> trivial
  · exact Peer.runs_silent (by simp [Event.Silent]) hr
  · cases hr
    rfl

theorem drives_bindNetlink (fd : ℕ) : SysM.Drives e (call fd .bindNetlink) fun _ p q => q = p := by
  refine (drives_call (Φ := fun _ p q => q = p) fun reply p q hs => ?_).mono ?_
  · exact Peer.step_silent (show Event.Silent (.called fd .bindNetlink (.ok reply)) from trivial) hs
  · rintro ((_ | reply) | h) p q hq <;> exact hq

/-- The link after a request that is answered so. -/
def Peer.after (e : Endian) (p : Peer) (request : List UInt8) (owed : Owed) : Link :=
  if owed = .ack 0 then p.link.grant e request else p.link

/-- A request is granted or denied, or it is a query. -/
theorem drives_sendto (fd : ℕ) (bytes : List UInt8) :
    SysM.Drives e (call fd (.sendto bytes)) fun o p q => match o with
      | .done (.ok _) => ∃ owed, q.owed = some owed ∧ q.link = p.after e bytes owed
      | _ => q = p := by
  refine drives_call fun reply p q hs => ?_
  cases hs with
  | granted => exact ⟨.ack 0, rfl, (if_pos rfl).symm⟩
  | denied he => exact ⟨.ack _, rfl, (if_neg fun h => he (Owed.ack.inj h)).symm⟩
  | queried => exact ⟨.link, rfl, (if_neg (by decide)).symm⟩
  | silent h => exact h.elim

/-- What is received is the answer that is owed. -/
def Received (e : Endian) (len : ℕ) (o : Outcome IoError (Except Errno Reply)) (p q : Peer) :
    Prop :=
  match o with
  | .done (.ok reply) => q.link = p.link ∧
      ∃ owed, p.owed = some owed ∧ owed.Pays e (reply.data.take len)
  | _ => q = p

theorem drives_recv (fd len : ℕ) : SysM.Drives e (call fd (.recv len)) (Received e len) := by
  refine drives_call fun reply p q hs => ?_
  cases hs with
  | acknowledged ho ha => exact ⟨rfl, _, ho, ha⟩
  | reported ho hm => exact ⟨rfl, _, ho, hm⟩
  | silent h => exact h.elim

theorem drives_index (iface : Interface) : SysM.Drives e (index iface) fun _ p q => q = p := by
  unfold index
  split
  · exact Drives.halt fun _ => rfl
  · refine Drives.bind (drives_silent fun h => ?_) (fun r => drives_must r) ?_ fun _ _ _ h => h
    · unfold ifNameToIndex
      split <;> simp [Event.Silent]
    · rintro r o p q s rfl ⟨rfl, -⟩
      rfl

/-! ### Transactions -/

/-- The link is as it was, or as after the request. -/
def Kept (e : Endian) (request : List UInt8) (p q : Peer) : Prop :=
  q.link = p.link ∨ q.link = p.link.grant e request

/-- An answer tells what was done. -/
def Acknowledges (e : Endian) (request : List UInt8) (len : ℕ) (reply : Reply) (p q : Peer) :
    Prop :=
  ∃ owed, Owed.Pays e (reply.data.take len) owed ∧ q.link = p.after e request owed

theorem kept_of_after {owed : Owed} (h : q.link = p.after e request owed) :
    Kept e request p q := by
  rw [Peer.after] at h
  split at h
  · exact .inr h
  · exact .inl h

/-- What follows the answer to a request: nothing when it could not be sent. -/
def Answered (e : Endian) (len : ℕ) (r : Except Errno Reply)
    (o : Outcome IoError (Except Errno Reply)) (p q : Peer) : Prop :=
  match r with
  | .error _ => q = p ∧ ∀ reply, o ≠ .done (.ok reply)
  | .ok _ => Received e len o p q

theorem drives_exchange (fd : ℕ) (request : List UInt8) (len : ℕ) :
    SysM.Drives e (exchange fd request len) fun o p q => Kept e request p q ∧
      ∀ reply, o = .done (.ok reply) → Acknowledges e request len reply p q := by
  refine Drives.bind (Θ := fun _ o p q => Kept e request p q ∧
    ∀ reply, o = .done (.ok reply) → Acknowledges e request len reply p q)
    (drives_bindNetlink fd) ?_ ?_ ?_
  · rintro (err | _)
    · exact Drives.pure fun _ => ⟨.inl rfl, by rintro _ ⟨⟩⟩
    · refine Drives.bind (Θ := Answered e len) (drives_sendto fd request) ?_ ?_ ?_
      · rintro (err | _)
        · exact Drives.pure fun _ => ⟨rfl, by rintro _ ⟨⟩⟩
        · exact drives_recv fd len
      · rintro (err | _) o p q s hq hs
        · obtain ⟨rfl, ho⟩ := hs
          exact ⟨.inl (congrArg Peer.link hq), fun reply hr => absurd hr (ho reply)⟩
        · obtain ⟨owed, howed, hlink⟩ := hq
          rcases o with (err | reply) | h
          · rw [show s = q from hs]
            exact ⟨kept_of_after hlink, by rintro _ ⟨⟩⟩
          · obtain ⟨hsame, owed', howed', hpays⟩ := hs
            obtain rfl : owed = owed' := Option.some.inj (howed.symm.trans howed')
            rw [← hsame] at hlink
            refine ⟨kept_of_after hlink, ?_⟩
            rintro _ ⟨⟩
            exact ⟨owed, hpays, hlink⟩
          · rw [show s = q from hs]
            exact ⟨kept_of_after hlink, by rintro _ ⟨⟩⟩
      · rintro h p q hq
        exact ⟨.inl (congrArg Peer.link hq), by rintro _ ⟨⟩⟩
  · rintro r o p q s rfl hs
    exact hs
  · rintro h p q rfl
    exact ⟨.inl rfl, by rintro _ ⟨⟩⟩

theorem drives_ofExcept (r : Except IoError α) :
    SysM.Drives e (ofExcept r) fun o p q => q = p ∧ ∀ a, o = .done a → r = .ok a := by
  cases r with
  | error err => exact Drives.halt fun _ => ⟨rfl, nofun⟩
  | ok a =>
    refine Drives.pure fun _ => ⟨rfl, ?_⟩
    rintro _ ⟨⟩
    rfl

/-- What is read of an answer. -/
theorem drives_read (answer : Except Errno Reply) : SysM.Drives e (do
    let reply ← must answer
    let result ← parse (reply.data.take len)
    ofExcept result : SysM α) fun o p q => q = p ∧ ∀ a, o = .done a →
      ∃ reply, answer = .ok reply ∧ parse (reply.data.take len) = .ok (.ok a) := by
  cases answer with
  | error err => exact Drives.halt fun _ => ⟨rfl, nofun⟩
  | ok reply =>
    have hparse : SysM.Drives e (ofChecked (parse (reply.data.take len)) : SysM _) fun o p q =>
        q = p ∧ ∀ r, o = .done r → parse (reply.data.take len) = .ok r := by
      refine Drives.ofChecked (fun r hr p => ⟨rfl, ?_⟩) fun _ _ => ⟨rfl, nofun⟩
      rintro _ ⟨⟩
      exact hr
    change SysM.Drives e (ofChecked (parse (reply.data.take len)) >>= fun r => ofExcept r) _
    refine Drives.bind hparse (fun r => drives_ofExcept r) ?_ ?_
    · rintro r o p q s ⟨rfl, hr⟩ ⟨rfl, ho⟩
      refine ⟨rfl, fun a ha => ⟨reply, rfl, ?_⟩⟩
      rw [hr r rfl, ho a ha]
    · rintro h p q ⟨rfl, -⟩
      exact ⟨rfl, nofun⟩

/-- A transaction changes what its request asks for, and a value tells whether it was granted. -/
theorem drives_transact : SysM.Drives e (transact request len parse) fun o p q =>
    Kept e request p q ∧ ∀ a, o = .done a → ∃ reply, Acknowledges e request len reply p q ∧
      parse (reply.data.take len) = .ok (.ok a) := by
  have hbody : ∀ fd, SysM.Drives e (do
      let answer ← exchange fd request len
      close fd
      let reply ← must answer
      let result ← parse (reply.data.take len)
      ofExcept result : SysM α) fun o p q => Kept e request p q ∧
        ∀ a, o = .done a → ∃ reply, Acknowledges e request len reply p q ∧
          parse (reply.data.take len) = .ok (.ok a) := by
    intro fd
    refine Drives.bind (Θ := fun answer o p q => q = p ∧ ∀ a, o = .done a →
      ∃ reply, answer = .ok reply ∧ parse (reply.data.take len) = .ok (.ok a))
      (drives_exchange fd request len) (fun answer => ?_) ?_ ?_
    · refine Drives.bind (drives_close fd) (fun _ => drives_read answer) ?_ fun _ _ _ h =>
        ⟨h, nofun⟩
      rintro _ o p q s rfl hs
      exact hs
    · rintro answer o p q s ⟨hkept, hack⟩ ⟨rfl, ho⟩
      refine ⟨hkept, fun a ha => ?_⟩
      obtain ⟨reply, rfl, hparse⟩ := ho a ha
      exact ⟨reply, hack reply rfl, hparse⟩
    · rintro h p q ⟨hkept, -⟩
      exact ⟨hkept, nofun⟩
  refine Drives.bind (drives_socket .netlinkRoute) (fun r => Drives.bind (drives_must r) hbody
    (Ψ := fun o p q => Kept e request p q ∧ ∀ a, o = .done a → ∃ reply,
      Acknowledges e request len reply p q ∧ parse (reply.data.take len) = .ok (.ok a)) ?_ ?_) ?_ ?_
  · rintro fd o p q s ⟨rfl, -⟩ hs
    exact hs
  · rintro h p q ⟨rfl, -⟩
    exact ⟨.inl rfl, nofun⟩
  · rintro r o p q s rfl hs
    exact hs
  · rintro h p q rfl
    exact ⟨.inl rfl, nofun⟩

/-- An interface that was brought up or down as the program is told, and no other. -/
theorem drives_nlSetIfaceUp (ifindex : UInt32) (up : Bool) :
    SysM.Drives e (nlSetIfaceUp e ifindex up) fun o p q =>
      (q.link = p.link ∨ q.link = if ifindex = p.link.index then p.link.set up else p.link) ∧
      (o = .done () → q.link = if ifindex = p.link.index then p.link.set up else p.link) := by
  refine drives_transact.mono ?_
  rintro o p q ⟨hkept, hdone⟩
  rw [Kept, grant_newLinkRequest] at hkept
  refine ⟨hkept, fun ho => ?_⟩
  obtain ⟨reply, ⟨owed, hpays, hlink⟩, hparse⟩ := hdone () ho
  have hzero : owed = .ack 0 := by
    cases owed with
    | link => exact absurd hparse (parseAck_isLinkMessage hpays)
    | ack errno =>
      rw [parseAck_isAck hpays] at hparse
      by_contra hne
      rw [if_neg fun h => hne (congrArg Owed.ack (toI32_eq_zero.mp h))] at hparse
      cases hneg : negI32 (toI32 errno) <;> rw [hneg] at hparse <;> cases hparse
  rw [hlink, Peer.after, if_pos hzero, grant_newLinkRequest]

theorem drives_state (iface : Interface) :
    SysM.Drives e (state e iface) fun _ p q => q.link = p.link := by
  have hquery : ∀ ifindex, SysM.Drives e (getCanState e ifindex) fun _ p q => q.link = p.link := by
    refine fun ifindex => drives_transact.mono ?_
    rintro o p q ⟨hkept | hkept, -⟩
    · exact hkept
    · rw [hkept, grant_isQuery (isQuery_linkRequest ifindex)]
  refine Drives.bind (drives_index iface) (fun idx => Drives.bind (hquery idx)
    (Θ := fun _ _ p q => q = p) (Ψ := fun _ p q => q.link = p.link)
    (fun raw => Drives.pure fun _ => rfl) ?_ fun _ _ _ h => h) ?_ ?_
  · rintro raw o p q r hq rfl
    exact hq
  · rintro idx o p q r rfl hr
    exact hr
  · rintro h p q rfl
    rfl

/-! ### The flag of an interface -/

/-- The index to which a process has resolved its name at first. -/
def resolvedIndex : List Event → Option UInt32
  | .resolved _ (.ok reply) :: _ => some (.ofNat reply.value)
  | _ => none

theorem index_cases (iface : Interface) (h : Host) :
    (∃ idx h' event, index iface h = ⟨.done idx, h', [event]⟩ ∧ event.Silent ∧
      ∀ t, resolvedIndex (event :: t) = some idx) ∨
    ∃ failure h' t, index iface h = ⟨.halted failure, h', t⟩ ∧ ∀ event ∈ t, event.Silent := by
  unfold index
  split
  · exact .inr ⟨_, _, _, rfl, nofun⟩
  · rcases ha : h.answers with _ | ⟨err | reply, answers⟩
    · have hn : ifNameToIndex iface.name h = ⟨.halted .pending, h, []⟩ := by
        unfold ifNameToIndex
        rw [ha]
      exact .inr ⟨_, _, _, bind_halted hn _, nofun⟩
    · have hn : ifNameToIndex iface.name h =
          ⟨.done (.error err), { h with answers }, [.resolved iface.name (.error err)]⟩ := by
        unfold ifNameToIndex
        rw [ha]
        rfl
      refine .inr ⟨_, _, [.resolved iface.name (.error err)], bind_done hn _, fun event he => ?_⟩
      obtain rfl := List.mem_singleton.mp he
      trivial
    · have hn : ifNameToIndex iface.name h = ⟨.done (.ok (.ofNat reply.value)),
          { h with answers }, [.resolved iface.name (.ok reply)]⟩ := by
        unfold ifNameToIndex
        rw [ha]
        rfl
      exact .inl ⟨_, _, _, bind_done hn _, trivial, fun _ => rfl⟩

theorem isUp_set (l : Link) (up : Bool) :
    Interface.isUp (.ok (l.set up).flagsFile) = .ok (some up) := by
  rw [isUp_flagsFile, set_and_up]
  cases up <;> rfl

/-- The link is as it was, or it has the index and its flag was set or cleared. -/
def Flagged (idx : UInt32) (p q : Peer) : Prop :=
  q.link = p.link ∨ idx = p.link.index ∧ ∃ up, q.link = p.link.set up

theorem Flagged.trans {idx : UInt32} {r : Peer} (hpq : Flagged idx p q) (hqr : Flagged idx q r) :
    Flagged idx p r := by
  rcases hpq with hpq | ⟨hidx, up, hpq⟩
  · rwa [Flagged, hpq] at hqr
  · refine .inr ⟨hidx, ?_⟩
    rcases hqr with hqr | ⟨-, up', hqr⟩
    · exact ⟨up, hqr.trans hpq⟩
    · exact ⟨up', by rw [hqr, hpq, set_set]⟩

/-- The flag of the interface is all that may change, and success tells its value. -/
structure Controlled (up : Bool) (run : Run Host IoError Event Unit) (p q : Peer) : Prop where
  index_eq : q.link.index = p.link.index
  flags_eq : q.link.flags &&& ~~~iffUp = p.link.flags &&& ~~~iffUp
  other : resolvedIndex run.trace ≠ some p.link.index → q.link = p.link
  done : run.outcome = .done () → resolvedIndex run.trace = some p.link.index →
    Interface.isUp (.ok q.link.flagsFile) = .ok (some up)

/-- What a process does once it has the index of the interface. -/
def Controls (e : Endian) (up : Bool) (idx : UInt32) (m : SysM Unit) : Prop :=
  SysM.Drives e m fun o p q => Flagged idx p q ∧
    (o = .done () → idx = p.link.index → q.link = p.link.set up)

theorem controlled_of_controls {k : UInt32 → SysM Unit} (hk : ∀ idx, Controls e up idx (k idx))
    (h : Host) (hr : Runs (Peer.Step e) p (((index iface) >>= k) h).trace q) :
    Controlled up (((index iface) >>= k) h) p q := by
  obtain ⟨idx, h', event, hi, hsilent, hres⟩ | ⟨failure, h', t, hi, hsilent⟩ := index_cases iface h
  · rw [bind_done hi] at hr ⊢
    rw [Run.trace_after, List.singleton_append] at hr
    cases hr with
    | cons hs hr =>
      obtain rfl := Peer.step_silent hsilent hs
      obtain ⟨hflag, hdone⟩ := hk idx h' _ _ hr
      refine ⟨?_, ?_, ?_, ?_⟩
      · rcases hflag with hq | ⟨-, up', hq⟩ <;> rw [hq]
        rfl
      · rcases hflag with hq | ⟨-, up', hq⟩ <;> rw [hq]
        exact set_and_not _ _
      · intro hne
        rw [Run.trace_after, List.singleton_append, hres] at hne
        exact hflag.resolve_right fun hq => hne (congrArg some hq.1)
      · intro ho heq
        rw [Run.trace_after, List.singleton_append, hres] at heq
        rw [hdone ho (Option.some.inj heq), isUp_set]
  · rw [bind_halted hi] at hr ⊢
    obtain rfl := Peer.runs_silent hsilent hr
    exact ⟨rfl, rfl, fun _ => rfl, nofun⟩

theorem controls_nlSetIfaceUp (idx : UInt32) (up : Bool) :
    Controls e up idx (nlSetIfaceUp e idx up) := by
  refine (drives_nlSetIfaceUp idx up).mono ?_
  rintro o p q ⟨hkept, hdone⟩
  refine ⟨?_, fun ho hidx => by rw [hdone ho, if_pos hidx]⟩
  split at hkept
  case isTrue hidx => exact hkept.imp id fun hq => ⟨hidx, up, hq⟩
  case isFalse => exact .inl (hkept.elim id id)

theorem controls_cycle (idx : UInt32) : Controls e true idx (do
    nlSetIfaceUp e idx false
    sleep settleTime
    nlSetIfaceUp e idx true) := by
  have hup : Controls e true idx (do sleep settleTime; nlSetIfaceUp e idx true) := by
    refine Drives.bind (drives_sleep settleTime) (fun _ => controls_nlSetIfaceUp idx true) ?_ ?_
    · rintro _ o p q r rfl hr
      exact hr
    · rintro h p q rfl
      exact ⟨.inl rfl, nofun⟩
  refine Drives.bind (controls_nlSetIfaceUp idx false) (fun _ => hup) ?_ ?_
  · rintro _ o p q r ⟨hdown, hset⟩ ⟨hflag, hdone⟩
    refine ⟨hdown.trans hflag, fun ho hidx => ?_⟩
    have hq := hset rfl hidx
    rw [hdone ho (by rw [hq]; exact hidx), hq, set_set]
  · rintro h p q ⟨hdown, -⟩
    exact ⟨hdown, nofun⟩

/-- A cycle that succeeds has waited while the link was down. -/
theorem cycle_waits {h h' : Host} (hdone : cycle e iface h = ⟨.done (), h', t⟩)
    (hidx : resolvedIndex t = some p.link.index) (hr : Runs (Peer.Step e) p t q) :
    ∃ t₁ t₂ mid, t = t₁ ++ .slept settleTime :: t₂ ∧ Runs (Peer.Step e) p t₁ mid ∧
      Runs (Peer.Step e) mid t₂ q ∧ Interface.isUp (.ok mid.link.flagsFile) = .ok (some false) := by
  obtain ⟨idx, h₁, event, hi, hsilent, hres⟩ | ⟨failure, h₁, t₁, hi, hsilent⟩ := index_cases iface h
  · obtain ⟨idx', h₂, u, v, hi', hrest, rfl⟩ := bind_eq_done hdone
    rw [hi] at hi'
    cases hi'
    obtain ⟨_, h₃, t₁, w, hdown, hrest', rfl⟩ := bind_eq_done hrest
    obtain ⟨_, h₄, t₂, x, hsleep, hup, rfl⟩ := bind_eq_done hrest'
    cases hsleep
    have hhead : idx = p.link.index := by
      rw [List.singleton_append, hres] at hidx
      exact Option.some.inj hidx
    obtain ⟨mid', hevent, hr'⟩ := Runs.append_iff.mp hr
    obtain rfl := Peer.runs_silent (fun e he => List.mem_singleton.mp he ▸ hsilent) hevent
    obtain ⟨mid, hmid, hr''⟩ := Runs.append_iff.mp hr'
    have hset := (controls_nlSetIfaceUp (e := e) idx false h₁ mid' mid
      (by rw [hdown]; exact hmid)).2 (by rw [hdown]) hhead
    cases hr'' with
    | cons hs hr₂ =>
      obtain rfl := Peer.step_silent (show Event.Silent (.slept settleTime) from trivial) hs
      exact ⟨[event] ++ t₁, x, _, by simp, hevent.append hmid, hr₂, by rw [hset, isUp_set]⟩
  · rw [cycle, bind_halted hi] at hdone
    cases hdone

/-! ### An interface that is cycled, and one that is bus-off -/

/-- A header of the type `nlmsgError`, and the error number zero. -/
def ackBytes : List UInt8 := List.replicate 4 0 ++ [2, 0] ++ List.replicate 14 0

/-- A host on which the interface has the index 5 and every request is acknowledged. -/
def ackHost : Host := ⟨.lowest, {0, 1, 2}, List.replicate 9 (.ok ⟨5, ackBytes⟩)⟩

theorem isAck_ackBytes : IsAck .little (ackBytes.take ackLen) 0 :=
  ⟨by decide, by decide, by decide⟩

/-- What is left to answer when the index of the interface is known. -/
def queriedHost : Host :=
  ⟨.lowest, {0, 1, 2}, List.replicate 3 (.ok ⟨5, []⟩) ++ [.ok ⟨0, BusOff.reply.message⟩]⟩

/-- A host on which the interface has the index 5 and a controller that is bus-off. -/
def busOffHost : Host := { queriedHost with answers := .ok ⟨5, []⟩ :: queriedHost.answers }

def busOffCalls : List Event :=
  [.opened .netlinkRoute 3, .called 3 .bindNetlink (.ok ⟨5, []⟩),
    .called 3 (.sendto (linkRequest .little 5)) (.ok ⟨5, []⟩),
    .called 3 (.recv rbufLen) (.ok ⟨0, BusOff.reply.message⟩), .closed 3]

/-- The query tells that the controller is bus-off. -/
theorem state_busOffHost : ∃ h, state .little ⟨"can0"⟩ busOffHost =
    ⟨.done (some .BusOff), h, .resolved "can0" (.ok ⟨5, []⟩) :: busOffCalls⟩ := by
  have hindex : index ⟨"can0"⟩ busOffHost =
      ⟨.done 5, queriedHost, [.resolved "can0" (.ok ⟨5, []⟩)]⟩ := rfl
  have hquery : getCanState .little 5 queriedHost =
      ⟨.done (some 3), ⟨.lowest, {0, 1, 2}, []⟩, busOffCalls⟩ := by
    obtain ⟨o, ho, hiff⟩ := BusOff.reply.parseReply_iff
    change ((((ofChecked (parseReply .little (BusOff.reply.message.take rbufLen)) >>=
      fun r => ofExcept r : SysM _) _).after [.closed 3]).after _).after [.opened .netlinkRoute 3] =
        _
    rw [BusOff.reply.take_message, ho, (hiff 3).mpr BusOff.hasState_reply]
    rfl
  rw [state, bind_done hindex, bind_done hquery]
  exact ⟨_, rfl⟩

theorem runs_busOffHost (link : Link) : Runs (Peer.Step .little) ⟨link, none⟩
    (state .little ⟨"can0"⟩ busOffHost).trace ⟨link, some (.ack 0)⟩ := by
  obtain ⟨h, hrun⟩ := state_busOffHost
  have hmessage : IsLinkMessage .little (BusOff.reply.message.take rbufLen) := by
    rw [BusOff.reply.take_message, IsLinkMessage, BusOff.reply.readU16_message]
    rfl
  rw [hrun]
  refine .cons (.silent trivial) (.cons (.silent trivial) (.cons (.silent trivial) ?_))
  refine .cons (.queried (isQuery_linkRequest 5)) (.cons (.reported rfl hmessage) ?_)
  exact .cons (.silent trivial) (.nil _)

/-- Whatever the kernel grants or denies, an operation on an interface changes at most the flag of
its link; if it succeeds the flag reads back as asked, and a cycle has waited while the link was
down. A query changes nothing. -/
theorem operations_controlled (e : Endian) (iface : Interface) (h : Host) (p q : Peer) :
    (Runs (Peer.Step e) p (setUp e iface h).trace q → Controlled true (setUp e iface h) p q) ∧
    (Runs (Peer.Step e) p (setDown e iface h).trace q → Controlled false (setDown e iface h) p q) ∧
    (Runs (Peer.Step e) p (cycle e iface h).trace q → Controlled true (cycle e iface h) p q ∧
      ((cycle e iface h).outcome = .done () →
        resolvedIndex (cycle e iface h).trace = some p.link.index → ∃ t₁ t₂ mid,
          (cycle e iface h).trace = t₁ ++ .slept settleTime :: t₂ ∧ Runs (Peer.Step e) p t₁ mid ∧
          Runs (Peer.Step e) mid t₂ q ∧
          Interface.isUp (.ok mid.link.flagsFile) = .ok (some false))) ∧
    (Runs (Peer.Step e) p (state e iface h).trace q → q.link = p.link) := by
  refine ⟨?_, ?_, fun hr => ⟨?_, fun ho hidx => ?_⟩, drives_state iface h p q⟩
  · exact controlled_of_controls (fun idx => controls_nlSetIfaceUp idx true) h
  · exact controlled_of_controls (fun idx => controls_nlSetIfaceUp idx false) h
  · exact controlled_of_controls controls_cycle h hr
  · rcases hc : cycle e iface h with ⟨o, h', t⟩
    rw [hc] at ho hidx hr
    obtain rfl : o = .done () := ho
    exact cycle_waits hc hidx hr

theorem operations_controlled_cycle :
    let link : Link := ⟨5, 0x10C1⟩
    let run := cycle .little ⟨"can0"⟩ ackHost
    let query := state .little ⟨"can0"⟩ busOffHost
    (run.outcome = .done () ∧
      Controlled true run ⟨link, none⟩ ⟨(link.grant .little (newLinkRequest .little 5 false)).grant
        .little (newLinkRequest .little 5 true), none⟩) ∧
    query.outcome = .done (some .BusOff) ∧
      ∃ q, Runs (Peer.Step .little) ⟨link, none⟩ query.trace q ∧ q.link = link := by
  refine ⟨⟨rfl, ((operations_controlled .little ⟨"can0"⟩ ackHost _ _).2.2.1 ?_).1⟩, ?_, _,
    runs_busOffHost _, (operations_controlled .little ⟨"can0"⟩ busOffHost _ _).2.2.2
      (runs_busOffHost _)⟩
  · refine .cons (.silent trivial) (.cons (.silent trivial) (.cons (.silent trivial) ?_))
    refine .cons .granted (.cons (.acknowledged rfl isAck_ackBytes) (.cons (.silent trivial) ?_))
    refine .cons (.silent trivial) (.cons (.silent trivial) (.cons (.silent trivial) ?_))
    refine .cons .granted (.cons (.acknowledged rfl isAck_ackBytes) ?_)
    exact .cons (.silent trivial) (.nil _)
  · obtain ⟨h, hrun⟩ := state_busOffHost
    exact congrArg Run.outcome hrun

end Mcanbus.Sys
