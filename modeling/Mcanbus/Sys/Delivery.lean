import Mcanbus.Sys.Open

/-! # What a socket delivers

While a socket is being opened frames arrive on the buses, between any two
system calls. The kernel keeps the settings of the socket and queues the frames
that they ask for once it is bound.
-/

namespace Mcanbus.Sys

open Rust Effect Effect.Process

/-- A frame on a bus: the interface, the identifier word, and whether it is an FD frame. -/
structure Arrival where
  ifindex : ℕ
  canId : UInt32
  fd : Bool
  deriving DecidableEq, Repr

/-- The settings of a socket and its queue. -/
structure Port where
  filters : List CanFilter
  errMask : UInt32
  fdFrames : Bool
  bound : Option ℕ
  queue : List Arrival
  deriving DecidableEq, Repr

/-- A system call with its answer, or a frame on a bus. -/
inductive Occurrence
  | event (e : Event)
  | arrival (a : Arrival)

/-- Error frames are subject to the error mask, all others to the filters. -/
def passes (filters : List CanFilter) (errMask canId : UInt32) : Prop :=
  if canId &&& canErrFlag ≠ 0 then canId &&& canErrMask &&& errMask ≠ 0
  else Delivers filters canId

instance (filters : List CanFilter) (errMask : UInt32) : DecidablePred (passes filters errMask) :=
  fun canId => inferInstanceAs (Decidable (if canId &&& canErrFlag ≠ 0 then
    canId &&& canErrMask &&& errMask ≠ 0 else Delivers filters canId))

namespace Port

/-- A socket that was just created. -/
def fresh : Port := ⟨[⟨0, 0⟩], 0, false, none, []⟩

/-- What a call changes when it succeeds. -/
def call (p : Port) : Call → Port
  | .setOption (.filter entries) => { p with filters := entries }
  | .setOption (.errFilter mask) => { p with errMask := mask }
  | .setOption (.fdFrames enable) => { p with fdFrames := enable ≠ 0 }
  | .bindCan ifindex => { p with bound := some ifindex }
  | _ => p

/-- The frame is queued. -/
def Accepts (p : Port) (a : Arrival) : Prop :=
  p.bound = some a.ifindex ∧ (a.fd → p.fdFrames) ∧ passes p.filters p.errMask a.canId

instance (p : Port) : DecidablePred p.Accepts := fun a =>
  inferInstanceAs (Decidable (p.bound = some a.ifindex ∧ (a.fd → p.fdFrames) ∧
    passes p.filters p.errMask a.canId))

/-- What an event does to the socket with the descriptor. -/
def event (fd : ℕ) (p : Port) : Event → Port
  | .opened _ fd' => if fd' = fd then fresh else p
  | .called fd' c (.ok _) => if fd' = fd then p.call c else p
  | _ => p

def step (fd : ℕ) (p : Port) : Occurrence → Port
  | .event e => p.event fd e
  | .arrival a => if p.Accepts a then { p with queue := p.queue ++ [a] } else p

def run (fd : ℕ) (p : Port) (history : List Occurrence) : Port := history.foldl (step fd) p

end Port

/-- The system calls of a history. -/
def events (history : List Occurrence) : List Event := history.filterMap fun
  | .event e => some e
  | .arrival _ => none

/-- The frames of a history. -/
def arrivals (history : List Occurrence) : List Arrival := history.filterMap fun
  | .event _ => none
  | .arrival a => some a

/-- What the options ask for on the interface. -/
def Wanted (opts : OpenOpts) (sock : Socket) (ifindex : ℕ) (a : Arrival) : Prop :=
  a.ifindex = ifindex ∧ (a.fd → sock.fdRxEnabled) ∧
    if a.canId &&& canErrFlag ≠ 0 then
      ∃ mask ∈ opts.errorFilter, a.canId &&& canErrMask &&& mask ≠ 0
    else ∀ entries ∈ filterToApply opts, Delivers entries a.canId

instance (opts : OpenOpts) (sock : Socket) (ifindex : ℕ) :
    DecidablePred (Wanted opts sock ifindex) := fun a =>
  inferInstanceAs (Decidable (a.ifindex = ifindex ∧ (a.fd → sock.fdRxEnabled) ∧
    if a.canId &&& canErrFlag ≠ 0 then
      ∃ mask ∈ opts.errorFilter, a.canId &&& canErrMask &&& mask ≠ 0
    else ∀ entries ∈ filterToApply opts, Delivers entries a.canId))

/-- The event uses the socket with the descriptor, and changes no setting of it. -/
def Event.Uses (fd : ℕ) : Event → Prop
  | .opened _ fd' => fd' ≠ fd
  | .called fd' c _ => fd' = fd → c = .transfer
  | _ => True

/-- The event does not bind a socket. -/
def Event.Plain : Event → Prop
  | .called _ (.bindCan _) (.ok _) => False
  | _ => True

variable {fd ifindex : ℕ} {p : Port} {e : Event} {history : List Occurrence} {a : Arrival}
  {h h' : Host} {t : List Event} {opts : OpenOpts} {nameBytes : List UInt8}

/-! ### Histories -/

theorem events_append (b c : List Occurrence) : events (b ++ c) = events b ++ events c :=
  List.filterMap_append

theorem split_events {es es' : List Event} (hh : events history = es ++ e :: es') :
    ∃ b c, history = b ++ .event e :: c ∧ events b = es ∧ events c = es' := by
  induction history generalizing es with
  | nil => simp [events] at hh
  | cons o history ih =>
    cases o with
    | arrival a =>
      obtain ⟨b, c, rfl, hb, hc⟩ := ih hh
      exact ⟨.arrival a :: b, c, rfl, hb, hc⟩
    | event e' =>
      have hh' : e' :: events history = es ++ e :: es' := hh
      cases es with
      | nil =>
        obtain ⟨rfl, rfl⟩ := List.cons.inj hh'
        exact ⟨[], history, rfl, rfl, rfl⟩
      | cons e'' es =>
        obtain ⟨rfl, hrest⟩ := List.cons.inj hh'
        obtain ⟨b, c, rfl, hb, hc⟩ := ih hrest
        exact ⟨.event e' :: b, c, rfl, congrArg _ hb, hc⟩

namespace Port

theorem event_uses (hu : e.Uses fd) : p.event fd e = p := by
  unfold event
  split
  case h_1 kind fd' => exact if_neg hu
  case h_2 fd' c reply =>
    split
    case isTrue hfd =>
      rw [hu hfd]
      rfl
    case isFalse => rfl
  case h_3 => rfl

theorem event_bound (hp : p.bound = none) (he : e.Plain) : (p.event fd e).bound = none := by
  unfold event
  split
  case h_1 =>
    split
    · rfl
    · exact hp
  case h_2 fd' c reply =>
    split
    case isFalse => exact hp
    case isTrue =>
      unfold call
      split
      case h_4 => exact he.elim
      all_goals exact hp
  case h_3 => exact hp

/-- Nothing is queued before the socket is bound. -/
theorem run_unbound (hp : p.bound = none) (he : ∀ e ∈ events history, e.Plain) :
    p.run fd history = (events history).foldl (event fd) p ∧ (p.run fd history).bound = none := by
  induction history generalizing p with
  | nil => exact ⟨rfl, hp⟩
  | cons o history ih =>
    cases o with
    | event e =>
      have hall : ∀ e' ∈ e :: events history, e'.Plain := he
      obtain ⟨hplain, hrest⟩ := List.forall_mem_cons.mp hall
      exact ih (event_bound hp hplain) hrest
    | arrival a =>
      have hnot : ¬ p.Accepts a := by
        rintro ⟨hb, -⟩
        rw [hp] at hb
        exact nomatch hb
      have hstep : p.step fd (.arrival a) = p := if_neg hnot
      have hrun : p.run fd (.arrival a :: history) = p.run fd history := by
        unfold run
        rw [List.foldl_cons, hstep]
      rw [hrun]
      exact ih hp he

/-- A socket in use queues the frames that its settings ask for. -/
theorem run_uses (hu : ∀ e ∈ events history, e.Uses fd) :
    p.run fd history =
      { p with queue := p.queue ++ (arrivals history).filter fun a => p.Accepts a } := by
  induction history generalizing p with
  | nil => simp [run, arrivals]
  | cons o history ih =>
    cases o with
    | event e =>
      have hall : ∀ e' ∈ e :: events history, e'.Uses fd := hu
      obtain ⟨he, hrest⟩ := List.forall_mem_cons.mp hall
      have hstep : p.run fd (.event e :: history) = p.run fd history :=
        congrArg (run fd · history) (event_uses he)
      rw [hstep, ih hrest]
      rfl
    | arrival a =>
      have hrest : ∀ e ∈ events history, e.Uses fd := hu
      have harrivals : arrivals (.arrival a :: history) = a :: arrivals history := rfl
      have hstep : p.run fd (.arrival a :: history) =
        (if p.Accepts a then { p with queue := p.queue ++ [a] } else p).run fd history := rfl
      rw [hstep, ih hrest, harrivals, List.filter_cons]
      by_cases ha : p.Accepts a
      · simp only [ha, if_true, decide_true, List.append_assoc, List.singleton_append]
        rfl
      · simp only [ha, if_false, decide_false, Bool.false_eq_true]

end Port

/-! ### The settings -/

/-- The process binds no socket, and its events relate the port before and after as given for its
value. -/
def Sets {α : Type} (fd : ℕ) (m : SysM α) (R : α → Port → Port → Prop) : Prop :=
  Traces m fun o t => (∀ e ∈ t, e.Plain) ∧ ∀ a, o = .done a → ∀ p, R a p (t.foldl (Port.event fd) p)

namespace Sets

variable {α β : Type} {m : SysM α} {k : α → SysM β} {R : α → Port → Port → Prop}
  {S : β → Port → Port → Prop}

theorem pure {x : α} (hx : ∀ p, R x p p) : Sets fd (Pure.pure x) R := by
  refine Traces.pure ⟨nofun, ?_⟩
  rintro _ ⟨⟩ p
  exact hx p

theorem halt (h : Halt IoError) : Sets fd (Process.halt h []) R :=
  Traces.halt ⟨nofun, nofun⟩

theorem bind {G : α → β → Port → Port → Prop} (hm : Sets fd m R)
    (hk : ∀ x, Sets fd (k x) (G x)) (hG : ∀ x y p q r, R x p q → G x y q r → S y p r) :
    Sets fd (m >>= k) S := by
  refine Traces.bind hm ?_ ?_
  · rintro x t ⟨ht, hp⟩
    refine Traces.mono (hk x) ?_
    rintro o u ⟨hu, hq⟩
    refine ⟨fun e he => (List.mem_append.mp he).elim (ht e) (hu e), fun y ho p => ?_⟩
    rw [List.foldl_append]
    exact hG x y p _ _ (hp x rfl p) (hq y ho _)
  · rintro g t ⟨ht, -⟩
    exact ⟨ht, nofun⟩

/-- The first process leaves the port as it is. -/
theorem bind_same (hm : Sets fd m fun _ p q => q = p) (hk : ∀ x, Sets fd (k x) S) :
    Sets fd (m >>= k) S :=
  hm.bind (G := fun _ => S) hk (by rintro x y p q r rfl; exact id)

end Sets

/-- What the answer to a call does to the port. -/
def Port.Answered (c : Call) (r : Except Errno Reply) (p q : Port) : Prop :=
  q = match r with
    | .ok _ => p.call c
    | .error _ => p

theorem sets_call {c : Call} (hc : ∀ i, c ≠ .bindCan i) :
    Sets fd (call fd c) (Port.Answered c) := by
  intro h
  unfold call
  split
  case isFalse =>
    refine ⟨fun e he => List.mem_singleton.mp he ▸ trivial, ?_⟩
    rintro _ ⟨⟩ p
    rfl
  case isTrue =>
    rcases h.answers with _ | ⟨err | reply, answers⟩
    · exact ⟨nofun, nofun⟩
    · refine ⟨fun e he => List.mem_singleton.mp he ▸ ?_, ?_⟩
      · cases c <;> trivial
      · rintro _ ⟨⟩ p
        rfl
    · refine ⟨fun e he => List.mem_singleton.mp he ▸ ?_, ?_⟩
      · cases c with
        | bindCan i => exact absurd rfl (hc i)
        | _ => trivial
      · rintro _ ⟨⟩ p
        exact if_pos rfl

theorem sets_must_call {β : Type} {c : Call} (hc : ∀ i, c ≠ .bindCan i) {k : Reply → SysM β}
    {G S : β → Port → Port → Prop} (hk : ∀ reply, Sets fd (k reply) G)
    (hG : ∀ y p r, G y (p.call c) r → S y p r) :
    Sets fd (do let a ← must (← call fd c); k a) S := by
  refine (sets_call hc).bind (G := fun r y p q => ∃ reply, r = .ok reply ∧ G y p q) ?_ ?_
  · rintro (err | reply)
    · exact Sets.halt _
    · refine Traces.mono (hk reply) fun o t ht => ⟨ht.1, fun y ho p => ?_⟩
      exact ⟨reply, rfl, ht.2 y ho p⟩
  · rintro r y p q s hq ⟨reply, rfl, hs⟩
    rw [show q = p.call c from hq] at hs
    exact hG y p s hs

theorem sets_mustSet (o : Option SocketOption) : Sets fd (mustSet fd o) fun _ p q =>
    q = o.elim p fun option => p.call (.setOption option) := by
  cases o with
  | none => exact .pure fun _ => rfl
  | some option =>
    exact sets_must_call (by rintro _ ⟨⟩) (fun _ => .pure (R := fun _ p q => q = p) fun _ => rfl)
      (by rintro _ p _ rfl; rfl)

theorem sets_maySet {o : Option SocketOption}
    (ho : ∀ option ∈ o, ∀ p : Port, p.call (.setOption option) = p) :
    Sets fd (maySet fd o) fun _ p q => q = p := by
  cases o with
  | none => exact .pure fun _ => rfl
  | some option =>
    refine (sets_call (by rintro _ ⟨⟩)).bind
      (fun _ => .pure (R := fun _ p q => q = p) fun _ => rfl) ?_
    rintro (err | reply) _ p q r hq rfl
    · exact hq
    · exact hq.trans (ho option rfl p)

theorem sets_enableFd (requested : Bool) : Sets fd (enableFd fd requested) fun enabled p q =>
    q = { p with fdFrames := p.fdFrames || enabled } := by
  cases requested with
  | false => exact .pure fun p => by rw [Bool.or_false]
  | true =>
    refine (sets_call (by rintro _ ⟨⟩)).bind
      (G := fun r enabled p q => enabled = r.toOption.isSome ∧ q = p)
      (fun r => .pure fun _ => ⟨rfl, rfl⟩) ?_
    rintro (err | reply) enabled p q r hq ⟨rfl, rfl⟩
    · rw [show r = p from hq]
      simp [Except.toOption]
    · rw [show r = _ from hq]
      simp [Except.toOption, Port.call]

theorem sets_requestTimestamps (timestamping : Timestamping) :
    Sets fd (requestTimestamps fd timestamping) fun _ p q => q = p := by
  have hns : ∀ option ∈ some (SocketOption.timestampns 1), ∀ p : Port,
      p.call (.setOption option) = p := by
    rintro _ ⟨⟩ p
    rfl
  cases timestamping with
  | BestAvailable =>
    refine (sets_call (by rintro _ ⟨⟩)).bind (G := fun _ _ p q => q = p) ?_ ?_
    · rintro (err | reply)
      · exact sets_maySet hns
      · exact .pure fun _ => rfl
    · rintro (err | reply) _ p q r hq rfl <;> exact hq
  | Software => exact sets_maySet hns
  | None => exact .pure fun _ => rfl

theorem sets_setNonblocking (requested : Bool) :
    Sets fd (setNonblocking fd requested) fun _ p q => q = p := by
  cases requested with
  | false => exact .pure fun _ => rfl
  | true =>
    refine (sets_call (by rintro _ ⟨⟩)).bind (G := fun _ _ p q => q = p) ?_ ?_
    · rintro (err | flags)
      · exact .pure fun _ => rfl
      · refine (sets_call (by rintro _ ⟨⟩)).bind
          (fun _ => .pure (R := fun _ p q => q = p) fun _ => rfl) ?_
        rintro (err | reply) _ p q r hq rfl <;> exact hq
    · rintro (err | flags) _ p q r hq rfl <;> exact hq

/-- The settings before the socket is bound. -/
def Port.Prepared (opts : OpenOpts) (r : ℕ × Bool) (p q : Port) : Prop :=
  q = { p with
    fdFrames := p.fdFrames || r.2
    filters := (filterToApply opts).getD p.filters
    errMask := opts.errorFilter.getD p.errMask }

theorem sets_prepare (nameBytes : List UInt8) (opts : OpenOpts) :
    Sets fd (prepare fd nameBytes opts) (Port.Prepared opts) := by
  have hmay : ∀ {α : Type} (o : Option α) (f : α → SocketOption),
      (∀ a, ∀ p : Port, p.call (.setOption (f a)) = p) →
      ∀ option ∈ o.map f, ∀ p : Port, p.call (.setOption option) = p := by
    rintro α o f hf option ho
    obtain ⟨a, -, rfl⟩ := Option.map_eq_some_iff.mp ho
    exact hf a
  refine sets_must_call (G := Port.Prepared opts) (by rintro _ ⟨⟩) (fun ifr => ?_) fun _ _ _ h => h
  refine (sets_enableFd opts.fd).bind (G := fun enabled r p q => r.2 = enabled ∧ q = { p with
    filters := (filterToApply opts).getD p.filters
    errMask := opts.errorFilter.getD p.errMask }) (fun enabled => ?_) ?_
  · refine (sets_mustSet _).bind (G := fun _ r p q => r.2 = enabled ∧ q = { p with
      errMask := opts.errorFilter.getD p.errMask }) (fun _ => ?_) ?_
    · refine (sets_mustSet _).bind (G := fun _ r p q => r.2 = enabled ∧ q = p) (fun _ => ?_) ?_
      · refine (sets_maySet (hmay _ _ fun _ _ => rfl)).bind_same fun _ => ?_
        refine (sets_maySet (hmay _ _ fun _ _ => rfl)).bind_same fun _ => ?_
        refine (sets_requestTimestamps _).bind_same fun _ => ?_
        refine (sets_maySet (hmay _ _ fun _ _ => rfl)).bind_same fun _ => ?_
        exact (sets_setNonblocking _).bind_same fun _ => .pure fun _ => ⟨rfl, rfl⟩
      · rintro _ r p q s rfl ⟨hr, rfl⟩
        refine ⟨hr, ?_⟩
        cases opts.errorFilter <;> rfl
    · rintro _ r p q s rfl ⟨hr, rfl⟩
      refine ⟨hr, ?_⟩
      cases filterToApply opts <;> rfl
  · rintro enabled r p q s rfl ⟨rfl, rfl⟩
    rfl

/-! ### The run of `Socket::open` -/

section Open

variable {α : Type} {iface : String} {sock : Socket} {fdRxEnabled : Bool}

theorem must_eq_done {r : Except Errno α} {x : α} (hr : must r h = ⟨.done x, h', t⟩) :
    r = .ok x ∧ h' = h ∧ t = [] := by
  cases r with
  | error err => cases hr
  | ok y =>
    cases hr
    exact ⟨rfl, rfl, rfl⟩

theorem call_eq_done {c : Call} {reply : Reply} (hr : call fd c h = ⟨.done (.ok reply), h', t⟩) :
    t = [.called fd c (.ok reply)] := by
  unfold call at hr
  split at hr
  case isFalse => cases hr
  case isTrue =>
    split at hr <;> cases hr
    rfl

/-- A call whose failure is an error. -/
theorem must_call_eq_done {β : Type} {c : Call} {k : Reply → SysM β} {x : β}
    (hr : (do let a ← must (← call fd c); k a : SysM β) h = ⟨.done x, h', t⟩) :
    ∃ reply h₁ u, t = .called fd c (.ok reply) :: u ∧ k reply h₁ = ⟨.done x, h', u⟩ := by
  obtain ⟨r, h₁, t₁, u, hcall, hrest, rfl⟩ := bind_eq_done hr
  obtain ⟨reply, h₂, t₂, v, hmust, hk, rfl⟩ := bind_eq_done hrest
  obtain ⟨rfl, rfl, rfl⟩ := must_eq_done hmust
  exact ⟨reply, _, v, by rw [call_eq_done hcall]; rfl, hk⟩

theorem socket_eq_done {kind : SocketKind} (hr : socket kind h = ⟨.done (.ok fd), h', t⟩) :
    t = [.opened kind fd] := by
  unfold socket at hr
  split at hr <;> cases hr
  rfl

/-- The interface index is the one that the host resolved the name to. -/
theorem prepare_resolves
    (hr : prepare fd nameBytes opts h = ⟨.done (ifindex, fdRxEnabled), h', t⟩) :
    ∃ reply, .called fd (.ifIndex (ifrName nameBytes)) (.ok reply) ∈ t ∧
      reply.value = ifindex := by
  obtain ⟨reply, h₁, u, rfl, hfd⟩ := must_call_eq_done hr
  refine ⟨reply, List.mem_cons_self, ?_⟩
  obtain ⟨_, _, _, _, -, hfilter, -⟩ := bind_eq_done hfd
  obtain ⟨_, _, _, _, -, herr, -⟩ := bind_eq_done hfilter
  obtain ⟨_, _, _, _, -, hrecv, -⟩ := bind_eq_done herr
  obtain ⟨_, _, _, _, -, hsend, -⟩ := bind_eq_done hrecv
  obtain ⟨_, _, _, _, -, hstamps, -⟩ := bind_eq_done hsend
  obtain ⟨_, _, _, _, -, htimeout, -⟩ := bind_eq_done hstamps
  obtain ⟨_, _, _, _, -, hnonblocking, -⟩ := bind_eq_done htimeout
  obtain ⟨_, _, _, _, -, hpure, -⟩ := bind_eq_done hnonblocking
  cases hpure
  rfl

theorem configure_eq_done (hr : configure fd nameBytes opts h = ⟨.done sock, h', t⟩) :
    ∃ ifindex pre reply, t = pre ++ [.called fd (.bindCan ifindex) (.ok reply)] ∧ sock.fd = fd ∧
      (∃ h₁, prepare fd nameBytes opts h = ⟨.done (ifindex, sock.fdRxEnabled), h₁, pre⟩) := by
  obtain ⟨⟨ifindex, enabled⟩, h₁, pre, u, hprepare, hrest, rfl⟩ := bind_eq_done hr
  obtain ⟨reply, h₂, v, rfl, hpure⟩ := must_call_eq_done hrest
  cases hpure
  exact ⟨ifindex, pre, reply, rfl, rfl, h₁, hprepare⟩

theorem withGuard_eq_done {m : SysM α} {x : α} (hr : withGuard fd m h = ⟨.done x, h', t⟩) :
    m h = ⟨.done x, h', t⟩ := by
  unfold withGuard at hr
  split at hr
  case h_1 => cases hr
  case h_2 failure h₁ t₁ hp hm =>
    obtain ⟨a, h₂, t₂, hc, hb⟩ | ⟨g, h₂, t₂, hc, hb⟩ :=
      bind_cases (close fd) (fun _ => (halt failure [] : SysM α)) h₁ <;> rw [hb] at hr <;> cases hr
  case h_3 => exact hr

/-- What `Socket::open` does when it returns a socket. -/
theorem open_eq_done (hr : Socket.open iface opts h = ⟨.done sock, h', t⟩) :
    ∃ ifindex pre reply h₁ h₂, t = .opened .canRaw sock.fd :: pre ++
        [.called sock.fd (.bindCan ifindex) (.ok reply)] ∧
      prepare sock.fd iface.toByteArray.data.toList opts h₁ =
        ⟨.done (ifindex, sock.fdRxEnabled), h₂, pre⟩ := by
  unfold Socket.open at hr
  split at hr
  case isTrue => cases hr
  case isFalse =>
    obtain ⟨r, h₁, t₁, u, hsocket, hrest, rfl⟩ := bind_eq_done hr
    obtain ⟨fd, h₂, t₂, v, hmust, hguard, rfl⟩ := bind_eq_done hrest
    obtain ⟨rfl, rfl, rfl⟩ := must_eq_done hmust
    obtain ⟨ifindex, pre, reply, rfl, rfl, h₃, hprepare⟩ :=
      configure_eq_done (withGuard_eq_done hguard)
    exact ⟨ifindex, pre, reply, _, h₃, by rw [socket_eq_done hsocket]; rfl, hprepare⟩

/-- A process that returns no value binds no socket. -/
abbrev BindsLast (m : SysM α) : Prop :=
  Traces m fun o t => (∃ x, o = .done x) ∨ ∀ e ∈ t, e.Plain

theorem plain_close (fd : ℕ) (h : Host) : ∀ e ∈ (close fd h).trace, e.Plain := by
  unfold close
  split <;> exact fun e he => List.mem_singleton.mp he ▸ trivial

theorem bindsLast_withGuard {m : SysM α} (hm : BindsLast m) : BindsLast (withGuard fd m) := by
  intro h
  have hs := hm h
  unfold withGuard
  rcases he : m h with ⟨x | failure, h₁, t⟩ <;> rw [he] at hs
  · exact .inl ⟨x, rfl⟩
  · have ht : ∀ e ∈ t, e.Plain := hs.resolve_left nofun
    have hclosed : ∀ e ∈ (((do close fd; halt failure []) : SysM α) h₁).trace, e.Plain := by
      have hp := plain_close fd h₁
      obtain ⟨a, h₂, t₂, hc, hb⟩ | ⟨g, h₂, t₂, hc, hb⟩ :=
        bind_cases (close fd) (fun _ => (halt failure [] : SysM α)) h₁ <;> rw [hb] <;>
        rw [hc] at hp
      · exact fun e he => (List.mem_append.mp he).elim (hp e) nofun
      · exact hp
    have hall : ∀ e ∈ t ++ (((do close fd; halt failure []) : SysM α) h₁).trace, e.Plain :=
      fun e he => (List.mem_append.mp he).elim (ht e) (hclosed e)
    cases failure with
    | pending => exact .inr ht
    | failed | panicked => exact .inr hall

/-- A call that fails binds no socket. -/
theorem plain_call {c : Call} (hr : ∀ reply, (call fd c h).outcome ≠ .done (.ok reply)) :
    ∀ e ∈ (call fd c h).trace, e.Plain := by
  unfold call at hr ⊢
  split
  case isFalse => exact fun e he => List.mem_singleton.mp he ▸ trivial
  case isTrue hfd =>
    rw [if_pos hfd] at hr
    rcases ha : h.answers with _ | ⟨err | reply, answers⟩ <;> simp only [ha] at hr
    · exact nofun
    · refine fun e he => List.mem_singleton.mp he ▸ ?_
      cases c <;> trivial
    · exact absurd rfl (hr reply)

theorem bindsLast_bind (ifindex : ℕ) (x : α) :
    BindsLast (do let _ ← must (← call fd (.bindCan ifindex)); return x : SysM α) := by
  intro h
  have hplain := @plain_call fd h (.bindCan ifindex)
  rcases hc : call fd (.bindCan ifindex) h with ⟨(err | reply) | failure, h₁, u⟩ <;>
    rw [hc] at hplain
  · rw [bind_done hc]
    exact .inr fun e he => (List.mem_append.mp he).elim (hplain nofun e) nofun
  · rw [bind_done hc]
    exact .inl ⟨x, rfl⟩
  · rw [bind_halted hc]
    exact .inr (hplain nofun)

theorem bindsLast_configure (nameBytes : List UInt8) (opts : OpenOpts) :
    BindsLast (configure fd nameBytes opts) := by
  refine Traces.bind (sets_prepare nameBytes opts) ?_ ?_
  · rintro ⟨ifindex, enabled⟩ t ⟨ht, -⟩
    refine Traces.mono (bindsLast_bind ifindex _) ?_
    rintro o u (hdone | hu)
    · exact .inl hdone
    · exact .inr fun e he => (List.mem_append.mp he).elim (ht e) (hu e)
  · rintro g t ⟨ht, -⟩
    exact .inr ht

/-- A socket that cannot be opened is never bound. -/
theorem bindsLast_open (iface : String) (opts : OpenOpts) : BindsLast (Socket.open iface opts) := by
  unfold Socket.open
  dsimp only
  split
  case isTrue => exact fun _ => .inr nofun
  case isFalse =>
    have hsocket : Traces (socket .canRaw) fun _ t => ∀ e ∈ t, e.Plain := by
      intro h
      unfold socket
      split
      · exact nofun
      · exact fun e he => List.mem_singleton.mp he ▸ trivial
      · exact fun e he => List.mem_singleton.mp he ▸ trivial
    refine Traces.bind hsocket ?_ fun _ _ ht => .inr ht
    rintro (err | fd) t ht
    · exact fun _ => .inr fun e he => (List.mem_append.mp he).elim (ht e) nofun
    · refine Traces.mono (bindsLast_withGuard (bindsLast_configure _ opts)) ?_
      rintro o u (hdone | hu)
      · exact .inl hdone
      · exact .inr fun e he => (List.mem_append.mp he).elim (ht e) (hu e)

end Open

/-! ### What is delivered -/

theorem delivers_all (canId : UInt32) : Delivers [⟨0, 0⟩] canId :=
  ⟨⟨0, 0⟩, List.mem_singleton_self _, by simp [CanFilter.Matches]⟩

/-- A socket that is bound after it was prepared accepts what its options ask for. -/
theorem accepts_iff_wanted {sock : Socket} {q : Port}
    (hq : Port.Prepared opts (ifindex, sock.fdRxEnabled) .fresh q) :
    Port.Accepts (q.call (.bindCan ifindex)) a ↔ Wanted opts sock ifindex a := by
  rw [show q = _ from hq]
  unfold Port.Accepts Wanted passes
  refine and_congr ⟨fun h => (Option.some.inj h).symm, fun h => congrArg some h.symm⟩
    (and_congr Iff.rfl ?_)
  split
  case isTrue =>
    cases opts.errorFilter <;> simp [Port.call, Port.fresh]
  case isFalse =>
    cases filterToApply opts with
    | none => simp [Port.call, Port.fresh, delivers_all]
    | some entries => simp [Port.call, Port.fresh]

theorem queue_events (hp : p.queue = []) (es : List Event) :
    (es.foldl (Port.event fd) p).queue = [] := by
  induction es generalizing p with
  | nil => exact hp
  | cons e es ih =>
    refine ih ?_
    unfold Port.event
    split
    case h_1 => split <;> [rfl; exact hp]
    case h_2 fd' c reply =>
      split
      case isTrue =>
        unfold Port.call
        split <;> exact hp
      case isFalse => exact hp
    case h_3 => exact hp

theorem run_append (b c : List Occurrence) : p.run fd (b ++ c) = (p.run fd b).run fd c :=
  List.foldl_append

/-- The history binds the socket to the interface with the name, and the socket has queued exactly
the frames after that which its options ask for. -/
def Delivered (iface : String) (opts : OpenOpts) (sock : Socket) (p : Port)
    (history : List Occurrence) : Prop :=
  ∃ ifr reply before after,
    .called sock.fd (.ifIndex (ifrName iface.toByteArray.data.toList)) (.ok ifr) ∈ events before ∧
    history = before ++ .event (.called sock.fd (.bindCan ifr.value) (.ok reply)) :: after ∧
    (p.run sock.fd history).queue = (arrivals after).filter fun a => Wanted opts sock ifr.value a

theorem delivered_of_done {sock : Socket} {later : List Event}
    (hr : Socket.open iface opts h = ⟨.done sock, h', t⟩) (hh : events history = t ++ later)
    (hu : ∀ e ∈ later, e.Uses sock.fd) : Delivered iface opts sock p history := by
  obtain ⟨ifindex, pre, reply, h₁, h₂, rfl, hprepare⟩ := open_eq_done hr
  obtain ⟨ifr, hifr, rfl⟩ := prepare_resolves hprepare
  have hsets := @sets_prepare sock.fd iface.toByteArray.data.toList opts h₁
  rw [hprepare] at hsets
  obtain ⟨hplain, hset⟩ := hsets
  have hprepared := hset _ rfl .fresh
  rw [List.append_assoc, List.cons_append, List.singleton_append] at hh
  obtain ⟨before, rest, rfl, hbefore, hrest⟩ := @split_events _ _ [] _ hh
  obtain ⟨prepared, after, rfl, hpre, hafter⟩ := split_events hrest
  have hfresh : (p.run sock.fd before).step sock.fd (.event (.opened .canRaw sock.fd)) = .fresh :=
    if_pos rfl
  have hrun : Port.run sock.fd .fresh prepared =
      (events prepared).foldl (Port.event sock.fd) .fresh :=
    (Port.run_unbound rfl fun e he => hplain e (hpre ▸ he)).1
  rw [hpre] at hrun
  have hbind : (Port.run sock.fd .fresh prepared).step sock.fd
      (.event (.called sock.fd (.bindCan ifr.value) (.ok reply))) =
        (pre.foldl (Port.event sock.fd) .fresh).call (.bindCan ifr.value) := by
    rw [hrun]
    exact if_pos rfl
  refine ⟨ifr, reply, before ++ .event (.opened .canRaw sock.fd) :: prepared, after,
    ?_, by rw [List.append_assoc, List.cons_append], ?_⟩
  · rw [events_append]
    rw [← hpre] at hifr
    exact List.mem_append_right _ (List.mem_cons_of_mem _ hifr)
  have hall : p.run sock.fd (before ++ .event (.opened .canRaw sock.fd) :: (prepared ++
      .event (.called sock.fd (.bindCan ifr.value) (.ok reply)) :: after)) =
        Port.run sock.fd ((pre.foldl (Port.event sock.fd) .fresh).call (.bindCan ifr.value))
          after := by
    rw [run_append]
    change Port.run sock.fd ((p.run sock.fd before).step sock.fd _) _ = _
    rw [hfresh, run_append]
    change Port.run sock.fd ((Port.run sock.fd .fresh prepared).step sock.fd _) after = _
    rw [hbind]
  rw [hall, Port.run_uses (fun e he => hu e (hafter ▸ he))]
  change (pre.foldl (Port.event sock.fd) .fresh).queue ++ _ = _
  rw [queue_events rfl, List.nil_append]
  exact List.filter_congr fun a _ => decide_eq_decide.mpr (accepts_iff_wanted hprepared)

/-- A socket queues exactly the frames that arrive once it is bound and that its options ask for on
the interface with its name, whatever arrives while it is being opened; one that cannot be opened
queues nothing. -/
theorem open_delivers (iface : String) (opts : OpenOpts) (h : Host) (p : Port)
    (history : List Occurrence) :
    (∀ sock later, (Socket.open iface opts h).outcome = .done sock →
      events history = (Socket.open iface opts h).trace ++ later →
      (∀ e ∈ later, e.Uses sock.fd) → Delivered iface opts sock p history) ∧
    ((∀ sock, (Socket.open iface opts h).outcome ≠ .done sock) →
      events history = (Socket.open iface opts h).trace → ∀ kind fd,
        .opened kind fd ∈ events history → (p.run fd history).queue = []) := by
  rcases hr : Socket.open iface opts h with ⟨sock | failure, h', t⟩
  · refine ⟨?_, fun hnot => absurd rfl (hnot sock)⟩
    rintro _ later ⟨⟩ hh hu
    exact delivered_of_done hr hh hu
  · refine ⟨nofun, fun _ hh kind fd hopened => ?_⟩
    have hplain := bindsLast_open iface opts h
    rw [hr] at hplain
    have ht : ∀ e ∈ t, e.Plain := hplain.resolve_left nofun
    obtain ⟨es, es', hes⟩ := List.append_of_mem hopened
    obtain ⟨before, after, rfl, hbefore, hafter⟩ := split_events hes
    have hfresh : (p.run fd before).step fd (.event (.opened kind fd)) = .fresh := if_pos rfl
    have hrun : p.run fd (before ++ .event (.opened kind fd) :: after) =
        Port.run fd .fresh after := by
      rw [run_append, ← hfresh]
      rfl
    have hall : ∀ e ∈ events after, e.Plain := by
      intro e he
      refine ht e ?_
      rw [show t = es ++ .opened kind fd :: es' from hh.symm.trans hes, ← hafter]
      exact List.mem_append_right _ (List.mem_cons_of_mem _ he)
    rw [hrun, (Port.run_unbound rfl hall).1]
    exact queue_events rfl _

/-- A host on which every call succeeds. -/
def canHost : Host := ⟨.lowest, {0, 1, 2}, List.replicate 9 (.ok ⟨5, []⟩)⟩

/-- Frames arrive before every call and behind the last one. -/
def busy (t : List Event) : List Occurrence :=
  t.flatMap (fun e => [.arrival ⟨5, 0x7E8, false⟩, .event e]) ++
    [.arrival ⟨5, 0x123, false⟩, .arrival ⟨5, 0x7E8, true⟩]

theorem open_delivers_filtered :
    let opts : OpenOpts := { filter := some [.standardExact 0x7E8] }
    let run := Socket.open "can0" opts canHost
    run.outcome = .done ⟨3, true⟩ ∧
      Delivered "can0" opts ⟨3, true⟩ .fresh (busy run.trace) :=
  ⟨rfl, (open_delivers "can0" _ canHost .fresh _).1 ⟨3, true⟩ [] rfl rfl nofun⟩

end Mcanbus.Sys
