import Mathlib.Data.Finset.Dedup
import Mcanbus.Sys.Link
import Mcanbus.Transition.Basic

/-! # Programs that use sockets

A program opens sockets, clones and drops them, trades them for descriptors and
back, and brings interfaces up and down. In whatever order it does so and
whatever the host answers, no descriptor is lost, shared or closed twice.
-/

namespace Mcanbus.Sys

open Rust Effect Effect.Process Transition Iface

/-- The sockets and the plain descriptors of a program, and what it has done. It may be blocked in
a call. -/
structure Program where
  host : Host
  sockets : List Socket
  raw : List ℕ
  trace : List Event
  blocked : Bool

/-- A program that is given plain descriptors. -/
def Program.start (host : Host) (raw : List ℕ) : Program := ⟨host, [], raw, [], false⟩

/-- `into_raw_fd`: the socket is forgotten. -/
def Socket.intoRawFd (sock : Socket) : ℕ := sock.fd

/-- `from_raw_fd`: FD frames are taken to be enabled. -/
def Socket.fromRawFd (fd : ℕ) : Socket := ⟨fd, true⟩

inductive Operation
  | open (iface : String) (opts : OpenOpts)
  | tryClone (sock : Socket)
  | drop (sock : Socket)
  | intoRawFd (sock : Socket)
  | fromRawFd (fd : ℕ)
  /-- The program closes a plain descriptor itself. -/
  | close (fd : ℕ)
  | transfer (sock : Socket)
  | setUp (iface : Interface)
  | setDown (iface : Interface)
  | cycle (iface : Interface)
  | state (iface : Interface)

namespace Program

/-- Run a process and keep the sockets that it returns. -/
def perform {α : Type} (p : Program) (m : SysM α) (new : α → List Socket) : Program :=
  match m p.host with
  | ⟨.done a, host, t⟩ =>
    { p with host, sockets := new a ++ p.sockets, trace := p.trace ++ t }
  | ⟨.halted .pending, host, t⟩ => { p with host, trace := p.trace ++ t, blocked := true }
  | ⟨.halted _, host, t⟩ => { p with host, trace := p.trace ++ t }

variable (e : Endian) (p : Program)

/-- A program that holds what the operation is about, and is not blocked, goes on. -/
def step (op : Operation) : Option Program :=
  if p.blocked then none
  else match op with
  | .open iface opts => some (p.perform (Socket.open iface opts) fun sock => [sock])
  | .tryClone sock =>
    if sock ∈ p.sockets then some (p.perform sock.tryClone fun new => [new]) else none
  | .drop sock =>
    if sock ∈ p.sockets then
      some ({ p with sockets := p.sockets.erase sock }.perform sock.drop fun _ => [])
    else none
  | .intoRawFd sock =>
    if sock ∈ p.sockets then
      some { p with sockets := p.sockets.erase sock, raw := sock.intoRawFd :: p.raw }
    else none
  | .fromRawFd fd =>
    if fd ∈ p.raw then
      some { p with sockets := .fromRawFd fd :: p.sockets, raw := p.raw.erase fd }
    else none
  | .close fd =>
    if fd ∈ p.raw then some ({ p with raw := p.raw.erase fd }.perform (close fd) fun _ => [])
    else none
  | .transfer sock =>
    if sock ∈ p.sockets then some (p.perform (call sock.fd .transfer) fun _ => []) else none
  | .setUp iface => some (p.perform (setUp e iface) fun _ => [])
  | .setDown iface => some (p.perform (setDown e iface) fun _ => [])
  | .cycle iface => some (p.perform (cycle e iface) fun _ => [])
  | .state iface => some (p.perform (state e iface) fun _ => [])

/-- The system of the program. -/
def Step (op : Operation) (q : Program) : Prop := p.step e op = some q

/-- The descriptors that the program holds. -/
def fds : List ℕ := p.sockets.map (·.fd) ++ p.raw

/-- The program has called on open descriptors only, and holds each of its own once and by itself.
Unless it is blocked in a call, its own and those of others are all that are open. -/
structure Sound (base : Finset ℕ) : Prop where
  proper : ∀ e ∈ p.trace, ¬ e.Misuse
  nodup : p.fds.Nodup
  disjoint : Disjoint base p.fds.toFinset
  table_eq : p.blocked = false → p.host.table = base ∪ p.fds.toFinset

variable {e p} {base : Finset ℕ} {α : Type} {m : SysM α} {new : α → List Socket} {sock : Socket}
  {fd : ℕ} {q : Program}

/-- The program holds the descriptors of the sockets that the process keeps beside its own. -/
theorem sound_perform (hp : ∀ e ∈ p.trace, ¬ e.Misuse) (hn : p.fds.Nodup)
    (hd : Disjoint base p.fds.toFinset) (hnew : ∀ a, ((new a).map Socket.fd).Nodup)
    (hm : OwnsRun Host.table Event.Misuse (base ∪ p.fds.toFinset)
      (fun a => ((new a).map Socket.fd).toFinset) ∅ (m p.host)) :
    (p.perform m new).Sound base := by
  have hproper : ∀ e ∈ p.trace ++ (m p.host).trace, ¬ e.Misuse := fun e he =>
    (List.mem_append.mp he).elim (hp e) (hm.proper e)
  unfold perform
  rcases hr : m p.host with ⟨a | failure, h, t⟩ <;> rw [hr] at hm hproper
  · obtain ⟨ht, hd'⟩ := hm.done a rfl
    rw [Finset.disjoint_union_left] at hd'
    have hfds : ({ p with host := h, sockets := new a ++ p.sockets, trace := p.trace ++ t } :
        Program).fds = (new a).map Socket.fd ++ p.fds := by
      rw [fds, fds, List.map_append, List.append_assoc]
    refine ⟨hproper, ?_, ?_, fun _ => ?_⟩ <;> rw [hfds]
    · refine List.nodup_append'.mpr ⟨hnew a, hn, ?_⟩
      exact (List.disjoint_toFinset_iff_disjoint.mp hd'.2).symm
    · rw [List.toFinset_append, Finset.disjoint_union_right]
      exact ⟨hd'.1, hd⟩
    · rw [List.toFinset_append, Finset.union_comm (List.toFinset _), ← Finset.union_assoc]
      exact ht
  · have hheld := hm.halted failure rfl
    cases failure with
    | pending => exact ⟨hproper, hn, hd, nofun⟩
    | failed | panicked =>
      refine ⟨hproper, hn, hd, fun _ => ?_⟩
      exact (hheld nofun).1.trans (Finset.union_empty _)

namespace Sound

/-- A process that needs no descriptor. -/
theorem perform (h : p.Sound base) (hb : p.blocked = false)
    (hnew : ∀ a, ((new a).map Socket.fd).Nodup)
    (hm : SysM.Owns ∅ m (fun a => ((new a).map Socket.fd).toFinset) ∅) :
    (p.perform m new).Sound base := by
  refine sound_perform h.proper h.nodup h.disjoint hnew (hm _ _ ?_ (Finset.disjoint_empty_right _))
  rw [h.table_eq hb, Finset.union_empty]

theorem mem_table (h : p.Sound base) (hb : p.blocked = false) (hfd : fd ∈ p.fds) :
    fd ∈ p.host.table :=
  h.table_eq hb ▸ Finset.mem_union_right base (List.mem_toFinset.mpr hfd)

/-- A process that uses a descriptor of the program and gives it back. -/
theorem borrow (h : p.Sound base) (hb : p.blocked = false) (hfd : fd ∈ p.fds)
    (hnew : ∀ a, ((new a).map Socket.fd).Nodup)
    (hm : SysM.Owns {fd} m (fun a => {fd} ∪ ((new a).map Socket.fd).toFinset) {fd})
    (hfresh : ∀ a, (m p.host).outcome = .done a → fd ∉ (new a).map Socket.fd) :
    (p.perform m new).Sound base := by
  refine sound_perform h.proper h.nodup h.disjoint hnew (Owns.borrow hm ?_ (h.table_eq hb) ?_)
  · exact Finset.singleton_subset_iff.mpr (h.table_eq hb ▸ h.mem_table hb hfd)
  · exact fun a ha => Finset.disjoint_singleton_left.mpr fun hmem =>
      hfresh a ha (List.mem_toFinset.mp hmem)

/-- The program trades what it holds for another order of the same descriptors. -/
theorem of_perm (h : p.Sound base) (hh : q.host = p.host) (ht : q.trace = p.trace)
    (hb : q.blocked = p.blocked) (hf : q.fds.Perm p.fds) : q.Sound base := by
  refine ⟨ht ▸ h.proper, hf.nodup_iff.mpr h.nodup, ?_, fun hq => ?_⟩
  · exact List.toFinset_eq_of_perm _ _ hf ▸ h.disjoint
  · rw [hh, List.toFinset_eq_of_perm _ _ hf]
    exact h.table_eq (hb ▸ hq)

/-- The program gives a descriptor away. -/
theorem close (h : p.Sound base) (hb : p.blocked = false) (hh : q.host = p.host)
    (ht : q.trace = p.trace) (hf : p.fds.Perm (fd :: q.fds)) :
    (q.perform (Sys.close fd) fun _ => []).Sound base := by
  obtain ⟨hnot, hnodup⟩ := List.nodup_cons.mp (hf.nodup_iff.mp h.nodup)
  have hset : p.fds.toFinset = q.fds.toFinset ∪ {fd} := by
    rw [List.toFinset_eq_of_perm _ _ hf, List.toFinset_cons, Finset.insert_eq, Finset.union_comm]
  have hd := h.disjoint
  rw [hset, Finset.disjoint_union_right] at hd
  refine sound_perform (ht ▸ h.proper) hnodup hd.1 (fun _ => List.nodup_nil)
    (owns_close fd _ _ ?_ ?_)
  · rw [hh, h.table_eq hb, hset, Finset.union_assoc]
  · rw [Finset.disjoint_union_left]
    refine ⟨hd.2, Finset.disjoint_singleton_right.mpr fun hmem => hnot ?_⟩
    exact List.mem_toFinset.mp hmem

end Sound

theorem perm_erase (hs : sock ∈ p.sockets) :
    p.fds.Perm (sock.fd :: { p with sockets := p.sockets.erase sock }.fds) :=
  ((List.perm_cons_erase hs).map Socket.fd).append_right p.raw

theorem perm_eraseRaw (hfd : fd ∈ p.raw) :
    p.fds.Perm (fd :: { p with raw := p.raw.erase fd }.fds) :=
  ((List.perm_cons_erase hfd).append_left _).trans List.perm_middle

theorem mem_fds (hs : sock ∈ p.sockets) : sock.fd ∈ p.fds :=
  List.mem_append_left _ (List.mem_map_of_mem hs)

/-- A descriptor that is handed out is not that of the original. -/
theorem tryClone_ne {h : Host} {clone : Socket} (hs : sock.fd ∈ h.table)
    (hdone : (sock.tryClone h).outcome = .done clone) : sock.fd ≠ clone.fd := by
  rintro heq
  rcases hr : sock.tryClone h with ⟨o, h', t⟩
  rw [hr] at hdone
  obtain rfl : o = .done clone := hdone
  obtain ⟨r, h₁, t₁, t₂, hdup, hrest, rfl⟩ := bind_eq_done hr
  unfold dup at hdup
  rw [if_pos hs] at hdup
  rcases ha : h.answers with _ | ⟨err | reply, answers⟩ <;> rw [ha] at hdup <;> cases hdup
  · cases hrest
  · cases hrest
    have hnext : sock.fd = h.alloc.next h.table := heq
    exact h.alloc.fresh h.table (hnext ▸ hs)

theorem sound_step (h : p.Sound base) {op : Operation} (hs : p.Step e op q) : q.Sound base := by
  unfold Step step at hs
  split at hs
  · cases hs
  rename_i hb
  have hb' : p.blocked = false := Bool.eq_false_iff.mpr hb
  cases op with
  | «open» iface opts =>
    cases hs
    exact h.perform hb' (fun _ => List.nodup_singleton _) (owns_open iface opts)
  | tryClone sock =>
    obtain ⟨hmem, ⟨⟩⟩ := Option.ite_none_right_eq_some.mp hs
    refine h.borrow hb' (mem_fds hmem) (fun _ => List.nodup_singleton _) (owns_tryClone sock) ?_
    exact fun clone hdone hc => tryClone_ne (h.mem_table hb' (mem_fds hmem)) hdone
      (List.mem_singleton.mp hc)
  | drop sock =>
    obtain ⟨hmem, ⟨⟩⟩ := Option.ite_none_right_eq_some.mp hs
    exact h.close hb' rfl rfl (perm_erase hmem)
  | intoRawFd sock =>
    obtain ⟨hmem, ⟨⟩⟩ := Option.ite_none_right_eq_some.mp hs
    exact h.of_perm rfl rfl rfl (List.perm_middle.trans (perm_erase hmem).symm)
  | fromRawFd fd =>
    obtain ⟨hmem, ⟨⟩⟩ := Option.ite_none_right_eq_some.mp hs
    exact h.of_perm rfl rfl rfl (perm_eraseRaw hmem).symm
  | close fd =>
    obtain ⟨hmem, ⟨⟩⟩ := Option.ite_none_right_eq_some.mp hs
    exact h.close hb' rfl rfl (perm_eraseRaw hmem)
  | transfer sock =>
    obtain ⟨hmem, ⟨⟩⟩ := Option.ite_none_right_eq_some.mp hs
    exact h.borrow hb' (mem_fds hmem) (fun _ => List.nodup_nil) (owns_call sock.fd _) nofun
  | setUp iface =>
    cases hs
    exact h.perform hb' (fun _ => List.nodup_nil) owns_setUp
  | setDown iface =>
    cases hs
    exact h.perform hb' (fun _ => List.nodup_nil) owns_setDown
  | cycle iface =>
    cases hs
    exact h.perform hb' (fun _ => List.nodup_nil) owns_cycle
  | state iface =>
    cases hs
    exact h.perform hb' (fun _ => List.nodup_nil) owns_state

/-- Whatever a program does and the host answers, it never calls on a descriptor that is not open,
and those of its sockets and its own are held once and by no other. Unless it is blocked in a call,
which itself holds descriptors, these and those of others are all that are open. -/
theorem run_sound (e : Endian) {h : Host} {raw : List ℕ} {p : Program} (hn : raw.Nodup)
    (hopen : ∀ fd ∈ raw, fd ∈ h.table) (hr : Reachable (Step e) (.start h raw) p) :
    p.Sound (h.table \ raw.toFinset) := by
  have hsub : raw.toFinset ⊆ h.table := fun fd hfd => hopen fd (List.mem_toFinset.mp hfd)
  refine hr.invariant (fun p op q hp hs => sound_step hp hs) ⟨nofun, hn, ?_, fun _ => ?_⟩
  · exact Finset.sdiff_disjoint
  · exact (Finset.sdiff_union_of_subset hsub).symm

/-- A socket is opened and cloned and the original dropped, and a descriptor is adopted. -/
theorem run_sound_cloned : ∃ p : Program, p.sockets = [⟨2, true⟩, ⟨4, false⟩] ∧
    p.Sound (({0, 1, 2} : Finset ℕ) \ [2].toFinset) := by
  let h : Host := ⟨.lowest, {0, 1, 2}, List.replicate 4 (.ok ⟨5, []⟩)⟩
  let opts : OpenOpts := ⟨false, none, none, .None, none, none, none, false, false⟩
  let opened := (Socket.open "can0" opts h).trace
  let p₁ : Program := ⟨⟨.lowest, {0, 1, 2} ∪ {3}, [.ok ⟨5, []⟩]⟩, [⟨3, false⟩], [2], opened, false⟩
  let p₂ : Program := ⟨⟨.lowest, {0, 1, 2} ∪ {3} ∪ {4}, []⟩, [⟨4, false⟩, ⟨3, false⟩], [2],
    opened ++ [.duplicated 3 4], false⟩
  let p₃ : Program := ⟨⟨.lowest, ({0, 1, 2} ∪ {3} ∪ {4}) \ {3}, []⟩, [⟨4, false⟩], [2],
    opened ++ [.duplicated 3 4] ++ [.closed 3], false⟩
  have h₁ : Step .little (.start h [2]) (.open "can0" opts) p₁ := rfl
  have h₂ : Step .little p₁ (.tryClone ⟨3, false⟩) p₂ := rfl
  have h₃ : Step .little p₂ (.drop ⟨3, false⟩) p₃ := rfl
  have h₄ : Step .little p₃ (.fromRawFd 2)
    { p₃ with sockets := [⟨2, true⟩, ⟨4, false⟩], raw := [] } := rfl
  exact ⟨_, rfl, run_sound .little (h := h) (by decide) (by decide)
    ⟨_, .cons h₁ (.cons h₂ (.cons h₃ (.cons h₄ (.nil _))))⟩⟩

end Program

end Mcanbus.Sys
