import Mathlib.Data.Finset.Card
import Mcanbus.Effect.Resource
import Mcanbus.Socket.Filter
import Mcanbus.Rust.IoError

/-! # System calls on descriptors

A host keeps the descriptors that are open and answers the calls on them. It
hands out a descriptor that is not open, and refuses a call on one that is not
open.
-/

namespace Mcanbus.Sys

open Rust Effect Effect.Process

/-- Which descriptor is handed out next; never one that is open. -/
structure Allocator where
  next : Finset ℕ → ℕ
  fresh : ∀ table, next table ∉ table

/-- The lowest descriptor that is not open. -/
def Allocator.lowest : Allocator where
  next table := ((List.range (table.card + 1)).find? (· ∉ table)).getD 0
  fresh table := by
    have hcard : table.card < (Finset.range (table.card + 1)).card := by
      rw [Finset.card_range]
      exact Nat.lt_succ_self _
    obtain ⟨fd, hfd, hfree⟩ := Finset.exists_mem_notMem_of_card_lt_card hcard
    have hsome : ((List.range (table.card + 1)).find? (· ∉ table)).isSome := by
      rw [List.find?_isSome]
      exact ⟨fd, List.mem_range.mpr (Finset.mem_range.mp hfd), decide_eq_true hfree⟩
    obtain ⟨fd', hfd'⟩ := Option.isSome_iff_exists.mp hsome
    have hfound := List.find?_some hfd'
    rw [hfd', Option.getD_some]
    exact of_decide_eq_true hfound

/-- What a call that succeeds returns: a number, and the bytes that it stored. -/
structure Reply where
  value : ℕ
  data : List UInt8

/-- The open descriptors, and the answers to come. A call blocks when there is no answer left. -/
structure Host where
  alloc : Allocator
  table : Finset ℕ
  answers : List (Except Errno Reply)

inductive SocketKind
  | canRaw
  | netlinkRoute
  deriving DecidableEq, Repr

/-- The options that are set on a socket, with their values. -/
inductive SocketOption
  | fdFrames (enable : ℤ)
  | filter (entries : List CanFilter)
  | errFilter (mask : UInt32)
  | rcvBuf (bytes : ℤ)
  | sndBuf (bytes : ℤ)
  | timestamping (flags : UInt32)
  | timestampns (enable : ℤ)
  | rcvTimeo (sec usec : ℤ)
  deriving DecidableEq, Repr

/-- The calls on a descriptor. -/
inductive Call
  /-- `SIOCGIFINDEX` with the field `ifr_name`. -/
  | ifIndex (name : List UInt8)
  | setOption (option : SocketOption)
  | getFlags
  | setFlags (flags : ℕ)
  | bindCan (ifindex : ℕ)
  | bindNetlink
  | sendto (bytes : List UInt8)
  | recv (len : ℕ)
  /-- A call that receives or sends frames. -/
  | transfer
  deriving DecidableEq, Repr

inductive Event
  | opened (kind : SocketKind) (fd : ℕ)
  | duplicated (fd new : ℕ)
  | refused (error : Errno)
  | called (fd : ℕ) (call : Call) (answer : Except Errno Reply)
  | closed (fd : ℕ)
  /-- A call on a descriptor that is not open. -/
  | misused (fd : ℕ)
  | resolved (name : String) (answer : Except Errno Reply)
  | slept (duration : ℕ)

def Event.Misuse : Event → Prop
  | .misused _ => True
  | _ => False

abbrev SysM := Process Host IoError Event

def ebadf : Errno := 9

def raise {α : Type} (err : IoError) : SysM α := halt (.failed err) []

/-! ### The calls -/

/-- `socket` for the given protocol. -/
def socket (kind : SocketKind) : SysM (Except Errno ℕ) := fun h =>
  match h.answers with
  | [] => ⟨.halted .pending, h, []⟩
  | .error err :: answers => ⟨.done (.error err), { h with answers }, [.refused err]⟩
  | .ok _ :: answers =>
    let fd := h.alloc.next h.table
    ⟨.done (.ok fd), { h with table := h.table ∪ {fd}, answers }, [.opened kind fd]⟩

def dup (fd : ℕ) : SysM (Except Errno ℕ) := fun h =>
  if fd ∈ h.table then
    match h.answers with
    | [] => ⟨.halted .pending, h, []⟩
    | .error err :: answers => ⟨.done (.error err), { h with answers }, [.refused err]⟩
    | .ok _ :: answers =>
      let new := h.alloc.next h.table
      ⟨.done (.ok new), { h with table := h.table ∪ {new}, answers }, [.duplicated fd new]⟩
  else ⟨.done (.error ebadf), h, [.misused fd]⟩

def call (fd : ℕ) (c : Call) : SysM (Except Errno Reply) := fun h =>
  if fd ∈ h.table then
    match h.answers with
    | [] => ⟨.halted .pending, h, []⟩
    | answer :: answers => ⟨.done answer, { h with answers }, [.called fd c answer]⟩
  else ⟨.done (.error ebadf), h, [.misused fd]⟩

/-- `close`, whose result is not read. -/
def close (fd : ℕ) : SysM Unit := fun h =>
  if fd ∈ h.table then ⟨.done (), { h with table := h.table \ {fd} }, [.closed fd]⟩
  else ⟨.done (), h, [.misused fd]⟩

def ifNameToIndex (name : String) : SysM (Except Errno UInt32) := fun h =>
  match h.answers with
  | [] => ⟨.halted .pending, h, []⟩
  | answer :: answers =>
    ⟨.done (answer.map (.ofNat ·.value)), { h with answers }, [.resolved name answer]⟩

def sleep (duration : ℕ) : SysM Unit := fun h => ⟨.done (), h, [.slept duration]⟩

/-- Run a process with a guard that closes the descriptor on an early return. -/
def withGuard {α : Type} (fd : ℕ) (m : SysM α) : SysM α := fun h =>
  match m h with
  | ⟨.halted .pending, h', t⟩ => ⟨.halted .pending, h', t⟩
  | ⟨.halted failure, h', t⟩ => ((do close fd; halt failure []) h').after t
  | r => r

/-! ### What the calls own

The calls themselves never fail, so that nothing is said of what a failure leaves. -/

/-- The process does not misuse a descriptor, and takes the given ones to those that it keeps or
loses. -/
abbrev SysM.Owns {α : Type} (given : Finset ℕ) (m : SysM α) (kept : α → Finset ℕ)
    (lost : Finset ℕ) : Prop := Process.Owns Host.table Event.Misuse given m kept lost

variable {α : Type} {fd : ℕ} {given lost : Finset ℕ} {kept : α → Finset ℕ} {m : SysM α}

/-- The descriptor that a call returned. -/
def descriptor : Except Errno ℕ → Finset ℕ
  | .ok fd => {fd}
  | .error _ => ∅

theorem not_misuse {event : Event} (h : ∀ fd, event ≠ .misused fd) :
    ∀ e ∈ [event], ¬ e.Misuse := by
  rintro e he hm
  obtain rfl := List.mem_singleton.mp he
  cases e with
  | misused fd => exact h fd rfl
  | _ => exact hm

theorem owns_raise (err : IoError) : SysM.Owns given (raise err : SysM α) kept given :=
  .halt nofun

theorem owns_socket (kind : SocketKind) : SysM.Owns ∅ (socket kind) descriptor lost := by
  intro h F hs hd
  unfold socket
  rcases h.answers with _ | ⟨err | reply, answers⟩
  · exact .pending nofun
  · exact .value hs hd (not_misuse nofun)
  · have hfresh := h.alloc.fresh h.table
    rw [hs, Finset.union_empty] at hfresh
    refine .value ?_ ?_ (not_misuse nofun)
    · rw [hs, Finset.union_empty]
      rfl
    · rw [hs, Finset.union_empty]
      exact Finset.disjoint_singleton_right.mpr hfresh

theorem mem_of_given {h : Host} {F : Finset ℕ} (hs : h.table = F ∪ {fd}) : fd ∈ h.table :=
  hs ▸ Finset.mem_union_right F (Finset.mem_singleton_self fd)

theorem owns_dup (fd : ℕ) :
    SysM.Owns {fd} (dup fd) (fun r => {fd} ∪ descriptor r) lost := by
  intro h F hs hd
  unfold dup
  rw [if_pos (mem_of_given hs)]
  rcases h.answers with _ | ⟨err | reply, answers⟩
  · exact .pending nofun
  · refine .value ?_ ?_ (not_misuse nofun)
    · rw [hs, descriptor, Finset.union_empty]
    · rwa [descriptor, Finset.union_empty]
  · have hfresh := h.alloc.fresh h.table
    refine .value ?_ ?_ (not_misuse nofun)
    · rw [descriptor, ← Finset.union_assoc, hs]
    · rw [descriptor, Finset.disjoint_union_right]
      refine ⟨hd, Finset.disjoint_singleton_right.mpr fun hm => hfresh ?_⟩
      rw [hs] at hm ⊢
      exact Finset.mem_union_left _ hm

theorem owns_call (fd : ℕ) (c : Call) : SysM.Owns {fd} (call fd c) (fun _ => {fd}) lost := by
  intro h F hs hd
  unfold call
  rw [if_pos (mem_of_given hs)]
  rcases h.answers with _ | ⟨answer, answers⟩
  · exact .pending nofun
  · exact .value hs hd (not_misuse nofun)

theorem owns_close (fd : ℕ) : SysM.Owns {fd} (close fd) (fun _ => ∅) lost := by
  intro h F hs hd
  unfold close
  rw [if_pos (mem_of_given hs)]
  refine .value ?_ (Finset.disjoint_empty_right F) (not_misuse nofun)
  rw [hs, Finset.union_empty, Finset.union_sdiff_cancel_right hd]

theorem owns_ifNameToIndex (name : String) :
    SysM.Owns ∅ (ifNameToIndex name) (fun _ => ∅) lost := by
  intro h F hs hd
  unfold ifNameToIndex
  rcases h.answers with _ | ⟨answer, answers⟩
  · exact .pending nofun
  · exact .value hs hd (not_misuse nofun)

theorem owns_sleep (duration : ℕ) : SysM.Owns ∅ (sleep duration) (fun _ => ∅) lost :=
  fun _ _ hs hd => .value hs hd (not_misuse nofun)

/-- Close a descriptor and fail. -/
theorem owns_close_halt (fd : ℕ) (failure : Halt IoError) :
    SysM.Owns {fd} (do close fd; halt failure []) kept ∅ :=
  (owns_close fd).bind fun _ => .halt nofun

/-- The guard closes the descriptor when the process fails. -/
theorem owns_withGuard (hm : SysM.Owns {fd} m kept {fd}) :
    SysM.Owns {fd} (withGuard fd m) kept ∅ := by
  intro h F hs hd
  have hr := hm h F hs hd
  unfold withGuard
  rcases he : m h with ⟨a | failure, h', t⟩ <;> rw [he] at hr
  · obtain ⟨hs', hd'⟩ := hr.done a rfl
    exact .value hs' hd' hr.proper
  · by_cases hp : failure = .pending
    · subst hp
      exact .pending hr.proper
    · obtain ⟨hs', hd'⟩ := hr.halted failure rfl hp
      have hc := (@owns_close_halt α kept fd failure h' F hs' hd').after hr.proper
      cases failure with
      | pending => exact absurd rfl hp
      | failed | panicked => exact hc

end Mcanbus.Sys
