import Mcanbus.Iface.Netlink
import Mcanbus.Rust.Radix

/-! # Network interfaces

What the library tells about an interface: whether it is up, the state of its
controller and its bitrate, and the list of the CAN interfaces of the host. The
contents of files, the output of `ip` and the answers of the kernel are
arguments.
-/

namespace Mcanbus.Iface

open Rust

inductive CanState
  | ErrorActive
  | ErrorWarning
  | ErrorPassive
  | BusOff
  | Stopped
  | Sleeping
  deriving DecidableEq, Repr

def CanState.fromRaw (v : UInt32) : Option CanState :=
  if v = 0 then some .ErrorActive
  else if v = 1 then some .ErrorWarning
  else if v = 2 then some .ErrorPassive
  else if v = 3 then some .BusOff
  else if v = 4 then some .Stopped
  else if v = 5 then some .Sleeping
  else none

/-- A network interface, named by a string. -/
structure Interface where
  name : String
  deriving DecidableEq, Repr

def enoent : Errno := 2

/-- What the host answers to the queries about one interface. -/
structure LinkAnswers where
  /-- The file `/sys/class/net/<iface>/flags`. -/
  flags : Except IoError String
  ifNameToIndex : Except Errno UInt32
  netlink : NetlinkAnswers
  /-- The standard output of `ip`, when it ran with success. -/
  ip : Option (List UInt8)

namespace Interface

variable (iface : Interface)

def index (ifNameToIndex : Except Errno UInt32) : Except IoError UInt32 :=
  if '\x00' ∈ iface.name.toList then
    .error (.new .InvalidInput "interface name has nul byte")
  else ifNameToIndex.mapError .os

/-- Whether the interface is up; nothing when the file is missing. -/
def isUp (flags : Except IoError String) : Except IoError (Option Bool) :=
  match flags with
  | .error err => if err = .os enoent then .ok none else .error err
  | .ok s =>
    let s := trim s.toList
    let s := if "0x".toList.isPrefixOf s then s.drop 2 else s
    match parseU32 s with
    | .error err => .error (.new .InvalidData err.display)
    | .ok flags => .ok (some (flags &&& 1 != 0))

/-- The state of the controller; nothing when the device reports none. -/
def state (e : Endian) (os : LinkAnswers) : Checked (Except IoError (Option CanState)) := do
  match iface.index os.ifNameToIndex with
  | .error err => return .error err
  | .ok idx =>
    let raw ← getCanStateRaw e idx os.netlink
    return raw.map (·.bind CanState.fromRaw)

/-- The bitrate that `ip` reports. -/
def bitrate (ip : Option (List UInt8)) : Except IoError (Option UInt32) :=
  match ip with
  | none => .ok none
  | some stdout =>
    let s := (fromUtf8 stdout).getD ""
    match afterFirst "\"bitrate\":".toList s.toList with
    | none => .ok none
    | some tail =>
      let digits := tail.takeWhile Char.isDigit
      .ok ((fromStrRadix 10 (2 ^ 32) digits).toOption.map .ofNat)

end Interface

/-- An entry of `/sys/class/net`: its name, when it is UTF-8, and its file `type`, if any. -/
structure DirEntry where
  name : Option String
  type : Option (Except IoError String)

/-- The CAN interfaces among the entries, in order. -/
def canEntries : List (Except IoError DirEntry) → Except IoError (List Interface)
  | [] => .ok []
  | .error err :: _ => .error err
  | .ok entry :: dir =>
    match entry.name, entry.type with
    | some name, some kind =>
      if trim (kind.toOption.getD "").toList = "280".toList then
        (canEntries dir).map (⟨name⟩ :: ·)
      else canEntries dir
    | _, _ => canEntries dir

/-- The CAN interfaces of the host, sorted by name. -/
def listCanInterfaces (dir : Except IoError (List (Except IoError DirEntry))) :
    Except IoError (List Interface) :=
  match dir with
  | .error err => if err = .os enoent then .ok [] else .error err
  | .ok entries => (canEntries entries).map (·.mergeSort fun a b => a.name ≤ b.name)

end Mcanbus.Iface
