import Mcanbus.Rust.Text

/-! # Configuration of the server

The allowlist of interface names and the read-only flag, read once from the
environment of the process, and the checks that the tools make against them.
-/

namespace Mcanbus.Server

open Rust

/-- The codes of the errors that the tools build. -/
inductive ErrorCode
  | invalidParams
  | internalError
  deriving DecidableEq, Repr

structure McpError where
  code : ErrorCode
  message : String
  deriving DecidableEq, Repr

namespace McpError

def invalidParams (message : String) : McpError := ⟨.invalidParams, message⟩

def internalError (message : String) : McpError := ⟨.internalError, message⟩

end McpError

structure Config where
  allowlist : List String
  readonly : Bool
  deriving DecidableEq, Repr

namespace Config

/-- The configuration for the two variables, of which either may be unset. -/
def fromEnv (interfaces readonly : Option String) : Config where
  allowlist := ((splitChar ',' (interfaces.getD "").toList).map trim |>.filter (· ≠ [])).map
    String.ofList
  readonly := String.ofList (toAsciiLowercase (readonly.getD "").toList) ∈
    ["1", "true", "yes", "on"]

def checkIface (config : Config) (iface : String) : Except McpError Unit :=
  if iface ∈ config.allowlist then .ok ()
  else .error (.invalidParams
    s!"interface '{iface}' is not in the allowlist (set SOCKETCAN_MCP_INTERFACES)")

def checkWritable (config : Config) : Except McpError Unit :=
  if config.readonly then
    .error (.invalidParams "server is in read-only mode (SOCKETCAN_MCP_READONLY=1)")
  else .ok ()

example : fromEnv (some "vcan0, can0,,") (some "TRUE") = ⟨["vcan0", "can0"], true⟩ := by decide

/-- The name is a trimmed piece of the list of interfaces, and not empty. -/
def Permits (interfaces : Option String) (iface : String) : Prop :=
  ∃ list, interfaces = some list ∧ iface ≠ "" ∧
    ∃ piece ∈ splitChar ',' list.toList, trim piece = iface.toList

theorem mem_allowlist {interfaces readonly : Option String} {iface : String} :
    iface ∈ (fromEnv interfaces readonly).allowlist ↔ Permits interfaces iface := by
  unfold fromEnv Permits
  simp only [List.mem_map, List.mem_filter, decide_eq_true_eq]
  constructor
  · rintro ⟨_, ⟨⟨piece, hp, rfl⟩, hne⟩, rfl⟩
    cases interfaces with
    | none =>
      obtain rfl : piece = [] := by simpa [splitChar] using hp
      exact absurd rfl hne
    | some list =>
      exact ⟨list, rfl, by simpa using hne, piece, hp, by simp⟩
  · rintro ⟨list, rfl, hne, piece, hp, ht⟩
    refine ⟨_, ⟨⟨piece, hp, rfl⟩, ?_⟩, ?_⟩
    · rw [ht]
      exact fun h => hne (String.toList_inj.mp h)
    · rw [ht]
      exact String.ofList_toList

theorem checkIface_ok {config : Config} {iface : String} {u : Unit} :
    config.checkIface iface = .ok u ↔ iface ∈ config.allowlist := by
  unfold checkIface
  split <;> simp [*]

theorem checkWritable_ok {config : Config} {u : Unit} :
    config.checkWritable = .ok u ↔ config.readonly = false := by
  unfold checkWritable
  split <;> simp_all

end Config

end Mcanbus.Server
