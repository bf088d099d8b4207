import Mcanbus.Iface.Attributes
import Mcanbus.Iface.Control
import Mcanbus.Server.Tools

/-! # The devices of the host

What a host with some network devices writes into its files, answers to queries
and prints, and what the server makes of it. The list of interfaces holds every
CAN device with its name, its flag and its bitrate, sorted, in whichever order
the directory is read.
-/

namespace Mcanbus.Server

open Rust Effect Effect.Process Iface

/-- A network device of the host. -/
structure Device where
  name : String
  /-- The hardware type; `280` is that of CAN. -/
  type : ℕ
  link : Link
  /-- The state that a CAN controller reports. -/
  state : Option UInt32
  bitrate : Option UInt32

namespace Device

variable (d : Device)

/-- The file `/sys/class/net/<iface>/type`. -/
def typeFile : String := String.ofList (Nat.toDigits 10 d.type ++ ['\n'])

def entry : DirEntry := ⟨some d.name, some (.ok d.typeFile)⟩

def isCan : Bool := d.type = 280

/-- The status of the device. -/
def summary : IfaceSummary where
  name := d.name
  up := some (d.link.flags &&& iffUp != 0)
  state := d.state.bind CanState.fromRaw
  bitrate := d.bitrate

/-- The key of a bitrate in the output of `ip`. -/
def bitrateKey : List Char := "\"bitrate\":".toList

/-- The first bitrate in the text is that of the device, or there is none in either. -/
def Prints (text : List Char) : Prop :=
  match d.bitrate with
  | none => ¬ bitrateKey <:+: text
  | some n => ∃ before after, text = before ++ (bitrateKey ++ (Nat.toDigits 10 n.toNat ++ after)) ∧
    (∀ u v, text = u ++ (bitrateKey ++ v) → before.length ≤ u.length) ∧
    ∀ c ∈ after.head?, c.isDigit = false

/-- The answers to the queries about the device. -/
structure Answered (e : Endian) (os : LinkAnswers) : Prop where
  name : '\x00' ∉ d.name.toList
  flags : os.flags = .ok d.link.flagsFile
  index : os.ifNameToIndex = .ok d.link.index
  netlink : ∃ r : LinkReply e, os.netlink = answers r.message ∧ ∀ v, r.HasState v ↔ d.state = some v
  ip : (os.ip = none ∧ d.bitrate = none) ∨
    ∃ text : String, os.ip = some text.toByteArray.data.toList ∧ d.Prints text.toList

end Device

/-- The CAN devices, sorted by name. -/
def canDevices (devices : List Device) : List Device :=
  (devices.filter Device.isCan).mergeSort fun a b => a.name ≤ b.name

/-- An entry without a name that can be read, or without a file of its type that can be read. -/
def Hidden (entry : DirEntry) : Prop :=
  entry.name = none ∨ entry.type = none ∨ ∃ err, entry.type = some (.error err)

/-- The world of a host with the devices; its directory may hold hidden entries. -/
structure World.Shows (w : World) (devices : List Device) : Prop where
  dir : ∃ entries hidden : List DirEntry, w.dir = .ok (entries.map .ok) ∧
    entries.Perm (devices.map Device.entry ++ hidden) ∧
    ∀ entry ∈ hidden, Hidden entry
  links : ∀ d ∈ devices, d.Answered w.endian (w.links d.name)

/-! ### The directory -/

section Directory

variable {d : Device} {devices : List Device} {entry : DirEntry} {entries : List DirEntry}

/-- The interface of an entry of the directory, if it is that of a CAN device. -/
def canInterface (entry : DirEntry) : Option Interface :=
  match entry.name, entry.type with
  | some name, some kind =>
    if trim (kind.toOption.getD "").toList = "280".toList then some ⟨name⟩ else none
  | _, _ => none

theorem canEntries_ok (entries : List DirEntry) :
    canEntries (entries.map .ok) = .ok (entries.filterMap canInterface) := by
  induction entries with
  | nil => rfl
  | cons entry entries ih =>
    rw [List.map_cons, canEntries, ih, List.filterMap_cons, canInterface]
    rcases entry with ⟨_ | name, _ | kind⟩
    · rfl
    · rfl
    · rfl
    · dsimp only
      split <;> rfl

/-- The type of an entry is read as empty when its file cannot be read. -/
theorem canInterface_hidden (h : Hidden entry) : canInterface entry = none := by
  have hempty : trim "".toList ≠ "280".toList := by decide
  obtain ⟨name, kind⟩ := entry
  obtain rfl | rfl | ⟨err, rfl⟩ := h
  · rfl
  · cases name <;> rfl
  · cases name with
    | none => rfl
    | some name =>
      change (if trim "".toList = "280".toList then some ⟨name⟩ else none) = none
      rw [if_neg hempty]

theorem trim_typeFile (d : Device) : trim d.typeFile.toList = Nat.toDigits 10 d.type := by
  rw [Device.typeFile, String.toList_ofList]
  refine trim_newline Nat.toDigits_ne_nil fun c hc => ?_
  obtain ⟨n, hn, rfl⟩ := mem_toDigits (by decide) hc
  exact (by decide : ∀ n < 10, isWhitespace n.digitChar = false) n hn

theorem canInterface_entry (d : Device) :
    canInterface d.entry = if d.isCan then some ⟨d.name⟩ else none := by
  have hiff : trim d.typeFile.toList = "280".toList ↔ d.isCan = true := by
    have h280 : "280".toList = Nat.toDigits 10 280 := by decide
    rw [trim_typeFile, Device.isCan, decide_eq_true_iff, h280]
    exact ⟨toDigits_inj (by decide) (by decide), congrArg _⟩
  have he : canInterface d.entry =
      if trim d.typeFile.toList = "280".toList then some ⟨d.name⟩ else none := rfl
  rw [he]
  by_cases h : d.isCan = true
  · rw [if_pos (hiff.mpr h), if_pos h]
  · rw [if_neg fun ht => h (hiff.mp ht), if_neg h]

theorem filterMap_entries (devices : List Device) :
    (devices.map Device.entry).filterMap canInterface =
      (devices.filter Device.isCan).map fun d => ⟨d.name⟩ := by
  induction devices with
  | nil => rfl
  | cons d devices ih =>
    rw [List.map_cons, List.filterMap_cons, canInterface_entry, ih, List.filter_cons]
    split <;> simp_all

/-- Interfaces that are sorted by name have one order. -/
theorem mergeSort_perm_eq {ifaces ifaces' : List Interface} (h : ifaces.Perm ifaces') :
    (ifaces.mergeSort fun a b => a.name ≤ b.name) =
      ifaces'.mergeSort fun a b => a.name ≤ b.name := by
  have hsorted (l : List Interface) :
      (l.mergeSort fun a b => a.name ≤ b.name).Pairwise fun a b => a.name ≤ b.name := by
    have hp : (l.mergeSort fun a b => a.name ≤ b.name).Pairwise
        fun a b => decide (a.name ≤ b.name) = true := by
      refine List.pairwise_mergeSort (fun a b c hab hbc => ?_) (fun a b => ?_) l
      · exact decide_eq_true
          (String.le_trans (of_decide_eq_true hab) (of_decide_eq_true hbc))
      · simpa only [Bool.or_eq_true, decide_eq_true_eq] using String.le_total a.name b.name
    simpa only [decide_eq_true_eq] using hp
  refine List.Perm.eq_of_pairwise (fun a b _ _ hab hba => ?_) (hsorted _) (hsorted _) ?_
  · cases a
    cases b
    exact congrArg _ (String.le_antisymm hab hba)
  · exact ((List.mergeSort_perm _ _).trans h).trans (List.mergeSort_perm _ _).symm

/-- The list of the interfaces does not depend on the order of the directory. -/
theorem listCanInterfaces_perm {hidden : List DirEntry}
    (hp : entries.Perm (devices.map Device.entry ++ hidden))
    (hh : ∀ entry ∈ hidden, Hidden entry) :
    listCanInterfaces (.ok (entries.map .ok)) =
      .ok ((canDevices devices).map fun d => ⟨d.name⟩) := by
  have hnone : hidden.filterMap canInterface = [] := by
    rw [List.filterMap_eq_nil_iff]
    exact fun entry he => canInterface_hidden (hh entry he)
  have hperm := hp.filterMap canInterface
  rw [List.filterMap_append, hnone, List.append_nil, filterMap_entries] at hperm
  have hmap : (canDevices devices).map (fun d => (⟨d.name⟩ : Interface)) =
      ((devices.filter Device.isCan).map fun d => ⟨d.name⟩).mergeSort fun a b => a.name ≤ b.name :=
    List.map_mergeSort fun _ _ _ _ => rfl
  rw [listCanInterfaces, canEntries_ok, hmap, ← mergeSort_perm_eq hperm]
  rfl

end Directory

/-! ### The queries about a device -/

section Queries

variable {d : Device} {e : Endian} {os : LinkAnswers} {text : String}

theorem isDigit_toDigits {n : ℕ} {c : Char} (h : c ∈ Nat.toDigits 10 n) : c.isDigit = true := by
  obtain ⟨m, hm, rfl⟩ := mem_toDigits (by decide) h
  exact (by decide : ∀ m < 10, m.digitChar.isDigit = true) m hm

/-- Digits are read up to the first other character. -/
theorem takeWhile_toDigits (n : ℕ) {after : List Char} (h : ∀ c ∈ after.head?, c.isDigit = false) :
    (Nat.toDigits 10 n ++ after).takeWhile Char.isDigit = Nat.toDigits 10 n := by
  rw [List.takeWhile_append_of_pos fun c hc => isDigit_toDigits hc]
  cases after with
  | nil => exact List.append_nil _
  | cons c after =>
    rw [List.takeWhile_cons_of_neg (by rw [h c rfl]; exact Bool.false_ne_true), List.append_nil]

theorem bitrate_prints (h : d.Prints text.toList) :
    Interface.bitrate (some text.toByteArray.data.toList) = .ok d.bitrate := by
  have htext : fromUtf8 text.toByteArray.data.toList = some text := fromUtf8_eq_some.mpr rfl
  rw [Interface.bitrate, htext, Option.getD_some]
  unfold Device.Prints at h
  cases hb : d.bitrate with
  | none =>
    rw [hb] at h
    have hnone : afterFirst "\"bitrate\":".toList text.toList = none := afterFirst_none h
    rw [hnone]
  | some n =>
    rw [hb] at h
    obtain ⟨before, after, ht, hfirst, hafter⟩ := h
    have hsome : afterFirst "\"bitrate\":".toList text.toList =
        some (Nat.toDigits 10 n.toNat ++ after) := by
      rw [ht]
      exact afterFirst_some (ht ▸ hfirst)
    rw [hsome]
    dsimp only
    rw [takeWhile_toDigits _ hafter, fromStrRadix_toDigits (by decide) (by decide) n.toNat_lt]
    simp [Except.toOption]

theorem state_answered (h : d.Answered e os) :
    Interface.state ⟨d.name⟩ e os = .ok (.ok (d.state.bind CanState.fromRaw)) := by
  obtain ⟨r, hr, hstate⟩ := h.netlink
  obtain ⟨o, ho, hiff⟩ := r.parseReply_iff
  have hindex : Interface.index ⟨d.name⟩ os.ifNameToIndex = .ok d.link.index := by
    rw [Interface.index, if_neg h.name, h.index]
    rfl
  have hraw : o = d.state := by
    refine Option.ext fun v => ?_
    rw [hiff, hstate]
  rw [Interface.state, hindex]
  dsimp only
  rw [hr, getCanStateRaw_answers, r.take_message, ho, hraw]
  rfl

theorem bitrate_answered (h : d.Answered e os) : Interface.bitrate os.ip = .ok d.bitrate := by
  obtain ⟨hip, hb⟩ | ⟨text, hip, hp⟩ := h.ip
  · rw [hip, hb]
    rfl
  · rw [hip, bitrate_prints hp]

theorem ifaceSummary_answered {w : World} (h : d.Answered w.endian (w.links d.name)) :
    ifaceSummary ⟨d.name⟩ w = ⟨.done d.summary, w, [.queried d.name]⟩ := by
  have hup := isUp_flagsFile d.link
  unfold ifaceSummary
  dsimp only
  rw [state_answered h, bitrate_answered h, h.flags, hup]
  rfl

theorem ifaceSummaries_answered {w : World} {devices : List Device}
    (h : ∀ d ∈ devices, d.Answered w.endian (w.links d.name)) :
    ifaceSummaries (devices.map fun d => ⟨d.name⟩) w =
      ⟨.done (devices.map Device.summary), w, devices.map fun d => .queried d.name⟩ := by
  induction devices with
  | nil => rfl
  | cons d devices ih =>
    rw [List.map_cons, ifaceSummaries, bind_done (ifaceSummary_answered (h d List.mem_cons_self)),
      bind_done (ih fun d hd => h d (List.mem_cons_of_mem _ hd)), pure_apply]
    simp [Run.after]

end Queries

/-- The server reports the host as it is: the list holds the CAN devices and no others, sorted by
name, and every status is that of its device, however the directory is ordered. -/
theorem inventory_exact (config : Config) (w : World) (devices : List Device)
    (h : w.Shows devices) :
    callTool config .listInterfaces w =
      ⟨.done (.interfaces ((canDevices devices).map Device.summary) config.allowlist
        config.readonly), w, (canDevices devices).map fun d => .queried d.name⟩ ∧
    ∀ d ∈ devices, callTool config (.ifaceState d.name) w =
      ⟨.done (.summary d.summary), w, [.queried d.name]⟩ := by
  obtain ⟨entries, hidden, hdir, hp, hh⟩ := h.dir
  constructor
  · have hlist : orInternal "enumerate" (gets fun w => listCanInterfaces w.dir) w =
        ⟨.done ((canDevices devices).map fun d => ⟨d.name⟩), w, []⟩ := by
      have hg : (gets fun w => listCanInterfaces w.dir : ServerM _) w =
          ⟨.done (.ok ((canDevices devices).map fun d => ⟨d.name⟩)), w, []⟩ := by
        rw [gets, hdir, listCanInterfaces_perm hp hh]
      rw [orInternal, bind_done hg]
      rfl
    have hmem : ∀ d ∈ canDevices devices, d.Answered w.endian (w.links d.name) :=
      fun d hd => h.links d (List.mem_filter.mp ((List.mergeSort_perm _ _).subset hd)).1
    rw [callTool, listInterfaces, bind_done hlist, bind_done (ifaceSummaries_answered hmem)]
    simp [Run.after, pure_apply]
  · intro d hd
    rw [callTool, ifaceState, bind_done (ifaceSummary_answered (h.links d hd))]
    rfl

/-- A loopback device and a CAN device that is down. -/
def loopback : Device := ⟨"lo", 772, ⟨1, 0x49⟩, none, none⟩

def can0 : Device := ⟨"can0", 280, ⟨3, 0x40080⟩, none, some 500000⟩

/-- An entry whose type file cannot be read. -/
def unreadable : DirEntry := ⟨some "eth0", some (.error (.os 13))⟩

/-- The message of a link without attributes. -/
def bareReply : LinkReply .little where
  header := BusOff.reply.header
  info := BusOff.reply.info
  attrs := []
  bytes := []
  length_header := BusOff.reply.length_header
  length_info := BusOff.reply.length_info
  not_error := BusOff.reply.not_error
  serialises := .nil
  linkinfo := nofun
  fits := by decide

def smallHost : World :=
  { bus := ⟨0, [], [], []⟩, opens := [], clones := [],
    dir := .ok [.ok loopback.entry, .ok unreadable, .ok can0.entry],
    links := fun name =>
      if name = "can0" then ⟨.ok can0.link.flagsFile, .ok 3, answers bareReply.message,
        some "\"bitrate\":500000,".toByteArray.data.toList⟩
      else ⟨.ok loopback.link.flagsFile, .ok 1, answers bareReply.message, none⟩,
    endian := .little, strerror := fun _ => "", joinError := fun _ => "" }

theorem shows_smallHost : smallHost.Shows [loopback, can0] := by
  have hreply : ∀ v, bareReply.HasState v ↔ none = some v := by
    intro v
    refine ⟨?_, nofun⟩
    rintro ⟨a, ha, -⟩
    cases ha
  refine ⟨⟨_, [unreadable], rfl, .cons _ (.swap _ _ _), ?_⟩, fun d hd => ?_⟩
  · intro entry he
    obtain rfl := List.mem_singleton.mp he
    exact .inr (.inr ⟨_, rfl⟩)
  · obtain rfl | rfl : d = loopback ∨ d = can0 := by simpa using hd
    · exact ⟨by decide, rfl, rfl, ⟨bareReply, rfl, hreply⟩, .inl ⟨rfl, rfl⟩⟩
    · refine ⟨by decide, rfl, rfl, ⟨bareReply, rfl, hreply⟩, .inr ⟨_, rfl, [], [','], ?_, ?_, ?_⟩⟩
      · decide
      · exact fun u v _ => Nat.zero_le _
      · rintro _ ⟨⟩
        rfl

theorem inventory_exact_smallHost : callTool ⟨[], true⟩ .listInterfaces smallHost =
    ⟨.done (.interfaces [⟨"can0", some false, none, some 500000⟩] [] true), smallHost,
      [.queried "can0"]⟩ := by
  have hcan : canDevices [loopback, can0] = [can0] := by
    have hf : [loopback, can0].filter Device.isCan = [can0] := rfl
    rw [canDevices, hf, List.mergeSort_singleton]
  have h := (inventory_exact ⟨[], true⟩ smallHost [loopback, can0] shows_smallHost).1
  rw [hcan] at h
  exact h

end Mcanbus.Server
