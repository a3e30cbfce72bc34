/-
  LanTalk.Cli.Connect — where `connect` connects to (`runConnect` in `src/main.cpp`, the flags
  of `src/cli/command_parser.cpp`).

  A host with a dot is taken as an address, with the port of `--port` or else the own listen
  port. Any other is looked for among the peers a scan lists, by name and by id: the first
  one gives address and port. `heard` are the datagrams of that scan.

  Proved:
  - `named_target_iff`: for any datagrams, a name leads to the peer that goes by it in the
    last packet of its id and whose id came first; flags and settings do not count.
  - `announced_target`: among devices with ids of their own, a name that one of them has
    leads to it, if it announced itself and is not the own device.
  - `dialled_port`: for an address, the port is the number the last `--port` starts with, if
    it is a port, or else the configured one.
-/

import LanTalk.Cli.Switches
import LanTalk.Discovery.Scan
import LanTalk.Lib.Decimal

namespace LanTalk.Cli

open LanTalk.Lib LanTalk.Config LanTalk.Discovery

namespace ParsedArgs

def getFlag (args : ParsedArgs) (name : Bytes) : Option Bytes := args.flags[name]?

def getFlagAsPort (args : ParsedArgs) (name : Bytes) : Option UInt16 :=
  (args.getFlag name).bind fun val => (stoi val).bind fun port =>
    if 0 < port ∧ port ≤ 65535 then some (UInt16.ofInt port.toInt) else none

end ParsedArgs

inductive Target where
  | usage
  | notFound (host : Bytes)
  | to (host : Bytes) (port : UInt16)
  deriving DecidableEq

def dot : UInt8 := 46

/-- A peer goes by this name. -/
def answers (host : Bytes) (p : DiscoveredPeer) : Bool := p.displayName == host || p.deviceId == host

def target (win32 : Bool) (config : AppConfig) (args : ParsedArgs) (heard : List Datagram) : Target :=
  match args.positional with
  | [] => .usage
  | host :: _ =>
    if dot ∈ host then .to host ((args.getFlagAsPort (str "port")).getD config.listenPort)
    else
      match (scan win32 config heard).results.find? (answers host) with
      | some p => .to p.ipAddress p.tcpPort
      | none => .notFound host

/-! ## By name -/

section
variable (win32 : Bool) (config : AppConfig) (heard : List Datagram)

/-- The peer is what the last packet of its id told. -/
def Latest (p : DiscoveredPeer) : Prop :=
  Keyed.lastOf DiscoveredPeer.deviceId p.deviceId (peersOf win32 config heard) = some p

/-- Which of the ids that were heard came first, and so on. -/
def arrival (id : Bytes) : Nat := ((peersOf win32 config heard).map (·.deviceId)).idxOf id

/-- Of the peers that go by the name in the last packet of their id, the one whose id came
    first. -/
structure Chosen (host : Bytes) (p : DiscoveredPeer) : Prop where
  latest : Latest win32 config heard p
  answers : answers host p = true
  first : ∀ q, Latest win32 config heard q → Cli.answers host q = true →
    arrival win32 config heard p.deviceId ≤ arrival win32 config heard q.deviceId

variable {win32 config heard}

theorem find?_chosen {host : Bytes} {p : DiscoveredPeer} :
    (scan win32 config heard).results.find? (answers host) = some p ↔ Chosen win32 config heard host p :=
  (scan_gathered win32 config heard).find?_iff.trans
    ⟨fun ⟨hl, ha, hf⟩ => ⟨hl, ha, hf⟩, fun ⟨hl, ha, hf⟩ => ⟨hl, ha, hf⟩⟩

theorem find?_none {host : Bytes} :
    (scan win32 config heard).results.find? (answers host) = none ↔
      ∀ p, Latest win32 config heard p → answers host p = false := by
  rw [List.find?_eq_none]
  refine forall_congr' fun p => ?_
  rw [(scan_gathered win32 config heard).mem_rows, Bool.not_eq_true]
  rfl

end

theorem target_named (win32 : Bool) (config : AppConfig) {args : ParsedArgs} (heard : List Datagram) {host : Bytes}
    (hpos : args.positional.head? = some host) (hdot : dot ∉ host) :
    target win32 config args heard = match (scan win32 config heard).results.find? (answers host) with
      | some p => .to p.ipAddress p.tcpPort
      | none => .notFound host := by
  obtain ⟨rest, hargs⟩ := List.head?_eq_some_iff.mp hpos
  rw [target, hargs]
  exact if_neg hdot

/-- A name is looked for among the last packets of all ids heard: it leads to the sender and
    to the port of the one that goes by it, and of several to the one whose id came first; it
    is not found if there is none. -/
theorem named_target_iff (win32 : Bool) (config : AppConfig) (args : ParsedArgs) (heard : List Datagram) (host : Bytes)
    (hpos : args.positional.head? = some host) (hdot : dot ∉ host) :
    (∀ ip port, target win32 config args heard = .to ip port ↔
      ∃ p, Chosen win32 config heard host p ∧ ip = p.ipAddress ∧ port = p.tcpPort) ∧
    (target win32 config args heard = .notFound host ↔ ∀ p, Latest win32 config heard p → answers host p = false) := by
  rw [target_named win32 config heard hpos hdot]
  cases hfind : (scan win32 config heard).results.find? (answers host) with
  | none =>
    refine ⟨fun ip port => ⟨nofun, fun ⟨p, hp, _⟩ => ?_⟩, fun _ => find?_none.mp hfind, fun _ => rfl⟩
    rw [find?_chosen.mpr hp] at hfind
    cases hfind
  | some p =>
    refine ⟨fun ip port => ⟨fun h => ?_, fun ⟨q, hq, hip, hport⟩ => ?_⟩, nofun, fun h => ?_⟩
    · cases h
      exact ⟨p, find?_chosen.mp hfind, rfl, rfl⟩
    · rw [find?_chosen.mpr hq] at hfind
      cases hfind
      rw [hip, hport]
    · rw [find?_none.mpr h] at hfind
      cases hfind

/-- Two peers of one name: the id that came first counts, with its last packet, not its first. -/
theorem named_target_iff_twoNames :
    let packet := fun (id name : String) (port : UInt16) (ip : String) =>
      ownPacket false { deviceId := str id, displayName := str name, listenPort := port } 0 (str ip)
    let heard := [packet "a" "old" 1 "10.0.0.1", packet "b" "pc" 2 "10.0.0.2", packet "a" "pc" 3 "10.0.0.3"]
    target false {} { positional := [str "pc"] } heard = .to (str "10.0.0.3") 3 := by
  intro packet heard
  have hfind : (scan false {} heard).results.find? (answers (str "pc")) =
      some ⟨str "10.0.0.3", 3, str "a", str "pc", str "linux", 1, 0⟩ := by decide +kernel
  exact ((named_target_iff false {} _ heard (str "pc") rfl (by decide)).1 _ _).mpr
    ⟨_, find?_chosen.mp hfind, rfl, rfl⟩

/-! ## Devices that announce themselves -/

structure Device where
  win32 : Bool
  config : AppConfig
  ip : Bytes

namespace Device

def announce (d : Device) (now : Nat) : Datagram := ownPacket d.win32 d.config now d.ip

/-- The id that is left in its packets. -/
def id (d : Device) : Bytes := cutId d.config.deviceId

/-- What its packets are read as. -/
def peer (d : Device) (now : Nat) : DiscoveredPeer where
  ipAddress := d.ip
  tcpPort := d.config.listenPort
  deviceId := d.id
  displayName := d.config.displayName.take 255
  platform := announcedPlatform d.win32
  protocolVersion := 1
  lastSeen := now

def answers (host : Bytes) (d : Device) : Bool := d.config.displayName.take 255 == host || d.id == host

end Device

section
variable {win32 : Bool} {config : AppConfig} {events : List (Nat × Device)} {host : Bytes} {p : DiscoveredPeer}

theorem peerOf_announce (win32 : Bool) (config : AppConfig) (d : Device) (now : Nat) :
    peerOf win32 config (d.announce now) = if d.id = config.deviceId then none else some (d.peer now) := by
  have hne : buildAnnouncePacket d.win32 d.config ≠ [] := by simp [buildAnnouncePacket, be32]
  have hlen := build_length d.win32 d.config
  have hrecv : recvfrom win32 (buildAnnouncePacket d.win32 d.config) = some (buildAnnouncePacket d.win32 d.config) := by
    rw [recvfrom, if_neg fun h => absurd h.2 (Nat.not_lt.mpr hlen), List.take_of_length_le hlen]
  have hparse := parse_build d.win32 d.config now d.ip
  simp only [peerOf, Device.announce, ownPacket, hrecv, if_neg hne, hparse]
  rfl

theorem mem_peersOf_announced :
    p ∈ peersOf win32 config (events.map fun e => e.2.announce e.1) ↔
      ∃ e ∈ events, e.2.id ≠ config.deviceId ∧ p = e.2.peer e.1 := by
  rw [peersOf, List.filterMap_map, List.mem_filterMap]
  refine exists_congr fun e => and_congr_right fun _ => ?_
  rw [Function.comp_apply, peerOf_announce, Option.ite_none_left_eq_some, Option.some.injEq, eq_comm (a := p)]

theorem Latest.mem {heard : List Datagram} (h : Latest win32 config heard p) : p ∈ peersOf win32 config heard :=
  (List.mem_filter.mp (List.mem_of_getLast? h)).1

end

/-- Devices announce themselves, each as often as it likes; no two of them have one id, as
    far as it is announced, or go by this name. Then the name leads to the one that goes by
    it, if it announced itself while the scan was on and is not the own device. -/
theorem announced_target (win32 : Bool) (config : AppConfig) (args : ParsedArgs) (events : List (Nat × Device))
    (host : Bytes) (hpos : args.positional.head? = some host) (hdot : dot ∉ host)
    (hids : ∀ e ∈ events, ∀ e' ∈ events, e.2.id = e'.2.id → e.2 = e'.2)
    (hname : ∀ e ∈ events, ∀ e' ∈ events, e.2.answers host = true → e'.2.answers host = true → e.2 = e'.2) :
    let heard := events.map fun e => e.2.announce e.1
    (∀ e ∈ events, e.2.id ≠ config.deviceId → e.2.answers host = true →
      target win32 config args heard = .to e.2.ip e.2.config.listenPort) ∧
    ((∀ e ∈ events, e.2.id ≠ config.deviceId → e.2.answers host = false) →
      target win32 config args heard = .notFound host) := by
  intro heard
  have hanswers : ∀ (d : Device) now, answers host (d.peer now) = d.answers host := fun _ _ => rfl
  have hlatest : ∀ p, Latest win32 config heard p → ∃ e ∈ events, e.2.id ≠ config.deviceId ∧ p = e.2.peer e.1 :=
    fun p hp => mem_peersOf_announced.mp hp.mem
  rw [target_named win32 config heard hpos hdot]
  refine ⟨fun e he hother hname' => ?_, fun hnone => ?_⟩
  · -- the last packet of the device's id is one of its own
    have hown : e.2.peer e.1 ∈ peersOf win32 config heard := mem_peersOf_announced.mpr ⟨e, he, hother, rfl⟩
    obtain ⟨p, hp⟩ : ∃ p, Keyed.lastOf DiscoveredPeer.deviceId e.2.id (peersOf win32 config heard) = some p := by
      refine Option.ne_none_iff_exists'.mp fun hnil => ?_
      rw [Keyed.lastOf, List.getLast?_eq_none_iff] at hnil
      exact List.ne_nil_of_mem (List.mem_filter.mpr ⟨hown, decide_eq_true rfl⟩) hnil
    have hid : p.deviceId = e.2.id := of_decide_eq_true (List.mem_filter.mp (List.mem_of_getLast? hp)).2
    have hlast : Latest win32 config heard p := by rw [Latest, hid, hp]
    obtain ⟨e', he', -, rfl⟩ := hlatest p hlast
    have hsame : e'.2 = e.2 := hids e' he' e he hid
    have hchosen : Chosen win32 config heard host (e'.2.peer e'.1) := by
      refine ⟨hlast, (hanswers _ _).trans (by rw [hsame]; exact hname'), fun q hq hqname => ?_⟩
      obtain ⟨e'', he'', -, rfl⟩ := hlatest q hq
      have hq' : e''.2 = e'.2 := (hname e'' he'' e he hqname hname').trans hsame.symm
      rw [show (e''.2.peer e''.1).deviceId = (e'.2.peer e'.1).deviceId from congrArg Device.id hq']
    rw [find?_chosen.mpr hchosen]
    show Target.to e'.2.ip e'.2.config.listenPort = _
    rw [hsame]
  · have hfind : (scan win32 config heard).results.find? (answers host) = none := find?_none.mpr fun p hp => by
      obtain ⟨e, he, hother, rfl⟩ := hlatest p hp
      exact hnone e he hother
    rw [hfind]

/-- A device with a name of its own, and the own one, which has an id of 36 letters. -/
theorem announced_target_pc :
    let pc : Device :=
      { win32 := true, config := { deviceId := str "a", displayName := str "pc" }, ip := str "10.0.0.1" }
    let own : Device := { win32 := false, config := { deviceId := List.replicate 36 98 }, ip := str "10.0.0.2" }
    target false own.config { positional := [str "pc"] } [own.announce 0, pc.announce 1, own.announce 2] =
      .to (str "10.0.0.1") 5050 := by
  intro pc own
  have hne : pc.id ≠ own.id := by decide
  have hname : own.answers (str "pc") = false := by decide
  have hdevices : ∀ e ∈ [(0, own), (1, pc), (2, own)], e.2 = own ∨ e.2 = pc := by simp
  refine (announced_target false own.config _ [(0, own), (1, pc), (2, own)] (str "pc") rfl (by decide)
    (fun e he e' he' hid => ?_) (fun e he e' he' h h' => ?_)).1 (1, pc) (by simp) (by decide) (by decide)
  · rcases hdevices e he with h1 | h1 <;> rcases hdevices e' he' with h2 | h2 <;> rw [h1, h2] at hid ⊢
    · exact absurd hid.symm hne
    · exact absurd hid hne
  · rcases hdevices e he with h1 | h1
    · rw [h1, hname] at h
      cases h
    · rcases hdevices e' he' with h2 | h2
      · rw [h2, hname] at h'
        cases h'
      · rw [h1, h2]

/-! ## By address -/

/-- `listen` with the port of its flag. -/
def listenConfig (config : AppConfig) (args : ParsedArgs) : AppConfig :=
  match args.getFlagAsPort (str "port") with
  | some port => { config with listenPort := port }
  | none => config

/-- The number a text starts with, if it is a port. -/
def portText? (value : Bytes) : Option UInt16 :=
  (leading? value).bind fun i => if 0 < i ∧ i ≤ 65535 then some (UInt16.ofInt i) else none

theorem getFlagAsPort_eq (args : ParsedArgs) (name : Bytes) :
    args.getFlagAsPort name = (args.getFlag name).bind portText? := by
  rw [ParsedArgs.getFlagAsPort]
  refine congrArg _ (funext fun value => ?_)
  rw [stoi_eq, portText?]
  cases leading? value with
  | none => rfl
  | some i =>
    rw [Option.bind_some, Option.bind_some]
    by_cases hi : -2 ^ 31 ≤ i ∧ i < 2 ^ 31
    · have hv : (Int32.ofInt i).toInt = i := Int32.toInt_ofInt_of_le (by omega) (by omega)
      have hport : (0 < Int32.ofInt i ∧ Int32.ofInt i ≤ 65535) ↔ 0 < i ∧ i ≤ 65535 := by
        rw [Int32.lt_iff_toInt_lt, Int32.le_iff_toInt_le, hv]
        rfl
      rw [if_pos hi, Option.bind_some]
      exact if_congr hport (by rw [hv]) rfl
    · rw [if_neg hi, Option.bind_none, if_neg (by omega)]

/-- A host with a dot behind `connect`, and `--port` among the flags, in any order: the port
    is the number that the value of the last `--port` starts with, if it is one from 1 to
    65535, and the configured one otherwise; `listen` takes the same. -/
theorem dialled_port (win32 : Bool) (config : AppConfig) (heard : List Datagram) (prog host : Bytes) (hdot : dot ∈ host)
    (ps : List Bytes) (hps : ∀ p ∈ host :: ps, startsFlag p = false) (fs : List (Bytes × Bytes))
    (hfs : ∀ f ∈ fs, startsFlag f.2 = false) (tokens : List Bytes) (h : Mixed (host :: ps) fs tokens) :
    let port := ((lastValue fs (str "port")).bind portText?).getD config.listenPort
    target win32 config (parse (prog :: str "connect" :: tokens)) heard = .to host port ∧
    listenConfig config (parse (prog :: str "listen" :: tokens)) = { config with listenPort := port } := by
  intro port
  have hparse : ∀ command, asksHelp command = false → asksVersion command = false →
      parse (prog :: command :: tokens) =
        { command := command, positional := host :: ps, flags := addFlags ∅ fs } := by
    intro command hhelp hversion
    rw [parse, if_neg (by simp [hhelp]), if_neg (by simp [hversion]), parseLoop_mixed h hps hfs]
    rfl
  have hflag : ∀ command, ParsedArgs.getFlagAsPort
      { command := command, positional := host :: ps, flags := addFlags ∅ fs } (str "port") =
        (lastValue fs (str "port")).bind portText? := by
    intro command
    rw [getFlagAsPort_eq, ParsedArgs.getFlag, addFlags_find]
    simp
  rw [hparse _ (by decide) (by decide), hparse _ (by decide) (by decide)]
  constructor
  · simp only [target, if_pos hdot, hflag]
    rfl
  · simp only [listenConfig, hflag, port]
    cases (lastValue fs (str "port")).bind portText? <;> rfl

/-- The last of two ports counts, up to where its digits end. -/
theorem dialled_port_twice :
    target false {} (parse [str "lantalk", str "connect", str "--port", str "1", str "10.0.0.1", str "--port",
      str "6000x"]) [] = .to (str "10.0.0.1") 6000 := by
  have hport : str "--port" = dashes ++ str "port" := by decide
  have hmixed : Mixed [str "10.0.0.1"] [(str "port", str "1"), (str "port", str "6000x")]
      [str "--port", str "1", str "10.0.0.1", str "--port", str "6000x"] := by
    rw [hport]
    exact .flag _ _ (.positional _ (.flag _ _ .nil))
  have hdial := (dialled_port false {} [] (str "lantalk") (str "10.0.0.1") (by decide) [] (by decide) _ (by decide) _
    hmixed).1
  have hvalue : (lastValue [(str "port", str "1"), (str "port", str "6000x")] (str "port")).bind portText? =
      some 6000 := by decide +kernel
  rwa [hvalue] at hdial

end LanTalk.Cli
