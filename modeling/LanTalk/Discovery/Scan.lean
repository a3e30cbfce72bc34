/-
  LanTalk.Discovery.Scan — the loop of `LanDiscovery::scan` (`src/discovery/lan_discovery.cpp`)
  over the datagrams it receives.

  `recvfrom` cuts a datagram that does not fit into the buffer, and on Windows fails on it;
  an empty one is passed over like no datagram. A peer whose id is not the own one takes
  the place of the entry of its id, or is a new one and given to `onFound`. `found` are the
  peers `onFound` was called with, if it is set.

  Proved, for any datagrams in any order:
  - `scan_deduplicated`: each id is listed once, in the order in which the ids first came,
    with what its last packet told, and `onFound` was given what its first one did.
  - `own_packet_ignored_iff`: the own packet makes no entry just if the device id survives
    the packet's field, unless what is left of it is listed already.
-/

import LanTalk.Discovery.LanDiscovery
import LanTalk.Config.ConfigFile
import LanTalk.Lib.Keyed

namespace LanTalk.Discovery

open LanTalk.Lib LanTalk.Config

structure Datagram where
  /-- When it is read. -/
  now : Nat
  senderIp : Bytes
  payload : Bytes

/-- `sizeof(buf)`. -/
def bufSize : Nat := 1024

/-- What is in the buffer, if `recvfrom` returns a length. -/
def recvfrom (win32 : Bool) (payload : Bytes) : Option Bytes :=
  if win32 = true ∧ bufSize < payload.length then none else some (payload.take bufSize)

structure Scan where
  results : List DiscoveredPeer := []
  /-- What `onFound` was called with. -/
  found : List DiscoveredPeer := []
  deriving DecidableEq

section
variable (win32 : Bool) (config : AppConfig)

/-- The peer a datagram tells of, if it is read and is not this device. -/
def peerOf (d : Datagram) : Option DiscoveredPeer :=
  match recvfrom win32 d.payload with
  | none => none
  | some buf =>
    if buf = [] then none
    else
      match parseAnnouncePacket d.now buf d.senderIp with
      | none => none
      | some peer => if peer.deviceId = config.deviceId then none else some peer

/-- One turn of the loop. -/
def Scan.receive (s : Scan) (d : Datagram) : Scan :=
  match peerOf win32 config d with
  | none => s
  | some peer =>
    match Keyed.replace? DiscoveredPeer.deviceId peer s.results with
    | some results => { s with results := results }
    | none => { results := s.results ++ [peer], found := s.found ++ [peer] }

def scan (ds : List Datagram) : Scan := ds.foldl (Scan.receive win32 config) {}

/-! ## Once each -/

/-- The peers that datagrams tell of. -/
def peersOf (ds : List Datagram) : List DiscoveredPeer := ds.filterMap (peerOf win32 config)

theorem peerOf_eq_some {d : Datagram} {peer : DiscoveredPeer} :
    peerOf win32 config d = some peer ↔ ∃ buf, recvfrom win32 d.payload = some buf ∧ buf ≠ [] ∧
      parseAnnouncePacket d.now buf d.senderIp = some peer ∧ peer.deviceId ≠ config.deviceId := by
  unfold peerOf
  cases hbuf : recvfrom win32 d.payload with
  | none => simp
  | some buf =>
    by_cases hempty : buf = []
    · simp [hempty]
    · cases hparse : parseAnnouncePacket d.now buf d.senderIp with
      | none => simp [hempty, hparse]
      | some p =>
        by_cases hown : p.deviceId = config.deviceId
        · simp only [if_neg hempty, if_pos hown, Option.some.injEq, exists_eq_left', hparse]
          refine iff_of_false (by simp) ?_
          rintro ⟨-, hp, hne⟩
          exact hne (hp ▸ hown)
        · simp only [if_neg hempty, if_neg hown, Option.some.injEq, exists_eq_left', hparse]
          exact ⟨fun hp => ⟨hempty, hp, hp ▸ hown⟩, fun h => h.2.1⟩

/-- They are those that `parseAnnouncePacket` takes, with an id other than the own one. -/
theorem mem_peersOf {ds : List Datagram} {peer : DiscoveredPeer} :
    peer ∈ peersOf win32 config ds ↔ ∃ d ∈ ds, ∃ buf, recvfrom win32 d.payload = some buf ∧ buf ≠ [] ∧
      parseAnnouncePacket d.now buf d.senderIp = some peer ∧ peer.deviceId ≠ config.deviceId := by
  simp only [peersOf, List.mem_filterMap, peerOf_eq_some]

/-- A turn goes on with the table of the peers before. -/
theorem receive_gathered {ds : List Datagram} {s : Scan}
    (h : Keyed.Gathered DiscoveredPeer.deviceId (peersOf win32 config ds) s.results s.found) (d : Datagram) :
    Keyed.Gathered DiscoveredPeer.deviceId (peersOf win32 config (ds ++ [d])) (s.receive win32 config d).results
      (s.receive win32 config d).found := by
  rw [peersOf, List.filterMap_append, ← peersOf, Scan.receive]
  cases hd : peerOf win32 config d with
  | none => simpa [hd] using h
  | some peer =>
    have hone : [d].filterMap (peerOf win32 config) = [peer] := by simp [hd]
    rw [hone]
    simp only
    cases hr : Keyed.replace? DiscoveredPeer.deviceId peer s.results with
    | some results => exact h.replaced hr
    | none => exact h.extended hr

theorem scan_gathered (ds : List Datagram) : Keyed.Gathered DiscoveredPeer.deviceId (peersOf win32 config ds)
    (scan win32 config ds).results (scan win32 config ds).found := by
  induction ds using List.reverseRecOn with
  | nil => exact .nil
  | append_singleton ds d ih =>
    rw [scan, List.foldl_append]
    exact receive_gathered win32 config ih d

/-- The datagrams that are accepted are those that `parseAnnouncePacket` takes with an id other
    than the own one. Every id of theirs is listed once, in the order of first appearance, with
    the data of the last of them that has this id; and `onFound` was called once for each, in
    that order, with the data of the first. -/
theorem scan_deduplicated (ds : List Datagram) :
    let s := scan win32 config ds
    let peers := peersOf win32 config ds
    (∀ peer, peer ∈ peers ↔ ∃ d ∈ ds, ∃ buf, recvfrom win32 d.payload = some buf ∧ buf ≠ [] ∧
      parseAnnouncePacket d.now buf d.senderIp = some peer ∧ peer.deviceId ≠ config.deviceId) ∧
    s.results.map (·.deviceId) = (peers.map (·.deviceId)).eraseDups ∧
    (s.results.map (·.deviceId)).Nodup ∧
    (∀ p ∈ s.results, (peers.filter fun q => q.deviceId = p.deviceId).getLast? = some p) ∧
    s.found.map (·.deviceId) = s.results.map (·.deviceId) ∧
    ∀ p ∈ s.found, (peers.filter fun q => q.deviceId = p.deviceId).head? = some p := by
  intro s peers
  have h := scan_gathered win32 config ds
  exact ⟨fun _ => mem_peersOf win32 config, h.keys, h.distinct, h.last, h.addedKeys, h.first⟩

/-! ## The own packet -/

/-- What a packet's field leaves of a device id. -/
def cutId (deviceId : Bytes) : Bytes := (deviceId.take 36).takeWhile (· != 0)

theorem cutId_eq_iff (deviceId : Bytes) : cutId deviceId = deviceId ↔ deviceId.length ≤ 36 ∧ 0 ∉ deviceId := by
  constructor
  · intro h
    have hlen : (cutId deviceId).length ≤ 36 :=
      ((List.takeWhile_prefix _).length_le).trans (List.length_take_le _ _)
    rw [h] at hlen
    refine ⟨hlen, fun hz => ?_⟩
    rw [← h] at hz
    exact absurd (List.mem_takeWhile_imp hz) (by decide)
  · intro h
    rw [cutId, List.take_of_length_le h.1, List.takeWhile_eq_self_iff]
    intro b hb
    exact bne_iff_ne.mpr fun e => h.2 (e ▸ hb)

/-- Every packet built fits into the buffer. -/
theorem build_length : (buildAnnouncePacket win32 config).length ≤ bufSize := by
  have hname := clamp255_length config.displayName
  have hplat := clamp255_length (announcedPlatform win32)
  simp only [buildAnnouncePacket, be32, be16, lengthPrefixed, List.length_append, List.length_cons, List.length_nil,
    resize_length]
  rw [bufSize]
  omega

theorem recvfrom_build : recvfrom win32 (buildAnnouncePacket win32 config) =
    some (buildAnnouncePacket win32 config) := by
  have hlen := build_length win32 config
  rw [recvfrom, if_neg fun h => absurd h.2 (Nat.not_lt.mpr hlen), List.take_of_length_le hlen]

/-- A device's own packet. -/
def ownPacket (now : Nat) (senderIp : Bytes) : Datagram :=
  { now := now, senderIp := senderIp, payload := buildAnnouncePacket win32 config }

theorem peerOf_own (now : Nat) (senderIp : Bytes) :
    (cutId config.deviceId = config.deviceId → peerOf win32 config (ownPacket win32 config now senderIp) = none) ∧
    (cutId config.deviceId ≠ config.deviceId → ∃ peer, peer.deviceId = cutId config.deviceId ∧
      peerOf win32 config (ownPacket win32 config now senderIp) = some peer) := by
  have hne : buildAnnouncePacket win32 config ≠ [] := by simp [buildAnnouncePacket, be32]
  have hparse := parse_build win32 config now senderIp
  simp only [peerOf, ownPacket, recvfrom_build, if_neg hne, hparse]
  exact ⟨fun h => if_pos h, fun h => ⟨_, rfl, if_neg h⟩⟩

/-- Whatever a scan has found so far, the packet this device announces adds no entry to it
    and is not given to `onFound`, if and only if the device id has at most 36 bytes and no
    NUL, or the id it is cut to has an entry already. -/
theorem own_packet_ignored_iff (s : Scan) (now : Nat) (senderIp : Bytes) :
    let s' := s.receive win32 config (ownPacket win32 config now senderIp)
    (s'.results.length = s.results.length ∧ s'.found = s.found) ↔
      (config.deviceId.length ≤ 36 ∧ 0 ∉ config.deviceId) ∨ cutId config.deviceId ∈ s.results.map (·.deviceId) := by
  intro s'
  obtain ⟨hnone, hsome⟩ := peerOf_own win32 config now senderIp
  rw [← cutId_eq_iff]
  by_cases hcut : cutId config.deviceId = config.deviceId
  · have hs : s' = s := by simp only [s', Scan.receive, hnone hcut]
    rw [hs]
    exact ⟨fun _ => Or.inl hcut, fun _ => ⟨rfl, rfl⟩⟩
  · obtain ⟨peer, hid, hpeer⟩ := hsome hcut
    cases hr : Keyed.replace? DiscoveredPeer.deviceId peer s.results with
    | some results =>
      have hs : s' = { s with results := results } := by simp only [s', Scan.receive, hpeer, hr]
      have hmem : cutId config.deviceId ∈ s.results.map (·.deviceId) := by
        by_contra h
        rw [← hid] at h
        rw [Keyed.replace?_eq_none.mpr h] at hr
        cases hr
      have hlen : results.length = s.results.length := by
        have hkeys := congrArg List.length (Keyed.replace?_keys hr)
        simpa using hkeys
      rw [hs]
      exact ⟨fun _ => Or.inr hmem, fun _ => ⟨hlen, rfl⟩⟩
    | none =>
      have hs : s' = { results := s.results ++ [peer], found := s.found ++ [peer] } := by
        simp only [s', Scan.receive, hpeer, hr]
      have hmem : cutId config.deviceId ∉ s.results.map (·.deviceId) := by
        rw [← hid]
        exact Keyed.replace?_eq_none.mp hr
      rw [hs]
      constructor
      · intro h
        have hlen : (s.results ++ [peer]).length = s.results.length := h.1
        simp at hlen
      · exact fun h => absurd h (not_or.mpr ⟨hcut, hmem⟩)

end

/-- A device id of 37 letters, set by `Config::set`: the device finds itself. -/
theorem long_id_finds_itself :
    let b : Build := { os := .linux, ulongBits := 64, wide := by decide }
    let h : Host := { random := none, hostname := none }
    let id := List.replicate 37 (97 : UInt8)
    ∃ c, set b (new b h) (str "device_id") id = some (true, c) ∧ c.deviceId ≠ [] ∧
      ¬ ((Scan.receive false c {} (ownPacket false c 0 (str "10.0.0.1"))).results.length = 0 ∧
        (Scan.receive false c {} (ownPacket false c 0 (str "10.0.0.1"))).found = []) := by
  intro b h id
  exact ⟨{ new b h with deviceId := id }, rfl, by decide, by decide +kernel⟩

end LanTalk.Discovery
