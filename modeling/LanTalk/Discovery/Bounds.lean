/-
  LanTalk.Discovery.Bounds — what `parseAnnouncePacket` reads of the buffer it is given.

  `parseReading` is the function on memory: `data` is what stands at each index from the
  pointer on, whatever the buffer's size, and every index that is read is noted. A byte
  count of 0 reads nothing.

  Proved, for every memory and every length:
  - `parseReading_eq`: it answers what `parseAnnouncePacket` does of the first `len` bytes.
  - `parse_in_bounds`: it reads no index from `len` on, and takes just the packets whose
    fixed part is there, with the magic, and whose name ends within `len`.
-/

import LanTalk.Discovery.LanDiscovery

namespace LanTalk.Discovery

open LanTalk.Lib

/-- A computation and the indices it reads, in order. -/
abbrev Reading := StateM (List Nat)

def readByte (data : Nat → UInt8) (i : Nat) : Reading UInt8 := do
  modify (· ++ [i])
  return data i

/-- `n` bytes from index `i` on: a `memcpy`, or a string made of them. -/
def readBytes (data : Nat → UInt8) : Nat → Nat → Reading Bytes
  | _, 0 => return []
  | i, n + 1 => do
    let b ← readByte data i
    let bs ← readBytes data (i + 1) n
    return b :: bs

/-- The platform behind the name, from `offset` on; empty if it is missing or cut short. -/
def readPlatform (data : Nat → UInt8) (len offset : Nat) : Reading Bytes :=
  if offset < len then do
    let platLen ← readByte data offset
    if offset + 1 + platLen.toNat ≤ len then readBytes data (offset + 1) platLen.toNat else return []
  else return []

def parseReading (now : Nat) (data : Nat → UInt8) (len : Nat) (senderIp : Bytes) :
    Reading (Option DiscoveredPeer) := do
  if len < 4 + 1 + 2 + 36 + 1 then return none
  else
    let magic ← readBytes data 0 4
    if be32At magic 0 ≠ kDiscoveryMagic then return none
    else
      let version ← readByte data 4
      let port ← readBytes data 5 2
      let deviceId ← readBytes data 7 36
      if len ≤ 43 then return none
      else
        let nameLen ← readByte data 43
        if len < 44 + nameLen.toNat then return none
        else
          let name ← readBytes data 44 nameLen.toNat
          let platform ← readPlatform data len (44 + nameLen.toNat)
          return some
            { ipAddress := senderIp
              tcpPort := be16At port 0
              deviceId := deviceId.takeWhile (· != 0)
              displayName := name
              platform := platform
              protocolVersion := version
              lastSeen := now }

/-- The `n` bytes from index `i` on. -/
def bytes (data : Nat → UInt8) (i n : Nat) : Bytes := (List.range' i n).map data

/-- The first four bytes are the magic, big-endian. -/
def HasMagic (data : Nat → UInt8) : Prop := bytes data 0 4 = be32 kDiscoveryMagic

/-- Where the name ends. -/
def nameEnd (data : Nat → UInt8) : Nat := 44 + (data 43).toNat

/-- The platform's length byte is there, and the bytes it announces. -/
def PlatformComplete (data : Nat → UInt8) (len : Nat) : Prop :=
  nameEnd data < len ∧ nameEnd data + 1 + (data (nameEnd data)).toNat ≤ len

instance (data : Nat → UInt8) (len : Nat) : Decidable (PlatformComplete data len) :=
  inferInstanceAs (Decidable (_ ∧ _))

/-! ## What is read -/

section
variable (data : Nat → UInt8)

theorem bind_run {α β : Type} (m : Reading α) (k : α → Reading β) (log : List Nat) :
    (m >>= k).run log = (k (m.run log).1).run (m.run log).2 := rfl

theorem readByte_run (i : Nat) (log : List Nat) : (readByte data i).run log = (data i, log ++ [i]) := rfl

theorem readBytes_run (i n : Nat) (log : List Nat) :
    (readBytes data i n).run log = (bytes data i n, log ++ List.range' i n) := by
  induction n generalizing i log with
  | zero => rw [List.range'_zero, List.append_nil]; rfl
  | succ n ih =>
    have hstep : (readBytes data i (n + 1)).run log =
        (data i :: ((readBytes data (i + 1) n).run (log ++ [i])).1, ((readBytes data (i + 1) n).run (log ++ [i])).2) :=
      rfl
    rw [hstep, ih]
    simp only [bytes, List.range'_succ, List.map_cons, List.append_assoc, List.singleton_append]

/-- The platform's bytes, if they are all there. -/
def platformBytes (len : Nat) : Bytes :=
  if PlatformComplete data len then bytes data (nameEnd data + 1) (data (nameEnd data)).toNat else []

/-- The peer a packet tells of. -/
def announcedPeer (now len : Nat) (senderIp : Bytes) : DiscoveredPeer :=
  { ipAddress := senderIp
    tcpPort := ofBe16 (data 5) (data 6)
    deviceId := (bytes data 7 36).takeWhile (· != 0)
    displayName := bytes data 44 (data 43).toNat
    platform := platformBytes data len
    protocolVersion := data 4
    lastSeen := now }

/-- The indices read behind the name. -/
def platformReads (len : Nat) : List Nat :=
  if nameEnd data < len then
    nameEnd data ::
      if PlatformComplete data len then List.range' (nameEnd data + 1) (data (nameEnd data)).toNat else []
  else []

variable {data}

instance : Decidable (HasMagic data) := inferInstanceAs (Decidable (_ = _))

theorem hasMagic_iff : HasMagic data ↔ be32At (bytes data 0 4) 0 = kDiscoveryMagic := by
  have hfour : bytes data 0 4 = [data 0, data 1, data 2, data 3] := rfl
  have hat : be32At (bytes data 0 4) 0 = ofBe32 (data 0) (data 1) (data 2) (data 3) := rfl
  constructor
  · intro h
    exact be32At_eq (r := []) (by rw [List.append_nil, List.drop_zero]; exact h)
  · intro h
    rw [HasMagic, ← h, hat, be32_ofBe32, hfour]

theorem readPlatform_run (data : Nat → UInt8) (len : Nat) (log : List Nat) :
    (readPlatform data len (nameEnd data)).run log = (platformBytes data len, log ++ platformReads data len) := by
  unfold readPlatform platformBytes platformReads
  by_cases h1 : nameEnd data < len
  · rw [if_pos h1, if_pos h1, bind_run, readByte_run]
    by_cases h2 : nameEnd data + 1 + (data (nameEnd data)).toNat ≤ len
    · have hc : PlatformComplete data len := ⟨h1, h2⟩
      rw [if_pos h2, if_pos hc, if_pos hc, readBytes_run, List.append_assoc]
      rfl
    · have hc : ¬ PlatformComplete data len := fun h => h2 h.2
      rw [if_neg h2, if_neg hc, if_neg hc]
      rfl
  · have hc : ¬ PlatformComplete data len := fun h => h1 h.1
    rw [if_neg h1, if_neg hc, if_neg h1, List.append_nil]
    rfl

theorem platformReads_lt {len i : Nat} (h : i ∈ platformReads data len) : i < len := by
  unfold platformReads at h
  split at h
  · rename_i hlt
    rcases List.mem_cons.mp h with rfl | h
    · exact hlt
    · split at h
      · rename_i hc
        have hi := (List.mem_range'_1.mp h).2
        have hle := hc.2
        omega
      · cases h
  · cases h

/-- The answer, and the indices read. -/
theorem parseReading_run (now len : Nat) (senderIp : Bytes) :
    (parseReading now data len senderIp).run [] =
      if len < 44 then (none, [])
      else if ¬ HasMagic data then (none, List.range' 0 4)
      else if len < nameEnd data then (none, List.range' 0 44)
      else (some (announcedPeer data now len senderIp),
        List.range' 0 44 ++ List.range' 44 (data 43).toNat ++ platformReads data len) := by
  unfold parseReading
  by_cases h1 : len < 44
  · rw [if_pos h1, if_pos h1]
    rfl
  rw [if_neg h1, if_neg h1, bind_run, readBytes_run]
  by_cases h2 : HasMagic data
  · have hmagic := hasMagic_iff.mp h2
    rw [if_neg (not_not.mpr h2), if_neg (not_not.mpr hmagic), bind_run, readByte_run, bind_run, readBytes_run,
      bind_run, readBytes_run, if_neg (show ¬ len ≤ 43 by omega), bind_run, readByte_run]
    by_cases h3 : len < nameEnd data
    · rw [if_pos h3, if_pos (show len < 44 + (data 43).toNat from h3)]
      rfl
    · have hplatform := readPlatform_run data len
      rw [if_neg h3, if_neg (show ¬ len < 44 + (data 43).toNat from h3), bind_run, readBytes_run, bind_run,
        show 44 + (data 43).toNat = nameEnd data from rfl, hplatform]
      rfl
  · have hmagic : be32At (bytes data 0 4) 0 ≠ kDiscoveryMagic := fun h => h2 (hasMagic_iff.mpr h)
    rw [if_pos h2, if_pos hmagic]
    rfl

/-! ## The first `len` bytes -/

theorem bytes_length (i n : Nat) : (bytes data i n).length = n := by
  rw [bytes, List.length_map, List.length_range']

theorem slice_bytes {i n len : Nat} (h : i + n ≤ len) : slice (bytes data 0 len) i n = bytes data i n := by
  rw [slice, bytes, ← List.map_drop, ← List.map_take, List.drop_range', List.take_range'_of_length_ge (by omega),
    Nat.zero_add, Nat.mul_one]
  rfl

theorem byteAt_bytes {i len : Nat} (h : i < len) : byteAt (bytes data 0 len) i = data i := by
  rw [byteAt, List.getD_eq_getElem?_getD, bytes, List.getElem?_map, List.getElem?_range' h, Nat.zero_add, Nat.one_mul]
  rfl

/-- The platform, as `parseAnnouncePacket` cuts it out. -/
theorem platform_bytes (len : Nat) :
    (if nameEnd data < len then
        let platLen := (byteAt (bytes data 0 len) (nameEnd data)).toNat
        if nameEnd data + 1 + platLen ≤ len then slice (bytes data 0 len) (nameEnd data + 1) platLen else []
      else []) = platformBytes data len := by
  unfold platformBytes
  by_cases h1 : nameEnd data < len
  · rw [if_pos h1, byteAt_bytes h1]
    by_cases h2 : nameEnd data + 1 + (data (nameEnd data)).toNat ≤ len
    · have hc : PlatformComplete data len := ⟨h1, h2⟩
      rw [if_pos hc, ← slice_bytes h2]
      exact if_pos h2
    · have hc : ¬ PlatformComplete data len := fun h => h2 h.2
      rw [if_neg hc]
      exact if_neg h2
  · have hc : ¬ PlatformComplete data len := fun h => h1 h.1
    rw [if_neg h1, if_neg hc]

/-- The answer is what `parseAnnouncePacket` makes of the buffer's first `len` bytes. -/
theorem parseReading_eq (now len : Nat) (senderIp : Bytes) :
    ((parseReading now data len senderIp).run []).1 = parseAnnouncePacket now (bytes data 0 len) senderIp := by
  rw [parseReading_run, parseAnnouncePacket, bytes_length]
  by_cases h1 : len < 44
  · rw [if_pos h1, if_pos h1]
  rw [if_neg h1, if_neg h1]
  have hmagic : be32At (bytes data 0 len) 0 = be32At (bytes data 0 4) 0 := by
    simp only [be32At, byteAt_bytes (show 0 < len by omega), byteAt_bytes (show 0 + 1 < len by omega),
      byteAt_bytes (show 0 + 2 < len by omega), byteAt_bytes (show 0 + 3 < len by omega)]
    rfl
  have hname : byteAt (bytes data 0 len) 43 = data 43 := byteAt_bytes (by omega)
  have hversion : byteAt (bytes data 0 len) 4 = data 4 := byteAt_bytes (by omega)
  have hport : be16At (bytes data 0 len) 5 = ofBe16 (data 5) (data 6) := by
    rw [be16At, byteAt_bytes (show 5 < len by omega), byteAt_bytes (show 5 + 1 < len by omega)]
  rw [hmagic, hname]
  by_cases h2 : HasMagic data
  · rw [if_neg (not_not.mpr h2), if_neg (not_not.mpr (hasMagic_iff.mp h2)), if_neg (show ¬ len ≤ 43 by omega)]
    by_cases h3 : len < nameEnd data
    · rw [if_pos h3]
      exact (if_pos h3).symm
    · rw [if_neg h3]
      refine Eq.trans ?_ (if_neg h3).symm
      rw [hport, hversion, slice_bytes (show 7 + 36 ≤ len by omega), slice_bytes (Nat.not_lt.mp h3)]
      exact congrArg some (by rw [announcedPeer, ← platform_bytes]; rfl)
  · rw [if_pos h2, if_pos fun h => h2 (hasMagic_iff.mpr h)]

end

/-- Whatever the memory, the length and the sender: no index from `len` on is read, and a
    packet is taken just if its fixed part lies within `len`, starts with the magic, and its
    name ends within `len` too. The name is then the bytes its length byte announces, and
    the platform the bytes its own does, or empty if they are not all there. -/
theorem parse_in_bounds (now : Nat) (data : Nat → UInt8) (len : Nat) (senderIp : Bytes) :
    (∀ i ∈ ((parseReading now data len senderIp).run []).2, i < len) ∧
    (((parseReading now data len senderIp).run []).1.isSome = true ↔
      44 ≤ len ∧ HasMagic data ∧ 44 + (data 43).toNat ≤ len) ∧
    ∀ peer, ((parseReading now data len senderIp).run []).1 = some peer →
      peer.displayName = bytes data 44 (data 43).toNat ∧
      peer.platform = if PlatformComplete data len then bytes data (nameEnd data + 1) (data (nameEnd data)).toNat
        else [] := by
  have hread : ∀ {i m n : Nat}, i ∈ List.range' m n → i < m + n := fun hi => (List.mem_range'_1.mp hi).2
  rw [parseReading_run]
  by_cases h1 : len < 44
  · rw [if_pos h1]
    refine ⟨by simp, ⟨fun h => (by cases h), fun h => ?_⟩, fun peer h => (by cases h)⟩
    exact absurd h.1 (Nat.not_le.mpr h1)
  rw [if_neg h1]
  by_cases h2 : HasMagic data
  · rw [if_neg (not_not.mpr h2)]
    by_cases h3 : len < nameEnd data
    · rw [if_pos h3]
      refine ⟨fun i hi => ?_, ⟨fun h => (by cases h), fun h => ?_⟩, fun peer h => (by cases h)⟩
      · have := hread hi
        omega
      · exact absurd h.2.2 (Nat.not_le.mpr h3)
    · have hend : nameEnd data ≤ len := Nat.not_lt.mp h3
      rw [if_neg h3]
      refine ⟨fun i hi => ?_, ⟨fun _ => ⟨Nat.not_lt.mp h1, h2, hend⟩, fun _ => rfl⟩, fun peer h => ?_⟩
      · rcases List.mem_append.mp hi with hi | hi
        · have hlt : i < nameEnd data := by
            rcases List.mem_append.mp hi with hi | hi
            · have := hread hi
              unfold nameEnd
              omega
            · exact hread hi
          omega
        · exact platformReads_lt hi
      · cases h
        exact ⟨rfl, rfl⟩
  · rw [if_pos h2]
    refine ⟨fun i hi => ?_, ⟨fun h => (by cases h), fun h => absurd h.2.1 h2⟩, fun peer h => (by cases h)⟩
    have := hread hi
    omega

end LanTalk.Discovery
