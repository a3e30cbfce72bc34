/-
  LanTalk.Discovery.LanDiscovery — the announce packets of LAN discovery and how a scan
  reads them (`src/discovery/lan_discovery.cpp`).

  A packet is `[magic:4][version:1][tcp port:2][device id:36][name length:1][name]`
  `[platform length:1][platform]`, numbers big-endian, the device id cut or padded with
  NULs. The reader walks an offset through it; the platform is optional. `win32` is the
  build's `_WIN32`, and `now` the clock's time at which a packet is read.

  Proved:
  - `parse_build`: every packet built is read, with any sender address: the device id up
    to its first NUL, the name up to its 255th byte, the rest as it was put in.
-/

import LanTalk.Config.AppConfig

namespace LanTalk.Discovery

open LanTalk.Lib LanTalk.Config

def kDiscoveryMagic : UInt32 := 0x4C544C44

structure DiscoveredPeer where
  ipAddress : Bytes
  tcpPort : UInt16
  deviceId : Bytes
  displayName : Bytes
  platform : Bytes
  protocolVersion : UInt8
  lastSeen : Nat
  deriving DecidableEq, Repr

/-- What a build announces as its platform; the configured one is not used. -/
def announcedPlatform (win32 : Bool) : Bytes := if win32 then str "windows" else str "linux"

/-- `if (s.length() > 255) s.resize(255)`. -/
def clamp255 (s : Bytes) : Bytes := if 255 < s.length then resize s 255 else s

/-- One length byte and the bytes it counts. -/
def lengthPrefixed (s : Bytes) : Bytes := UInt8.ofNat s.length :: s

def buildAnnouncePacket (win32 : Bool) (config : AppConfig) : Bytes :=
  be32 kDiscoveryMagic ++ [1] ++ be16 config.listenPort ++ resize config.deviceId 36 ++
    lengthPrefixed (clamp255 config.displayName) ++ lengthPrefixed (clamp255 (announcedPlatform win32))

def parseAnnouncePacket (now : Nat) (data senderIp : Bytes) : Option DiscoveredPeer :=
  if data.length < 4 + 1 + 2 + 36 + 1 then none
  else if be32At data 0 ≠ kDiscoveryMagic then none
  else if data.length ≤ 43 then none
  else
    let nameLen := (byteAt data 43).toNat
    let offset := 44 + nameLen
    if data.length < offset then none
    else
      some
        { ipAddress := senderIp
          tcpPort := be16At data 5
          deviceId := (slice data 7 36).takeWhile (· != 0)
          displayName := slice data 44 nameLen
          platform :=
            -- a platform that is missing or cut short is left empty
            if offset < data.length then
              let platLen := (byteAt data offset).toNat
              if offset + 1 + platLen ≤ data.length then slice data (offset + 1) platLen else []
            else []
          protocolVersion := byteAt data 4
          lastSeen := now }

theorem clamp255_eq (s : Bytes) : clamp255 s = s.take 255 := by
  unfold clamp255
  split
  · rename_i hlong
    have hpad : 255 - s.length = 0 := by omega
    rw [resize, hpad, List.replicate_zero, List.append_nil]
  · rename_i hshort
    rw [List.take_of_length_le (by omega)]

theorem clamp255_length (s : Bytes) : (clamp255 s).length ≤ 255 := by
  rw [clamp255_eq, List.length_take]
  exact Nat.min_le_left _ _

theorem lengthByte {s : Bytes} (hs : s.length ≤ 255) : (UInt8.ofNat s.length).toNat = s.length := by
  rw [UInt8.toNat_ofNat']
  omega

/-- A packet laid out as `buildAnnouncePacket` lays it out is read field by field. -/
theorem parse_layout {did name plat : Bytes} {port : UInt16} (now : Nat) (senderIp : Bytes) (hdid : did.length = 36)
    (hname : name.length ≤ 255) (hplat : plat.length ≤ 255) :
    parseAnnouncePacket now (be32 kDiscoveryMagic ++ [1] ++ be16 port ++ did ++ lengthPrefixed name ++
      lengthPrefixed plat) senderIp =
    some { ipAddress := senderIp, tcpPort := port, deviceId := did.takeWhile (· != 0), displayName := name,
           platform := plat, protocolVersion := 1, lastSeen := now } := by
  generalize hdata : be32 kDiscoveryMagic ++ [1] ++ be16 port ++ did ++ lengthPrefixed name ++ lengthPrefixed plat =
    data
  have hlen : data.length = 44 + name.length + 1 + plat.length := by
    rw [← hdata]
    simp only [be32, be16, lengthPrefixed, List.length_append, List.length_cons, List.length_nil, hdid]
    omega
  -- what stands at each offset
  have h0 : data.drop 0 = be32 kDiscoveryMagic ++ ([1] ++ (be16 port ++ (did ++
      ([UInt8.ofNat name.length] ++ (name ++ ([UInt8.ofNat plat.length] ++ (plat ++ []))))))) := by
    rw [← hdata]
    simp only [lengthPrefixed, List.drop_zero, List.append_assoc, List.cons_append, List.nil_append, List.append_nil]
  have h4 := drop_past (j := 4) h0 rfl
  have h5 := drop_past (j := 5) h4 rfl
  have h7 := drop_past (j := 7) h5 rfl
  have h43 := drop_past (j := 43) h7 (by rw [hdid])
  have h44 := drop_past (j := 44) h43 rfl
  have hp := drop_past (j := 44 + name.length) h44 rfl
  have hp1 := drop_past (j := 44 + name.length + 1) hp rfl
  have hn : (byteAt data 43).toNat = name.length := by rw [byteAt_eq h43, lengthByte hname]
  have hl : (byteAt data (44 + name.length)).toNat = plat.length := by rw [byteAt_eq hp, lengthByte hplat]
  simp only [parseAnnouncePacket, be32At_eq h0, hn, hl, ne_eq, not_true_eq_false, if_false]
  rw [if_neg (by omega), if_neg (by omega), if_neg (by omega), if_pos (by omega), if_pos (by omega),
    be16At_eq h5, slice_eq h7 hdid.symm, slice_eq h44 rfl, slice_eq hp1 rfl, byteAt_eq h4]

/-- A packet a configuration announces is read back, whatever the address it comes from. -/
theorem parse_build (win32 : Bool) (config : AppConfig) (now : Nat) (senderIp : Bytes) :
    parseAnnouncePacket now (buildAnnouncePacket win32 config) senderIp =
      some { ipAddress := senderIp
             tcpPort := config.listenPort
             deviceId := (config.deviceId.take 36).takeWhile (· != 0)
             displayName := config.displayName.take 255
             platform := announcedPlatform win32
             protocolVersion := 1
             lastSeen := now } := by
  have hplat : clamp255 (announcedPlatform win32) = announcedPlatform win32 := by cases win32 <;> rfl
  rw [buildAnnouncePacket, parse_layout now senderIp (resize_length _ _) (clamp255_length _) (clamp255_length _),
    resize_takeWhile, clamp255_eq, hplat]

end LanTalk.Discovery
