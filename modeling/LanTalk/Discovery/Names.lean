/-
  LanTalk.Discovery.Names — names in UTF-8 on their way through an announce packet
  (`src/discovery/lan_discovery.cpp`).

  `buildAnnouncePacket` cuts a name after 255 bytes, wherever that is in a character; the
  length byte counts what is left, and `parseAnnouncePacket` takes it as it is.

  Proved:
  - `announced_name_valid_iff`: when the name that arrives is text again.
-/

import LanTalk.Discovery.LanDiscovery
import LanTalk.Lib.Utf8

namespace LanTalk.Discovery

open LanTalk.Lib LanTalk.Config

/-- The peer that a packet built from a configuration is read as has a name in UTF-8, with which
    the configured one starts. -/
def NameArrives (win32 : Bool) (config : AppConfig) (now : Nat) (senderIp : Bytes) : Prop :=
  ∃ peer, parseAnnouncePacket now (buildAnnouncePacket win32 config) senderIp = some peer ∧
    ValidUtf8 peer.displayName ∧ peer.displayName <+: config.displayName

/-- The peer's name is the first 255 bytes of the configured one. -/
theorem nameArrives_iff (win32 : Bool) (config : AppConfig) (now : Nat) (senderIp : Bytes) :
    NameArrives win32 config now senderIp ↔ ValidUtf8 (config.displayName.take 255) := by
  rw [NameArrives, parse_build]
  constructor
  · intro h
    obtain ⟨peer, hpeer, hvalid, -⟩ := h
    cases hpeer
    exact hvalid
  · intro h
    exact ⟨_, rfl, h, List.take_prefix _ _⟩

/-- A name in UTF-8, of any length, arrives as such text, and as the start of what it was, if and
    only if it has no byte at 255 or the byte there is the first of a character. -/
theorem announced_name_valid_iff (win32 : Bool) (config : AppConfig) (now : Nat) (senderIp : Bytes)
    (h : ValidUtf8 config.displayName) :
    NameArrives win32 config now senderIp ↔ ∀ b, config.displayName[255]? = some b → b.IsUTF8FirstByte :=
  (nameArrives_iff win32 config now senderIp).trans (validUtf8_take_iff h 255)

/-- Letters, and an e with an acute accent behind them. -/
def accented (letters : Nat) : Bytes := List.replicate letters 97 ++ [0xC3, 0xA9]

theorem accented_valid (letters : Nat) : ValidUtf8 (accented letters) := by
  induction letters with
  | zero => decide +kernel
  | succ n ih =>
    have hletter : ValidUtf8 [97] := by decide +kernel
    have hcons : accented (n + 1) = [97] ++ accented n := by simp [accented, List.replicate_succ]
    rw [hcons]
    exact validUtf8_append hletter ih

theorem accented_at (letters : Nat) :
    (accented letters)[letters]? = some 0xC3 ∧ (accented letters)[letters + 1]? = some 0xA9 := by
  simp [accented]

/-- A name cut right before the accented letter. -/
theorem announced_name_valid_iff_accent :
    NameArrives false { displayName := accented 255 } 0 (str "10.0.0.1") := by
  have hvalid := accented_valid 255
  refine (announced_name_valid_iff false { displayName := accented 255 } 0 _ hvalid).mpr fun b hb => ?_
  rw [(accented_at 255).1] at hb
  rw [← Option.some.inj hb]
  decide

/-- A name cut in the middle of it. -/
theorem accent_cut_in_two :
    ValidUtf8 (accented 254) ∧ ¬ NameArrives false { displayName := accented 254 } 0 (str "10.0.0.1") := by
  refine ⟨accented_valid 254, fun h => ?_⟩
  rw [nameArrives_iff, validUtf8_take_iff (accented_valid 254)] at h
  exact absurd (h 0xA9 (accented_at 254).2) (by decide)

end LanTalk.Discovery
