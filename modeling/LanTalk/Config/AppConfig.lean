/-
  LanTalk.Config.AppConfig — the settings a process runs with (`src/config/config.hpp`).
-/

import LanTalk.Lib.Bytes

namespace LanTalk.Config

open LanTalk.Lib

structure AppConfig where
  deviceId : Bytes := []
  displayName : Bytes := []
  platform : Bytes := []
  listenPort : UInt16 := 5050
  discoveryPort : UInt16 := 5051
  enableIPv6 : Bool := false
  maxMessageSize : UInt32 := 65536
  connectTimeoutSecs : Int32 := 10
  readTimeoutSecs : Int32 := 30
  keepaliveIntervalSecs : Int32 := 15
  discoveryEnabled : Bool := true
  /-- Hash of the shared passphrase; empty for none. -/
  pskHash : Bytes := []
  /-- A peer's HELLO is answered with a challenge. -/
  requireAuth : Bool := false
  logLevel : Bytes := str "INFO"
  logFile : Bytes := []
  deriving DecidableEq

end LanTalk.Config
