/-
  LanTalk.Config.ConfigFile — the settings a process starts with, and the file they are
  kept in (`src/config/config.cpp`).

  `Build` is what the compiler decides: the platform and the width of `unsigned long`.
  `Host` is what a constructor or a call of `load` gets of the machine, and `Disk` the file
  and whether it can be read and written; a file once open takes and gives back its bytes as
  they are. An exception of `std::stoi` or `std::stoul` leaves `set` and `load`: `none`.
  `load` reads the file line by line; the sections it notes are used nowhere.
-/

import LanTalk.Config.AppConfig
import LanTalk.Lib.Lines

namespace LanTalk.Config

open LanTalk.Lib

inductive Os where
  | windows
  | apple
  | linux
  | other
  deriving DecidableEq, Repr

structure Build where
  os : Os
  ulongBits : Nat
  wide : 32 ≤ ulongBits

structure Host where
  /-- `RAND_bytes`' sixteen bytes, if it succeeds. -/
  random : Option (Fin 16 → UInt8)
  /-- `gethostname`'s answer, if it succeeds. -/
  hostname : Option Bytes

structure Disk where
  /-- What the file holds, if there is one. -/
  file : Option Bytes
  readable : Bool
  /-- The directory is there or can be made, and the file opens. -/
  writable : Bool
  deriving DecidableEq

/-! ## Identity -/

def platformName : Os → Bytes
  | .windows => str "Windows"
  | .apple => str "macOS"
  | .linux => str "Linux"
  | .other => str "Unknown"

/-- Version and variant put into the random bytes. -/
def uuidByte (bytes : Fin 16 → UInt8) (i : Fin 16) : UInt8 :=
  if i = 6 then (bytes i &&& 0x0f) ||| 0x40
  else if i = 8 then (bytes i &&& 0x3f) ||| 0x80
  else bytes i

/-- `std::hex << std::setw(2)`. -/
def hexByte (b : UInt8) : Bytes := ofChars [Nat.digitChar (b.toNat / 16), Nat.digitChar (b.toNat % 16)]

def generateUUID : Option (Fin 16 → UInt8) → Bytes
  | none => str "00000000-0000-0000-0000-000000000000"
  | some bytes => (List.finRange 16).flatMap fun i =>
      hexByte (uuidByte bytes i) ++ if i = 3 ∨ i = 5 ∨ i = 7 ∨ i = 9 then str "-" else []

def readHostname (h : Host) : Bytes := h.hostname.getD []

def ensureDeviceId (h : Host) (c : AppConfig) : AppConfig :=
  if c.deviceId = [] then { c with deviceId := generateUUID h.random } else c

def ensureDisplayName (h : Host) (c : AppConfig) : AppConfig :=
  if c.displayName = [] then
    { c with displayName := if readHostname h = [] then str "UnknownUser" else readHostname h }
  else c

/-- Both, as the constructor and `load` end. -/
def ensured (h : Host) (c : AppConfig) : AppConfig := ensureDisplayName h (ensureDeviceId h c)

/-- `Config::Config`. -/
def new (b : Build) (h : Host) : AppConfig := ensured h { platform := platformName b.os }

/-! ## Setting a key -/

/-- The new configuration and whether the key is known. -/
def set (b : Build) (c : AppConfig) (key value : Bytes) : Option (Bool × AppConfig) :=
  if key = str "device_id" then some (true, { c with deviceId := value })
  else if key = str "display_name" then some (true, { c with displayName := value })
  else if key = str "platform" then some (true, { c with platform := value })
  else if key = str "listen_port" then
    (stoi value).map fun v => (true, { c with listenPort := UInt16.ofInt v.toInt })
  else if key = str "discovery_port" then
    (stoi value).map fun v => (true, { c with discoveryPort := UInt16.ofInt v.toInt })
  else if key = str "enable_ipv6" then some (true, { c with enableIPv6 := decide (value = str "true") })
  else if key = str "max_message_size" then
    (stoul b.ulongBits value).map fun v => (true, { c with maxMessageSize := UInt32.ofNat v })
  else if key = str "connect_timeout_secs" then
    (stoi value).map fun v => (true, { c with connectTimeoutSecs := v })
  else if key = str "read_timeout_secs" then (stoi value).map fun v => (true, { c with readTimeoutSecs := v })
  else if key = str "keepalive_interval_secs" then
    (stoi value).map fun v => (true, { c with keepaliveIntervalSecs := v })
  else if key = str "discovery_enabled" then some (true, { c with discoveryEnabled := decide (value = str "true") })
  else if key = str "psk_hash" then some (true, { c with pskHash := value })
  else if key = str "require_auth" then some (true, { c with requireAuth := decide (value = str "true") })
  else if key = str "log_level" then some (true, { c with logLevel := value })
  else if key = str "log_file" then some (true, { c with logFile := value })
  else some (false, c)

/-! ## Saving -/

def boolText (v : Bool) : Bytes := if v then str "true" else str "false"

/-- What `save` writes. -/
def render (c : AppConfig) : Bytes :=
  str "[identity]\n" ++
    str "device_id = " ++ c.deviceId ++ str "\n" ++
    str "display_name = " ++ c.displayName ++ str "\n" ++
    str "platform = " ++ c.platform ++ str "\n\n" ++
    str "[network]\n" ++
    str "listen_port = " ++ natText c.listenPort.toNat ++ str "\n" ++
    str "discovery_port = " ++ natText c.discoveryPort.toNat ++ str "\n" ++
    str "enable_ipv6 = " ++ boolText c.enableIPv6 ++ str "\n" ++
    str "max_message_size = " ++ natText c.maxMessageSize.toNat ++ str "\n" ++
    str "connect_timeout_secs = " ++ intText c.connectTimeoutSecs.toInt ++ str "\n" ++
    str "read_timeout_secs = " ++ intText c.readTimeoutSecs.toInt ++ str "\n" ++
    str "keepalive_interval_secs = " ++ intText c.keepaliveIntervalSecs.toInt ++ str "\n\n" ++
    str "[discovery]\n" ++
    str "discovery_enabled = " ++ boolText c.discoveryEnabled ++ str "\n\n" ++
    str "[security]\n" ++
    str "psk_hash = " ++ c.pskHash ++ str "\n" ++
    str "require_auth = " ++ boolText c.requireAuth ++ str "\n\n" ++
    str "[logging]\n" ++
    str "log_level = " ++ c.logLevel ++ str "\n" ++
    str "log_file = " ++ c.logFile ++ str "\n"

def save (d : Disk) (c : AppConfig) : Bool × Disk :=
  if d.writable then (true, { d with file := some (render c) }) else (false, d)

/-! ## Loading -/

def lineBreak : UInt8 := 10
def equals : UInt8 := 61

/-- What `trim` takes off both ends. -/
def blank (b : UInt8) : Bool := b == 32 || b == 9

def trim (s : Bytes) : Bytes := (s.dropWhile blank).rdropWhile blank

/-- The key and the value of a line, if it is neither empty, nor a comment, nor a section,
    and has an equals sign. -/
def setting? : Bytes → Option (Bytes × Bytes)
  | [] => none
  | first :: rest =>
    let line := first :: rest
    if first = 59 ∨ first = 35 then none
    else if first = 91 ∧ line.getLast? = some 93 then none
    else if equals ∈ line then
      some (trim (line.takeWhile (· != equals)), trim ((line.dropWhile (· != equals)).drop 1))
    else none

/-- One turn of `load`'s loop; what `set` answers is not looked at. -/
def readLine (b : Build) (c : AppConfig) (line : Bytes) : Option AppConfig :=
  match setting? line with
  | none => some c
  | some (key, value) => (set b c key value).map Prod.snd

def readLines (b : Build) (c : AppConfig) : List Bytes → Option AppConfig
  | [] => some c
  | line :: ls => (readLine b c line).bind (readLines b · ls)

/-- What `load` answers, and what it leaves of the configuration and the disk. -/
def load (b : Build) (h : Host) (d : Disk) (c : AppConfig) : Option (Bool × AppConfig × Disk) :=
  match d.file with
  | none =>
    let (saved, d') := save d c
    some (saved, c, d')
  | some bytes =>
    if d.readable then (readLines b c (lines lineBreak bytes)).map fun c' => (true, ensured h c', d)
    else some (false, c, d)

/-! ## Keys -/

inductive Key where
  | device_id
  | display_name
  | platform
  | listen_port
  | discovery_port
  | enable_ipv6
  | max_message_size
  | connect_timeout_secs
  | read_timeout_secs
  | keepalive_interval_secs
  | discovery_enabled
  | psk_hash
  | require_auth
  | log_level
  | log_file
  deriving DecidableEq, Repr

namespace Key

def name : Key → Bytes
  | .device_id => str "device_id"
  | .display_name => str "display_name"
  | .platform => str "platform"
  | .listen_port => str "listen_port"
  | .discovery_port => str "discovery_port"
  | .enable_ipv6 => str "enable_ipv6"
  | .max_message_size => str "max_message_size"
  | .connect_timeout_secs => str "connect_timeout_secs"
  | .read_timeout_secs => str "read_timeout_secs"
  | .keepalive_interval_secs => str "keepalive_interval_secs"
  | .discovery_enabled => str "discovery_enabled"
  | .psk_hash => str "psk_hash"
  | .require_auth => str "require_auth"
  | .log_level => str "log_level"
  | .log_file => str "log_file"

/-- In the order `save` writes them. -/
def all : List Key :=
  [.device_id, .display_name, .platform, .listen_port, .discovery_port, .enable_ipv6, .max_message_size,
    .connect_timeout_secs, .read_timeout_secs, .keepalive_interval_secs, .discovery_enabled, .psk_hash, .require_auth,
    .log_level, .log_file]

/-- The keys `save` writes above this one, and below it. -/
def above (k : Key) : List Key := all.takeWhile (· != k)

def below (k : Key) : List Key := (all.dropWhile (· != k)).drop 1

/-- A key whose value is a string. -/
def isString (k : Key) : Bool :=
  k ∈ [Key.device_id, .display_name, .platform, .psk_hash, .log_level, .log_file]

/-- The text `save` writes for a key. -/
def text (c : AppConfig) : Key → Bytes
  | .device_id => c.deviceId
  | .display_name => c.displayName
  | .platform => c.platform
  | .listen_port => natText c.listenPort.toNat
  | .discovery_port => natText c.discoveryPort.toNat
  | .enable_ipv6 => boolText c.enableIPv6
  | .max_message_size => natText c.maxMessageSize.toNat
  | .connect_timeout_secs => intText c.connectTimeoutSecs.toInt
  | .read_timeout_secs => intText c.readTimeoutSecs.toInt
  | .keepalive_interval_secs => intText c.keepaliveIntervalSecs.toInt
  | .discovery_enabled => boolText c.discoveryEnabled
  | .psk_hash => c.pskHash
  | .require_auth => boolText c.requireAuth
  | .log_level => c.logLevel
  | .log_file => c.logFile

/-- Two configurations have one value for a key. -/
def Same (c d : AppConfig) : Key → Prop
  | .device_id => c.deviceId = d.deviceId
  | .display_name => c.displayName = d.displayName
  | .platform => c.platform = d.platform
  | .listen_port => c.listenPort = d.listenPort
  | .discovery_port => c.discoveryPort = d.discoveryPort
  | .enable_ipv6 => c.enableIPv6 = d.enableIPv6
  | .max_message_size => c.maxMessageSize = d.maxMessageSize
  | .connect_timeout_secs => c.connectTimeoutSecs = d.connectTimeoutSecs
  | .read_timeout_secs => c.readTimeoutSecs = d.readTimeoutSecs
  | .keepalive_interval_secs => c.keepaliveIntervalSecs = d.keepaliveIntervalSecs
  | .discovery_enabled => c.discoveryEnabled = d.discoveryEnabled
  | .psk_hash => c.pskHash = d.pskHash
  | .require_auth => c.requireAuth = d.requireAuth
  | .log_level => c.logLevel = d.logLevel
  | .log_file => c.logFile = d.logFile

/-- What `set` makes of a configuration under this key's name. -/
def assign (b : Build) (c : AppConfig) (value : Bytes) : Key → Option AppConfig
  | .device_id => some { c with deviceId := value }
  | .display_name => some { c with displayName := value }
  | .platform => some { c with platform := value }
  | .listen_port => (stoi value).map fun v => { c with listenPort := UInt16.ofInt v.toInt }
  | .discovery_port => (stoi value).map fun v => { c with discoveryPort := UInt16.ofInt v.toInt }
  | .enable_ipv6 => some { c with enableIPv6 := decide (value = str "true") }
  | .max_message_size => (stoul b.ulongBits value).map fun v => { c with maxMessageSize := UInt32.ofNat v }
  | .connect_timeout_secs => (stoi value).map fun v => { c with connectTimeoutSecs := v }
  | .read_timeout_secs => (stoi value).map fun v => { c with readTimeoutSecs := v }
  | .keepalive_interval_secs => (stoi value).map fun v => { c with keepaliveIntervalSecs := v }
  | .discovery_enabled => some { c with discoveryEnabled := decide (value = str "true") }
  | .psk_hash => some { c with pskHash := value }
  | .require_auth => some { c with requireAuth := decide (value = str "true") }
  | .log_level => some { c with logLevel := value }
  | .log_file => some { c with logFile := value }

theorem mem_all (k : Key) : k ∈ all := by cases k <;> decide

theorem all_eq (k : Key) : all = k.above ++ k :: k.below := by cases k <;> decide

theorem name_inj {j k : Key} (h : j.name = k.name) : j = k := by
  have hall : ∀ j ∈ all, ∀ k ∈ all, j.name = k.name → j = k := by decide +kernel
  exact hall j j.mem_all k k.mem_all h

end Key

section
variable {b : Build} {c d : AppConfig}

theorem set_name (k : Key) (value : Bytes) : set b c k.name value = (k.assign b c value).map (true, ·) := by
  cases k
  all_goals first | rfl | (simp only [Key.assign, Option.map_map]; rfl)

theorem set_unknown {key : Bytes} (hk : ∀ k : Key, key ≠ k.name) (value : Bytes) :
    set b c key value = some (false, c) := by
  -- one by one, past every comparison
  have hne : ∀ k ∈ Key.all, ¬ key = k.name := fun k _ => hk k
  simp only [Key.all, Key.name, List.forall_mem_cons] at hne
  obtain ⟨h1, h2, h3, h4, h5, h6, h7, h8, h9, h10, h11, h12, h13, h14, h15, -⟩ := hne
  rw [set, if_neg h1, if_neg h2, if_neg h3, if_neg h4, if_neg h5, if_neg h6, if_neg h7, if_neg h8, if_neg h9,
    if_neg h10, if_neg h11, if_neg h12, if_neg h13, if_neg h14, if_neg h15]

end

end LanTalk.Config
