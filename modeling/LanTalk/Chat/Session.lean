/-
  LanTalk.Chat.Session — a chat session (`src/chat/chat_session.cpp`): the two maps
  `connections_` and `peers_`, and what each function does to them.

  A handler takes `connMutex_` once. `Eff` is what it does: the session when it releases
  the mutex, what it sent meanwhile (`out`), and the callbacks it invokes afterwards
  (`after`). Functions that take the mutex more than once, or go on after it without a
  callback, are cut at the release: an `Act` is one such piece, and `exec` says what it
  does and what its thread does next. `addConnection` is `register`, `start`,
  `sendHello`; `sendTo` is `pick`, `chat`; a ping sweep is `sweep`, then one `drop` (an
  `onDisconnect`) for each connection it found dead; `stop` is `stop`, `stopAll`.

  Connections are objects on a heap: `objs` holds them and a `Handle` is a
  `shared_ptr`. The id under which `addConnection` registers the `h`-th connection is
  `ids h`, whatever `makeConnId` drew for it. `net h f` is whether the kernel takes all
  bytes of frame `f` on connection `h`. Both callbacks are set, as `main.cpp` sets them.
  What a session does is in `Out`; a `disconnect` of `recvLoop`'s own is not.
  A new message's id and time are arguments: what `generateId` (empty when `RAND_bytes`
  fails) and `currentTimestamp` returned.
-/

import LanTalk.Chat.Payload
import LanTalk.Network.Connection

namespace LanTalk.Chat

open LanTalk.Lib LanTalk.Network LanTalk.Config

abbrev ConnId := Bytes
abbrev Handle := Nat

/-- A `std::map` from connection ids, in the ids' order. -/
abbrev ConnMap (α : Type) := Std.ExtTreeMap ConnId α compare

structure PeerInfo where
  deviceId : Bytes := []
  displayName : Bytes := []
  address : Bytes := []
  port : UInt16 := 0
  platform : Bytes := []
  state : ConnectionState := .CONNECTED
  deriving DecidableEq, Repr

structure Session where
  running : Bool := false
  connections : ConnMap Handle := ∅
  peers : ConnMap PeerInfo := ∅
  objs : Handle → Connection := fun _ => {}
  /-- How many connections have been made. -/
  next : Handle := 0

/-- What a session does that can be seen from outside it. -/
inductive Out where
  /-- `onFrame(connId, f)` was called, `connId` being registered or not. -/
  | frame (c : ConnId) (f : Frame) (registered : Bool)
  /-- `f` was written to the connection registered (or chosen) under `c`; `ok` when all of it was. -/
  | sent (c : ConnId) (h : Handle) (f : Frame) (ok : Bool)
  /-- The session called `Connection::disconnect`. -/
  | disconnect (c : ConnId) (h : Handle) (reason : Bytes)
  | registered (c : ConnId) (h : Handle)
  /-- `messageCallback_`. -/
  | message (c : ConnId) (m : ChatMessage)
  /-- `peerEventCallback_`. -/
  | peerEvent (c : ConnId) (info : PeerInfo) (connected : Bool)
  deriving DecidableEq, Repr

/-- The frames that reach the peer of a connection. -/
def reaching (h : Handle) (outs : List Out) : List Frame :=
  outs.filterMap fun o => match o with
    | .sent _ h' f ok => if h' = h ∧ ok = true then some f else none
    | _ => none

structure Eff where
  s : Session
  out : List Out := []
  after : List Out := []

section
variable (config : AppConfig) (ids : Handle → ConnId) (net : Handle → Frame → Bool)

/-! ## Connections -/

/-- `conn->send(type, payload)`: what it returns, and what it writes. -/
def Session.send (s : Session) (c : ConnId) (h : Handle) (type : MessageType) (payload : Bytes) :
    Bool × List Out :=
  let f := Frame.create type payload
  if (s.objs h).writable then (net h f, [.sent c h f (net h f)]) else (false, [])

/-- `conn->disconnect(reason)`. -/
def Session.disconnect (s : Session) (c : ConnId) (h : Handle) (reason : Bytes) : Session × List Out :=
  if (s.objs h).state = .DISCONNECTED then (s, [.disconnect c h reason])
  else
    ({ s with objs := Function.update s.objs h (s.objs h).closed },
      .disconnect c h reason :: (s.send net c h .DISCONNECT reason).2)

/-- A handler's `connections_.find(connId)` and a send on what it finds. -/
def Session.reply (s : Session) (c : ConnId) (type : MessageType) (payload : Bytes) : List Out :=
  match s.connections[c]? with
  | some h => (s.send net c h type payload).2
  | none => []

/-- A handler's `connections_.find(connId)` and a disconnect of what it finds. -/
def Session.hangUp (s : Session) (c : ConnId) (reason : Bytes) : Eff :=
  match s.connections[c]? with
  | some h => let r := s.disconnect net c h reason; { s := r.1, out := r.2 }
  | none => { s := s }

/-! ## Frame handlers -/

def invalidHello : Bytes := str "invalid HELLO"
def peerRequestedDisconnect : Bytes := str "peer requested disconnect"
def authenticationFailed : Bytes := str "authentication failed"
def sessionStopped : Bytes := str "session stopped"

/-- The peer's entry with what its HELLO says; `operator[]` makes one if there is none. -/
def helloPeer (s : Session) (c : ConnId) (payload : Bytes) : PeerInfo :=
  { s.peers[c]?.getD {} with
    deviceId := extractStr payload (str "device_id")
    displayName := extractStr payload (str "display_name")
    platform := extractStr payload (str "platform") }

def handleHello (s : Session) (c : ConnId) (payload : Bytes) : Eff :=
  let deviceId := extractStr payload (str "device_id")
  if deviceId = [] then s.hangUp net c invalidHello
  else
    let peer := helloPeer s c payload
    if config.requireAuth then
      let s := { s with peers := s.peers.insert c { peer with state := .AUTHENTICATING } }
      { s := s, out := s.reply net c .AUTH_REQUEST (authRequestPayload config deviceId) }
    else
      let peer := { peer with state := .AUTHENTICATED }
      { s := { s with peers := s.peers.insert c peer }, after := [.peerEvent c peer true] }

def handleChatMessage (s : Session) (c : ConnId) (payload : Bytes) : Eff :=
  match s.peers[c]? with
  | some peer =>
    if peer.state = .AUTHENTICATED then
      match ChatMessage.fromJson payload with
      | some msg => { s := s, after := [.message c msg] }
      | none => { s := s }
    else { s := s }
  | none => { s := s }

def handlePing (s : Session) (c : ConnId) : Eff := { s := s, out := s.reply net c .PONG (str "{}") }

def handleDisconnect (s : Session) (c : ConnId) : Eff := s.hangUp net c peerRequestedDisconnect

def handleAuthRequest (s : Session) (c : ConnId) : Eff :=
  { s := s, out := s.reply net c .AUTH_RESPONSE (authResponsePayload config) }

/-- `handleAuthResponse`'s `accepted`. -/
def accepted (payload : Bytes) : Bool :=
  config.pskHash == [] || extractStr payload (str "response") == config.pskHash

def handleAuthResponse (s : Session) (c : ConnId) (payload : Bytes) : Eff :=
  match s.connections[c]? with
  | none => { s := s }
  | some h =>
    if accepted config payload then
      let peer := { s.peers[c]?.getD {} with state := .AUTHENTICATED }
      { s := { s with peers := s.peers.insert c peer }, out := (s.send net c h .AUTH_OK (str "{}")).2,
        after := [.peerEvent c peer true] }
    else
      let r := s.disconnect net c h authenticationFailed
      { s := r.1, out := (s.send net c h .AUTH_FAIL (str "\x7b\"reason\":\"bad credentials\"\x7d")).2 ++ r.2 }

def onFrame (s : Session) (c : ConnId) (f : Frame) : Eff :=
  match f.header.type with
  | .HELLO => handleHello config net s c f.payloadAsString
  | .AUTH_REQUEST => handleAuthRequest config net s c
  | .AUTH_RESPONSE => handleAuthResponse config net s c f.payloadAsString
  | .CHAT_MESSAGE => handleChatMessage s c f.payloadAsString
  | .PING => handlePing net s c
  | .DISCONNECT => handleDisconnect net s c
  | _ => { s := s }

/-! ## The other functions -/

def onDisconnect (s : Session) (c : ConnId) : Eff :=
  { s := { s with peers := s.peers.erase c, connections := s.connections.erase c }
    after := match s.peers[c]? with
      | some info => if info.state = .AUTHENTICATED then [.peerEvent c info false] else []
      | none => [] }

/-- The message `sendTo` and `broadcast` make of a text. -/
def newMessage (msgId : Bytes) (timestampUtc : Int64) (text : Bytes) : ChatMessage :=
  { msgId := msgId, senderId := config.deviceId, senderName := config.displayName
    timestampUtc := timestampUtc, text := text }

/-- `sendTo`'s choice: the first AUTHENTICATED entry of that device, in the ids' order,
    and the connection registered under its id, if one is. -/
def Session.pick (s : Session) (peerId : Bytes) : Option (ConnId × Handle) :=
  match s.peers.toList.find? fun e => e.2.deviceId == peerId && e.2.state == .AUTHENTICATED with
  | some e => s.connections[e.1]?.map fun h => (e.1, h)
  | none => none

def Session.authenticated (s : Session) (c : ConnId) : Bool :=
  match s.peers[c]? with
  | some peer => peer.state == .AUTHENTICATED
  | none => false

/-- `broadcast`'s loop. -/
def broadcastOut (s : Session) (json : Bytes) : List Out :=
  s.connections.toList.flatMap fun e =>
    if s.authenticated e.1 then (s.send net e.1 e.2 .CHAT_MESSAGE json).2 else []

/-- `peers()`. -/
def Session.peerList (s : Session) : List PeerInfo :=
  (s.peers.toList.map (·.2)).filter fun peer => peer.state == .AUTHENTICATED

def Session.peerCount (s : Session) : Nat := s.peers.toList.countP fun e => e.2.state == .AUTHENTICATED

/-- `stop`'s loop. -/
def disconnectAll (s : Session) : List (ConnId × Handle) → Session × List Out
  | [] => (s, [])
  | e :: es =>
    let r := s.disconnect net e.1 e.2 sessionStopped
    let r' := disconnectAll r.1 es
    (r'.1, r.2 ++ r'.2)

/-- One piece of a call, run without interruption. -/
inductive Act where
  /-- `ChatSession::start`. -/
  | startSession
  | register (h : Handle)
  | start (h : Handle)
  /-- The end of `addConnection`, which holds `h` until then. -/
  | sendHello (h : Handle) (c : ConnId)
  | frame (c : ConnId) (f : Frame)
  | drop (c : ConnId) (reason : Bytes)
  | pick (peerId : Bytes) (msg : ChatMessage)
  | chat (c : ConnId) (h : Handle) (json : Bytes)
  | broadcast (json : Bytes)
  | sweep
  | stop
  | stopAll
  /-- `recvLoop`'s check of its frame count, once a second has passed. -/
  | limit (h : Handle)
  /-- `recvLoop` disconnects after a protocol violation. -/
  | refuse (h : Handle) (reason : Bytes)
  /-- A callback. -/
  | emit (o : Out)
  deriving DecidableEq

/-- What a piece leaves, what it does, and what its thread does next. -/
structure Piece where
  s : Session
  out : List Out := []
  rest : List Act := []

def Eff.piece (e : Eff) : Piece := { s := e.s, out := e.out, rest := e.after.map .emit }

def pingFailed : Bytes := str "ping failed"
def rateLimitExceeded : Bytes := str "Rate limit exceeded"

def exec (s : Session) : Act → Piece
  | .startSession => { s := { s with running := true } }
  | .register h =>
    if s.running then
      { s := { s with connections := s.connections.insert (ids h) h, peers := s.peers.insert (ids h) {} }
        out := [.registered (ids h) h], rest := [.start h, .sendHello h (ids h)] }
    else { s := s }
  | .start h => { s := { s with objs := Function.update s.objs h (s.objs h).start } }
  | .sendHello _ c => { s := s, out := s.reply net c .HELLO (helloPayload config) }
  | .frame c f =>
    let e := onFrame config net s c f
    { s := e.s, out := .frame c f s.connections[c]?.isSome :: e.out, rest := e.after.map .emit }
  | .drop c _ => (onDisconnect s c).piece
  | .pick peerId msg =>
    match s.pick peerId with
    | some (c, h) => { s := s, rest := [.chat c h msg.toJson] }
    | none => { s := s }
  | .chat c h json => { s := s, out := (s.send net c h .CHAT_MESSAGE json).2 }
  | .broadcast json => { s := s, out := broadcastOut net s json }
  | .sweep =>
    if s.running then
      { s := s, out := s.connections.toList.flatMap fun e => (s.send net e.1 e.2 .PING (str "{}")).2
        rest := (s.connections.toList.filter fun e => !(s.send net e.1 e.2 .PING (str "{}")).1).map fun e =>
          .drop e.1 pingFailed }
    else { s := s }
  | .stop => if s.running then { s := { s with running := false }, rest := [.stopAll] } else { s := s }
  | .stopAll =>
    let r := disconnectAll net s s.connections.toList
    { s := { r.1 with connections := ∅, peers := ∅ }, out := r.2 }
  | .limit h =>
    if 100 < (s.objs h).frameCount then { s := (s.disconnect net [] h rateLimitExceeded).1 }
    else { s := { s with objs := Function.update s.objs h { s.objs h with frameCount := 0 } } }
  | .refuse h reason => { s := (s.disconnect net [] h reason).1 }
  | .emit o => { s := s, out := [o] }

end

end LanTalk.Chat
