/-
  LanTalk.Chat.Threads — who waits for whom. The thread that calls `stop`, the ping thread
  and the receive thread of each connection, at the grain of their locks and joins; the
  callbacks of a connection pass the id it is registered under, so a connection stands
  for its id here, and `connections` for `connections_` in its order. Left out is what
  no thread waits for: `peers_`, the application's callbacks (they return) and the log.

  A thread is a list of instructions, and running one may put others in its place. Those
  with a `section` take `connMutex_` first: `conn` says which thread has it and what that
  has still to do before it lets go. `send h` is the owner of a connection's `sendMutex_`.
  Only `connections_` holds a connection, so what is taken out of it is destroyed there and
  then: `~Connection` closes it and joins its receive thread, under `connMutex_`. A thread
  is `blocked` before a lock that is taken and before a join of a thread that has not ended.
-/

import LanTalk.Chat.SessionProofs
import LanTalk.Lib.Machine

namespace LanTalk.Chat

open LanTalk.Lib LanTalk.Network LanTalk.Config

inductive Thread where
  | stop
  | ping
  | recv (h : Handle)
  deriving DecidableEq

/-- What a frame handler calls on the connection it finds. -/
inductive Call where
  | send (type : MessageType) (payload : Bytes)
  | disconnect (reason : Bytes)

inductive Instr where
  /-- `Connection::send`; `checked` if its caller looks at the result. -/
  | send (h : Handle) (type : MessageType) (payload : Bytes) (checked : Bool)
  | lockSend (h : Handle) (f : Frame) (checked : Bool)
  /-- `sendAll`, and the end of `sendMutex_`'s scope. -/
  | sendAll (h : Handle) (f : Frame) (checked : Bool)
  /-- `Connection::disconnect`. -/
  | disconnect (h : Handle) (reason : Bytes)
  | setState (h : Handle) (state : ConnectionState)
  /-- `running_.store(false)`. -/
  | halt (h : Handle)
  /-- `socket_->close()`. -/
  | close (h : Handle)
  /-- `recvThread_.join()`. -/
  | join (h : Handle)
  /-- `recvLoop`'s `while (running_.load())`. -/
  | loop (h : Handle)
  | recv (h : Handle)
  /-- `recv` has no more bytes. -/
  | lost (h : Handle)
  /-- The rate check; whether a second has passed. -/
  | check (h : Handle) (elapsed : Bool)
  | onFrame (h : Handle) (f : Frame)
  | handle (h : Handle) (f : Frame)
  | onDisconnect (h : Handle)
  /-- `connections_.erase(connId)`. -/
  | erase (h : Handle)
  | stop
  | joinPing
  /-- `stop` from `connMutex_` on. -/
  | closeAll
  | disconnectAll
  /-- `connections_.clear()`. -/
  | clear
  /-- `pingLoop`'s `while (running_.load())`. -/
  | pingLoop
  /-- It has slept. -/
  | wake
  | sweep
  | pingAll
  /-- `onDisconnect` for each of `deadConns`, and the loop again. -/
  | reap

structure State where
  /-- The session's `running_`. -/
  running : Bool
  connections : List Handle
  objs : Handle → Connection
  /-- `deadConns`, newest first. -/
  dead : List Handle := []
  todo : Thread → List Instr
  conn : Option (Thread × List Instr) := none
  send : Handle → Option Thread := fun _ => none

/-- What is not up to the threads: what `recv` returns, the clock, whether the kernel takes
    all bytes of a frame. -/
structure Choice where
  data : Option Bytes := none
  elapsed : Bool := false
  ok : Bool := true

/-! ## What instructions do -/

/-- The types `onFrame` has a handler for; each takes `connMutex_` once. -/
def handled : MessageType → Bool
  | .HELLO | .AUTH_REQUEST | .AUTH_RESPONSE | .CHAT_MESSAGE | .PING | .DISCONNECT => true
  | _ => false

/-- What an instruction does under `connMutex_`, if it takes it. -/
def Instr.section : Instr → Option (List Instr)
  | .onFrame h f => if handled f.header.type then some [.handle h f] else none
  | .onDisconnect h => some [.erase h]
  | .sweep => some [.pingAll]
  | .closeAll => some [.disconnectAll, .clear]
  | _ => none

/-- What the handler of a frame calls on the connection it finds under `connMutex_`. -/
def calls (config : AppConfig) (f : Frame) : List Call :=
  match f.header.type with
  | .HELLO =>
    let deviceId := extractStr f.payloadAsString (str "device_id")
    if deviceId = [] then [.disconnect invalidHello]
    else if config.requireAuth then [.send .AUTH_REQUEST (authRequestPayload config deviceId)] else []
  | .AUTH_REQUEST => [.send .AUTH_RESPONSE (authResponsePayload config)]
  | .AUTH_RESPONSE =>
    if accepted config f.payloadAsString then [.send .AUTH_OK (str "{}")]
    else [.send .AUTH_FAIL (str "\x7b\"reason\":\"bad credentials\"\x7d"), .disconnect authenticationFailed]
  | .PING => [.send .PONG (str "{}")]
  | .DISCONNECT => [.disconnect peerRequestedDisconnect]
  | _ => []

def Call.instr (h : Handle) : Call → Instr
  | .send type payload => .send h type payload false
  | .disconnect reason => .disconnect h reason

/-- `~Connection`. -/
def destroy (h : Handle) : List Instr := [.halt h, .close h, .join h]

namespace State

/-- What the thread has still to do under `connMutex_`, if it has it. -/
def held (S : State) (t : Thread) : Option (List Instr) :=
  S.conn.bind fun c => if c.1 = t then some c.2 else none

def finished (S : State) (t : Thread) : Bool := (S.todo t).isEmpty && (S.held t).isNone

/-- The thread's next instruction. -/
def next (S : State) (t : Thread) : Option Instr :=
  match S.held t with
  | some body => body.head?
  | none => (S.todo t).head?

def setObj (S : State) (h : Handle) (conn : Connection) : State :=
  { S with objs := Function.update S.objs h conn }

/-- A send that did not get through, as its caller sees it. -/
def unsent (S : State) (h : Handle) (checked : Bool) : State :=
  if checked then { S with dead := h :: S.dead } else S

/-- A thread can run the instruction: the lock is free, the other thread has ended. -/
def free (S : State) : Instr → Bool
  | .lockSend h _ _ => (S.send h).isNone
  | .join h => S.finished (.recv h)
  | .joinPing => S.finished .ping
  | _ => true

/-- What an instruction does, and what comes in its place. -/
def effect (config : AppConfig) (S : State) (t : Thread) (ch : Choice) : Instr → State × List Instr
  | .send h type payload checked =>
    if (S.objs h).writable then (S, [.lockSend h (Frame.create type payload) checked]) else (S.unsent h checked, [])
  | .lockSend h f checked => ({ S with send := Function.update S.send h (some t) }, [.sendAll h f checked])
  | .sendAll h _ checked =>
    let S := { S with send := Function.update S.send h none }
    (if ch.ok && (S.objs h).socket then S else S.unsent h checked, [])
  | .disconnect h reason =>
    if (S.objs h).state = .DISCONNECTED then (S, [])
    else (S, [.setState h .DISCONNECTING, .send h .DISCONNECT reason false, .halt h, .close h,
      .setState h .DISCONNECTED])
  | .setState h state => (S.setObj h { S.objs h with state := state }, [])
  | .halt h => (S.setObj h { S.objs h with running := false }, [])
  | .close h => (S.setObj h { S.objs h with socket := false }, [])
  | .loop h => (S, if (S.objs h).running then [.recv h] else [])
  | .recv h =>
    match ch.data with
    | none => (S, [.lost h])
    | some data =>
      match (S.objs h).decode data with
      | (.ok frames, conn) => (S.setObj h conn, frames.map (fun f => .onFrame h f) ++ [.check h ch.elapsed])
      | (.error reason, conn) => (S.setObj h conn, [.disconnect h reason])
  | .lost h => (S, if (S.objs h).running then [.halt h, .setState h .DISCONNECTED, .onDisconnect h] else [])
  | .check h elapsed =>
    if elapsed then
      if 100 < (S.objs h).frameCount then (S, [.disconnect h rateLimitExceeded])
      else (S.setObj h { S.objs h with frameCount := 0 }, [.loop h])
    else (S, [.loop h])
  | .handle h f => (S, if h ∈ S.connections then (calls config f).map (Call.instr h) else [])
  | .erase h =>
    if h ∈ S.connections then ({ S with connections := S.connections.erase h }, destroy h) else (S, [])
  | .stop => if S.running then ({ S with running := false }, [.joinPing, .closeAll]) else (S, [])
  | .disconnectAll => (S, S.connections.map fun h => .disconnect h sessionStopped)
  | .clear => ({ S with connections := [] }, S.connections.flatMap destroy)
  | .pingLoop => (S, if S.running then [.wake] else [])
  | .wake => (S, if S.running then [.sweep, .reap] else [])
  | .pingAll => (S, S.connections.map fun h => .send h .PING (str "{}") true)
  | .reap => ({ S with dead := [] }, S.dead.reverse.map .onDisconnect ++ [.pingLoop])
  | _ => (S, [])

/-- A thread goes on, if it can: it leaves `connMutex_`, takes it, or runs an instruction. -/
def step (config : AppConfig) (S : State) (l : Thread × Choice) : Option State :=
  match S.held l.1 with
  | some [] => some { S with conn := none }
  | some (i :: body) =>
    if S.free i then
      let r := S.effect config l.1 l.2 i
      some { r.1 with conn := some (l.1, r.2 ++ body) }
    else none
  | none =>
    match S.todo l.1 with
    | [] => none
    | i :: rest =>
      match i.section with
      | some body =>
        if S.conn.isNone then some { S with conn := some (l.1, body), todo := Function.update S.todo l.1 rest }
        else none
      | none =>
        if S.free i then
          let r := S.effect config l.1 l.2 i
          some { r.1 with todo := Function.update r.1.todo l.1 (r.2 ++ rest) }
        else none

/-- A running session with these connections, whose receive threads run. -/
def initial (hs : List Handle) (objs : Handle → Connection) : State where
  running := true
  connections := hs
  objs := objs
  todo
    | .stop => [.stop]
    | .ping => [.pingLoop]
    | .recv h => if h ∈ hs then [.loop h] else []

end State

/-! ## The handlers' calls -/

section
variable (config : AppConfig) (net : Handle → Frame → Bool)

/-- A call, run without interruption. -/
def Session.call (s : Session) (c : ConnId) (h : Handle) : Call → Session × List Out
  | .send type payload => (s, (s.send net c h type payload).2)
  | .disconnect reason => s.disconnect net c h reason

def Session.perform (s : Session) (c : ConnId) (h : Handle) : List Call → Session × List Out
  | [] => (s, [])
  | call :: calls =>
    let r := s.call net c h call
    let r' := r.1.perform c h calls
    (r'.1, r.2 ++ r'.2)

/-- The calls are all that a handler does with the connection it finds. -/
theorem onFrame_perform {s : Session} {c : ConnId} {h : Handle} (hc : s.connections[c]? = some h) (f : Frame) :
    (onFrame config net s c f).out = (s.perform net c h (calls config f)).2 ∧
      (onFrame config net s c f).s.objs = (s.perform net c h (calls config f)).1.objs := by
  unfold onFrame calls
  cases f.header.type with
  | HELLO =>
    unfold handleHello
    by_cases hd : extractStr f.payloadAsString (str "device_id") = []
    · simp [hd, Session.hangUp, hc, Session.perform, Session.call]
    · cases hr : config.requireAuth <;>
        simp [hd, Session.reply, Session.send, hc, Session.perform, Session.call]
  | AUTH_RESPONSE =>
    cases ha : accepted config f.payloadAsString <;>
      simp [handleAuthResponse, hc, ha, Session.perform, Session.call]
  | CHAT_MESSAGE => simp [handleChatMessage_after, Session.perform]
  | DISCONNECT => simp [handleDisconnect, Session.hangUp, hc, Session.perform, Session.call]
  | AUTH_REQUEST => simp [handleAuthRequest, Session.reply, hc, Session.perform, Session.call]
  | PING => simp [handlePing, Session.reply, hc, Session.perform, Session.call]
  | _ => exact ⟨rfl, rfl⟩

end

/-! ## Waiting -/

namespace State

/-- The thread is before a section, and somebody has `connMutex_`. -/
def WaitsConn (S : State) (t : Thread) : Prop :=
  S.held t = none ∧ (∃ i body, S.next t = some i ∧ i.section = some body) ∧ S.conn ≠ none

def Enabled (config : AppConfig) (S : State) (t : Thread) : Prop := ∃ ch, (S.step config (t, ch)).isSome = true

/-- Whatever the threads do from here on, this one never goes on. -/
def BlockedForever (config : AppConfig) (S : State) (t : Thread) : Prop :=
  S.finished t = false ∧ ∀ S', Machine.Reach (step config) (fun _ _ => True) S S' → ¬ S'.Enabled config t

/-- No deadlock: no thread is blocked for ever, `stop` does not wait for a receive thread
    that waits for `connMutex_`, and no receive thread for itself. -/
structure Unblocked (config : AppConfig) (S : State) : Prop where
  forever : ∀ t, ¬ S.BlockedForever config t
  stopping : ∀ h, S.next .stop = some (.join h) → ¬ S.WaitsConn (.recv h)
  itself : ∀ h, S.next (.recv h) ≠ some (.join h)

end State

/-- What runs this instruction destroys connection `h`. -/
def Instr.destroys (S : State) (h : Handle) : Instr → Prop
  | .erase k => k = h ∧ h ∈ S.connections
  | .clear => h ∈ S.connections
  | .join k => k = h
  | _ => False

namespace State

/-- Who has `connMutex_` destroys the connection before letting go of it. -/
def Doomed (S : State) (h : Handle) : Prop := ∃ t body, S.conn = some (t, body) ∧ ∃ i ∈ body, i.destroys S h

/-- The receive thread has nothing in hand for which it needs `connMutex_`. -/
def Settled (S : State) (h : Handle) : Prop := ∀ i ∈ S.todo (.recv h), i.section = none

/-- The steps that lead to no deadlock. -/
structure Orderly (S : State) (l : Thread × Choice) : Prop where
  /-- Where `recv` fails or ends, this side has closed the connection. -/
  closed : ∀ h, S.next l.1 = some (.lost h) → (S.objs h).running = false
  /-- While a connection is being destroyed, nothing is read on it that has a handler. -/
  quiet : ∀ h data frames conn, S.next l.1 = some (.recv h) → l.2.data = some data → S.Doomed h →
    (S.objs h).decode data = (.ok frames, conn) → ∀ f ∈ frames, handled f.header.type = false
  /-- Who takes `connMutex_` to destroy a connection finds its receive thread settled. -/
  ready : ∀ i body h, S.held l.1 = none → S.next l.1 = some i → i.section = some body →
    (∃ j ∈ body, j.destroys S h) → S.Settled h

end State

end LanTalk.Chat
