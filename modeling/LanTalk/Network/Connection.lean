/-
  LanTalk.Network.Connection — one TCP connection (`src/network/connection.cpp`): the
  state its owner and its receive thread share.

  `running` is `running_`, `socket` whether the socket's handle is valid. A send reaches
  the kernel only with both; what the kernel then makes of it (all bytes taken, or an
  error) is the parameter `net`. `reader` and `frameCount` belong to `recvLoop`.
-/

import LanTalk.Network.Protocol

namespace LanTalk.Network

open LanTalk.Lib

inductive ConnectionState where
  | CONNECTED
  | AUTHENTICATING
  | AUTHENTICATED
  | DISCONNECTING
  | DISCONNECTED
  deriving DecidableEq, Repr

structure Connection where
  running : Bool := false
  socket : Bool := true
  state : ConnectionState := .CONNECTED
  reader : FrameReader := FrameReader.new kMaxPayloadSize
  frameCount : Nat := 0
  deriving DecidableEq, Repr

namespace Connection

/-- Whether `send` gets as far as the kernel. -/
def writable (conn : Connection) : Bool := conn.running && conn.socket

/-- `start`: the receive thread may run. -/
def start (conn : Connection) : Connection := { conn with running := true }

/-- What `disconnect` leaves, once its DISCONNECT frame is sent. -/
def closed (conn : Connection) : Connection :=
  { conn with running := false, socket := false, state := .DISCONNECTED }

/-- What `~Connection` leaves, once its receive thread has ended. -/
def destroyed (conn : Connection) : Connection := { conn with running := false, socket := false }

/-- What `recvLoop` leaves when `recv` has no more bytes for it. -/
def lost (conn : Connection) : Connection := { conn with running := false, state := .DISCONNECTED }

/-- `recvLoop` feeds what it read: the frames to hand out and how many it has counted,
    or the text it disconnects with. -/
def decode (conn : Connection) (data : Bytes) : Except Bytes (List Frame) × Connection :=
  match conn.reader.feed data with
  | (.ok frames, r) => (.ok frames, { conn with reader := r, frameCount := conn.frameCount + frames.length })
  | (.error e, r) => (.error (str "Protocol error: " ++ str e), { conn with reader := r })

@[simp] theorem start_running (conn : Connection) : conn.start.running = true := rfl

end Connection

end LanTalk.Network
