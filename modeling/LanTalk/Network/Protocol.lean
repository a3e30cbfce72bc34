/-
  LanTalk.Network.Protocol — the wire protocol (`src/network/protocol.cpp`): the frame
  header and its twelve bytes, frames, and `FrameReader`, which decodes a TCP stream
  that may be cut anywhere.

  A frame is `[magic:4][version:1][type:1][payload length:4][flags:2][payload]`, all
  numbers big-endian. `turn` is one turn of the `while (true)` of `feed`: `wait` is its
  `break`, `fail` its `throw`. `feed` collects the frames of one call; one that throws
  hands none of them out. `feedAll` is a run of calls, up to the first that throws.

  `maxPayloadSize` is a `size_t`, here any number. Texts of the exceptions are the
  source's.
-/

import LanTalk.Lib.Bytes
import LanTalk.Lib.Reader

namespace LanTalk.Network

open LanTalk.Lib LanTalk.Lib.Reader

def kProtocolMagic : UInt32 := 0x4C544C41
def kProtocolVersion : UInt8 := 1
def kFrameHeaderSize : Nat := 12
def kMaxPayloadSize : Nat := 65536

inductive MessageType where
  | HELLO
  | AUTH_REQUEST
  | AUTH_RESPONSE
  | AUTH_OK
  | AUTH_FAIL
  | CHAT_MESSAGE
  | CHAT_RECEIPT
  | PING
  | PONG
  | PEER_LIST
  | DISCONNECT
  | ERROR_MSG
  | FILE_OFFER
  | FILE_ACCEPT
  | FILE_CHUNK
  | FILE_COMPLETE
  | UNKNOWN
  deriving DecidableEq, Repr

/-- `static_cast<uint8_t>(type)`. -/
def MessageType.toByte : MessageType → UInt8
  | .HELLO => 0x01
  | .AUTH_REQUEST => 0x02
  | .AUTH_RESPONSE => 0x03
  | .AUTH_OK => 0x04
  | .AUTH_FAIL => 0x05
  | .CHAT_MESSAGE => 0x10
  | .CHAT_RECEIPT => 0x11
  | .PING => 0x20
  | .PONG => 0x21
  | .PEER_LIST => 0x30
  | .DISCONNECT => 0x40
  | .ERROR_MSG => 0x50
  | .FILE_OFFER => 0x60
  | .FILE_ACCEPT => 0x61
  | .FILE_CHUNK => 0x62
  | .FILE_COMPLETE => 0x63
  | .UNKNOWN => 0xFF

def messageTypeFromByte (byte : UInt8) : MessageType :=
  if byte = 0x01 then .HELLO
  else if byte = 0x02 then .AUTH_REQUEST
  else if byte = 0x03 then .AUTH_RESPONSE
  else if byte = 0x04 then .AUTH_OK
  else if byte = 0x05 then .AUTH_FAIL
  else if byte = 0x10 then .CHAT_MESSAGE
  else if byte = 0x11 then .CHAT_RECEIPT
  else if byte = 0x20 then .PING
  else if byte = 0x21 then .PONG
  else if byte = 0x30 then .PEER_LIST
  else if byte = 0x40 then .DISCONNECT
  else if byte = 0x50 then .ERROR_MSG
  else if byte = 0x60 then .FILE_OFFER
  else if byte = 0x61 then .FILE_ACCEPT
  else if byte = 0x62 then .FILE_CHUNK
  else if byte = 0x63 then .FILE_COMPLETE
  else .UNKNOWN

structure FrameHeader where
  magic : UInt32 := kProtocolMagic
  version : UInt8 := kProtocolVersion
  type : MessageType := .UNKNOWN
  payloadLength : UInt32 := 0
  flags : UInt16 := 0
  reserved : UInt16 := 0
  deriving DecidableEq, Repr

/-- `reserved` is not written. -/
def FrameHeader.serialize (h : FrameHeader) : Bytes :=
  be32 h.magic ++ [h.version, h.type.toByte] ++ be32 h.payloadLength ++ be16 h.flags

/-- `none` for fewer than twelve bytes, another magic or another version. -/
def FrameHeader.deserialize : Bytes → Option FrameHeader
  | m0 :: m1 :: m2 :: m3 :: v :: t :: l0 :: l1 :: l2 :: l3 :: f0 :: f1 :: _ =>
    let magic := ofBe32 m0 m1 m2 m3
    if magic ≠ kProtocolMagic then none
    else if v ≠ kProtocolVersion then none
    else some { magic := magic, version := v, type := messageTypeFromByte t,
                payloadLength := ofBe32 l0 l1 l2 l3, flags := ofBe16 f0 f1 }
  | _ => none

structure Frame where
  header : FrameHeader
  payload : Bytes
  deriving DecidableEq, Repr

def Frame.create (type : MessageType) (payload : Bytes) : Frame :=
  { header := { type := type, payloadLength := UInt32.ofNat payload.length }, payload := payload }

def Frame.serialize (f : Frame) : Bytes := f.header.serialize ++ f.payload

def Frame.payloadAsString (f : Frame) : Bytes := f.payload

/-! ## The incremental reader -/

inductive ReaderState where
  | READING_HEADER
  | READING_PAYLOAD
  deriving DecidableEq, Repr

structure FrameReader where
  state : ReaderState := .READING_HEADER
  buffer : Bytes := []
  pendingHeader : FrameHeader := {}
  maxPayloadSize : Nat := kMaxPayloadSize
  deriving DecidableEq, Repr

namespace FrameReader

def invalidHeader : String := "Protocol violation: invalid magic or version"
def tooLarge : String := "Protocol violation: payload too large"

/-- One turn of `feed`'s loop. -/
def turn (r : FrameReader) : Next FrameReader Frame String :=
  match r.state with
  | .READING_HEADER =>
    if r.buffer.length < kFrameHeaderSize then .wait
    else
      match FrameHeader.deserialize (r.buffer.take kFrameHeaderSize) with
      | none => .fail invalidHeader r
      | some hdr =>
        if r.maxPayloadSize < hdr.payloadLength.toNat then .fail tooLarge { r with pendingHeader := hdr }
        else
          .go { r with pendingHeader := hdr, buffer := r.buffer.drop kFrameHeaderSize, state := .READING_PAYLOAD }
            none
  | .READING_PAYLOAD =>
    let n := r.pendingHeader.payloadLength.toNat
    if r.buffer.length < n then .wait
    else .go { r with buffer := r.buffer.drop n, state := .READING_HEADER }
      (some { header := r.pendingHeader, payload := r.buffer.take n })

/-- What the loop has left to do: a turn consumes bytes, or ends a payload. -/
def weight (r : FrameReader) : Nat :=
  2 * r.buffer.length + if r.state = .READING_PAYLOAD then 1 else 0

theorem turn_weight {r r' : FrameReader} {o : Option Frame} (h : r.turn = .go r' o) : r'.weight < r.weight := by
  unfold turn at h
  split at h
  · rename_i hs
    split at h
    · cases h
    rename_i hl
    split at h
    · cases h
    split at h
    · cases h
    · cases h
      simp only [weight, hs, List.length_drop, kFrameHeaderSize, if_true, reduceCtorEq, if_false] at hl ⊢
      omega
  · rename_i hs
    simp only at h
    split at h
    · cases h
    · cases h
      simp only [weight, hs, List.length_drop, if_true, reduceCtorEq, if_false]
      omega

/-- `feed`'s loop; what a throw leaves of the reader is what it is at the throw. -/
def loop (r : FrameReader) (completeFrames : List Frame) : Except String (List Frame) × FrameReader :=
  match _h : r.turn with
  | .wait => (.ok completeFrames, r)
  | .fail e r' => (.error e, r')
  | .go r' o => loop r' (completeFrames ++ o.toList)
termination_by r.weight
decreasing_by exact turn_weight _h

/-- `buffer_.insert(buffer_.end(), data, data + len)`. -/
def push (r : FrameReader) (data : Bytes) : FrameReader := { r with buffer := r.buffer ++ data }

def feed (r : FrameReader) (data : Bytes) : Except String (List Frame) × FrameReader := loop (r.push data) []

/-- What was pending stays, and is not looked at again. -/
def reset (r : FrameReader) : FrameReader := { r with buffer := [], state := .READING_HEADER }

/-- The calls of `feed` on `chunks`, in order, up to the first that throws. -/
def feedAll (r : FrameReader) : List Bytes → Except String (List Frame × FrameReader)
  | [] => .ok ([], r)
  | c :: cs =>
    match r.feed c with
    | (.error e, _) => .error e
    | (.ok fs, r') =>
      match feedAll r' cs with
      | .error e => .error e
      | .ok (gs, r'') => .ok (fs ++ gs, r'')

/-- `FrameReader(maxPayloadSize)`. -/
def new (maxPayloadSize : Nat) : FrameReader := { maxPayloadSize := maxPayloadSize }

end FrameReader

end LanTalk.Network
