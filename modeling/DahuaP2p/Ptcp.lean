import DahuaP2p.BigEndian

/-! # PTCP packets (`ptcp/types.go`)

The data types and the codec of the PTCP protocol.  A packet is a 24-byte header and a body;
a body is one of seven shapes that share one tag byte.

* `Body` is the source's record: a `BodyType` and the fields of all shapes, of which each
  constructor function (`newPayloadBody`, `newStatusBody`, …) fills its own.  Status texts are
  Go strings, that is, byte strings; the two statuses the tunnel knows are `statusConnect` and
  `statusDisconnect`.
* `Body.len`, `Body.serialize` and `parseBody` are the three separate case analyses of the
  source.  Lengths are converted to `uint32` as the source does, so a body of `2 ^ 32` bytes
  or more wraps in its length field.
* A Go slice that is `nil` and one that is empty are the same byte string here. -/

namespace DahuaP2p.Ptcp

open BigEndian

/-- The four magic bytes `PTCP`. -/
def magic : Bytes := [0x50, 0x54, 0x43, 0x50]

/-! ### Packet types -/

def typeSync : UInt8 := 0x00
def typePayload : UInt8 := 0x10
def typeBind : UInt8 := 0x11
def typeStatus : UInt8 := 0x12
def typeHeartbeat : UInt8 := 0x13

/-- The status text `CONN`. -/
def statusConnect : Bytes := [0x43, 0x4F, 0x4E, 0x4E]
/-- The status text `DISC`. -/
def statusDisconnect : Bytes := [0x44, 0x49, 0x53, 0x43]

/-- The errors of the parsers. -/
inductive ParseError where
  | invalidMagic
  | packetTooShort
  | invalidPadding
  | invalidLength
deriving DecidableEq, Repr

/-- The text of an error. -/
def ParseError.text : ParseError → String
  | invalidMagic => "invalid PTCP magic"
  | packetTooShort => "packet too short"
  | invalidPadding => "invalid padding"
  | invalidLength => "invalid payload length"

/-! ### Headers -/

/-- The packet header. -/
structure Header where
  sent : UInt32
  recv : UInt32
  pid : UInt32
  lmid : UInt32
  rmid : UInt32
deriving DecidableEq, Repr

/-- Size of the serialized header. -/
def headerSize : ℕ := 24

def Header.serialize (h : Header) : Bytes :=
  magic ++ putUint32 h.sent ++ putUint32 h.recv ++ putUint32 h.pid ++ putUint32 h.lmid ++
    putUint32 h.rmid

def parseHeader (data : Bytes) : Except ParseError Header :=
  if data.length < headerSize then .error .packetTooShort
  else if slice data 0 4 ≠ magic then .error .invalidMagic
  else .ok {
    sent := uint32 (slice data 4 8)
    recv := uint32 (slice data 8 12)
    pid := uint32 (slice data 12 16)
    lmid := uint32 (slice data 16 20)
    rmid := uint32 (slice data 20 24) }

/-! ### Bodies -/

inductive BodyType where
  | empty
  | sync
  | command
  | payload
  | bind
  | status
  | heartbeat
deriving DecidableEq, Repr

/-- The packet body: its type and the fields of every shape. -/
structure Body where
  type : BodyType
  realm : UInt32 := 0
  data : Bytes := []
  status : Bytes := []
  port : UInt32 := 0
  command : Bytes := []
deriving DecidableEq, Repr

def newEmptyBody : Body := { type := .empty }
def newSyncBody : Body := { type := .sync }
def newHeartbeatBody : Body := { type := .heartbeat }
def newPayloadBody (realm : UInt32) (data : Bytes) : Body :=
  { type := .payload, realm := realm, data := data }
def newBindBody (realm port : UInt32) : Body := { type := .bind, realm := realm, port := port }
def newStatusBody (realm : UInt32) (status : Bytes) : Body :=
  { type := .status, realm := realm, status := status }
def newCommandBody (command : Bytes) : Body := { type := .command, command := command }

/-- Length of the serialized body. -/
def Body.len (b : Body) : ℕ :=
  match b.type with
  | .empty => 0
  | .sync => 4
  | .command => b.command.length
  | .payload => b.data.length + 12
  | .bind => 20
  | .status => b.status.length + 12
  | .heartbeat => 12

def Body.serialize (b : Body) : Bytes :=
  match b.type with
  | .empty => []
  | .sync => [0x00, 0x03, 0x01, 0x00]
  | .command => b.command
  | .payload =>
      putUint32 (0x10000000 ||| UInt32.ofNat b.data.length) ++ putUint32 b.realm ++
        putUint32 0 ++ b.data
  | .bind =>
      putUint32 (typeBind.toUInt32 <<< 24 ||| 8) ++ putUint32 b.realm ++ [0, 0, 0, 0] ++
        putUint32 b.port ++ [0x7f, 0x00, 0x00, 0x01]
  | .status =>
      putUint32 (typeStatus.toUInt32 <<< 24 ||| UInt32.ofNat b.status.length) ++
        putUint32 b.realm ++ [0, 0, 0, 0] ++ b.status
  | .heartbeat => typeHeartbeat :: List.replicate 11 0

/-- The body of a datagram, after its header. -/
def parseBody (data : Bytes) : Except ParseError Body :=
  if data.length = 0 then .ok newEmptyBody
  else if data.length < 4 then .error .packetTooShort
  else if data.getD 0 0 = typeSync then .ok newSyncBody
  else if data.getD 0 0 = typePayload then
    if data.length < 12 then .error .packetTooShort
    else if uint32 (slice data 8 12) ≠ 0 then .error .invalidPadding
    else if UInt32.ofNat (data.drop 12).length ≠ uint32 (slice data 0 4) &&& 0xFFFFFF then
      .error .invalidLength
    else .ok (newPayloadBody (uint32 (slice data 4 8)) (data.drop 12))
  else if data.getD 0 0 = typeBind then
    if data.length < 16 then .error .packetTooShort
    else .ok (newBindBody (uint32 (slice data 4 8)) (uint32 (slice data 12 16)))
  else if data.getD 0 0 = typeStatus then
    if data.length < 12 then .error .packetTooShort
    else .ok (newStatusBody (uint32 (slice data 4 8)) (trimZeros (data.drop 12)))
  else if data.getD 0 0 = typeHeartbeat then .ok newHeartbeatBody
  else .ok (newCommandBody data)

/-! ### Packets -/

/-- A header and a body. -/
structure Packet where
  header : Header
  body : Body
deriving DecidableEq, Repr

def Packet.serialize (p : Packet) : Bytes := p.header.serialize ++ p.body.serialize

def parsePacket (data : Bytes) : Except ParseError Packet := do
  let header ← parseHeader data
  let body ← parseBody (data.drop headerSize)
  return ⟨header, body⟩

/-! ### Lengths -/

theorem Header.serialize_length (h : Header) : h.serialize.length = headerSize := rfl

/-- `Body.len` is the length of what `Body.serialize` writes, for every body. -/
theorem Body.serialize_length (b : Body) : b.serialize.length = b.len := by
  unfold Body.serialize Body.len
  cases b.type with
  | payload => simp; omega
  | status => simp; omega
  | _ => simp

theorem Packet.serialize_length (p : Packet) : p.serialize.length = headerSize + p.body.len := by
  rw [Packet.serialize, List.length_append, Header.serialize_length, Body.serialize_length]

end DahuaP2p.Ptcp
