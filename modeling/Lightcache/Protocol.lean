import Lightcache.Util
import Lightcache.Mem

/-!
# `protocol.h`: requests, responses and connections

The constants and the records of the protocol, and the packets a client sends.
A pointer to a request or to a byte buffer is an address.
-/

namespace Lightcache

/-! ## Constants -/

def protocolMaxExtraSize : Nat := 250

def protocolMaxKeySize : Nat := 250

def protocolMaxDataSize : Nat := 1024 + protocolMaxKeySize

def lightcacheStatsSize : Nat := 512

def sizeofReqHeader : Nat := 12

def sizeofRespHeader : Nat := 8

def sizeofRequest : Nat := 64

def sizeofConn : Nat := 64

inductive ProtocolCommand where
  | cmdGet
  | cmdSet
  | cmdChgSetting
  | cmdGetSetting
  | cmdGetStats
  | cmdDelete
  | cmdFlushAll
  deriving DecidableEq, Repr

def ProtocolCommand.toByte : ProtocolCommand → UInt8
  | .cmdGet => 0x00
  | .cmdSet => 0x01
  | .cmdChgSetting => 0x02
  | .cmdGetSetting => 0x03
  | .cmdGetStats => 0x04
  | .cmdDelete => 0x05
  | .cmdFlushAll => 0x06

/-- The command of an opcode, `none` for an unknown one. -/
def ProtocolCommand.ofByte (opcode : UInt8) : Option ProtocolCommand :=
  [cmdGet, cmdSet, cmdChgSetting, cmdGetSetting, cmdGetStats, cmdDelete,
    cmdFlushAll].find? fun cmd => cmd.toByte == opcode

inductive ConnState where
  | readHeader
  | readKey
  | readData
  | connClosed
  | cmdReceived
  | sendHeader
  | sendData
  | readExtra
  | cmdSent
  deriving DecidableEq, Repr

inductive Code where
  | keyNotexists
  | invalidParam
  | invalidState
  | invalidParamSize
  | success
  | invalidCommand
  | outOfMemory
  deriving DecidableEq, Repr

def Code.toByte : Code → UInt8
  | .keyNotexists => 0x00
  | .invalidParam => 0x01
  | .invalidState => 0x02
  | .invalidParamSize => 0x03
  | .success => 0x04
  | .invalidCommand => 0x05
  | .outOfMemory => 0x06

/-! ## Records -/

/--
`header` is `req_header.bytes` as received.  The two lengths are the fields of
the same union after `ntohl`, and are set when the header is complete.
-/
structure Request where
  header : Bytes
  dataLength : Nat
  extraLength : Nat
  rdata : Option Addr
  rkey : Option Addr
  rextra : Option Addr
  rbytes : Nat
  received : Int
  canFree : Bool
  deriving DecidableEq, Repr

namespace Request

def opcode (r : Request) : UInt8 := r.header.getD 0 0

def keyLength (r : Request) : Nat := (r.header.getD 1 0).toNat

/-- The buffers of a request. -/
def buffers (r : Request) : Multiset Addr :=
  ptrBlocks r.rkey + ptrBlocks r.rdata + ptrBlocks r.rextra

end Request

/-- `pad` stands for the two bytes of `resp_header` that no field covers. -/
structure Response where
  opcode : UInt8
  retcode : UInt8
  pad : UInt8 × UInt8
  dataLength : Nat
  sdata : Option Addr
  sbytes : Nat
  canFree : Bool
  deriving DecidableEq, Repr

/-- `resp_header.bytes`; the length is stored in network order. -/
def Response.header (resp : Response) : Bytes :=
  resp.opcode :: resp.retcode :: resp.pad.1 :: resp.pad.2 ::
    netBytes 4 resp.dataLength

inductive Event where
  | read
  | write
  deriving DecidableEq, Repr

/-- The fields of a command, with absent ones empty. -/
structure Fields where
  opcode : UInt8
  key : Bytes
  data : Bytes
  extra : Bytes
  deriving DecidableEq, Repr

/-- The command of some fields, `none` for an unknown opcode. -/
def Fields.command (f : Fields) : Option ProtocolCommand :=
  ProtocolCommand.ofByte f.opcode

/-- A command that was executed, and how many bytes had been read by then. -/
structure Executed where
  fields : Fields
  offset : Nat
  deriving DecidableEq, Repr

/-- What was seen on the socket of a connection.  The server never reads it. -/
structure Trace where
  consumed : Nat
  executed : List Executed
  written : Bytes
  deriving DecidableEq, Repr

/--
`interest` is what the poller has registered for the descriptor.  `next` is the
order of the connection list.
-/
structure Conn where
  fd : Nat
  listening : Bool
  free : Bool
  lastHeard : Int
  state : ConnState
  inReq : Option Addr
  out : Response
  interest : Option Event
  trace : Trace
  deriving DecidableEq, Repr

@[simp] theorem Response.length_header (resp : Response) :
    resp.header.length = sizeofRespHeader := by
  simp [header, sizeofRespHeader]

/-! ## The packets of a client -/

/-- A packet whose lengths the server accepts. -/
structure Packet extends Fields where
  key_lt : key.length < protocolMaxKeySize
  data_lt : data.length < protocolMaxDataSize
  extra_lt : extra.length < protocolMaxExtraSize

namespace Packet

/-- `struct.pack('BBII', ...)` with the two lengths in network order. -/
def header (p : Packet) : Bytes :=
  p.opcode :: UInt8.ofNat p.key.length :: 0 :: 0 ::
    (netBytes 4 p.data.length ++ netBytes 4 p.extra.length)

/-- `_make_packet`. -/
def encode (p : Packet) : Bytes := p.header ++ p.key ++ p.data ++ p.extra

@[simp] theorem length_header (p : Packet) : p.header.length = sizeofReqHeader := by
  simp [header, sizeofReqHeader]

theorem length_encode (p : Packet) :
    p.encode.length = 12 + p.key.length + p.data.length + p.extra.length := by
  simp [encode, sizeofReqHeader, Nat.add_assoc]

end Packet

end Lightcache
