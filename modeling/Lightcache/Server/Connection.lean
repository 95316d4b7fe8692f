import Lightcache.Server.Heap
import Lightcache.Hashtab.Table

/-!
# `lightcache.c`: connections

What the server does to one connection: give back its request and response, set
up new ones, queue a response, and change its state.  `Ctx` is the connection at
hand together with the globals; no function here looks at another connection.
-/

namespace Lightcache.Server

open Lightcache Lightcache.Foundation Lightcache.Hashtab

structure Settings where
  memAvail : Nat
  idleConnTimeout : Nat
  deriving DecidableEq, Repr

structure Stats where
  startTime : Int
  currConnections : UInt64
  cmdGet : UInt64
  cmdSet : UInt64
  getHits : UInt64
  getMisses : UInt64
  bytesRead : UInt64
  bytesWritten : UInt64
  deriving DecidableEq, Repr

inductive ReadResult where
  | byte (b : UInt8)
  | eof
  /-- `errno` is `EWOULDBLOCK` or `EAGAIN`. -/
  | wouldBlock
  | error
  deriving DecidableEq, Repr

inductive WriteResult where
  | sent
  | wouldBlock
  | error
  deriving DecidableEq, Repr

/--
What the system calls made in one event return: `clock i` is the `i`-th reading
of `time(NULL)`.
-/
structure Env where
  clock : Nat → Int
  pid : Int
  accept : Option Nat
  read : ReadResult
  write : WriteResult

/-- The values of a table item point to cached requests. -/
abbrev Cache := Htab (Option Addr)

structure Ctx (σ : Type) where
  heap : Heap σ
  cache : Cache
  settings : Settings
  stats : Stats
  conn : Conn

variable {σ : Type} (H : Host σ)

namespace Ctx

/-- The request behind `conn->in`. -/
def readIn (c : Ctx σ) : Except Fault (Addr × Request) :=
  match c.conn.inReq with
  | none => .error .nullDeref
  | some q => do
      let r ← c.heap.readRequest q
      return (q, r)

def withConn (c : Ctx σ) (f : Conn → Conn) : Ctx σ := { c with conn := f c.conn }

def withStats (c : Ctx σ) (f : Stats → Stats) : Ctx σ :=
  { c with stats := f c.stats }

def withStore (c : Ctx σ) (heap : Heap σ) (cache : Cache) : Ctx σ :=
  { c with heap := heap, cache := cache }

end Ctx

def freeRequest (c : Ctx σ) : Except Fault (Ctx σ) :=
  match c.conn.inReq with
  | none => .ok c
  | some q => do
      let r ← c.heap.readRequest q
      if !r.canFree then return c
      else
        let heap ← c.heap.releaseRequest H q
        return { c with heap := heap, conn := { c.conn with inReq := none } }

def freeResponse (c : Ctx σ) : Except Fault (Ctx σ) := do
  let heap ← if c.conn.out.canFree then c.heap.liFree H c.conn.out.sdata
    else .ok c.heap
  return { c with
    heap := heap
    conn := { c.conn with out := { c.conn.out with sdata := none } } }

/-- The assignments `init_resources` makes to a new request. -/
def blankRequest (r : Request) : Request :=
  { r with rbytes := 0, rkey := none, rdata := none, rextra := none,
           canFree := true }

def initResources (c : Ctx σ) : Except Fault (Ctx σ × Bool) := do
  let c ← freeRequest H c
  let c ← freeResponse H c
  match c.heap.mallocRequest H with
  | (none, heap) =>
      return ({ c with heap := heap, conn := { c.conn with inReq := none } }, false)
  | (some q, heap) =>
      let r ← heap.readRequest q
      let heap := heap.writeRequest q (blankRequest r)
      let out := { c.conn.out with sdata := none, sbytes := 0, canFree := true }
      return ({ c with
        heap := heap
        conn := { c.conn with inReq := some q, out := out } }, true)

/-- `disconnect_conn`; `event_del` drops the registered interest. -/
def disconnectConn (c : Ctx σ) : Except Fault (Ctx σ) := do
  let c ← freeRequest H c
  let c ← freeResponse H c
  return { c with
    stats := { c.stats with currConnections := c.stats.currConnections - 1 }
    conn := { c.conn with
      free := true, interest := none, state := .connClosed } }

/-! ## Queueing a response -/

/-- `set_conn_state(conn, SEND_HEADER)`. -/
def setSendHeader (conn : Conn) : Conn :=
  { conn with
    out := { conn.out with sbytes := 0 }
    interest := some .write
    state := .sendHeader }

def addResponse (c : Ctx σ) (data : Option Addr) (dataLength : Nat)
    (code : Code) : Except Fault (Ctx σ) := do
  let (_, r) ← c.readIn
  let out := { c.conn.out with
    dataLength := dataLength
    opcode := r.opcode
    retcode := code.toByte
    sdata := data
    canFree := true }
  return c.withConn fun conn => setSendHeader { conn with out := out }

def sendResponse (c : Ctx σ) (code : Code) : Except Fault (Ctx σ) :=
  addResponse c none 0 code

/-! ## Changing the state -/

/-- `set_conn_state(conn, READ_HEADER)`. -/
def setReadHeader (c : Ctx σ) : Except Fault (Ctx σ) := do
  let (c, ok) ← initResources H c
  if !ok then disconnectConn H c
  else return c.withConn fun conn =>
    { conn with interest := some .read, state := .readHeader }

/-- The three fields of a request that are read into buffers of their own. -/
inductive Field where
  | key
  | data
  | extra
  deriving DecidableEq, Repr

namespace Field

def state : Field → ConnState
  | key => .readKey
  | data => .readData
  | extra => .readExtra

def length (r : Request) : Field → Nat
  | key => r.keyLength
  | data => r.dataLength
  | extra => r.extraLength

def ptr (r : Request) : Field → Option Addr
  | key => r.rkey
  | data => r.rdata
  | extra => r.rextra

def setPtr (r : Request) (p : Option Addr) : Field → Request
  | key => { r with rkey := p }
  | data => { r with rdata := p }
  | extra => { r with rextra := p }

end Field

/--
`set_conn_state(conn, READ_KEY)`, and the same for the two other fields: a
buffer with room for a final NUL.
-/
def setReadField (c : Ctx σ) (f : Field) : Except Fault (Ctx σ) := do
  let (q, r) ← c.readIn
  match c.heap.mallocBytes H (f.length r + 1) with
  | (none, heap) => sendResponse { c with heap := heap } .outOfMemory
  | (some a, heap) =>
      let bytes := ((heap.bufs a).getD []).set (f.length r) 0
      let heap := (heap.writeRequest q (f.setPtr r (some a))).writeBytes a bytes
      return { c with heap := heap, conn := { c.conn with state := f.state } }

end Lightcache.Server
