import Lightcache.Server.Command

/-!
# `lightcache.c`: reading requests, sending responses, and the event loop

`read_nbytes` and `send_nbytes` move at most one byte for each event.
`handleClient` is `event_handler` for a connection to a client; `Server.step` is
one event of the poller or one sweep over the idle connections.
-/

namespace Lightcache.Server

open Lightcache Lightcache.Foundation Lightcache.Hashtab

inductive SocketState where
  | needMore
  | readCompleted
  | readErr
  | sendErr
  | sendCompleted
  | failed
  deriving DecidableEq, Repr

variable {σ : Type} (H : Host σ)

/-! ## Reading -/

/-- Store a byte at `bytes[rbytes]`; the header lies in the request itself. -/
def storeByte (c : Ctx σ) (q : Addr) (r : Request) (b : UInt8) :
    Option Field → Except Fault (Heap σ)
  | none =>
      if r.rbytes < r.header.length then
        .ok (c.heap.writeRequest q { r with header := r.header.set r.rbytes b })
      else .error .outOfBounds
  | some f =>
      match f.ptr r with
      | none => .error .nullDeref
      | some a =>
          match c.heap.bufs a with
          | none => .error .staleBuffer
          | some bytes =>
              if r.rbytes < bytes.length then
                .ok (c.heap.writeBytes a (bytes.set r.rbytes b))
              else .error .outOfBounds

/-- The end of `read_nbytes`, for `nbytes` of `1` or `-1`. -/
def countBytes (c : Ctx σ) (q : Addr) (nbytes : Int) (total : Nat) :
    Except Fault (Ctx σ × SocketState) := do
  let r ← c.heap.readRequest q
  let c := { c with stats := { c.stats with
    bytesRead := c.stats.bytesRead + UInt64.ofInt nbytes } }
  let rbytes := uint32 (r.rbytes + nbytes)
  if rbytes = total then
    return ({ c with heap := c.heap.writeRequest q { r with rbytes := 0 } },
      .readCompleted)
  else
    return ({ c with heap := c.heap.writeRequest q { r with rbytes := rbytes } },
      .needMore)

/--
`read_nbytes` into the header (`none`) or a field.  After an error other than
would-block it goes on with `nbytes == -1`.
-/
def readNbytes (c : Ctx σ) (target : Option Field) (total : Nat)
    (res : ReadResult) : Except Fault (Ctx σ × SocketState) := do
  let (q, r) ← c.readIn
  match res with
  | .eof => return (c, .readErr)
  | .wouldBlock => return (c, .needMore)
  | .error => countBytes c q (-1) total
  | .byte b =>
      let heap ← storeByte c q r b target
      let c := { c with
        heap := heap
        conn := { c.conn with trace := { c.conn.trace with
          consumed := c.conn.trace.consumed + 1 } } }
      countBytes c q 1 total

/-- The header is complete: `ntohl` on both lengths, in place. -/
def convertHeader (r : Request) : Request :=
  { r with
    dataLength := netNat ((r.header.drop 4).take 4)
    extraLength := netNat ((r.header.drop 8).take 4) }

/-- The lengths that are answered with `INVALID_PARAM_SIZE`. -/
def TooLarge (r : Request) : Prop :=
  r.dataLength ≥ protocolMaxDataSize ∨ r.keyLength ≥ protocolMaxKeySize ∨
    r.extraLength ≥ protocolMaxExtraSize

instance (r : Request) : Decidable (TooLarge r) :=
  inferInstanceAs (Decidable (_ ∨ _ ∨ _))

/-- `set_conn_state(conn, CMD_RECEIVED)`; `true` asks for `execute_cmd`. -/
def setCmdReceived (c : Ctx σ) : Ctx σ × SocketState × Bool :=
  (c.withConn fun conn => { conn with state := .cmdReceived }, .readCompleted, true)

def readHeader (c : Ctx σ) (res : ReadResult) :
    Except Fault (Ctx σ × SocketState × Bool) := do
  let (c, ret) ← readNbytes c none sizeofReqHeader res
  if ret ≠ .readCompleted then return (c, ret, false)
  else
    let (q, r) ← c.readIn
    let r := convertHeader r
    let c := { c with heap := c.heap.writeRequest q r }
    if TooLarge r then
      let c ← sendResponse c .invalidParamSize
      return (c, .failed, false)
    else if r.keyLength = 0 then return setCmdReceived c
    else
      let c ← setReadField H c .key
      return (c, ret, false)

/--
A state that reads the field `f`; `next` is the field to read afterwards, if it
is not empty.
-/
def readField (c : Ctx σ) (f : Field) (next : Option Field) (res : ReadResult) :
    Except Fault (Ctx σ × SocketState × Bool) := do
  let (_, r) ← c.readIn
  let (c, ret) ← readNbytes c (some f) (f.length r) res
  if ret ≠ .readCompleted then return (c, ret, false)
  else
    let (_, r) ← c.readIn
    match next with
    | none => return setCmdReceived c
    | some g =>
        if g.length r = 0 then return setCmdReceived c
        else
          let c ← setReadField H c g
          return (c, ret, false)

/-- The assertions at the head of `READ_KEY` and `READ_DATA`. -/
def assertField (c : Ctx σ) (f : Field) : Except Fault Unit :=
  match c.conn.inReq with
  | none => .error .assertion
  | some q => do
      let r ← c.heap.readRequest q
      if f.ptr r = none ∨ f.length r = 0 then .error .assertion else .ok ()

/-- `try_read_request` up to the calls of `execute_cmd`. -/
def readRequest (c : Ctx σ) (res : ReadResult) :
    Except Fault (Ctx σ × SocketState × Bool) :=
  match c.conn.state with
  | .readHeader => readHeader H c res
  | .readKey => do
      assertField c .key
      readField H c .key (some .data) res
  | .readData => do
      assertField c .data
      readField H c .data (some .extra) res
  | .readExtra => readField H c .extra none res
  | _ => do
      let c ← sendResponse c .invalidState
      return (c, .failed, false)

def tryReadRequest (c : Ctx σ) (env : Env) : Except Fault (Ctx σ × SocketState) := do
  let (c, ret, received) ← readRequest H c env.read
  if received then
    let c ← executeCmd H c env
    return (c, ret)
  else return (c, ret)

/-! ## Sending -/

/-- `send_nbytes`, given the bytes behind the pointer. -/
def sendNbytes (c : Ctx σ) (bytes : Except Fault Bytes) (total : Nat) :
    WriteResult → Except Fault (Ctx σ × SocketState)
  | .wouldBlock => .ok (c, .needMore)
  | .error => .ok (c, .sendErr)
  | .sent => do
      let bytes ← bytes
      match bytes[c.conn.out.sbytes]? with
      | none => .error .outOfBounds
      | some b =>
          let sbytes := c.conn.out.sbytes + 1
          let done := sbytes == total
          let conn := { c.conn with
            out := { c.conn.out with sbytes := if done then 0 else sbytes }
            trace := { c.conn.trace with written := c.conn.trace.written ++ [b] } }
          return ({ c with
            stats := { c.stats with bytesWritten := c.stats.bytesWritten + 1 }
            conn := conn }, if done then .sendCompleted else .needMore)

/-- The bytes of the response that the pointer of the state leads to. -/
def outBytes (c : Ctx σ) : Except Fault Bytes := do
  match ← c.heap.load c.conn.out.sdata with
  | none => .error .nullDeref
  | some bytes => return bytes

/-- `set_conn_state(conn, CMD_SENT); set_conn_state(conn, READ_HEADER);` -/
def nextRequest (c : Ctx σ) : Except Fault (Ctx σ) :=
  setReadHeader H (c.withConn fun conn => { conn with state := .cmdSent })

def trySendResponse (c : Ctx σ) (res : WriteResult) :
    Except Fault (Ctx σ × SocketState) :=
  match c.conn.state with
  | .sendHeader => do
      let (c, ret) ← sendNbytes c (.ok c.conn.out.header) sizeofRespHeader res
      if ret ≠ .sendCompleted then return (c, ret)
      else if c.conn.out.dataLength % 2 ^ 32 ≠ 0 then
        return (c.withConn fun conn => { conn with state := .sendData }, ret)
      else
        let c ← nextRequest H c
        return (c, ret)
  | .sendData => do
      let (c, ret) ← sendNbytes c (outBytes c) (c.conn.out.dataLength % 2 ^ 32) res
      if ret ≠ .sendCompleted then return (c, ret)
      else
        let c ← nextRequest H c
        return (c, ret)
  | _ => do
      let c ← sendResponse c .invalidState
      return (c, .failed)

/-! ## One event on a client connection -/

/-- `event_handler`, except for an event on the listening socket. -/
def handleClient (c : Ctx σ) (ev : Event) (env : Env) : Except Fault (Ctx σ) :=
  if c.conn.state = .connClosed then .ok c
  else
    let c := c.withConn fun conn => { conn with lastHeard := env.clock 0 }
    match ev with
    | .read => do
        let (c, ret) ← tryReadRequest H c env
        if ret = .readErr then disconnectConn H c else return c
    | .write => do
        let (c, ret) ← trySendResponse H c env.write
        if ret = .sendErr then disconnectConn H c else return c

/-! ## The server -/

/--
`conns` is the connection list in `next` order.  The structures lie beside the heap:
one that is open keeps its contents when its block is released.
-/
structure State (σ : Type) where
  heap : Heap σ
  cache : Cache
  settings : Settings
  stats : Stats
  conns : List Addr
  conn : Addr → Conn

namespace State

def ctx (s : State σ) (a : Addr) : Ctx σ :=
  ⟨s.heap, s.cache, s.settings, s.stats, s.conn a⟩

def put (s : State σ) (a : Addr) (c : Ctx σ) : State σ :=
  { s with
    heap := c.heap
    cache := c.cache
    settings := c.settings
    stats := c.stats
    conn := Function.update s.conn a c.conn }

def modifyConn (s : State σ) (a : Addr) (f : Conn → Conn) : State σ :=
  { s with conn := Function.update s.conn a (f (s.conn a)) }

end State

/-- The assignments `make_conn` makes; the trace of the new socket is empty. -/
def openConn (fd : Nat) (env : Env) (conn : Conn) : Conn :=
  { conn with
    fd := fd
    lastHeard := env.clock 1
    listening := false
    free := false
    inReq := none
    trace := ⟨0, [], []⟩ }

/-- A connection as it is found in a new block; nothing is registered yet. -/
def newConn (heap : Heap σ) (a : Addr) : Conn :=
  { H.connOf (heap.newBlock H a sizeofConn) with interest := none }

/-- `make_conn`: the first free structure of the list, or a new one. -/
def makeConn (s : State σ) (fd : Nat) (env : Env) : Option Addr × State σ :=
  let stats := { s.stats with currConnections := s.stats.currConnections + 1 }
  match s.conns.find? fun a => (s.conn a).free with
  | some a =>
      (some a, { s with stats := stats }.modifyConn a (openConn fd env))
  | none =>
      match liMalloc H.alloc s.heap.mem sizeofConn with
      | (none, mem) => (none, { s with heap := { s.heap with mem := mem } })
      | (some a, mem) =>
          (some a, { s with
            heap := { s.heap with mem := mem }
            stats := stats
            conns := a :: s.conns
            conn := Function.update s.conn a
              (openConn fd env (newConn H s.heap a)) })

/-- The listening socket is readable. -/
def acceptConn (s : State σ) (env : Env) : Except Fault (State σ) :=
  match env.accept with
  | none => .ok s
  | some fd =>
      match makeConn H s fd env with
      | (none, s) => .ok s
      | (some a, s) => do
          let c ← setReadHeader H (s.ctx a)
          return s.put a c

def eventHandler (s : State σ) (a : Addr) (ev : Event) (env : Env) :
    Except Fault (State σ) :=
  if (s.conn a).state ≠ .connClosed ∧ (s.conn a).listening ∧ ev = .read then
    acceptConn H
      (s.modifyConn a fun conn => { conn with lastHeard := env.clock 0 }) env
  else do
    let c ← handleClient H (s.ctx a) ev env
    return s.put a c

/-- The loop of `disconnect_idle_conns` from an element of the list on. -/
def disconnectIdleFrom : List Addr → Nat → Env → State σ → Except Fault (State σ)
  | [], _, _, s => .ok s
  | a :: rest, i, env, s =>
      if (s.conn a).free ∨ (s.conn a).listening then .ok s
      else if uint32 (env.clock i - (s.conn a).lastHeard) >
          s.settings.idleConnTimeout then do
        let c ← disconnectConn H (s.ctx a)
        disconnectIdleFrom rest (i + 1) env (s.put a c)
      else disconnectIdleFrom rest (i + 1) env s

def disconnectIdleConns (s : State σ) (env : Env) : Except Fault (State σ) :=
  disconnectIdleFrom H s.conns 0 env s

inductive Input where
  /-- The poller reports `ev` for the connection at `a`. -/
  | ready (a : Addr) (ev : Event) (env : Env)
  | idle (env : Env)

/--
One round of the loop in `main`.  The poller reports what is registered for a
descriptor, or an event of a batch in which the connection was closed; `deliver` also
has those for a structure that was handed out again in the batch.
-/
def step (s : State σ) : Input → Except Fault (State σ)
  | .ready a ev env =>
      if a ∈ s.conns ∧
          ((s.conn a).interest = some ev ∨ (s.conn a).state = .connClosed) then
        eventHandler H s a ev env
      else .ok s
  | .idle env => disconnectIdleConns H s env

/-! ## Start-up -/

def initStats (env : Env) : Stats := ⟨env.clock 0, 0, 0, 0, 0, 0, 0, 0⟩

/-- The globals before `main` has set them up; `cache` is not used yet. -/
def initState (settings : Settings) (heap : Heap σ) (env : Env) : State σ where
  heap := heap
  cache := ⟨0, 0, 0, 0, 0, 0, 0, fun _ => []⟩
  settings := settings
  stats := initStats env
  conns := []
  conn := fun _ => H.connOf []

/-- `init_server_socket`, once the socket listens, and `htcreate(4)`. -/
def start (settings : Settings) (heap : Heap σ) (fd : Nat) (env : Env) :
    Except Fault (Option (State σ)) :=
  match makeConn H (initState H settings heap env) fd env with
  | (none, _) => .ok none
  | (some a, s) => do
      let s := s.modifyConn a fun conn =>
        { conn with listening := true, interest := some .read }
      match ← htcreate H.alloc 4 s.heap.mem with
      | (none, _) => return none
      | (some cache, mem) =>
          return some { s with cache := cache, heap := { s.heap with mem := mem } }

end Lightcache.Server
