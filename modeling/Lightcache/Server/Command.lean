import Lightcache.Server.Connection

/-!
# `lightcache.c`: the command interpreter

`execute_cmd` on a complete request, one definition for each command.
-/

namespace Lightcache.Server

open Lightcache Lightcache.Foundation Lightcache.Hashtab

variable {σ : Type} (H : Host σ)

/-- `del_cached_req`, given the item's `val`; the caller sets it to NULL. -/
def delCachedReq (heap : Heap σ) : Option Addr → Except Fault (Heap σ)
  | none => .ok heap
  | some q => heap.releaseRequest H q

/-- The item behind a pointer that `hget` has returned. -/
def itemAt (ht : Cache) (ref : ItemRef) : Except Fault (HItem (Option Addr)) :=
  match ht.item? ref with
  | none => .error .outOfBounds
  | some it => .ok it

/-- `del_cached_req(tab_item)`. -/
def delItem (c : Ctx σ) (ref : ItemRef) : Except Fault (Ctx σ) := do
  let it ← itemAt c.cache ref
  let heap ← delCachedReq H c.heap it.val
  return c.withStore heap (c.cache.modify ref fun it => { it with val := none })

/-- `del_cached_req(tab_item); hfree(cache, tab_item);` -/
def evict (c : Ctx σ) (ref : ItemRef) : Except Fault (Ctx σ) := do
  let c ← delItem H c ref
  return c.withStore c.heap (hfree c.cache ref)

def flushItemEnum : EnumFn (Option Addr) (Heap σ) := fun it freecount heap => do
  let heap ← delCachedReq H heap it.val
  let (it, freecount) := hfreeItem { it with val := none } freecount
  return (it, freecount, heap, false)

/-! ## Cache commands -/

/-- The label `GET_KEY_NOTEXISTS`. -/
def getKeyNotexists (c : Ctx σ) : Except Fault (Ctx σ) :=
  sendResponse (c.withStats fun s => { s with getMisses := s.getMisses + 1 })
    .keyNotexists

/-- `CMD_GET` from the call of `hget` on. -/
def getItem (c : Ctx σ) (r : Request) : Except Fault (Ctx σ) := do
  let key ← c.heap.load r.rkey
  match ← hget c.cache key r.keyLength with
  | none => getKeyNotexists c
  | some ref =>
      let it ← itemAt c.cache ref
      match it.val with
      | none => .error .nullDeref
      | some cachedReq =>
          let cached ← c.heap.readRequest cachedReq
          let extra ← c.heap.load cached.rextra
          match ← atoull extra with
          | none => .error .assertion
          | some val =>
              if uint32 (r.received - cached.received) > val then
                let c ← evict H c ref
                getKeyNotexists c
              else
                let c := c.withStats fun s => { s with getHits := s.getHits + 1 }
                let c ← addResponse c cached.rdata cached.dataLength .success
                return c.withConn fun conn =>
                  { conn with out := { conn.out with canFree := false } }

def executeGet (c : Ctx σ) (r : Request) : Except Fault (Ctx σ) :=
  getItem H (c.withStats fun s => { s with cmdGet := s.cmdGet + 1 }) r

/-- `tab_item` after `HEXISTS`: drop its request and put in the new one. -/
def replaceItem (c : Ctx σ) (q : Addr) (key : Option Bytes) (klen : Nat) :
    Except Fault (Ctx σ) := do
  match ← hget c.cache key klen with
  | none => .error .assertion
  | some ref =>
      let c ← delItem H c ref
      return c.withStore c.heap
        (c.cache.modify ref fun it => { it with val := some q })

/-- `conn->in->can_free = 0; send_response(conn, SUCCESS);` -/
def keepRequest (c : Ctx σ) (q : Addr) : Except Fault (Ctx σ) := do
  let r ← c.heap.readRequest q
  let heap := c.heap.writeRequest q { r with canFree := false }
  sendResponse { c with heap := heap } .success

/-- `CMD_SET` from the call of `hset` on. -/
def setItem (c : Ctx σ) (q : Addr) (r : Request) : Except Fault (Ctx σ) := do
  let key ← c.heap.load r.rkey
  let (ret, cache, mem) ← hset H.alloc c.cache key r.keyLength (some q) c.heap.mem
  let c := c.withStore { c.heap with mem := mem } cache
  match ret with
  | .herror => sendResponse c .outOfMemory
  | .hexists =>
      let c ← replaceItem H c q key r.keyLength
      keepRequest c q
  | .hsuccess => keepRequest c q

/-- `CMD_SET` from the validation of its parameters on. -/
def validateSet (c : Ctx σ) (q : Addr) (r : Request) : Except Fault (Ctx σ) := do
  if r.rdata = none then sendResponse c .invalidParam
  else
    let extra ← c.heap.load r.rextra
    match ← atoull extra with
    | none => sendResponse c .invalidParam
    | some _ => setItem H c q r

def executeSet (c : Ctx σ) (q : Addr) (r : Request) : Except Fault (Ctx σ) :=
  validateSet H (c.withStats fun s => { s with cmdSet := s.cmdSet + 1 }) q r

def executeDelete (c : Ctx σ) (r : Request) : Except Fault (Ctx σ) := do
  let key ← c.heap.load r.rkey
  match ← hget c.cache key r.keyLength with
  | none => sendResponse c .keyNotexists
  | some ref =>
      let c ← evict H c ref
      sendResponse c .success

def executeFlushAll (c : Ctx σ) : Except Fault (Ctx σ) := do
  let (cache, heap) ← henum c.cache (flushItemEnum H) c.heap true
  sendResponse (c.withStore heap cache) .success

/-! ## Settings and statistics -/

def idleConnTimeoutName : Bytes := ascii "idle_conn_timeout"

def executeChgSetting (c : Ctx σ) (r : Request) : Except Fault (Ctx σ) := do
  if r.rdata = none then sendResponse c .invalidParam
  else
    let key ← c.heap.load r.rkey
    if ← strcmpEq key (some idleConnTimeoutName) then
      let data ← c.heap.load r.rdata
      match ← atoull data with
      | none => sendResponse c .invalidParam
      | some val =>
          sendResponse
            { c with settings := { c.settings with idleConnTimeout := val } }
            .success
    else sendResponse c .invalidParam

def executeGetSetting (c : Ctx σ) (r : Request) : Except Fault (Ctx σ) := do
  let key ← c.heap.load r.rkey
  if ← strcmpEq key (some idleConnTimeoutName) then
    match c.heap.mallocBytes H 8 with
    | (none, heap) => sendResponse { c with heap := heap } .outOfMemory
    | (some ival, heap) =>
        let val := htonll H.endian (BitVec.ofNat 64 c.settings.idleConnTimeout)
        let heap := heap.writeBytes ival (H.endian.store 8 val.toNat)
        addResponse { c with heap := heap } (some ival) 8 .success
  else sendResponse c .invalidParam

/-- `(long unsigned int)z`. -/
def unsigned (z : Int) : Nat := (z % 2 ^ 64).toNat

/-- The labels and values that `sprintf` prints; an `int` has 32 bits. -/
def statsFields (c : Ctx σ) (env : Env) : List (String × Bytes) :=
  [("mem_used:", formatUnsigned (H.alloc.memused c.heap.mem % 2 ^ 64)),
    ("\r\nmem_avail:", formatUnsigned (c.settings.memAvail % 2 ^ 64)),
    ("\r\nuptime:", formatUnsigned (unsigned (env.clock 2 - c.stats.startTime))),
    ("\r\nversion: 0.1 Build.5\r\npid:", formatInt (Int.bmod env.pid (2 ^ 32))),
    ("\r\ntime:", formatUnsigned (unsigned (env.clock 3))),
    ("\r\ncurr_items:", formatInt (Int.bmod (hcount c.cache) (2 ^ 32))),
    ("\r\ncurr_connections:", formatUnsigned c.stats.currConnections.toNat),
    ("\r\ncmd_get:", formatUnsigned c.stats.cmdGet.toNat),
    ("\r\ncmd_set:", formatUnsigned c.stats.cmdSet.toNat),
    ("\r\nget_misses:", formatUnsigned c.stats.getMisses.toNat),
    ("\r\nget_hits:", formatUnsigned c.stats.getHits.toNat),
    ("\r\nbytes_read:", formatUnsigned c.stats.bytesRead.toNat),
    ("\r\nbytes_written:", formatUnsigned c.stats.bytesWritten.toNat)]

def statsText (c : Ctx σ) (env : Env) : Bytes :=
  (statsFields H c env).flatMap (fun field => ascii field.1 ++ field.2) ++
    ascii "\r\n"

def executeGetStats (c : Ctx σ) (env : Env) : Except Fault (Ctx σ) :=
  match c.heap.mallocBytes H lightcacheStatsSize with
  | (none, heap) => sendResponse { c with heap := heap } .outOfMemory
  | (some sval, heap) => do
      let c := { c with heap := heap }
      let text := statsText H c env ++ [0]
      let bytes ← memcpy ((heap.bufs sval).getD []) (some text) text.length
      addResponse { c with heap := heap.writeBytes sval bytes } (some sval)
        lightcacheStatsSize .success

/-! ## `execute_cmd` -/

/-- The fields of a request, as far as they have been received. -/
def Heap.fields (heap : Heap σ) (r : Request) : Fields where
  opcode := r.opcode
  key := ((r.rkey.bind heap.bufs).getD []).take r.keyLength
  data := ((r.rdata.bind heap.bufs).getD []).take r.dataLength
  extra := ((r.rextra.bind heap.bufs).getD []).take r.extraLength

def noteExecuted (c : Ctx σ) (r : Request) : Ctx σ :=
  c.withConn fun conn =>
    { conn with trace := { conn.trace with
      executed := conn.trace.executed ++ [⟨c.heap.fields r, conn.trace.consumed⟩] } }

def executeCmd (c : Ctx σ) (env : Env) : Except Fault (Ctx σ) := do
  if c.conn.state ≠ .cmdReceived then .error .assertion
  else
    let (q, r) ← c.readIn
    let r := { r with received := env.clock 1 }
    let c := noteExecuted { c with heap := c.heap.writeRequest q r } r
    match ProtocolCommand.ofByte r.opcode with
    | some .cmdGet => executeGet H c r
    | some .cmdSet => executeSet H c q r
    | some .cmdDelete => executeDelete H c r
    | some .cmdFlushAll => executeFlushAll H c
    | some .cmdChgSetting => executeChgSetting c r
    | some .cmdGetSetting => executeGetSetting H c r
    | some .cmdGetStats => executeGetStats H c env
    | none => sendResponse c .invalidCommand

end Lightcache.Server
