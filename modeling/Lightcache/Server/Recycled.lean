import Lightcache.Server.Accept
import Lightcache.Server.Index
import Lightcache.Server.Tally

/-!
# New connections in recycled memory

`make_conn` leaves the response of a structure as it finds it.  What this does
to the memory, and to what the client is sent, depends on the flag that says who
owns the response and on two bytes of its header.
-/

namespace Lightcache.Server

open Lightcache Lightcache.Foundation Lightcache.Hashtab

variable {σ : Type} {H : Host σ} {s s' s₀ s₁ t : State σ} {a b q : Addr} {c c' : Ctx σ}
  {r : Request} {fd : Nat} {env : Env}

/-- The last steps of accepting: `set_conn_state(conn, READ_HEADER)`. -/
def enterReadHeader (H : Host σ) (s : State σ) (a : Addr) : Except Fault (State σ) := do
  let c ← setReadHeader H (s.ctx a)
  return s.put a c

/-- The fields that `make_conn` leaves alone, as a cleared block has them. -/
def wiped (H : Host σ) (conn : Conn) : Conn :=
  { conn with
    state := (H.connOf (List.replicate sizeofConn 0)).state
    out := (H.connOf (List.replicate sizeofConn 0)).out }

/-- Two servers with the same memory, of which the clients have seen the same. -/
structure Alike (s t : State σ) : Prop where
  heap : t.heap = s.heap
  cache : t.cache = s.cache
  settings : t.settings = s.settings
  stats : t.stats = s.stats
  conns : t.conns = s.conns
  trace : ∀ a, (t.conn a).trace = (s.conn a).trace

/--
The structure at `a` that `make_conn` has handed out in `s`: only blocks in use
are released, as many as for a cleared structure, and whatever comes next, no
client can tell the two apart.
-/
def AcceptIndependent (H : Host σ) (s : State σ) (a : Addr) : Prop :=
  ∃ s' t, enterReadHeader H s a = .ok s' ∧
    enterReadHeader H (s.modifyConn a (wiped H)) a = .ok t ∧ Alike s' t ∧
    ((s'.conn a).free = false →
      ∀ inputs, Twins Alike (run (step H) s' inputs) (run (step H) t inputs))

/--
The structure reads as if it owned no response, and, if there is memory for a
request, the two bytes of its response that no field covers are clear.
-/
def CleanStructure (H : Host σ) (s : State σ) (a : Addr) : Prop :=
  outBufs (s.conn a).out = 0 ∧
    ((s.heap.mallocRequest H).1 ≠ none →
      (s.conn a).out.pad = (wiped H (s.conn a)).out.pad)

theorem outBufs_wiped (conn : Conn) : outBufs (wiped H conn).out = 0 := by
  rw [wiped, outBufs, H.connOf_clear]
  rfl

/-! ## Blocks -/

/-- The number of blocks in use. -/
def blocks (H : Host σ) (c : Ctx σ) : Nat := (H.alloc.live c.heap.mem).card

theorem freeResponse_blocks : Ensures (freeResponse H c) fun c' =>
    blocks H c' + (outBufs c.conn.out).card = blocks H c ∧
      c'.conn.inReq = c.conn.inReq ∧ c'.conn.out.sdata = none ∧ c'.stats = c.stats := by
  rw [freeResponse]
  cases hfree : c.conn.out.canFree with
  | false =>
      refine ⟨?_, rfl, rfl, rfl⟩
      simp [outBufs, hfree, blocks]
  | true =>
      rw [outBufs, if_pos hfree, if_pos rfl]
      cases c.conn.out.sdata with
      | none => exact ⟨rfl, rfl, rfl, rfl⟩
      | some b =>
          rw [Heap.liFree, Lightcache.liFree]
          split
          · rename_i hb
            refine ⟨?_, rfl, rfl, rfl⟩
            change (H.alloc.live (H.alloc.free c.heap.mem b)).card + 1 = _
            rw [H.alloc.live_free hb, Finset.card_erase_add_one hb]
            rfl
          · trivial

theorem mallocRequest_blocks {heap heap' : Heap σ} {p : Option Addr}
    (h : heap.mallocRequest H = (p, heap')) :
    (H.alloc.live heap'.mem).card =
      (H.alloc.live heap.mem).card + p.isSome.toNat := by
  rw [Heap.mallocRequest, liMalloc_pos (by decide)] at h
  rcases hm : H.alloc.malloc heap.mem sizeofRequest with ⟨_ | q, mem⟩ <;> rw [hm] at h <;>
    obtain ⟨rfl, rfl⟩ := Prod.mk.inj h
  · change (H.alloc.live mem).card = _
    rw [H.alloc.live_none hm]
    rfl
  · change (H.alloc.live mem).card = _
    rw [H.alloc.live_some hm, Finset.card_insert_of_notMem (H.alloc.fresh hm)]
    rfl

/-- A structure without a request and a response is given up. -/
theorem disconnectConn_empty (hin : c.conn.inReq = none) (hout : c.conn.out.sdata = none) :
    disconnectConn H c = .ok { c with
      stats := { c.stats with currConnections := c.stats.currConnections - 1 }
      conn := { c.conn with free := true, interest := none, state := .connClosed } } := by
  have hsame : { c.conn.out with sdata := none } = c.conn.out := by rw [← hout]
  rw [disconnectConn, freeRequest, hin, ok_bind, freeResponse, hout]
  cases c.conn.out.canFree <;>
  · dsimp only [Heap.liFree, ite_true, ite_false]
    rw [hsame]
    rfl

/-- A new request is one block more; the response that was found is released. -/
theorem setReadHeader_blocks (hin : c.conn.inReq = none) :
    Ensures (setReadHeader H c) fun c' => ∃ ok : Bool,
      blocks H c' + (outBufs c.conn.out).card = blocks H c + ok.toNat ∧
        c'.stats.currConnections =
          if ok then c.stats.currConnections else c.stats.currConnections - 1 := by
  rw [setReadHeader, initResources, freeRequest, hin, ok_bind, bind_assoc]
  refine freeResponse_blocks.bind fun c₁ h₁ => ?_
  obtain ⟨hblocks, hin₁, hout, hstats⟩ := h₁
  rcases hm : c₁.heap.mallocRequest H with ⟨_ | q, heap⟩
  · dsimp only
    have hcard := mallocRequest_blocks hm
    rw [pure_bind, if_pos (show (!false) = true from rfl), disconnectConn_empty
      (c := { c₁ with heap := heap, conn := { c₁.conn with inReq := none } }) rfl hout]
    refine ⟨false, ?_, by rw [← hstats]; rfl⟩
    rw [← hblocks]
    exact congrArg (· + _) hcard
  · dsimp only
    have hcard := mallocRequest_blocks hm
    rw [bind_assoc]
    refine (ensures_true _).bind fun r _ => ⟨true, ?_, by rw [← hstats]; rfl⟩
    change (H.alloc.live heap.mem).card + _ = _
    rw [hcard, ← hblocks, blocks]
    exact Nat.add_right_comm ..

/-! ## Structures that own nothing -/

/-- A structure for which there was no memory for a request. -/
def refused (conn : Conn) : Conn :=
  { conn with
    inReq := none
    out := { conn.out with sdata := none }
    free := true
    interest := none
    state := .connClosed }

theorem freeResponse_unowned (hout : outBufs c.conn.out = 0) :
    freeResponse H c =
      .ok (c.withConn fun conn => { conn with out := { conn.out with sdata := none } }) := by
  rw [freeResponse]
  cases hfree : c.conn.out.canFree with
  | false => rfl
  | true =>
      rw [outBufs, if_pos hfree] at hout
      cases hsdata : c.conn.out.sdata with
      | none => rfl
      | some a =>
          rw [hsdata, ptrBlocks_some] at hout
          exact absurd hout (Multiset.singleton_ne_zero a)

/-- A structure that owns nothing gets a request, or is given up. -/
theorem setReadHeader_unowned (hin : c.conn.inReq = none) (hout : outBufs c.conn.out = 0) :
    setReadHeader H c = match c.heap.mallocRequest H with
      | (none, heap) => .ok { c with
          heap := heap
          stats := { c.stats with currConnections := c.stats.currConnections - 1 }
          conn := refused c.conn }
      | (some q, heap) => heap.readRequest q >>= fun r => .ok { c with
          heap := heap.writeRequest q (blankRequest r)
          conn := fresh c.conn q } := by
  rw [setReadHeader, initResources, freeRequest, hin, ok_bind, freeResponse_unowned hout,
    ok_bind, Ctx.withConn]
  dsimp only
  rcases c.heap.mallocRequest H with ⟨_ | q, heap⟩
  · dsimp only
    rw [pure_bind, if_pos (show (!false) = true from rfl)]
    exact disconnectConn_empty (c := { c with
      heap := heap
      conn := { c.conn with inReq := none, out := { c.conn.out with sdata := none } } })
      rfl rfl
  · dsimp only
    rw [bind_assoc]
    rfl

/-- The two structures have entered READ_HEADER, or have both been given up. -/
theorem enterReadHeader_clean (hin : (s.conn a).inReq = none)
    (hout : outBufs (s.conn a).out = 0) :
    match s.heap.mallocRequest H with
    | (none, heap) => enterReadHeader H s a = .ok (s.put a { s.ctx a with
        heap := heap
        stats := { s.stats with currConnections := s.stats.currConnections - 1 }
        conn := refused (s.conn a) })
    | (some q, heap) => ∃ r, heap.reqs q = some r ∧
        r.header.length = sizeofReqHeader ∧
        enterReadHeader H s a = .ok (s.put a { s.ctx a with
          heap := heap.writeRequest q (blankRequest r)
          conn := fresh (s.conn a) q }) := by
  rw [enterReadHeader, setReadHeader_unowned (c := s.ctx a) hin hout]
  change match s.heap.mallocRequest H with | (none, heap) => _ | (some q, heap) => _
  rcases hm : s.heap.mallocRequest H with ⟨_ | q, heap⟩
  · dsimp only
    rw [State.ctx]
    dsimp only
    rw [hm]
    rfl
  · have hreq := mallocRequest_reqs hm
    refine ⟨_, hreq, H.requestOf_header _, ?_⟩
    rw [State.ctx]
    dsimp only
    rw [hm]
    dsimp only
    rw [Heap.readRequest, hreq]
    rfl

/-! ## A request with an unknown opcode -/

/-- The client of `a` has sent `bytes`, less than a header, and nothing else. -/
structure Hearing (s : State σ) (a q : Addr) (out : Response) (bytes : Bytes) :
    Prop where
  mem : a ∈ s.conns
  listening : (s.conn a).listening = false
  state : (s.conn a).state = .readHeader
  interest : (s.conn a).interest = some .read
  inReq : (s.conn a).inReq = some q
  response : (s.conn a).out = out
  written : (s.conn a).trace.written = []
  request : ∃ r rest, s.heap.reqs q = some r ∧ r.rbytes = bytes.length ∧
    r.header = bytes ++ rest ∧ r.header.length = sizeofReqHeader

/-- The client of `a` is sent the response `out`, of which it has taken `n` bytes. -/
structure Rejecting (s : State σ) (a : Addr) (out : Response) (n : Nat) : Prop where
  mem : a ∈ s.conns
  listening : (s.conn a).listening = false
  state : (s.conn a).state = .sendHeader
  interest : (s.conn a).interest = some .write
  response : (s.conn a).out = { out with sbytes := n }
  written : (s.conn a).trace.written = out.header.take n

variable {out : Response} {bytes rest : Bytes} {n : Nat} {x : UInt8}

/-- A byte of the header. -/
theorem readNbytes_header (hin : c.conn.inReq = some q) (hreq : c.heap.reqs q = some r)
    (hheader : r.header = bytes ++ rest) (hrbytes : r.rbytes = bytes.length)
    (hsize : r.header.length = sizeofReqHeader) (hlen : bytes.length < sizeofReqHeader) :
    ∃ c', readNbytes c none sizeofReqHeader (.byte x) = .ok (c',
        if bytes.length + 1 = sizeofReqHeader then .readCompleted else .needMore) ∧
      c'.conn = heard c.conn (.byte x) ∧
      c'.heap.reqs q = some { r with
        header := bytes ++ x :: rest.tail
        rbytes := if bytes.length + 1 = sizeofReqHeader then 0 else bytes.length + 1 } := by
  have hset : r.header.set r.rbytes x = bytes ++ x :: rest.tail := by
    cases rest with
    | nil =>
        rw [hheader, List.append_nil] at hsize
        omega
    | cons y rest =>
        rw [hheader, hrbytes, List.set_append_right _ _ (Nat.le_refl _), Nat.sub_self]
        rfl
  have hindex : r.rbytes < total r none := hrbytes ▸ hlen
  obtain ⟨c₁, hread, hconn, -, hreq₁, -⟩ := readNbytes_byte (t := none) (x := x) hin hreq
    hsize (fun f hf => by cases hf) hindex
  have hcount := counted_one (t := none) (r := (stored none r (noFields r) x).1) hindex
    (by decide : sizeofReqHeader < 2 ^ 32)
  by_cases hlast : bytes.length + 1 = sizeofReqHeader
  · replace hcount := hcount.trans
      (if_pos (show r.rbytes + 1 = sizeofReqHeader by rw [hrbytes, hlast]))
    rw [hcount] at hread hreq₁
    rw [if_pos hlast, if_pos hlast]
    refine ⟨c₁, hread, hconn, hreq₁.trans ?_⟩
    dsimp only [stored]
    rw [hset]
  · replace hcount := hcount.trans
      (if_neg (show r.rbytes + 1 ≠ sizeofReqHeader by rwa [hrbytes]))
    rw [hcount] at hread hreq₁
    rw [if_neg hlast, if_neg hlast]
    refine ⟨c₁, hread, hconn, hreq₁.trans ?_⟩
    dsimp only [stored]
    rw [hset, hrbytes]

/-- An event on a connection that is open. -/
theorem step_client {ev : Event} (ha : a ∈ s.conns) (hev : (s.conn a).interest = some ev)
    (hlisten : (s.conn a).listening = false)
    (hrun : handleClient H (s.ctx a) ev env = .ok c) :
    step H s (.ready a ev env) = .ok (s.put a c) := by
  rw [step, if_pos ⟨ha, .inl hev⟩, eventHandler, if_neg (by simp [hlisten]), hrun]
  rfl

/-- A connection that has not received its header stays, unless it is closed. -/
theorem handleClient_header {ret : SocketState} (hstate : c.conn.state = .readHeader)
    (hread : readNbytes (touched c env) none sizeofReqHeader env.read = .ok (c', ret))
    (hret : ret = .needMore) : handleClient H c .read env = .ok c' := by
  subst hret
  have hheader : readHeader H (touched c env) env.read = .ok (c', .needMore, false) := by
    rw [readHeader, hread]
    rfl
  have htry : tryReadRequest H (touched c env) env = .ok (c', .needMore) := by
    rw [tryReadRequest, readRequest, show (touched c env).conn.state = _ from hstate, hheader]
    rfl
  rw [handleClient, if_neg (by simp [hstate])]
  change tryReadRequest H (touched c env) env >>= _ = _
  rw [htry]
  rfl

theorem Hearing.byte (h : Hearing s a q out bytes)
    (hlen : bytes.length + 1 < sizeofReqHeader) (x : UInt8) :
    ∃ s', step H s (.ready a .read (hearing (.byte x))) = .ok s' ∧
      Hearing s' a q out (bytes ++ [x]) := by
  obtain ⟨r, rest, hreq, hrbytes, hheader, hsize⟩ := h.request
  obtain ⟨c', hread, hconn, hreq'⟩ := readNbytes_header (x := x)
    (c := touched (s.ctx a) (hearing (.byte x))) h.inReq hreq hheader hrbytes hsize
    (by omega)
  rw [if_neg (by omega)] at hread hreq'
  refine ⟨_, step_client h.mem h.interest h.listening
    (handleClient_header h.state hread rfl), h.mem, ?_, ?_, ?_, ?_, ?_, ?_,
    _, rest.tail, hreq', by simp, by simp, ?_⟩
  · rw [put_conn_self, hconn]
    exact h.listening
  · rw [put_conn_self, hconn]
    exact h.state
  · rw [put_conn_self, hconn]
    exact h.interest
  · rw [put_conn_self, hconn]
    exact h.inReq
  · rw [put_conn_self, hconn]
    exact h.response
  · rw [put_conn_self, hconn]
    exact h.written
  · rw [hheader, List.length_append] at hsize
    simp only [List.length_append, List.length_cons, List.length_tail]
    omega

theorem Hearing.arrive (h : Hearing s a q out bytes) (more : Bytes)
    (hlen : bytes.length + more.length < sizeofReqHeader) :
    ∃ s', run (step H) s (Server.arrive a more) = .ok s' ∧
      Hearing s' a q out (bytes ++ more) := by
  induction more generalizing s bytes with
  | nil => exact ⟨s, rfl, by simpa using h⟩
  | cons x more ih =>
      rw [List.length_cons] at hlen
      obtain ⟨s₁, hs₁, h₁⟩ := h.byte (H := H) (by omega) x
      obtain ⟨s', hs', h'⟩ := ih h₁ (by rw [List.length_append, List.length_singleton]; omega)
      rw [List.append_assoc] at h'
      refine ⟨s', ?_, h'⟩
      rw [Server.arrive, List.map_cons, run_cons, hs₁]
      exact hs'

/-- A header with an unknown opcode and no fields. -/
def unknownHeader : Bytes := [9, 0, 0, 0, 0, 0, 0, 0, 0, 0, 0, 0]

/-- The last byte of the header is answered at once. -/
theorem executeCmd_unknown (env : Env) (hstate : c.conn.state = .cmdReceived)
    (hin : c.conn.inReq = some q) (hreq : c.heap.reqs q = some r)
    (hheader : r.header = unknownHeader) :
    ∃ c', executeCmd H c env = .ok c' ∧
      c'.conn = { queued c.conn 9 none 0 .invalidCommand true with
        trace := c'.conn.trace } ∧ c'.conn.trace.written = c.conn.trace.written := by
  have hopcode : Request.opcode { r with received := env.clock 1 } = 9 := by
    rw [Request.opcode, hheader]
    rfl
  have hsend := sendResponse_eq (q := q) (r := { r with received := env.clock 1 })
    (c := noteExecuted { c with
      heap := c.heap.writeRequest q { r with received := env.clock 1 } }
      { r with received := env.clock 1 }) hin (Heap.writeRequest_reqs ..) .invalidCommand
  rw [hopcode] at hsend
  refine ⟨_, Eq.trans ?_ hsend, rfl, rfl⟩
  rw [executeCmd, if_neg (by simp [hstate]), Ctx.readIn, hin]
  dsimp only
  rw [Heap.readRequest, hreq, ok_bind, pure_bind]
  dsimp only
  rw [hopcode]
  rfl

/-- A complete header without a key goes to `execute_cmd`. -/
theorem readHeader_unknown {res : ReadResult} (hin : c'.conn.inReq = some q)
    (hreq : c'.heap.reqs q = some r) (hheader : r.header = unknownHeader)
    (hread : readNbytes c none sizeofReqHeader res = .ok (c', .readCompleted)) :
    readHeader H c res = .ok (setCmdReceived
      { c' with heap := c'.heap.writeRequest q (convertHeader r) }) := by
  have hlarge : ¬ TooLarge (convertHeader r) := by
    rw [TooLarge, convertHeader, Request.keyLength, hheader]
    dsimp only
    decide
  have hkey : (convertHeader r).keyLength = 0 := by
    rw [Request.keyLength, show (convertHeader r).header = unknownHeader from hheader]
    rfl
  rw [readHeader, hread, ok_bind]
  dsimp only
  rw [if_neg (by simp), Ctx.readIn, hin]
  dsimp only
  rw [Heap.readRequest, hreq, ok_bind, pure_bind]
  dsimp only
  rw [if_neg hlarge, if_pos hkey]
  rfl

theorem readRequest_header {res : ReadResult} (h : c.conn.state = .readHeader) :
    readRequest H c res = readHeader H c res := by
  rw [readRequest, h]

theorem tryReadRequest_received {c₁ : Ctx σ} {ret : SocketState}
    (hread : readRequest H c env.read = .ok (c₁, ret, true))
    (hexec : executeCmd H c₁ env = .ok c') : tryReadRequest H c env = .ok (c', ret) := by
  rw [tryReadRequest, hread, ok_bind]
  dsimp only
  rw [if_pos rfl, hexec]
  rfl

theorem Hearing.last (h : Hearing s a q out (unknownHeader.take 11)) :
    ∃ s', step H s (.ready a .read (hearing (.byte 0))) = .ok s' ∧
      Rejecting s' a (queued (s.conn a) 9 none 0 .invalidCommand true).out 0 := by
  obtain ⟨r, rest, hreq, hrbytes, hheader, hsize⟩ := h.request
  obtain ⟨c₁, hread, hconn, hreq₁⟩ := readNbytes_header (x := 0)
    (c := touched (s.ctx a) (hearing (.byte 0))) h.inReq hreq hheader hrbytes hsize
    (by decide)
  rw [if_pos (by decide)] at hread hreq₁
  have hrest : rest.tail = [] := by
    rw [hheader, List.length_append] at hsize
    rw [← List.length_eq_zero_iff, List.length_tail]
    simp [unknownHeader, sizeofReqHeader] at hsize
    omega
  rw [hrest] at hreq₁
  have hin₁ : c₁.conn.inReq = some q := by
    rw [hconn]
    exact h.inReq
  have hreceived := readHeader_unknown (H := H) hin₁ hreq₁ rfl hread
  obtain ⟨c', hexec, hconn', hwritten⟩ := executeCmd_unknown (H := H)
    (c := (setCmdReceived { c₁ with heap := c₁.heap.writeRequest q (convertHeader
      { r with header := unknownHeader, rbytes := 0 }) }).1)
    (r := convertHeader { r with header := unknownHeader, rbytes := 0 })
    (hearing (.byte 0)) rfl hin₁ (Heap.writeRequest_reqs ..) rfl
  have htry := tryReadRequest_received
    ((readRequest_header h.state).trans hreceived) hexec
  have hrun : handleClient H (s.ctx a) .read (hearing (.byte 0)) = .ok c' := by
    rw [handleClient, if_neg (by rw [show (s.ctx a).conn.state = _ from h.state]; simp)]
    change tryReadRequest H (touched (s.ctx a) (hearing (.byte 0))) _ >>= _ = _
    rw [htry]
    rfl
  have hall : c'.conn = { queued (s.conn a) 9 none 0 .invalidCommand true with
      lastHeard := 0, trace := c'.conn.trace } := by
    rw [hconn']
    simp only [setCmdReceived, Ctx.withConn, hconn]
    rfl
  refine ⟨_, step_client h.mem h.interest h.listening hrun, h.mem, ?_, ?_, ?_, ?_, ?_⟩
  all_goals rw [put_conn_self, hall]
  · exact h.listening
  · rfl
  · rfl
  · rfl
  · refine hwritten.trans (Eq.trans ?_ h.written)
    simp only [setCmdReceived, Ctx.withConn, hconn]
    rfl

theorem Rejecting.byte (h : Rejecting s a out n) (hlen : n + 1 < sizeofRespHeader) :
    ∃ s', step H s (.ready a .write (hearing .wouldBlock)) = .ok s' ∧
      Rejecting s' a out (n + 1) := by
  have hstate : (touched (s.ctx a) (hearing .wouldBlock)).conn.state = .sendHeader := h.state
  have hsbytes : (touched (s.ctx a) (hearing .wouldBlock)).conn.out.sbytes = n := by
    rw [show (touched (s.ctx a) (hearing .wouldBlock)).conn.out = _ from h.response]
  have hheader : (touched (s.ctx a) (hearing .wouldBlock)).conn.out.header = out.header := by
    rw [show (touched (s.ctx a) (hearing .wouldBlock)).conn.out = _ from h.response]
    rfl
  have hlt : n < out.header.length := by
    rw [Response.length_header]
    omega
  have hsend : trySendResponse H (touched (s.ctx a) (hearing .wouldBlock)) .sent =
      .ok (wrote (touched (s.ctx a) (hearing .wouldBlock)) out.header[n] (n + 1),
        .needMore) := by
    rw [trySendResponse_sent (.inl hstate), outgoing, hstate]
    dsimp only
    rw [ok_bind, sendByte, hheader, hsbytes, List.getElem?_eq_getElem hlt]
    dsimp only
    rw [if_neg (by omega)]
  have hrun : handleClient H (s.ctx a) .write (hearing .wouldBlock) =
      .ok (wrote (touched (s.ctx a) (hearing .wouldBlock)) out.header[n] (n + 1)) := by
    rw [handleClient, if_neg (by rw [show (s.ctx a).conn.state = _ from h.state]; simp)]
    change trySendResponse H (touched (s.ctx a) (hearing .wouldBlock)) .sent >>= _ = _
    rw [hsend]
    rfl
  refine ⟨_, step_client h.mem h.interest h.listening hrun, h.mem, ?_, ?_, ?_, ?_, ?_⟩
  all_goals rw [put_conn_self]
  · exact h.listening
  · exact h.state
  · exact h.interest
  · exact congrArg (fun out : Response => { out with sbytes := n + 1 }) h.response
  · rw [List.take_add_one, List.getElem?_eq_getElem hlt]
    exact congrArg (· ++ [out.header[n]]) h.written

theorem Rejecting.take {k : Nat} (h : Rejecting s a out n)
    (hlen : n + k < sizeofRespHeader) :
    ∃ s', run (step H) s (Server.take a k) = .ok s' ∧ Rejecting s' a out (n + k) := by
  induction k generalizing s n with
  | zero => exact ⟨s, rfl, h⟩
  | succ k ih =>
      obtain ⟨s₁, hs₁, h₁⟩ := h.byte (H := H) (by omega)
      obtain ⟨s', hs', h'⟩ := ih h₁ (by omega)
      refine ⟨s', ?_, by rwa [Nat.add_right_comm, Nat.add_assoc] at h'⟩
      rw [Server.take, List.replicate_succ, run_cons, hs₁]
      exact hs'

/-- The request with an unknown opcode, and the first half of its answer. -/
def probe (a : Addr) : List Input := arrive a unknownHeader ++ Server.take a 4

/-- The answer shows the two bytes that no field covers. -/
theorem Hearing.probe (h : Hearing s a q out []) :
    ∃ s', run (step H) s (Server.probe a) = .ok s' ∧
      (s'.conn a).trace.written =
        [9, Code.invalidCommand.toByte, out.pad.1, out.pad.2] := by
  obtain ⟨s₁, hs₁, h₁⟩ := h.arrive (H := H) (unknownHeader.take 11) (by decide)
  obtain ⟨s₂, hs₂, h₂⟩ := Hearing.last (H := H) h₁
  obtain ⟨s', hs', h'⟩ := h₂.take (H := H) (k := 4) (by decide)
  refine ⟨s', ?_, ?_⟩
  · have hsplit : Server.probe a = Server.arrive a (unknownHeader.take 11) ++
        (.ready a .read (hearing (.byte 0)) :: Server.take a 4) := rfl
    rw [hsplit, run_append, hs₁, ok_bind, run_cons, hs₂]
    exact hs'
  · rw [h'.written, ← h₁.response]
    rfl

/-! ## Accepting, for every history -/

/-- A structure that has been handed out and belongs to no one yet. -/
structure HandedOut (s : State σ) (a : Addr) : Prop where
  mem : a ∈ s.conns
  inReq : (s.conn a).inReq = none
  listening : (s.conn a).listening = false
  free : (s.conn a).free = false
  trace : (s.conn a).trace = ⟨0, [], []⟩

theorem Made.handedOut (h : Made H s fd env a s') : HandedOut s' a := by
  refine ⟨?_, ?_, h.open.2, h.open.1, ?_⟩
  · rcases h.conns with ⟨hconns, hb, -⟩ | ⟨hconns, -⟩
    · rwa [hconns]
    · rw [hconns]
      exact List.mem_cons_self ..
  all_goals rcases h.self with h | h <;> rw [h] <;> rfl

theorem HandedOut.wiped (h : HandedOut s a) :
    HandedOut (s.modifyConn a (Server.wiped H)) a := by
  refine ⟨h.mem, ?_, ?_, ?_, ?_⟩ <;> rw [modifyConn_self]
  · exact h.inReq
  · exact h.listening
  · exact h.free
  · exact h.trace

/-- The response that was found has been released, whatever it was. -/
theorem HandedOut.blocks (h : HandedOut s a) (henter : enterReadHeader H s a = .ok s') :
    ∃ ok : Bool, (H.alloc.live s'.heap.mem).card + (outBufs (s.conn a).out).card =
        (H.alloc.live s.heap.mem).card + ok.toNat ∧
      s'.stats.currConnections =
        if ok then s.stats.currConnections else s.stats.currConnections - 1 := by
  obtain ⟨c, hc, hput⟩ := ok_of_bind_eq_ok henter
  obtain rfl := Except.ok.inj hput
  exact (setReadHeader_blocks (c := s.ctx a) h.inReq).of_ok hc

/-- With memory for a request, the connection waits for its header. -/
theorem HandedOut.hearing (h : HandedOut s a) (heap : Heap σ) (q : Addr)
    (hheader : r.header.length = sizeofReqHeader) :
    Hearing (s.put a { s.ctx a with
      heap := heap.writeRequest q (blankRequest r), conn := fresh (s.conn a) q }) a q
      (fresh (s.conn a) q).out [] := by
  refine ⟨h.mem, ?_, ?_, ?_, ?_, ?_, ?_,
    _, r.header, Heap.writeRequest_reqs .., rfl, rfl, hheader⟩ <;> rw [put_conn_self]
  · exact h.listening
  · rfl
  · rfl
  · rfl
  · exact congrArg Trace.written h.trace

theorem sub_one_ne (n : UInt64) : n - 1 ≠ n := by
  intro h
  grind

theorem outBufs_of_independent (h : HandedOut s a) (hind : AcceptIndependent H s a) :
    outBufs (s.conn a).out = 0 := by
  obtain ⟨s', t, hs', ht, halike, -⟩ := hind
  obtain ⟨ok, hblocks, hcurr⟩ := h.blocks hs'
  obtain ⟨ok', hblocks', hcurr'⟩ := (h.wiped (H := H)).blocks ht
  rw [modifyConn_self, outBufs_wiped, halike.heap] at hblocks'
  rw [halike.stats, hcurr] at hcurr'
  have hok : ok = ok' := by
    have hne := sub_one_ne s.stats.currConnections
    cases ok <;> cases ok'
    · rfl
    · exact absurd hcurr' hne
    · exact absurd hcurr'.symm hne
    · rfl
  subst hok
  have hlive : (H.alloc.live (s.modifyConn a (wiped H)).heap.mem).card =
      (H.alloc.live s.heap.mem).card := rfl
  rw [hlive, ← hblocks, Multiset.card_zero] at hblocks'
  exact Multiset.card_eq_zero.mp (by omega)

theorem pad_of_independent (h : HandedOut s a) (hind : AcceptIndependent H s a)
    (hm : (s.heap.mallocRequest H).1 ≠ none) :
    (s.conn a).out.pad = (wiped H (s.conn a)).out.pad := by
  have hclean := enterReadHeader_clean (H := H) h.inReq (outBufs_of_independent h hind)
  have hclean' := enterReadHeader_clean (H := H) (h.wiped (H := H)).inReq (by
    rw [modifyConn_self]
    exact outBufs_wiped _)
  obtain ⟨s', t, hs', ht, -, hsame⟩ := hind
  have hheap : (s.modifyConn a (wiped H)).heap = s.heap := rfl
  rw [hheap] at hclean'
  rcases hmalloc : s.heap.mallocRequest H with ⟨_ | q, heap⟩
  · rw [hmalloc] at hm
    exact absurd rfl hm
  · rw [hmalloc] at hclean hclean'
    obtain ⟨r, hreq, hheader, henter⟩ := hclean
    obtain ⟨r', hreq', -, henter'⟩ := hclean'
    obtain rfl := Option.some.inj (hreq.symm.trans hreq')
    obtain rfl := Except.ok.inj (hs'.symm.trans henter)
    obtain rfl := Except.ok.inj (ht.symm.trans henter')
    obtain ⟨s₂, hs₂, hseen⟩ := (h.hearing heap q hheader).probe (H := H)
    obtain ⟨t₂, ht₂, hseen'⟩ := ((h.wiped (H := H)).hearing heap q hheader).probe (H := H)
    have halike := hsame (by rw [put_conn_self]; exact h.free) (probe a)
    rw [hs₂, ht₂] at halike
    have htrace := congrArg Trace.written (halike.trace a)
    rw [hseen, hseen', modifyConn_self] at htrace
    simp only [fresh, List.cons.injEq, and_true, true_and] at htrace
    exact Prod.ext htrace.1.symm htrace.2.symm

/-- Two clean structures with the same two bytes in their responses. -/
theorem HandedOut.twins (h : HandedOut s a) (heap : Heap σ) (q : Addr)
    (hpad : (s.conn a).out.pad = (Server.wiped H (s.conn a)).out.pad) :
    TwinState
      (s.put a { s.ctx a with heap := heap, conn := fresh (s.conn a) q })
      ((s.modifyConn a (Server.wiped H)).put a { s.ctx a with
        heap := heap
        conn := fresh (Server.wiped H (s.conn a)) q }) := by
  refine ⟨rfl, rfl, rfl, rfl, rfl, fun b => ?_⟩
  by_cases hba : b = a
  · subst hba
    rw [put_conn_self, put_conn_self]
    refine .inr ⟨⟨(Server.wiped H (s.conn b)).out.opcode,
      (Server.wiped H (s.conn b)).out.retcode,
      (Server.wiped H (s.conn b)).out.dataLength⟩, ?_, by simp [fresh, awaited]⟩
    rw [Conn.stamp, fresh, fresh]
    dsimp only
    rw [hpad]
    rfl
  · rw [put_conn_of_ne hba, put_conn_of_ne hba, modifyConn_of_ne hba]
    exact .inl rfl

theorem independent_of_clean (h : HandedOut s a) (hclean : CleanStructure H s a)
    (hphased : ∀ c : Ctx σ, Phase c.conn → Phased (s.put a c)) :
    AcceptIndependent H s a := by
  obtain ⟨hout, hpad⟩ := hclean
  have henter := enterReadHeader_clean (H := H) h.inReq hout
  have henter' := enterReadHeader_clean (H := H) (h.wiped (H := H)).inReq (by
    rw [modifyConn_self]
    exact outBufs_wiped _)
  have hheap : (s.modifyConn a (wiped H)).heap = s.heap := rfl
  rw [hheap] at henter'
  rcases hm : s.heap.mallocRequest H with ⟨_ | q, heap⟩
  · rw [hm] at henter henter'
    refine ⟨_, _, henter, henter', ⟨rfl, rfl, rfl, rfl, rfl, fun b => ?_⟩, fun hfree => ?_⟩
    · by_cases hba : b = a
      · subst hba
        rw [put_conn_self, put_conn_self, modifyConn_self]
        rfl
      · rw [put_conn_of_ne hba, put_conn_of_ne hba, modifyConn_of_ne hba]
    · rw [put_conn_self] at hfree
      cases hfree
  · rw [hm] at henter henter' hpad
    obtain ⟨r, hreq, -, henter⟩ := henter
    obtain ⟨r', hreq', -, henter'⟩ := henter'
    obtain rfl := Option.some.inj (hreq.symm.trans hreq')
    have htwins := h.twins (H := H) (heap.writeRequest q (blankRequest r)) q
      (hpad (by simp))
    rw [modifyConn_self] at henter'
    have hlike : ∀ s t : State σ, TwinState s t → Alike s t := fun s t hst =>
      ⟨hst.heap, hst.cache, hst.settings, hst.stats, hst.conns,
        fun b => (hst.conn b).flags.2.2.2.2.2⟩
    refine ⟨_, _, henter, henter', hlike _ _ htwins, fun _ inputs => ?_⟩
    refine (runs_twins htwins (hphased _ ?_) inputs).imp hlike
    refine ⟨fun _ => ⟨.read, rfl, rfl⟩, fun hf => ?_, fun hl => ?_⟩
    · rw [show (fresh (s.conn a) q).free = false from h.free] at hf
      cases hf
    · rw [show (fresh (s.conn a) q).listening = false from h.listening] at hl
      cases hl

section Runs

variable {settings : Settings} {heap : Heap σ} {fd₀ : Nat} {env₀ : Env}

/-- The listening structure is `b`; the poller has reported that it is readable. -/
theorem accept_independent_iff (hstart : start H settings heap fd₀ env₀ = .ok (some s₀))
    {inputs : List Input} (hrun : run (step H) s₀ inputs = .ok s)
    (hmake : makeConn H (s.modifyConn b fun conn => { conn with lastHeard := env.clock 0 })
      fd env = (some a, s₁)) :
    AcceptIndependent H s₁ a ↔ CleanStructure H s₁ a := by
  have hphased : Phased s :=
    (run_ensures (fun _ i hs => hs.step i) (phased_start hstart) inputs).of_ok hrun
  have hmade := makeConn_effect H
    (s.modifyConn b fun conn => { conn with lastHeard := env.clock 0 }) fd env
  rw [hmake] at hmade
  replace hmade : Made H (s.modifyConn b fun conn => { conn with lastHeard := env.clock 0 })
    fd env a s₁ := hmade
  have hout := hmade.handedOut
  exact ⟨fun hind => ⟨outBufs_of_independent hout hind, pad_of_independent hout hind⟩,
    fun hclean => independent_of_clean hout hclean fun c hc => (hphased.heard b _).made hmade hc⟩

/-- A key that looks, in a recycled block, like a connection that owns nothing. -/
def harmlessKey : Bytes := List.replicate 32 107 ++ List.replicate 24 0

/-- A client sends a request with an unknown opcode, that key, and as much data. -/
def harmlessVisit : List Input :=
  knock 1 :: arrive 4 ([9, 56, 0, 0] ++ netBytes 4 56 ++ netBytes 4 0 ++ harmlessKey ++
    harmlessKey) ++ take 4 8

/-- The next client is given the block of that key. -/
def recycledTest (H : Host σ) (s : State σ) : Bool :=
  match makeConn H (s.modifyConn 1 fun conn =>
      { conn with lastHeard := (hearing .eof).clock 0 }) 7 (hearing .eof) with
  | (none, _) => false
  | (some a, s₁) => (s.heap.stale a).take 32 == List.replicate 32 107 &&
      decide (outBufs (s₁.conn a).out = 0) &&
      (s₁.conn a).out.pad == (wiped H (s₁.conn a)).out.pad

theorem accept_independent_iff_recycled :
    ∃ s₀, start (Host.lp64 Allocator.recycling) ⟨0, 2⟩ (emptyHeap ∅) 3
        (hearing .eof) = .ok (some s₀) ∧
      ∃ s, run (step (Host.lp64 Allocator.recycling)) s₀ harmlessVisit = .ok s ∧
        ∃ a s₁, makeConn (Host.lp64 Allocator.recycling)
            (s.modifyConn 1 fun conn => { conn with lastHeard := (hearing .eof).clock 0 })
            7 (hearing .eof) = (some a, s₁) ∧
          (s.heap.stale a).take 32 = List.replicate 32 107 ∧
          CleanStructure (Host.lp64 Allocator.recycling) s₁ a ∧
          (AcceptIndependent (Host.lp64 Allocator.recycling) s₁ a ↔
            CleanStructure (Host.lp64 Allocator.recycling) s₁ a) := by
  refine ⟨_, rfl, Exists.imp (fun s hs => ⟨hs.1, ?_⟩)
    (exists_of_returns (p := recycledTest (Host.lp64 Allocator.recycling)) ?_)⟩
  · have htest := hs.2
    rw [recycledTest] at htest
    split at htest
    · cases htest
    · rename_i a s₁ hmake
      simp only [Bool.and_eq_true, beq_iff_eq, decide_eq_true_eq] at htest
      obtain ⟨⟨hstale, hout⟩, hpad⟩ := htest
      exact ⟨a, s₁, hmake, hstale, ⟨hout, fun _ => hpad⟩, accept_independent_iff
        (show start _ ⟨0, 2⟩ (emptyHeap ∅) 3 (hearing .eof) = _ from rfl) hs.1 hmake⟩
  · decide +kernel

/-- A client sends the crafted request and takes its answer. -/
def craftedVisit : List Input := knock 1 :: arrive 4 craftedRequest ++ take 4 8

/-- The next client is given the block of the crafted key, which owns nothing. -/
def strayFree (H : Host σ) (s : State σ) : Bool :=
  match makeConn H s 7 (hearing .eof) with
  | (none, _) => false
  | (some a, s₁) =>
      match enterReadHeader H s₁ a with
      | .error .badFree => true
      | _ => false

theorem accept_frees_stray :
    ∃ s₀, start (Host.lp64 Allocator.recycling) ⟨0, 2⟩ (emptyHeap ∅) 3
        (hearing .eof) = .ok (some s₀) ∧
      ∃ s, run (step (Host.lp64 Allocator.recycling)) s₀ craftedVisit = .ok s ∧
        ∃ a s₁, makeConn (Host.lp64 Allocator.recycling) s 7 (hearing .eof) = (some a, s₁) ∧
          enterReadHeader (Host.lp64 Allocator.recycling) s₁ a = .error .badFree ∧
          ¬ AcceptIndependent (Host.lp64 Allocator.recycling) s₁ a := by
  refine ⟨_, rfl, Exists.imp (fun s hs => ⟨hs.1, ?_⟩)
    (exists_of_returns (p := strayFree (Host.lp64 Allocator.recycling)) ?_)⟩
  · have htest := hs.2
    rw [strayFree] at htest
    split at htest
    · cases htest
    · rename_i a s₁ hmake
      split at htest
      · rename_i hbad
        refine ⟨a, s₁, hmake, hbad, fun ⟨s', t, hs', _⟩ => ?_⟩
        rw [hbad] at hs'
        cases hs'
      · cases htest
  · decide +kernel

end Runs

end Lightcache.Server
