import Lightcache.Server.Reader

/-!
# Sending a response, and the life of a connection

What a connection gives back between two requests and when it is closed, and
what one call of `try_send_response` does.
-/

namespace Lightcache.Server

open Lightcache Lightcache.Foundation Lightcache.Hashtab Heap

variable {σ : Type} {H : Host σ} {c c' : Ctx σ} {q : Addr} {r : Request}
  {f : Fields} {Q B W : Multiset Addr}

/-! ## Giving back request and response -/

/-- A connection that owns what it points to, beside a frame. -/
structure Keeping (H : Host σ) (c : Ctx σ) (Q B W : Multiset Addr) : Prop where
  store : Store H c.heap c.cache (connReqs c.heap c.conn + Q)
    (connBufs c.heap c.conn + B) W
  inReq : ∀ q, c.conn.inReq = some q → ∃ r, c.heap.reqs q = some r

/-- The frame has grown, and nothing else has changed for the cache. -/
theorem Store.beside {h h' : Heap σ} {ht : Cache} {Q' B' : Multiset Addr}
    (hs : Store H h ht Q' B' W) (ht' : Typed H h' (cachedReqs ht.live + Q)
      (cachedBufs h ht.live + B) (ht.blocks + W))
    (hagree : Agree (cachedReqs ht.live + Q) (cachedBufs h ht.live + B) h h') :
    Store H h' ht Q B W :=
  hs.frame ht' (hagree.mono (Multiset.le_add_right ..) (Multiset.le_add_right ..))

theorem Keeping.freeRequest (hk : Keeping H c Q B W) :
    ∃ c' p, freeRequest H c = .ok c' ∧
      Store H c'.heap c'.cache Q (outBufs c.conn.out + B) W ∧
      Beside c c' Q (outBufs c.conn.out + B) ∧
      c'.conn = { c.conn with inReq := p } := by
  have hs := hk.store
  rw [Server.freeRequest]
  cases hin : c.conn.inReq with
  | none =>
      rw [connReqs_none hin, connBufs_none hin, zero_add] at hs
      exact ⟨c, none, rfl, hs, .refl .., by rw [← hin]⟩
  | some q =>
      obtain ⟨r, hr⟩ := hk.inReq q hin
      dsimp only
      rw [readRequest_eq hr, ok_bind]
      cases hfree : r.canFree with
      | false =>
          rw [connReqs_lent hin hr hfree, connBufs_lent hin hr hfree, zero_add] at hs
          exact ⟨c, some q, rfl, hs, .refl .., by rw [← hin]⟩
      | true =>
          rw [connReqs_own hin hr hfree, connBufs_own hin hr hfree, add_assoc] at hs
          obtain ⟨heap, hrel, ht, hagree⟩ := Typed.release
            (hs.typed.congr
              (show {q} + (cachedReqs c.cache.live + Q) = _ by abel)
              (show r.buffers + (cachedBufs c.heap c.cache.live +
                (outBufs c.conn.out + B)) = _ by abel) rfl) hr
          refine ⟨{ c with heap := heap, conn := { c.conn with inReq := none } }, none,
            ?_, hs.beside ht hagree, ⟨rfl, rfl, hagree⟩, rfl⟩
          rw [hrel]
          rfl

theorem freeResponse_post (hs : Store H c.heap c.cache Q (outBufs c.conn.out + B) W) :
    ∃ c', freeResponse H c = .ok c' ∧ Store H c'.heap c'.cache Q B W ∧
      Beside c c' Q B ∧
      c'.conn = { c.conn with out := { c.conn.out with sdata := none } } := by
  rw [freeResponse]
  rw [outBufs] at hs
  cases hfree : c.conn.out.canFree with
  | false =>
      rw [if_neg (by simp [hfree]), zero_add] at hs
      exact ⟨{ c with conn := { c.conn with out := { c.conn.out with sdata := none } } },
        rfl, hs, ⟨rfl, rfl, .refl ..⟩, rfl⟩
  | true =>
      rw [if_pos hfree] at hs
      obtain ⟨heap, hrel, ht, hagree⟩ := Typed.freeBuf
        (hs.typed.congr rfl (show ptrBlocks c.conn.out.sdata +
          (cachedBufs c.heap c.cache.live + B) = _ by abel) rfl)
      refine ⟨{ c with
        heap := heap
        conn := { c.conn with out := { c.conn.out with sdata := none } } }, ?_,
        hs.beside ht hagree, ⟨rfl, rfl, hagree⟩, rfl⟩
      rw [if_pos rfl, hrel]
      rfl

/-- `free_request(conn); free_response(conn);` -/
theorem Keeping.letGo (hk : Keeping H c Q B W) :
    ∃ c₁ c₂ p, Server.freeRequest H c = .ok c₁ ∧ freeResponse H c₁ = .ok c₂ ∧
      Store H c₂.heap c₂.cache Q B W ∧ Beside c c₂ Q B ∧
      c₂.conn = { c.conn with
        inReq := p, out := { c.conn.out with sdata := none } } := by
  obtain ⟨c₁, p, hc₁, hs₁, hb₁, hconn₁⟩ := hk.freeRequest
  have hout : c₁.conn.out = c.conn.out := by rw [hconn₁]
  rw [← hout] at hs₁
  obtain ⟨c₂, hc₂, hs₂, hb₂, hconn₂⟩ := freeResponse_post hs₁
  have hb : Beside c c₁ Q B := ⟨hb₁.cache, hb₁.settings,
    hb₁.agree.mono le_rfl (add_le_add_right (Multiset.le_add_left ..) _)⟩
  refine ⟨c₁, c₂, p, hc₁, hc₂, hs₂, hb.trans hb₂, ?_⟩
  rw [hconn₂, hconn₁]

/-- A connection after `disconnect_conn`. -/
structure Closed (conn conn' : Conn) : Prop where
  free : conn'.free = true
  state : conn'.state = .connClosed
  sdata : conn'.out.sdata = none
  interest : conn'.interest = none
  listening : conn'.listening = conn.listening
  trace : conn'.trace = conn.trace

theorem Keeping.disconnect (hk : Keeping H c Q B W) :
    ∃ c', disconnectConn H c = .ok c' ∧ Store H c'.heap c'.cache Q B W ∧
      Beside c c' Q B ∧ Closed c.conn c'.conn := by
  obtain ⟨c₁, c₂, p, hc₁, hc₂, hs, hb, hconn⟩ := hk.letGo
  rw [disconnectConn, hc₁, ok_bind, hc₂, ok_bind]
  refine ⟨_, rfl, hs, ⟨hb.cache, hb.settings, hb.agree⟩, ?_⟩
  rw [hconn]
  exact ⟨rfl, rfl, rfl, rfl, rfl, rfl⟩

/-! ## Waiting for a new request -/

/-- A connection that waits for a new request `q`. -/
def fresh (conn : Conn) (q : Addr) : Conn :=
  { conn with
    inReq := some q
    out := { conn.out with sdata := none, sbytes := 0, canFree := true }
    interest := some .read
    state := .readHeader }

def noFields (r : Request) : Fields := ⟨r.opcode, [], [], []⟩

theorem Keeping.setReadHeader (hk : Keeping H c Q B W) :
    ∃ c', setReadHeader H c = .ok c' ∧ Beside c c' Q B ∧
      ((¬ H.alloc.NeverFails ∧ Store H c'.heap c'.cache Q B W ∧
          Closed c.conn c'.conn) ∨
        ∃ q r, Holding H c' q r (noFields r) Q B W ∧ r.rbytes = 0 ∧
          c'.conn = fresh c.conn q) := by
  obtain ⟨c₁, c₂, p, hc₁, hc₂, hs, hb, hconn⟩ := hk.letGo
  have hm := hs.typed.mallocRequest
  rw [Server.setReadHeader, initResources, hc₁, ok_bind, hc₂, ok_bind]
  rcases hrun : c₂.heap.mallocRequest H with ⟨_ | q, heap⟩
  · rw [hrun] at hm
    obtain ⟨ht, hagree, hfails⟩ := hm
    have hk' : Keeping H { c₂ with
        heap := heap, conn := { c₂.conn with inReq := none } } Q B W := by
      refine ⟨?_, by simp⟩
      rw [connReqs_none rfl, connBufs_none rfl, zero_add, outBufs, hconn]
      simpa using hs.beside ht hagree
    obtain ⟨c', hc', hs', hb', hclosed⟩ := hk'.disconnect
    have hmid : Beside c₂ { c₂ with
        heap := heap, conn := { c₂.conn with inReq := none } } Q B :=
      ⟨rfl, rfl, hagree⟩
    refine ⟨c', hc', (hb.trans hmid).trans hb', .inl ⟨hfails, hs', ?_⟩⟩
    have htrace : c₂.conn.trace = c.conn.trace := by rw [hconn]
    have hlistening : c₂.conn.listening = c.conn.listening := by rw [hconn]
    exact ⟨hclosed.free, hclosed.state, hclosed.sdata, hclosed.interest,
      hclosed.listening.trans hlistening, hclosed.trace.trans htrace⟩
  · rw [hrun] at hm
    obtain ⟨ht, hagree, hnew, -, hr₀⟩ := hm
    obtain ⟨r₀, hr₀, hheader⟩ : ∃ r₀, heap.reqs q = some r₀ ∧
        r₀.header.length = sizeofReqHeader := ⟨_, hr₀, H.requestOf_header _⟩
    have hwrite : Agree (cachedReqs c₂.cache.live + Q)
        (cachedBufs c₂.heap c₂.cache.live + B) heap
        (heap.writeRequest q (blankRequest r₀)) := agree_writeRequest hnew
    have hconn' : fresh c.conn q = { c₂.conn with
        inReq := some q
        out := { c₂.conn.out with sdata := none, sbytes := 0, canFree := true }
        interest := some .read
        state := .readHeader } := by
      rw [hconn]
      rfl
    refine ⟨{ c₂ with
      heap := heap.writeRequest q (blankRequest r₀), conn := fresh c.conn q }, ?_,
      hb.trans ⟨rfl, rfl, hagree.trans hwrite⟩,
      .inr ⟨q, blankRequest r₀, ⟨?_, rfl, writeRequest_reqs .., rfl, hheader, rfl, ?_⟩,
        rfl, rfl⟩⟩
    · dsimp only
      rw [readRequest_eq hr₀, hconn']
      rfl
    · refine hs.frame ((ht.writeRequest (by simp) (blankRequest r₀)).congr
        (by abel) ?_ rfl) ((hagree.trans hwrite).mono (Multiset.le_add_right ..)
          (Multiset.le_add_right ..))
      simp [blankRequest, Request.buffers]
    · intro fd
      cases fd <;> exact .inl ⟨rfl, rfl⟩

/-! ## `try_send_response` -/

/-- The bytes that a state sends from, and how many of them. -/
def outgoing (c : Ctx σ) : Except Fault Bytes × Nat :=
  match c.conn.state with
  | .sendHeader => (.ok c.conn.out.header, sizeofRespHeader)
  | _ => (outBytes c, c.conn.out.dataLength % 2 ^ 32)

/-- One byte has been written, and `n` of the current part. -/
def wrote (c : Ctx σ) (b : UInt8) (n : Nat) : Ctx σ :=
  { c with
    stats := { c.stats with bytesWritten := c.stats.bytesWritten + 1 }
    conn := { c.conn with
      out := { c.conn.out with sbytes := n }
      trace := { c.conn.trace with written := c.conn.trace.written ++ [b] } } }

def IsSending (conn : Conn) : Prop :=
  conn.state = .sendHeader ∨ conn.state = .sendData

/-- What follows when the last byte of a part has been written. -/
def partSent (H : Host σ) (c : Ctx σ) : Except Fault (Ctx σ × SocketState) :=
  if c.conn.state = .sendHeader ∧ c.conn.out.dataLength % 2 ^ 32 ≠ 0 then
    .ok (c.withConn fun conn => { conn with state := .sendData }, .sendCompleted)
  else do
    let c ← nextRequest H c
    return (c, .sendCompleted)

theorem trySendResponse_blocked (hsend : IsSending c.conn) :
    trySendResponse H c .wouldBlock = .ok (c, .needMore) := by
  rcases hsend with hstate | hstate <;> rw [trySendResponse, hstate] <;> rfl

theorem trySendResponse_failed (hsend : IsSending c.conn) :
    trySendResponse H c .error = .ok (c, .sendErr) := by
  rcases hsend with hstate | hstate <;> rw [trySendResponse, hstate] <;> rfl

theorem sendNbytes_sent {src : Bytes} {n : Nat} :
    sendNbytes c (.ok src) n .sent =
      match src[c.conn.out.sbytes]? with
      | none => .error .outOfBounds
      | some b =>
          if c.conn.out.sbytes + 1 = n then .ok (wrote c b 0, .sendCompleted)
          else .ok (wrote c b (c.conn.out.sbytes + 1), .needMore) := by
  rw [sendNbytes, ok_bind]
  cases src[c.conn.out.sbytes]? with
  | none => rfl
  | some b =>
      dsimp only
      by_cases hdone : c.conn.out.sbytes + 1 = n
      · rw [if_pos hdone, if_pos (by simpa using hdone), if_pos (by simpa using hdone)]
        rfl
      · rw [if_neg hdone, if_neg (by simpa using hdone), if_neg (by simpa using hdone)]
        rfl

/-- The next of the `n` bytes from `src` is written. -/
def sendByte (H : Host σ) (c : Ctx σ) (n : Nat) (src : Bytes) :
    Except Fault (Ctx σ × SocketState) :=
  match src[c.conn.out.sbytes]? with
  | none => .error .outOfBounds
  | some b =>
      if c.conn.out.sbytes + 1 = n then partSent H (wrote c b 0)
      else .ok (wrote c b (c.conn.out.sbytes + 1), .needMore)

theorem trySendResponse_sent (hsend : IsSending c.conn) :
    trySendResponse H c .sent = (outgoing c).1 >>= sendByte H c (outgoing c).2 := by
  rcases hsend with hstate | hstate
  · have hout : outgoing c = (.ok c.conn.out.header, sizeofRespHeader) := by
      rw [outgoing, hstate]
    rw [trySendResponse, hstate, hout]
    dsimp only
    rw [sendNbytes_sent, ok_bind, sendByte]
    cases c.conn.out.header[c.conn.out.sbytes]? with
    | none => rfl
    | some b =>
        dsimp only
        by_cases hdone : c.conn.out.sbytes + 1 = sizeofRespHeader
        · have hstate' : (wrote c b 0).conn.state = .sendHeader := hstate
          rw [if_pos hdone, if_pos hdone, ok_bind]
          dsimp only
          rw [if_neg (by simp), partSent]
          by_cases hdata : (wrote c b 0).conn.out.dataLength % 2 ^ 32 ≠ 0
          · rw [if_pos hdata, if_pos ⟨hstate', hdata⟩]
            rfl
          · rw [if_neg hdata, if_neg fun h => hdata h.2]
        · rw [if_neg hdone, if_neg hdone, ok_bind]
          rfl
  · have hout : outgoing c = (outBytes c, c.conn.out.dataLength % 2 ^ 32) := by
      rw [outgoing, hstate]
    rw [trySendResponse, hstate, hout]
    dsimp only
    cases hbytes : outBytes c with
    | error e => rfl
    | ok src =>
        rw [sendNbytes_sent, ok_bind, sendByte]
        cases src[c.conn.out.sbytes]? with
        | none => rfl
        | some b =>
            dsimp only
            by_cases hdone : c.conn.out.sbytes + 1 = c.conn.out.dataLength % 2 ^ 32
            · have hstate' : (wrote c b 0).conn.state = .sendData := hstate
              rw [if_pos hdone, if_pos hdone, ok_bind]
              dsimp only
              rw [if_neg (by simp), partSent, hstate', if_neg (by simp)]
            · rw [if_neg hdone, if_neg hdone, ok_bind]
              rfl

/-- The only faults of sending: the response's buffer is not what it was. -/
def SendFault (e : Fault) : Prop :=
  e = .nullDeref ∨ e = .staleBuffer ∨ e = .outOfBounds

theorem outgoing_post (c : Ctx σ) : Post (outgoing c).1 (fun _ => True) SendFault := by
  rw [outgoing]
  cases c.conn.state
  case sendHeader => trivial
  all_goals
    dsimp only
    rw [outBytes]
    rcases c.conn.out.sdata with _ | a
    · exact .inl rfl
    · rw [Heap.load]
      rcases c.heap.bufs a with _ | bytes
      · exact .inr (.inl rfl)
      · trivial

end Lightcache.Server
