import Lightcache.Server.Round

/-!
# A response on its way

A connection that sends a header and a payload writes exactly their bytes, one
in each event, as long as the buffer behind the payload stays as it was.
-/

namespace Lightcache.Server

open Lightcache Lightcache.Foundation Lightcache.Hashtab Heap

variable {σ : Type} {H : Host σ} {c c' : Ctx σ} {conn conn' : Conn} {h h' : Heap σ}
  {header payload w : Bytes} {n : Nat} {Q B W : Multiset Addr} {ev : Event} {env : Env}

/-! ## The position in a response -/

/-- The connection sends `header ++ payload`, and `n` of these bytes are written. -/
structure Answering (conn : Conn) (header payload : Bytes) (n : Nat) : Prop where
  interest : conn.interest = some .write
  header : conn.out.header = header
  length : conn.out.dataLength = payload.length
  small : payload.length < 2 ^ 32
  position : (conn.state = .sendHeader ∧ conn.out.sbytes = n ∧ n < sizeofRespHeader) ∨
    (conn.state = .sendData ∧ sizeofRespHeader + conn.out.sbytes = n ∧
      conn.out.sbytes < payload.length)

/-- The payload is in the buffer of the response. -/
def Backed (h : Heap σ) (conn : Conn) (payload : Bytes) : Prop :=
  payload ≠ [] → ∃ d bytes, conn.out.sdata = some d ∧ h.bufs d = some bytes ∧
    payload <+: bytes

/-- The connection goes on with its response. -/
structure Resumes (conn conn' : Conn) : Prop where
  inReq : conn'.inReq = conn.inReq
  sdata : conn'.out.sdata = conn.out.sdata
  canFree : conn'.out.canFree = conn.out.canFree
  free : conn'.free = conn.free
  executed : conn'.trace.executed = conn.trace.executed
  consumed : conn'.trace.consumed = conn.trace.consumed

/-- The connection waits for the first byte of a request. -/
def Rested (h : Heap σ) (conn : Conn) : Prop :=
  conn.state = .readHeader ∧ ∃ q r, Held h conn q r (noFields r) ∧
    Reading conn r (noFields r) ∧ r.rbytes = 0

/-- What an event does to a response of which `n` bytes are written. -/
inductive Sends (c : Ctx σ) (header payload : Bytes) (n : Nat) (c' : Ctx σ) : Prop
  | closed (free : c'.conn.free = true) (state : c'.conn.state = .connClosed)
      (trace : c'.conn.trace = c.conn.trace)
  | blocked (answering : Answering c'.conn header payload n)
      (resumes : Resumes c.conn c'.conn) (heap : c'.heap = c.heap) (cache : c'.cache = c.cache)
      (written : c'.conn.trace.written = c.conn.trace.written)
  | sent {b : UInt8} (answering : Answering c'.conn header payload (n + 1))
      (resumes : Resumes c.conn c'.conn) (heap : c'.heap = c.heap) (cache : c'.cache = c.cache)
      (byte : (header ++ payload)[n]? = some b)
      (written : c'.conn.trace.written = c.conn.trace.written ++ [b])
  | finished {b : UInt8} (last : n + 1 = (header ++ payload).length)
      (byte : (header ++ payload)[n]? = some b)
      (trace : c'.conn.trace =
        { c.conn.trace with written := c.conn.trace.written ++ [b] })
      (next : c'.conn.state = .connClosed ∨ Rested c'.heap c'.conn)

theorem Answering.length_header (ha : Answering conn header payload n) :
    header.length = sizeofRespHeader := by
  rw [← ha.header, Response.length_header]

theorem Answering.mod (ha : Answering conn header payload n) :
    conn.out.dataLength % 2 ^ 32 = payload.length := by
  rw [ha.length, Nat.mod_eq_of_lt ha.small]

/-- The next byte of the part is the next byte of the response. -/
theorem Answering.next (ha : Answering c.conn header payload n)
    (hb : Backed c.heap c.conn payload) {src : Bytes} {b : UInt8}
    (hsource : (outgoing c).1 = .ok src) (hbyte : src[c.conn.out.sbytes]? = some b) :
    (header ++ payload)[n]? = some b := by
  rcases ha.position with ⟨hstate, hn, hlt⟩ | ⟨hstate, hn, hlt⟩
  · rw [outgoing, hstate] at hsource
    obtain rfl : c.conn.out.header = src := Except.ok.inj hsource
    rw [← hn, ← ha.header, List.getElem?_append_left (by
      rw [Response.length_header, hn]; exact hlt)]
    exact hbyte
  · rw [outgoing, hstate] at hsource
    obtain ⟨d, bytes, hd, hbuf, rest, rfl⟩ := hb (List.ne_nil_of_length_pos (by omega))
    have hout : outBytes c = .ok (payload ++ rest) := by
      rw [outBytes, hd, load_eq hbuf]
      rfl
    rw [hout] at hsource
    obtain rfl : payload ++ rest = src := Except.ok.inj hsource
    rw [← hn, ← ha.length_header, List.getElem?_append_right (Nat.le_add_right ..),
      Nat.add_sub_cancel_left]
    rwa [List.getElem?_append_left hlt] at hbyte

/-- No write of a response with its payload in place goes wrong. -/
theorem Answering.sends_ok (ha : Answering c.conn header payload n)
    (hb : Backed c.heap c.conn payload) :
    ∃ src b, (outgoing c).1 = .ok src ∧ src[c.conn.out.sbytes]? = some b := by
  rcases ha.position with ⟨hstate, hn, hlt⟩ | ⟨hstate, hn, hlt⟩
  · have hlt' : c.conn.out.sbytes < c.conn.out.header.length := by
      rw [Response.length_header, hn]
      exact hlt
    refine ⟨c.conn.out.header, c.conn.out.header[c.conn.out.sbytes], ?_,
      List.getElem?_eq_getElem hlt'⟩
    rw [outgoing, hstate]
  · obtain ⟨d, bytes, hd, hbuf, rest, rfl⟩ := hb (List.ne_nil_of_length_pos (by omega))
    refine ⟨payload ++ rest, payload[c.conn.out.sbytes], ?_, ?_⟩
    · rw [outgoing, hstate]
      dsimp only
      rw [outBytes, hd, load_eq hbuf]
      rfl
    · rw [List.getElem?_append_left hlt, List.getElem?_eq_getElem hlt]

theorem Answering.total (ha : Answering c.conn header payload n) :
    (outgoing c).2 = if c.conn.state = .sendHeader then sizeofRespHeader
      else payload.length := by
  rcases ha.position with ⟨hstate, -⟩ | ⟨hstate, -⟩
  · rw [outgoing, hstate, if_pos rfl]
  · rw [outgoing, hstate, if_neg (by simp)]
    exact ha.mod

theorem ClientStep.sends (hstep : ClientStep H c .write env Q B W c')
    (ha : Answering c.conn header payload n) (hb : Backed c.heap c.conn payload) :
    Sends c header payload n c' := by
  have htotal := ha.total
  cases hstep with
  | closed store beside closed => exact .closed closed.free closed.state closed.trace
  | read event => cases event
  | executed event => cases event
  | blocked event sending store =>
      exact .blocked ⟨ha.interest, ha.header, ha.length, ha.small, ha.position⟩
        ⟨rfl, rfl, rfl, rfl, rfl, rfl⟩ rfl rfl rfl
  | @sent src b event sending store source byte more =>
      refine .sent ⟨ha.interest, ha.header, ha.length, ha.small, ?_⟩
        ⟨rfl, rfl, rfl, rfl, rfl, rfl⟩ rfl rfl (ha.next hb source byte) rfl
      rw [htotal] at more
      rcases ha.position with ⟨hstate, hn, hlt⟩ | ⟨hstate, hn, hlt⟩
      · rw [if_pos hstate] at more
        exact .inl ⟨hstate, congrArg (· + 1) hn, by omega⟩
      · rw [if_neg (by simp [hstate])] at more
        exact .inr ⟨hstate, congrArg (· + 1) hn, show c.conn.out.sbytes + 1 < _ by omega⟩
  | @headerSent b event sending store state byte last data =>
      have hsource : (outgoing c).1 = .ok c.conn.out.header := by rw [outgoing, state]
      refine .sent ⟨ha.interest, ha.header, ha.length, ha.small, .inr ⟨rfl, ?_, ?_⟩⟩
        ⟨rfl, rfl, rfl, rfl, rfl, rfl⟩ rfl rfl (ha.next hb hsource byte) rfl
      · rcases ha.position with ⟨-, hn, -⟩ | ⟨hstate, -⟩
        · exact (Nat.add_zero _).trans (hn ▸ last.symm)
        · rw [state] at hstate
          cases hstate
      · rw [ha.mod] at data
        exact Nat.pos_of_ne_zero data
  | @responseSent c' src b event sending source byte last noData beside next =>
      have htrace : c'.conn.trace =
          { c.conn.trace with written := c.conn.trace.written ++ [b] } := by
        rcases next with ⟨-, -, closed⟩ | ⟨q, r, -, -, hconn⟩
        · rw [closed.trace]
          rfl
        · rw [hconn]
          rfl
      refine .finished ?_ (ha.next hb source byte) htrace (next.imp (fun h => h.2.2.state) ?_)
      case refine_2 =>
        rintro ⟨q, r, hh, hzero, hconn⟩
        exact ⟨by rw [hconn]; rfl, q, r, hh.held, by rw [hconn]; exact reading_fresh _ hzero q,
          hzero⟩
      rw [List.length_append, ha.length_header]
      rw [htotal] at last
      rcases ha.position with ⟨hstate, hn, -⟩ | ⟨hstate, hn, -⟩
      · have := noData hstate
        rw [ha.mod] at this
        rw [if_pos hstate] at last
        omega
      · rw [if_neg (by simp [hstate])] at last
        omega

/-! ## What has been written -/

/-- Of the response to be written after `w`, the bytes seen so far. -/
structure Progressing (conn : Conn) (w header payload : Bytes) (n : Nat) : Prop where
  answering : Answering conn header payload n
  written : conn.trace.written = w ++ (header ++ payload).take n

/-- The bytes written after `w` are the response, or its beginning. -/
def Follows (w response written : Bytes) : Prop :=
  w <+: written ∧ (written <+: w ++ response ∨ w ++ response <+: written)

theorem Progressing.follows (hp : Progressing conn w header payload n) :
    Follows w (header ++ payload) conn.trace.written := by
  rw [hp.written]
  exact ⟨List.prefix_append .., .inl ((List.prefix_append_right_inj w).mpr
    (List.take_prefix ..))⟩

theorem take_succ_of_getElem? {l : Bytes} {b : UInt8} (hb : l[n]? = some b) :
    l.take (n + 1) = l.take n ++ [b] := by
  rw [List.take_add_one, hb]
  rfl

/-- A connection in use never takes back what it has written. -/
theorem ClientStep.written (hstep : ClientStep H c ev env Q B W c')
    (hgrow : ev = .read → GrowsWell H c env) :
    c.conn.trace.written <+: c'.conn.trace.written := by
  have hreads : ∀ {conn₁ r f r₁ f₁ ret received}, Reads H c.heap.mem (touched c env).conn r f
      env.read r₁ f₁ conn₁ ret received → conn₁.trace.written = c.conn.trace.written := fun h => by
    rw [h.trace, (heard_trace ..).2]
    rfl
  cases hstep with
  | closed store beside closed => rw [closed.trace]
  | read event held reading reads => rw [hreads reads]
  | @executed _ c₁ q r f r₁ f₁ ret event held reading run reads serving beside answered =>
      have hgrow' : ¬ GrowthRefused H (arrived c₁ q r₁ env).heap c₁.cache q f₁ := by
        rw [beside.cache]
        exact hgrow event _ _ _ _ ⟨⟨ret, run⟩, serving.inReq, serving.req,
          serving.delivered.fields⟩
      obtain ⟨-, res, -, hserved⟩ := answered.2 hgrow'
      have htrace : c'.conn.trace = (arrived c₁ q r₁ env).conn.trace := by rw [hserved.conn]
      rw [htrace, show (arrived c₁ q r₁ env).conn.trace.written = c₁.conn.trace.written from rfl,
        hreads reads]
  | blocked => exact List.prefix_refl _
  | sent => exact List.prefix_append ..
  | headerSent => exact List.prefix_append ..
  | responseSent event sending source byte last noData beside next =>
      rcases next with ⟨-, -, closed⟩ | ⟨q, r, -, -, hconn⟩
      · rw [closed.trace]
        exact List.prefix_append ..
      · rw [hconn]
        exact List.prefix_append ..

end Lightcache.Server
