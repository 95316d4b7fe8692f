import Lightcache.Server.Effects
import Lightcache.Server.Sender

/-!
# One event on a connection to a client

`Open` is what holds of a connection between two events.  `ClientStep` lists
what one event can do to it; everything else that is said about events is
derived from this list.
-/

namespace Lightcache.Server

open Lightcache Lightcache.Foundation Lightcache.Hashtab Heap

variable {σ : Type}

/-! ## What the server keeps of a client -/

/-- The request of a connection that is reading it. -/
structure Held (h : Heap σ) (conn : Conn) (q : Addr) (r : Request) (f : Fields) :
    Prop where
  inReq : conn.inReq = some q
  req : h.reqs q = some r
  own : r.canFree = true
  header : r.header.length = sizeofReqHeader
  opcode : f.opcode = r.opcode
  fields : ∀ fd : Field, FieldIs h (fd.ptr r) (fd.length r) (fd.get f)

/-- A connection that sends; its request may belong to the cache by now. -/
structure Sending (h : Heap σ) (ht : Cache) (conn : Conn) : Prop where
  interest : conn.interest = some .write
  state : IsSending conn
  request : ∃ q r, conn.inReq = some q ∧ h.reqs q = some r ∧
    (r.canFree = false → q ∈ cachedReqs ht.live)

/-- A connection to a client that is in use. -/
structure Open (h : Heap σ) (ht : Cache) (conn : Conn) : Prop where
  free : conn.free = false
  phase : (∃ q r f, Held h conn q r f ∧ Reading conn r f) ∨ Sending h ht conn

/-! ## The list of events -/

/-- The time of the event has been noted. -/
def touched (c : Ctx σ) (env : Env) : Ctx σ :=
  c.withConn fun conn => { conn with lastHeard := env.clock 0 }

/-- What an event does to an open connection. -/
inductive ClientStep (H : Host σ) (c : Ctx σ) (ev : Event) (env : Env)
    (Q B W : Multiset Addr) : Ctx σ → Prop
  | closed {c'} (store : Store H c'.heap c'.cache Q B W) (beside : Beside c c' Q B)
      (closed : Closed c.conn c'.conn) : ClientStep H c ev env Q B W c'
  | read {c' q r f r₁ f₁ ret} (event : ev = .read) (held : Held c.heap c.conn q r f)
      (reading : Reading c.conn r f)
      (reads : Reads H c.heap.mem (touched c env).conn r f env.read r₁ f₁ c'.conn ret false)
      (open_ : ret ≠ .readErr) (holding : Holding H c' q r₁ f₁ Q B W)
      (beside : Beside c c' Q B) : ClientStep H c ev env Q B W c'
  | executed {c' c₁ q r f r₁ f₁ ret} (event : ev = .read)
      (held : Held c.heap c.conn q r f) (reading : Reading c.conn r f)
      (run : readRequest H (touched c env) env.read = .ok (c₁, ret, true))
      (reads : Reads H c.heap.mem (touched c env).conn r f env.read r₁ f₁ c₁.conn ret true)
      (serving : Serving H c₁.heap c₁.cache c₁.conn q r₁ f₁ Q B W)
      (beside : Beside c c₁ Q B)
      (answered : Answered H (arrived c₁ q r₁ env).heap c₁.cache c₁.settings
        (arrived c₁ q r₁ env).conn q { r₁ with received := env.clock 1 } f₁ Q B W c') :
      ClientStep H c ev env Q B W c'
  | blocked (event : ev = .write) (sending : Sending c.heap c.cache c.conn)
      (store : Store H c.heap c.cache (connReqs c.heap c.conn + Q)
        (connBufs c.heap c.conn + B) W) :
      ClientStep H c ev env Q B W (touched c env)
  | sent {src b} (event : ev = .write) (sending : Sending c.heap c.cache c.conn)
      (store : Store H c.heap c.cache (connReqs c.heap c.conn + Q)
        (connBufs c.heap c.conn + B) W)
      (source : (outgoing c).1 = .ok src) (byte : src[c.conn.out.sbytes]? = some b)
      (more : c.conn.out.sbytes + 1 ≠ (outgoing c).2) :
      ClientStep H c ev env Q B W (wrote (touched c env) b (c.conn.out.sbytes + 1))
  | headerSent {b} (event : ev = .write) (sending : Sending c.heap c.cache c.conn)
      (store : Store H c.heap c.cache (connReqs c.heap c.conn + Q)
        (connBufs c.heap c.conn + B) W)
      (state : c.conn.state = .sendHeader)
      (byte : c.conn.out.header[c.conn.out.sbytes]? = some b)
      (last : c.conn.out.sbytes + 1 = sizeofRespHeader)
      (data : c.conn.out.dataLength % 2 ^ 32 ≠ 0) :
      ClientStep H c ev env Q B W ((wrote (touched c env) b 0).withConn
        fun conn => { conn with state := .sendData })
  | responseSent {c' src b} (event : ev = .write)
      (sending : Sending c.heap c.cache c.conn)
      (source : (outgoing c).1 = .ok src) (byte : src[c.conn.out.sbytes]? = some b)
      (last : c.conn.out.sbytes + 1 = (outgoing c).2)
      (noData : c.conn.state = .sendHeader → c.conn.out.dataLength % 2 ^ 32 = 0)
      (beside : Beside c c' Q B)
      (next : (¬ H.alloc.NeverFails ∧ Store H c'.heap c'.cache Q B W ∧
          Closed (wrote (touched c env) b 0).conn c'.conn) ∨
        ∃ q r, Holding H c' q r (noFields r) Q B W ∧ r.rbytes = 0 ∧
          c'.conn = fresh { (wrote (touched c env) b 0).conn with
            state := .cmdSent } q) :
      ClientStep H c ev env Q B W c'

/-- How an event can fail. -/
inductive ClientFault (H : Host σ) (c : Ctx σ) (env : Env) : Fault → Prop
  | index {q r f} (held : Held c.heap c.conn q r f) (reading : Reading c.conn r f)
      (beyond : total r (target c.conn.state) < r.rbytes) :
      ClientFault H c env .outOfBounds
  | command {c₁ ret f e}
      (run : readRequest H (touched c env) env.read = .ok (c₁, ret, true))
      (fault : CommandFault c.cache f e) : ClientFault H c env e
  | send {e} (sending : Sending c.heap c.cache c.conn)
      (source : (outgoing c).1 = .error e) (fault : SendFault e) :
      ClientFault H c env e
  | beyond {src} (sending : Sending c.heap c.cache c.conn)
      (source : (outgoing c).1 = .ok src) (byte : src[c.conn.out.sbytes]? = none) :
      ClientFault H c env .outOfBounds

variable {H : Host σ} {c c' : Ctx σ} {q : Addr} {r : Request} {f : Fields}
  {Q B W : Multiset Addr} {ev : Event} {env : Env}

theorem Holding.held (hh : Holding H c q r f Q B W) : Held c.heap c.conn q r f :=
  ⟨hh.inReq, hh.req, hh.own, hh.header, hh.opcode, hh.fields⟩

theorem Held.holding (hd : Held c.heap c.conn q r f)
    (hs : Store H c.heap c.cache ({q} + Q) (r.buffers + B) W) :
    Holding H c q r f Q B W :=
  ⟨hs, hd.inReq, hd.req, hd.own, hd.header, hd.opcode, hd.fields⟩

theorem Open.keeping (ho : Open c.heap c.cache c.conn)
    (hs : Store H c.heap c.cache (connReqs c.heap c.conn + Q)
      (connBufs c.heap c.conn + B) W) : Keeping H c Q B W := by
  refine ⟨hs, fun q hin => ?_⟩
  rcases ho.phase with ⟨q', r, f, hheld, -⟩ | hsend
  · obtain rfl : q = q' := Option.some.inj (hin.symm.trans hheld.inReq)
    exact ⟨r, hheld.req⟩
  · obtain ⟨q', r, hin', hr, -⟩ := hsend.request
    obtain rfl : q = q' := Option.some.inj (hin.symm.trans hin')
    exact ⟨r, hr⟩

theorem reading_outBufs (hrd : Reading c.conn r f) : outBufs c.conn.out = 0 := by
  simp [outBufs, hrd.sdata]

theorem Held.store (hd : Held c.heap c.conn q r f) (hrd : Reading c.conn r f)
    (hs : Store H c.heap c.cache (connReqs c.heap c.conn + Q)
      (connBufs c.heap c.conn + B) W) :
    Store H c.heap c.cache ({q} + Q) (r.buffers + B) W := by
  rw [connReqs_own hd.inReq hd.req hd.own, connBufs_own hd.inReq hd.req hd.own,
    reading_outBufs hrd, add_zero] at hs
  exact hs

/-- A connection that has received a whole request. -/
theorem Holding.serving {conn : Conn} (hh : Holding H c q r f Q B W)
    (hkey : f.key = [] → r.keyLength = 0) (hdata : f.data ≠ [] → f.key ≠ [])
    (hextra : f.extra ≠ [] → f.data ≠ []) (hsmall : r.dataLength < protocolMaxDataSize)
    (hconn : c.conn = conn) : Serving H c.heap c.cache conn q r f Q B W :=
  ⟨hh.store, hconn ▸ hh.inReq, hh.req, hh.own, hh.opcode, hh.fields .key,
    hh.fields .data, hh.fields .extra, hkey, hdata, hextra, hsmall⟩

/-! ## Reading -/

theorem Holding.touched (hh : Holding H c q r f Q B W) (env : Env) :
    Holding H (touched c env) q r f Q B W :=
  ⟨hh.store, hh.inReq, hh.req, hh.own, hh.header, hh.opcode, hh.fields⟩

theorem Reading.touched (hrd : Reading c.conn r f) (env : Env) :
    Reading (touched c env).conn r f :=
  ⟨hrd.interest, hrd.sdata, hrd.shape, hrd.small, hrd.rbytes⟩

theorem beside_touched : Beside c (touched c env) Q B :=
  ⟨rfl, rfl, .refl ..⟩

/-- An event that a connection in one of the reading states is waiting for. -/
theorem readClient_post (hd : Held c.heap c.conn q r f) (hrd : Reading c.conn r f)
    (hs : Store H c.heap c.cache ({q} + Q) (r.buffers + B) W) :
    Post (handleClient H c .read env) (ClientStep H c .read env Q B W)
      (ClientFault H c env) := by
  have hopen : c.conn.state ≠ .connClosed := fun h => by
    have := hrd.shape
    rw [h] at this
    exact this
  have hread := ((hd.holding hs).touched env).readRequest (hrd.touched env) env.read
  rw [handleClient, if_neg hopen]
  dsimp only
  change Post (tryReadRequest H (Server.touched c env) env >>= _) _ _
  rw [tryReadRequest]
  cases hrun : readRequest H (Server.touched c env) env.read with
  | error e =>
      rw [hrun] at hread
      obtain ⟨rfl, hlt⟩ := hread
      exact .index hd hrd hlt
  | ok x =>
      obtain ⟨c₁, ret, received⟩ := x
      rw [hrun] at hread
      obtain ⟨r₁, f₁, hreads, hh₁, hb₁⟩ := hread
      have hb : Beside c c₁ Q B := beside_touched.trans hb₁
      rw [ok_bind]
      dsimp only at hreads hh₁ ⊢
      rcases hreads.elim (hrd.touched env) with
        ⟨rfl, rfl, hconn⟩ | ⟨rfl, hret, -⟩ | ⟨rfl, hret, -⟩ |
          ⟨rfl, hret, hconn, hkey, hdata, hextra, hsmall⟩
      · -- the client has closed the connection
        obtain ⟨c', hc', hs', hb', hclosed⟩ := Keeping.disconnect
          (H := H) (c := c₁) (Q := Q) (B := B) (W := W) ⟨by
            have hout : outBufs c₁.conn.out = 0 := by
              rw [hconn]
              exact reading_outBufs (hrd.touched env)
            rw [connReqs_own hh₁.inReq hh₁.req hh₁.own,
              connBufs_own hh₁.inReq hh₁.req hh₁.own, hout, add_zero]
            exact hh₁.store, fun q' hin => by
            obtain rfl : q' = q := Option.some.inj (hin.symm.trans hh₁.inReq)
            exact ⟨_, hh₁.req⟩⟩
        change Post (disconnectConn H c₁) _ _
        rw [hc']
        refine .closed hs' (hb.trans hb') ?_
        exact ⟨hclosed.free, hclosed.state, hclosed.sdata, hclosed.interest,
          hclosed.listening.trans (by rw [hconn]; rfl),
          hclosed.trace.trans (by rw [hconn]; rfl)⟩
      · change Post (if ret = .readErr then disconnectConn H c₁ else .ok c₁) _ _
        rw [if_neg hret]
        exact .read rfl hd hrd hreads hret hh₁ hb
      · change Post (if ret = .readErr then disconnectConn H c₁ else .ok c₁) _ _
        rw [if_neg hret]
        exact .read rfl hd hrd hreads hret hh₁ hb
      · have hserving := hh₁.serving hkey hdata hextra hsmall rfl
        have hexec := executeCmd_post hserving (by rw [hconn]) env
        rw [if_pos rfl, bind_assoc]
        refine (hexec.mono (fun _ h => h) fun e he => ?_).bind fun c' hc' => ?_
        · rw [hb.cache] at he
          exact .command hrun he
        · change Post (if ret = .readErr then disconnectConn H c' else .ok c') _ _
          rw [if_neg hret]
          exact .executed rfl hd hrd hrun hreads hserving hb hc'

/-! ## Sending -/

/-- The connection keeps what it owns while it sends. -/
theorem Keeping.wrote (hk : Keeping H c Q B W) (b : UInt8) (n : Nat) :
    Keeping H (wrote (touched c env) b n) Q B W :=
  ⟨hk.store, hk.inReq⟩

theorem sendClient_post (hsend : Sending c.heap c.cache c.conn)
    (hk : Keeping H c Q B W) :
    Post (handleClient H c .write env) (ClientStep H c .write env Q B W)
      (ClientFault H c env) := by
  have hopen : c.conn.state ≠ .connClosed := fun h => by
    rcases hsend.state with hstate | hstate <;> rw [h] at hstate <;> cases hstate
  have hstate : IsSending (touched c env).conn := hsend.state
  rw [handleClient, if_neg hopen]
  dsimp only
  change Post (trySendResponse H (Server.touched c env) env.write >>= _) _ _
  cases hwrite : env.write with
  | wouldBlock =>
      rw [trySendResponse_blocked hstate]
      exact .blocked rfl hsend hk.store
  | error =>
      obtain ⟨c', hc', hs', hb', hclosed⟩ := Keeping.disconnect
        (c := touched c env) ⟨hk.store, hk.inReq⟩
      rw [trySendResponse_failed hstate, ok_bind]
      change Post (disconnectConn H (touched c env)) _ _
      rw [hc']
      exact .closed hs' (beside_touched.trans hb') ⟨hclosed.free, hclosed.state,
        hclosed.sdata, hclosed.interest, hclosed.listening, hclosed.trace⟩
  | sent =>
      have hsource := outgoing_post (touched c env)
      rw [trySendResponse_sent hstate]
      cases hout : (outgoing (touched c env)).1 with
      | error e =>
          rw [hout] at hsource
          exact .send hsend hout hsource
      | ok src =>
          rw [ok_bind, sendByte]
          cases hbyte : src[(touched c env).conn.out.sbytes]? with
          | none => exact .beyond hsend hout hbyte
          | some b =>
              dsimp only
              by_cases hlast : (touched c env).conn.out.sbytes + 1 =
                  (outgoing (touched c env)).2
              · rw [if_pos hlast, partSent]
                by_cases hmore : (wrote (touched c env) b 0).conn.state = .sendHeader ∧
                    (wrote (touched c env) b 0).conn.out.dataLength % 2 ^ 32 ≠ 0
                · rw [if_pos hmore]
                  have hheader : c.conn.state = .sendHeader := hmore.1
                  have hparts : outgoing (touched c env) =
                      (.ok c.conn.out.header, sizeofRespHeader) := by
                    rw [outgoing, show (touched c env).conn.state = .sendHeader from hmore.1]
                    rfl
                  rw [hparts] at hout hlast
                  obtain rfl : c.conn.out.header = src := Except.ok.inj hout
                  exact .headerSent rfl hsend hk.store hheader hbyte hlast hmore.2
                · rw [if_neg hmore]
                  have hk' : Keeping H ((wrote (touched c env) b 0).withConn
                      fun conn => { conn with state := .cmdSent }) Q B W :=
                    ⟨hk.store, hk.inReq⟩
                  obtain ⟨c', hc', hb', hnext⟩ := hk'.setReadHeader
                  rw [nextRequest, hc', ok_bind]
                  have hfirst : Beside c ((wrote (touched c env) b 0).withConn
                      fun conn => { conn with state := .cmdSent }) Q B :=
                    ⟨rfl, rfl, .refl ..⟩
                  refine .responseSent rfl hsend hout hbyte hlast (fun h => ?_)
                    (hfirst.trans hb') ?_
                  · by_contra hne
                    exact hmore ⟨h, hne⟩
                  · refine hnext.imp_left ?_
                    rintro ⟨hfails, hs', hclosed⟩
                    exact ⟨hfails, hs', hclosed.free, hclosed.state, hclosed.sdata,
                      hclosed.interest, hclosed.listening, hclosed.trace⟩
              · rw [if_neg hlast]
                exact .sent rfl hsend hk.store hout hbyte hlast

/-- One event on an open connection, whatever the bytes and the allocator. -/
theorem handleClient_post (ho : Open c.heap c.cache c.conn)
    (hs : Store H c.heap c.cache (connReqs c.heap c.conn + Q)
      (connBufs c.heap c.conn + B) W) (hev : c.conn.interest = some ev) (env : Env) :
    Post (handleClient H c ev env) (ClientStep H c ev env Q B W)
      (ClientFault H c env) := by
  rcases ho.phase with ⟨q, r, f, hd, hrd⟩ | hsend
  · obtain rfl : ev = .read := Option.some.inj (hev.symm.trans hrd.interest)
    exact readClient_post hd hrd (hd.store hrd hs)
  · obtain rfl : ev = .write := Option.some.inj (hev.symm.trans hsend.interest)
    exact sendClient_post hsend (ho.keeping hs)

end Lightcache.Server
