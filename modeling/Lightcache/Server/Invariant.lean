import Lightcache.Server.Client

/-!
# The server between two events

`Sound` puts the store and all connections side by side: every block in use
belongs to one of them.  A client event keeps it, unless it removes an entry
that another connection still points to.
-/

namespace Lightcache.Server

open Lightcache Lightcache.Foundation Lightcache.Hashtab Heap

variable {σ : Type}

/-! ## What a command removes -/

/-- A command that is executed at `now` removes the entry `x`. -/
def Removes (h : Heap σ) (ht : Cache) (now : Int) (f : Fields)
    (x : Bytes × Option Addr) : Prop :=
  match f.command with
  | some .cmdFlushAll => True
  | some .cmdDelete => Clash ht.realsize x.1 f.key
  | some .cmdSet => f.data ≠ [] ∧ atoullValue f.extra ≠ none ∧
      Clash ht.realsize x.1 f.key
  | some .cmdGet => Clash ht.realsize x.1 f.key ∧ ∃ e, Holds h x.2 e ∧ Expired now e
  | _ => False

/-- The event lets the connection execute the command `f` of its request `q`. -/
structure Executes (H : Host σ) (c : Ctx σ) (env : Env) (c₁ : Ctx σ) (q : Addr)
    (r : Request) (f : Fields) : Prop where
  run : ∃ ret, readRequest H (touched c env) env.read = .ok (c₁, ret, true)
  inReq : c₁.conn.inReq = some q
  req : c₁.heap.reqs q = some r
  fields : c₁.heap.fields r = f

/-- The entry `x` is removed by the command that the event executes. -/
def Victim (H : Host σ) (c : Ctx σ) (env : Env) (x : Bytes × Option Addr) : Prop :=
  ∃ c₁ q r f, Executes H c env c₁ q r f ∧
    Removes (arrived c₁ q r env).heap c.cache (env.clock 1) f x

/-- No SET of the event is refused after it has been linked into the table. -/
def GrowsWell (H : Host σ) (c : Ctx σ) (env : Env) : Prop :=
  ∀ c₁ q r f, Executes H c env c₁ q r f →
    ¬ GrowthRefused H (arrived c₁ q r env).heap c.cache q f

theorem Outcome.removes {H : Host σ} {h : Heap σ} {ht : Cache} {set : Settings}
    {q : Addr} {now : Int} {f : Fields} {res : Result}
    (ho : Outcome H h ht set q now f res) {x : Bytes × Option Addr}
    (hx : x ∈ res.gone) : Removes h ht now f x := by
  cases ho with
  | getExpired cmd before clash holds expired =>
      obtain rfl := Multiset.mem_singleton.mp hx
      simp only [Removes, cmd]
      exact ⟨clash, _, holds, expired⟩
  | setOver cmd data valid before clash =>
      obtain rfl := Multiset.mem_singleton.mp hx
      simp only [Removes, cmd]
      exact ⟨data, by simp [valid], clash⟩
  | delete cmd before clash =>
      obtain rfl := Multiset.mem_singleton.mp hx
      simpa only [Removes, cmd] using clash
  | flushAll cmd => simp only [Removes, cmd]
  | _ => exact absurd hx (Multiset.notMem_zero x)

/-! ## One client event -/

def heldReqs (h : Heap σ) (conn : Conn) : Multiset Addr :=
  if Conn.client conn then connReqs h conn else 0

def heldBufs (h : Heap σ) (conn : Conn) : Multiset Addr :=
  if Conn.client conn then connBufs h conn else 0

/-- What a client event does to the cache, beside a frame. -/
structure Moved (H : Host σ) (c c' : Ctx σ) (gone new kept : Contents)
    (Q B W : Multiset Addr) : Prop where
  changed : Changed H c.heap c.cache c'.heap c'.cache gone new kept Q B
    (heldReqs c'.heap c'.conn + Q) (heldBufs c'.heap c'.conn + B) W
  client : Open c'.heap c'.cache c'.conn ∨ Idle c'.conn
  listening : c'.conn.listening = false

variable {H : Host σ} {c c' c₁ : Ctx σ} {q : Addr} {r : Request} {f : Fields}
  {Q B W : Multiset Addr} {ev : Event} {env : Env} {gone new kept : Contents}

theorem heldReqs_client {h : Heap σ} {conn : Conn} (hfree : conn.free = false)
    (hlisten : conn.listening = false) : heldReqs h conn = connReqs h conn := by
  simp [heldReqs, Conn.client, hfree, hlisten]

theorem heldBufs_client {h : Heap σ} {conn : Conn} (hfree : conn.free = false)
    (hlisten : conn.listening = false) : heldBufs h conn = connBufs h conn := by
  simp [heldBufs, Conn.client, hfree, hlisten]

theorem heldReqs_free {h : Heap σ} {conn : Conn} (hfree : conn.free = true) :
    heldReqs h conn = 0 := by
  simp [heldReqs, Conn.client, hfree]

theorem heldBufs_free {h : Heap σ} {conn : Conn} (hfree : conn.free = true) :
    heldBufs h conn = 0 := by
  simp [heldBufs, Conn.client, hfree]

theorem Beside.changed {Q' B' : Multiset Addr} (hb : Beside c c' Q B)
    (hs : Store H c'.heap c'.cache Q' B' W) :
    Changed H c.heap c.cache c'.heap c'.cache 0 0 c.cache.live Q B Q' B' W :=
  ⟨hs, by simp, by simp [hb.cache], hb.agree, fun _ hall => hb.cache ▸ hall⟩

theorem Beside.changed_after {Q' B' : Multiset Addr} (hb : Beside c c₁ Q B)
    (hc : Changed H c₁.heap c₁.cache c'.heap c'.cache gone new kept Q B Q' B' W) :
    Changed H c.heap c.cache c'.heap c'.cache gone new kept Q B Q' B' W := by
  have hbefore := hc.before
  have hkeyed := hc.keyed
  rw [hb.cache] at hbefore hkeyed
  have hfirst : Agree (cachedReqs kept + Q) (cachedBufs c.heap kept + B) c.heap
      c₁.heap := by
    have h := hb.agree
    rw [hbefore, cachedReqs_add, cachedBufs_add, add_assoc, add_assoc] at h
    exact h.mono (Multiset.le_add_left ..) (Multiset.le_add_left ..)
  refine ⟨hc.store, hbefore, hc.after, hfirst.trans ?_, hkeyed⟩
  rw [← cachedBufs_kept hfirst]
  exact hc.agree

theorem beside_arrived (hs : Serving H c.heap c.cache c.conn q r f Q B W) (env : Env) :
    Beside c (arrived c q r env) Q B := by
  have hq : q ∉ cachedReqs c.cache.live + Q := by
    have := hs.store.typed.reqs_nodup
    rw [Multiset.singleton_add, Multiset.add_cons, Multiset.nodup_cons] at this
    exact this.1
  exact ⟨rfl, rfl, agree_writeRequest hq⟩

/-- The connection after a command sends, and its request is its own or cached. -/
theorem Served.sending {conn : Conn} {h : Heap σ} {ht : Cache} {res : Result}
    (hs : Served H h ht conn c' q r f res Q B W) (hin : conn.inReq = some q)
    (hown : r.canFree = true) : Sending c'.heap c'.cache c'.conn := by
  refine ⟨hs.reply.interest, .inl hs.reply.state, q, ?_⟩
  have hin' : c'.conn.inReq = some q := by
    rw [hs.conn]
    exact hin
  by_cases hnew : res.new = 0
  · exact ⟨r, hin', hs.own hnew, fun hkept => by simp [hown] at hkept⟩
  · obtain ⟨x, hx⟩ := Multiset.exists_mem_of_ne_zero hnew
    obtain ⟨hval, q', r', hq', hc⟩ := hs.lent x hx
    obtain rfl : q = q' := Option.some.inj hq'
    refine ⟨r', hin', hc.req, fun _ => mem_cachedReqs.mpr ⟨x.1, ?_⟩⟩
    rw [hs.changed.after, ← hval]
    exact Multiset.mem_add.mpr (.inl hx)

theorem moved_of_closed {conn : Conn} (hs : Store H c'.heap c'.cache Q B W)
    (hb : Beside c c' Q B) (hclosed : Closed conn c'.conn)
    (hlisten : conn.listening = false) : Moved H c c' 0 0 c.cache.live Q B W := by
  refine ⟨hb.changed ?_, .inr ⟨hclosed.free, hclosed.state, hclosed.sdata⟩,
    hclosed.listening.trans hlisten⟩
  rwa [heldReqs_free hclosed.free, heldBufs_free hclosed.free, zero_add, zero_add]

/-- A connection that has kept its request, with nothing or a bare answer to send. -/
theorem moved_of_holding (hh : Holding H c' q r f Q B W) (hb : Beside c c' Q B)
    (hopen : Open c'.heap c'.cache c'.conn) (hout : outBufs c'.conn.out = 0)
    (hlisten : c'.conn.listening = false) : Moved H c c' 0 0 c.cache.live Q B W := by
  refine ⟨hb.changed ?_, .inl hopen, hlisten⟩
  rw [heldReqs_client hopen.free hlisten, heldBufs_client hopen.free hlisten,
    connReqs_own hh.inReq hh.req hh.own, connBufs_own hh.inReq hh.req hh.own, hout,
    add_zero]
  exact hh.store

theorem Holding.open (hh : Holding H c q r f Q B W) (hrd : Reading c.conn r f)
    (hfree : c.conn.free = false) : Open c.heap c.cache c.conn :=
  ⟨hfree, .inl ⟨q, r, f, hh.held, hrd⟩⟩

theorem reading_fresh (conn : Conn) (hr : r.rbytes = 0) (q : Addr) :
    Reading (fresh conn q) r (noFields r) := by
  refine ⟨rfl, rfl, fun fd => by cases fd <;> rfl, fun h => absurd rfl h, ?_⟩
  rw [hr]
  exact Nat.noConfusion

theorem Reads.same {mem : σ} {conn conn₁ : Conn} {res : ReadResult} {r₁ : Request}
    {f₁ : Fields} {ret : SocketState} {received : Bool}
    (h : Reads H mem conn r f res r₁ f₁ conn₁ ret received) :
    conn₁.free = conn.free ∧ conn₁.listening = conn.listening := by
  have hheard : (heard conn res).free = conn.free ∧
      (heard conn res).listening = conn.listening := by
    cases res <;> exact ⟨rfl, rfl⟩
  cases h <;> exact hheard

theorem held_congr {h : Heap σ} {conn conn' : Conn} (hin : conn'.inReq = conn.inReq)
    (hout : outBufs conn'.out = outBufs conn.out) :
    connReqs h conn' = connReqs h conn ∧ connBufs h conn' = connBufs h conn := by
  rw [connReqs, connReqs, connBufs, connBufs, hin, hout]
  exact ⟨rfl, rfl⟩

/-- A connection that goes on sending. -/
theorem moved_of_sending (hsend : Sending c.heap c.cache c.conn)
    (hs : Store H c.heap c.cache (connReqs c.heap c.conn + Q)
      (connBufs c.heap c.conn + B) W)
    (hc : c'.heap = c.heap ∧ c'.cache = c.cache ∧ c'.settings = c.settings)
    (hin : c'.conn.inReq = c.conn.inReq)
    (hout : outBufs c'.conn.out = outBufs c.conn.out)
    (hinterest : c'.conn.interest = c.conn.interest) (hstate : IsSending c'.conn)
    (hfree : c'.conn.free = false) (hlisten : c'.conn.listening = false) :
    Moved H c c' 0 0 c.cache.live Q B W := by
  obtain ⟨hheap, hcache, hsettings⟩ := hc
  obtain ⟨hreqs, hbufs⟩ := held_congr (h := c.heap) hin hout
  refine ⟨Beside.changed ⟨hcache, hsettings, hheap ▸ .refl ..⟩ ?_,
    .inl ⟨hfree, .inr ⟨hinterest.trans hsend.interest, hstate, ?_⟩⟩, hlisten⟩
  · rw [heldReqs_client hfree hlisten, heldBufs_client hfree hlisten, hheap, hcache,
      hreqs, hbufs]
    exact hs
  · rw [hheap, hcache, hin]
    exact hsend.request

/-- What any client event does to the cache and the frame. -/
theorem ClientStep.moved (h : ClientStep H c ev env Q B W c')
    (hfree : c.conn.free = false) (hlisten : c.conn.listening = false)
    (hgrow : ev = .read → GrowsWell H c env) :
    ∃ gone new kept, Moved H c c' gone new kept Q B W ∧
      ∀ x ∈ gone, ev = .read ∧ Victim H c env x := by
  have hquiet : ∀ {c'}, Moved H c c' 0 0 c.cache.live Q B W →
      ∃ gone new kept, Moved H c c' gone new kept Q B W ∧
        ∀ x ∈ gone, ev = .read ∧ Victim H c env x := fun hm =>
    ⟨0, 0, _, hm, by simp⟩
  cases h with
  | closed store beside closed =>
      exact hquiet (moved_of_closed store beside closed hlisten)
  | read event held reading reads open_ holding beside =>
      have hsame := reads.same
      have hfree' := hsame.1.trans hfree
      have hlisten' := hsame.2.trans hlisten
      rcases reads.elim (reading.touched env) with
        ⟨-, hret, -⟩ | ⟨-, -, hrd⟩ | ⟨-, -, code, hconn⟩ | ⟨hfalse, -⟩
      · exact absurd hret open_
      · exact hquiet (moved_of_holding holding beside (holding.open hrd hfree')
          (reading_outBufs hrd) hlisten')
      · refine hquiet (moved_of_holding holding beside ⟨hfree', .inr ?_⟩ ?_ hlisten')
        · refine ⟨by rw [hconn]; rfl, .inl (by rw [hconn]; rfl), _, _, holding.inReq,
            holding.req, fun hkept => ?_⟩
          rw [holding.own] at hkept
          cases hkept
        · rw [hconn]
          rfl
      · cases hfalse
  | @executed _ c₁ q r f r₁ f₁ ret event held reading run reads serving beside answered =>
      have hexec : Executes H c env c₁ q r₁ f₁ :=
        ⟨⟨ret, run⟩, serving.inReq, serving.req, serving.delivered.fields⟩
      have hgrow' : ¬ GrowthRefused H (arrived c₁ q r₁ env).heap c₁.cache q f₁ := by
        rw [beside.cache]
        exact hgrow event _ _ _ _ hexec
      obtain ⟨-, res, hout, hserved⟩ := answered.2 hgrow'
      have hfree' : c'.conn.free = false := by
        rw [hserved.conn]
        exact reads.same.1.trans hfree
      have hlisten' : c'.conn.listening = false := by
        rw [hserved.conn]
        exact reads.same.2.trans hlisten
      have hb := beside.trans (beside_arrived serving env)
      have hchanged := hb.changed_after hserved.changed
      refine ⟨res.gone, res.new, res.kept, ⟨?_, .inl ⟨hfree', .inr ?_⟩, hlisten'⟩,
        fun x hx => ⟨event, c₁, q, r₁, f₁, hexec, ?_⟩⟩
      · rw [heldReqs_client hfree' hlisten', heldBufs_client hfree' hlisten']
        exact hchanged
      · exact hserved.sending serving.inReq serving.own
      · rw [← beside.cache]
        exact hout.removes hx
  | blocked event sending store =>
      exact hquiet (moved_of_sending sending store ⟨rfl, rfl, rfl⟩ rfl rfl rfl
        sending.state hfree hlisten)
  | sent event sending store source byte more =>
      exact hquiet (moved_of_sending sending store ⟨rfl, rfl, rfl⟩ rfl rfl rfl
        sending.state hfree hlisten)
  | headerSent event sending store state byte last data =>
      exact hquiet (moved_of_sending sending store ⟨rfl, rfl, rfl⟩ rfl rfl rfl
        (.inr rfl) hfree hlisten)
  | responseSent event sending source byte last noData beside next =>
      rcases next with ⟨-, store, closed⟩ | ⟨q, r, holding, hr, hconn⟩
      · exact hquiet (moved_of_closed store beside closed hlisten)
      · have hrd : Reading c'.conn r (noFields r) := by
          rw [hconn]
          exact reading_fresh _ hr q
        have hfree' : c'.conn.free = false := by
          rw [hconn]
          exact hfree
        have hlisten' : c'.conn.listening = false := by
          rw [hconn]
          exact hlisten
        exact hquiet (moved_of_holding holding beside (holding.open hrd hfree')
          (reading_outBufs hrd) hlisten')

/-! ## The connections that an event leaves alone -/

/-- Another connection, whose blocks lie in the frame. -/
theorem Open.stays {conn : Conn} {h h' : Heap σ} {ht ht' : Cache} {Q' B' : Multiset Addr}
    (ho : Open h ht conn) (hc : Changed H h ht h' ht' gone new kept Q B Q' B' W)
    (hQ : connReqs h conn ≤ Q) (hB : connBufs h conn ≤ B)
    (hspared : ∀ q, conn.inReq = some q → ∀ x ∈ gone, x.2 ≠ some q) :
    Open h' ht' conn ∧ connReqs h' conn = connReqs h conn ∧
      connBufs h' conn = connBufs h conn := by
  have hreqs : ∀ q r, conn.inReq = some q → h.reqs q = some r →
      (r.canFree = false → q ∈ cachedReqs ht.live) →
      h'.reqs q = some r ∧ (r.canFree = false → q ∈ cachedReqs ht'.live) := by
    intro q r hin hr hlent
    cases hfree : r.canFree with
    | true =>
        rw [connReqs_own hin hr hfree] at hQ
        have hmem : q ∈ Q := Multiset.mem_of_le hQ (by simp)
        rw [hc.agree.reqs q (Multiset.mem_add.mpr (.inr hmem))]
        exact ⟨hr, by simp⟩
    | false =>
        have hcached := hlent hfree
        rw [hc.before, cachedReqs_add, Multiset.mem_add] at hcached
        have hkept : q ∈ cachedReqs kept := by
          refine hcached.resolve_left fun hgone => ?_
          obtain ⟨name, hx⟩ := mem_cachedReqs.mp hgone
          exact hspared q hin _ hx rfl
        rw [hc.agree.reqs q (Multiset.mem_add.mpr (.inl hkept)), hc.after, cachedReqs_add]
        exact ⟨hr, fun _ => Multiset.mem_add.mpr (.inr hkept)⟩
  have hsame : ∀ q r, conn.inReq = some q → h.reqs q = some r → h'.reqs q = some r →
      connReqs h' conn = connReqs h conn ∧ connBufs h' conn = connBufs h conn := by
    intro q r hin hr hr'
    rw [connReqs, connReqs, connBufs, connBufs, ownRequest, ownRequest, hin]
    simp [hr, hr']
  rcases ho.phase with ⟨q, r, f, hd, hrd⟩ | hsend
  · obtain ⟨hr', -⟩ := hreqs q r hd.inReq hd.req (by simp [hd.own])
    refine ⟨⟨ho.free, .inl ⟨q, r, f, ⟨hd.inReq, hr', hd.own, hd.header, hd.opcode,
      fun fd => ?_⟩, hrd⟩⟩, hsame q r hd.inReq hd.req hr'⟩
    rcases hd.fields fd with hnone | ⟨a, ha, hbuf, hrest⟩
    · exact .inl hnone
    · rw [connBufs_own hd.inReq hd.req hd.own] at hB
      have hmem : a ∈ B := Multiset.mem_of_le hB (Multiset.mem_add.mpr
        (.inl (Field.mem_buffers ha)))
      refine .inr ⟨a, ha, ?_, hrest⟩
      rw [hc.agree.bufs a (Multiset.mem_add.mpr (.inr hmem))]
      exact hbuf
  · obtain ⟨q, r, hin, hr, hlent⟩ := hsend.request
    obtain ⟨hr', hlent'⟩ := hreqs q r hin hr hlent
    exact ⟨⟨ho.free, .inr ⟨hsend.interest, hsend.state, q, r, hin, hr', hlent'⟩⟩,
      hsame q r hin hr hr'⟩

/-! ## The invariant of the server -/

namespace State

/-- The other structures in the connection list. -/
def others (s : State σ) (a : Addr) : Multiset Addr :=
  (s.conns : Multiset Addr).erase a

/-- What the connections in `L` own. -/
def reqsOf (s : State σ) (L : Multiset Addr) : Multiset Addr :=
  L.bind fun a => heldReqs s.heap (s.conn a)

def bufsOf (s : State σ) (L : Multiset Addr) : Multiset Addr :=
  L.bind fun a => heldBufs s.heap (s.conn a)

end State

structure Sound (H : Host σ) (s : State σ) : Prop where
  store : Store H s.heap s.cache (s.reqsOf ↑s.conns) (s.bufsOf ↑s.conns) ↑s.conns
  clients : ∀ a ∈ s.conns, Conn.client (s.conn a) = true →
    Open s.heap s.cache (s.conn a)
  idle : ∀ a ∈ s.conns, (s.conn a).free = true →
    Idle (s.conn a) ∧ (s.conn a).listening = false
  poll : ∀ a ∈ s.conns, (s.conn a).listening = true →
    (s.conn a).interest = some .read

section Server

variable {s s' : State σ} {a b : Addr}

theorem Sound.nodup (hs : Sound H s) : (s.conns : Multiset Addr).Nodup := by
  have := hs.store.typed.owns.nodup
  exact (Multiset.nodup_add.mp (Multiset.nodup_add.mp this).2.1).2.1

theorem mem_others (hnodup : (s.conns : Multiset Addr).Nodup) :
    b ∈ s.others a ↔ b ≠ a ∧ b ∈ s.conns := by
  rw [State.others, hnodup.mem_erase_iff]
  exact Iff.rfl

/-- The view that a connection `a` has of the server. -/
theorem Sound.split (hs : Sound H s) (ha : a ∈ s.conns) :
    Store H s.heap s.cache
      (heldReqs s.heap (s.conn a) + s.reqsOf (s.others a))
      (heldBufs s.heap (s.conn a) + s.bufsOf (s.others a)) ↑s.conns := by
  have hcons : a ::ₘ s.others a = (s.conns : Multiset Addr) :=
    Multiset.cons_erase (Multiset.mem_coe.mpr ha)
  have hstore := hs.store
  rw [← hcons, State.reqsOf, State.bufsOf, Multiset.cons_bind, Multiset.cons_bind, hcons]
    at hstore
  exact hstore

theorem le_reqsOf {L : Multiset Addr} (hb : b ∈ L) :
    heldReqs s.heap (s.conn b) ≤ s.reqsOf L := by
  obtain ⟨L', rfl⟩ := Multiset.exists_cons_of_mem hb
  rw [State.reqsOf, Multiset.cons_bind]
  exact Multiset.le_add_right ..

theorem le_bufsOf {L : Multiset Addr} (hb : b ∈ L) :
    heldBufs s.heap (s.conn b) ≤ s.bufsOf L := by
  obtain ⟨L', rfl⟩ := Multiset.exists_cons_of_mem hb
  rw [State.bufsOf, Multiset.cons_bind]
  exact Multiset.le_add_right ..

theorem sound_of_split (ha : a ∈ s.conns)
    (hstore : Store H s.heap s.cache
      (heldReqs s.heap (s.conn a) + s.reqsOf (s.others a))
      (heldBufs s.heap (s.conn a) + s.bufsOf (s.others a)) ↑s.conns)
    (hclients : ∀ b ∈ s.conns, Conn.client (s.conn b) = true →
      Open s.heap s.cache (s.conn b))
    (hidle : ∀ b ∈ s.conns, (s.conn b).free = true →
      Idle (s.conn b) ∧ (s.conn b).listening = false)
    (hpoll : ∀ b ∈ s.conns, (s.conn b).listening = true →
      (s.conn b).interest = some .read) : Sound H s := by
  have hcons : a ::ₘ s.others a = (s.conns : Multiset Addr) :=
    Multiset.cons_erase (Multiset.mem_coe.mpr ha)
  refine ⟨?_, hclients, hidle, hpoll⟩
  rw [← hcons, State.reqsOf, State.bufsOf, Multiset.cons_bind, Multiset.cons_bind, hcons]
  exact hstore

/-- No other connection points to a request that goes. -/
def Spared (s : State σ) (a : Addr) (gone : Contents) : Prop :=
  ∀ b ∈ s.conns, b ≠ a → Conn.client (s.conn b) = true →
    ∀ q, (s.conn b).inReq = some q → ∀ x ∈ gone, x.2 ≠ some q

theorem Sound.stay (hs : Sound H s) {h' : Heap σ} {ht' : Cache} {Q' B' : Multiset Addr}
    (hc : Changed H s.heap s.cache h' ht' gone new kept (s.reqsOf (s.others a))
      (s.bufsOf (s.others a)) Q' B' W) (hspared : Spared s a gone)
    (hb : b ∈ s.conns) (hne : b ≠ a) :
    heldReqs h' (s.conn b) = heldReqs s.heap (s.conn b) ∧
      heldBufs h' (s.conn b) = heldBufs s.heap (s.conn b) ∧
      (Conn.client (s.conn b) = true → Open h' ht' (s.conn b)) := by
  cases hclient : Conn.client (s.conn b) with
  | false => simp [heldReqs, heldBufs, hclient]
  | true =>
      have hmem : b ∈ s.others a := (mem_others hs.nodup).mpr ⟨hne, hb⟩
      have hQ := le_reqsOf (s := s) hmem
      have hB := le_bufsOf (s := s) hmem
      simp only [heldReqs, heldBufs, hclient, if_true] at hQ hB ⊢
      obtain ⟨hopen, hreqs, hbufs⟩ := (hs.clients b hb hclient).stays hc hQ hB
        (hspared b hb hne hclient)
      exact ⟨hreqs, hbufs, fun _ => hopen⟩

/-- The server after the connection at `a` has been served. -/
theorem Sound.put (hs : Sound H s) (ha : a ∈ s.conns)
    (hm : Moved H (s.ctx a) c' gone new kept (s.reqsOf (s.others a))
      (s.bufsOf (s.others a)) ↑s.conns) (hspared : Spared s a gone) :
    Sound H (s.put a c') := by
  have hstay := fun b (hb : b ∈ s.conns) (hne : b ≠ a) =>
    hs.stay hm.changed hspared hb hne
  have hself : (s.put a c').conn a = c'.conn := Function.update_self ..
  have hother : ∀ b, b ≠ a → (s.put a c').conn b = s.conn b := fun b hne =>
    Function.update_of_ne hne ..
  refine sound_of_split (a := a) ha ?_ ?_ ?_ ?_
  · have hreqs : (s.put a c').reqsOf ((s.put a c').others a) = s.reqsOf (s.others a) :=
      Multiset.bind_congr fun b hb => by
        obtain ⟨hne, hmem⟩ := (mem_others hs.nodup).mp hb
        rw [hother b hne]
        exact (hstay b hmem hne).1
    have hbufs : (s.put a c').bufsOf ((s.put a c').others a) = s.bufsOf (s.others a) :=
      Multiset.bind_congr fun b hb => by
        obtain ⟨hne, hmem⟩ := (mem_others hs.nodup).mp hb
        rw [hother b hne]
        exact (hstay b hmem hne).2.1
    rw [hreqs, hbufs, hself]
    exact hm.changed.store
  · intro b hb hclient
    by_cases hne : b = a
    · subst hne
      rw [hself] at hclient ⊢
      refine hm.client.resolve_right fun hidle => ?_
      simp [Conn.client, hidle.free] at hclient
    · rw [hother b hne] at hclient ⊢
      exact (hstay b hb hne).2.2 hclient
  · intro b hb hfree
    by_cases hne : b = a
    · subst hne
      rw [hself] at hfree ⊢
      refine ⟨hm.client.resolve_left fun hopen => ?_, hm.listening⟩
      rw [hopen.free] at hfree
      cases hfree
    · rw [hother b hne] at hfree ⊢
      exact hs.idle b hb hfree
  · intro b hb hlisten
    by_cases hne : b = a
    · subst hne
      rw [hself, hm.listening] at hlisten
      cases hlisten
    · rw [hother b hne] at hlisten ⊢
      exact hs.poll b hb hlisten

end Server

end Lightcache.Server
