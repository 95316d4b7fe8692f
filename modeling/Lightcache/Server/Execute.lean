import Lightcache.Server.Outcome

/-!
# `execute_cmd` has the outcomes of its specification

One lemma for each command, for every allocator, and what they say together
about `execute_cmd`: it faults on a missing field or on a missing key buffer of
the table, hands out a request the cache already refers to when a growth fails,
and does what `Outcome` says in every other case.
-/

namespace Lightcache.Server

open Lightcache Lightcache.Foundation Lightcache.Hashtab Heap

variable {σ : Type} {H : Host σ} {c c' : Ctx σ} {h : Heap σ} {ht : Cache}
  {conn : Conn} {q : Addr} {r : Request} {f : Fields} {Q B W : Multiset Addr}
  {gone kept : Contents} {code : Code} {data : Option Addr} {n : Nat}
  {payload : Bytes}

/-! ## Queueing a response -/

/-- The connection after `add_response`. -/
def queued (conn : Conn) (opcode : UInt8) (data : Option Addr) (n : Nat)
    (code : Code) (canFree : Bool) : Conn :=
  { conn with
    out := { conn.out with
      dataLength := n, opcode := opcode, retcode := code.toByte, sdata := data,
      canFree := canFree, sbytes := 0 }
    interest := some .write
    state := .sendHeader }

theorem addResponse_eq (hin : c.conn.inReq = some q) (hr : c.heap.reqs q = some r)
    (data : Option Addr) (n : Nat) (code : Code) :
    addResponse c data n code =
      .ok { c with conn := queued c.conn r.opcode data n code true } := by
  rw [addResponse, Ctx.readIn, hin]
  dsimp only
  rw [readRequest_eq hr]
  rfl

theorem sendResponse_eq (hin : c.conn.inReq = some q) (hr : c.heap.reqs q = some r)
    (code : Code) : sendResponse c code =
      .ok { c with conn := queued c.conn r.opcode none 0 code true } :=
  addResponse_eq hin hr none 0 code

/-- An answer while the connection keeps its request. -/
theorem served_keep (data : Option Addr) (owned : Bool)
    (hs : Serving H h ht conn q r f Q B W)
    (hconn : c'.conn = queued conn r.opcode data payload.length code owned)
    (hr : c'.heap.reqs q = some r)
    (hchanged : Changed H h ht c'.heap c'.cache gone 0 kept Q B
      ({q} + Q) (r.buffers + ((if owned then ptrBlocks data else 0) + B)) W)
    (hsmall : payload.length < 2 ^ 32)
    (hpayload : payload ≠ [] → ∃ a bytes, data = some a ∧
      c'.heap.bufs a = some bytes ∧ payload <+: bytes)
    (hshared : owned = false → ∃ x ∈ kept, ∃ q₀ r₀,
      x.2 = some q₀ ∧ c'.heap.reqs q₀ = some r₀ ∧ data = r₀.rdata) :
    Served H h ht conn c' q r f ⟨gone, 0, kept, c'.settings, code, payload⟩ Q B W := by
  have hin : c'.conn.inReq = some q := by
    rw [hconn]
    exact hs.inReq
  have hout : outBufs c'.conn.out = if owned then ptrBlocks data else 0 := by
    rw [hconn]
    rfl
  refine ⟨?_, rfl, ?_, by rw [hconn]; rfl, fun _ => hr, by simp, ?_⟩
  · rw [connReqs_own hin hr hs.own, connBufs_own hin hr hs.own, hout, add_assoc]
    exact hchanged
  · refine ⟨?_, ?_, ?_, ?_, ?_, ?_, hsmall, ?_⟩ <;> rw [hconn]
    · rfl
    · rfl
    · rfl
    · exact hs.delivered.opcode.symm
    · rfl
    · rfl
    · exact hpayload
  · rw [hconn]
    exact hshared

/-- A bare answer. -/
theorem served_send (hs : Serving H h ht conn q r f Q B W) (hconn : c.conn = conn)
    (hr : c.heap.reqs q = some r)
    (hchanged : Changed H h ht c.heap c.cache gone 0 kept Q B ({q} + Q)
      (r.buffers + B) W) (code : Code) :
    ∃ c', sendResponse c code = .ok c' ∧
      Served H h ht conn c' q r f ⟨gone, 0, kept, c.settings, code, []⟩ Q B W := by
  refine ⟨_, sendResponse_eq (hconn ▸ hs.inReq) hr code,
    served_keep none true hs ?_ hr ?_ (by simp) (by simp)
      (by simp)⟩
  · rw [hconn]
    rfl
  · simpa using hchanged

/-- Nothing has happened to the cache yet. -/
theorem Serving.changed_refl (hs : Serving H h ht conn q r f Q B W) :
    Changed H h ht h ht 0 0 ht.live Q B ({q} + Q) (r.buffers + B) W :=
  ⟨hs.store, by simp, by simp, .refl .., fun _ => id⟩

/-- An answer without any effect on the cache. -/
theorem Serving.refuse (hs : Serving H c.heap c.cache c.conn q r f Q B W)
    (code : Code) :
    ∃ c', sendResponse c code = .ok c' ∧ Served H c.heap c.cache c.conn c' q r f
      (unchanged c.cache c.settings code []) Q B W :=
  served_send hs rfl hs.req hs.changed_refl code

/-- An allocation on behalf of the connection changes nothing for the cache. -/
theorem Store.mallocBytes (hs : Store H h ht Q B W)
    (hn : 0 < n) :
    match h.mallocBytes H n with
    | (none, h') => Store H h' ht Q B W ∧ ¬ H.alloc.NeverFails ∧
        Agree (cachedReqs ht.live + Q) (cachedBufs h ht.live + B) h h'
    | (some a, h') => Store H h' ht Q ({a} + B) W ∧
        h'.bufs a = some (h.newBlock H a n) ∧
        Agree (cachedReqs ht.live + Q) (cachedBufs h ht.live + B) h h' := by
  have hm := hs.typed.mallocBytes hn
  rcases hrun : h.mallocBytes H n with ⟨_ | a, h'⟩
  · rw [hrun] at hm
    obtain ⟨ht', hagree, hA⟩ := hm
    exact ⟨hs.frame ht' (hagree.mono (Multiset.le_add_right ..)
      (Multiset.le_add_right ..)), hA, hagree⟩
  · rw [hrun] at hm
    obtain ⟨ht', hagree, hbuf⟩ := hm
    refine ⟨hs.frame (ht'.congr rfl (by abel) rfl) (hagree.mono
      (Multiset.le_add_right ..) (Multiset.le_add_right ..)), hbuf, hagree⟩

/-! ## Looking up the key -/

theorem FieldIs.load {h : Heap σ} {p : Option Addr} {bytes : Bytes}
    (hf : FieldIs h p n bytes) :
    h.load p = .ok (if bytes = [] then none else some (bytes ++ [0])) := by
  rcases hf with ⟨rfl, rfl⟩ | ⟨a, rfl, hbuf, -, hne⟩
  · rfl
  · rw [load_eq hbuf, if_neg hne]

theorem hgetScan_null (chain : List (HItem (Option Addr))) (i : Nat)
    (hkeyed : ∀ it ∈ chain, it.free = false → it.key ≠ none) :
    Post (hgetScan none chain i)
      (fun r => r = none ∧ ∀ it ∈ chain, it.free = true)
      (fun e => e = .nullDeref ∧ ∃ it ∈ chain, it.free = false) := by
  induction chain generalizing i with
  | nil => simp [hgetScan]
  | cons p rest ih =>
      rw [hgetScan]
      cases hfree : p.free with
      | true =>
          rw [if_pos rfl]
          refine (ih (i + 1) fun it hit => hkeyed it (List.mem_cons_of_mem _ hit)).mono
            (fun r hr => ⟨hr.1, List.forall_mem_cons.mpr ⟨hfree, hr.2⟩⟩) ?_
          rintro e ⟨he, it, hit, hlive⟩
          exact ⟨he, it, List.mem_cons_of_mem _ hit, hlive⟩
      | false =>
          rw [if_neg (by simp), HItem.blame_keyed (hkeyed p (by simp) hfree),
            strcmpEq_none_right]
          exact ⟨rfl, p, by simp, hfree⟩

theorem slot_nil (n : Nat) : slot n [] = 0 := by
  have : oneAtATime [] = 0 := by decide
  simp [slot, this]

theorem hhash_null {ht : Cache} : hhash ht none 0 = .ok 0 := by
  have : oneAtATime [] = 0 := by decide
  simp [hhash, readBytes, this]

/-- `hget` of the key of the request. -/
theorem Serving.lookup (hs : Serving H h ht conn q r f Q B W) :
    ∃ key, h.load r.rkey = .ok key ∧
      Post (hget ht key r.keyLength)
        (fun ref => match ref with
          | none => Misses ht f.key ∧ (f.key = [] → ¬ HeadLive ht)
          | some ref => f.key ≠ [] ∧ ∃ it, ht.At ref it ∧ it.free = false ∧
              (it.name, it.val) ∈ ht.live ∧ Clash ht.realsize it.name f.key)
        (fun e => e = .nullDeref ∧ f.key = [] ∧ HeadLive ht) := by
  have hok := hs.store.ok
  refine ⟨_, hs.delivered.key.load, ?_⟩
  by_cases hkey : f.key = []
  · have hchain := hok.chains 0 hok.realsize_pos
    rw [if_pos hkey, hs.delivered.noKey hkey, hget, hhash_null, ok_bind]
    refine ((hgetScan_null _ 0 hchain.keyed).mono (fun ref hr => hr)
      (fun e he => ⟨he.1, hkey, he.2⟩)).bind fun ref hr => ?_
    obtain ⟨rfl, hfree⟩ := hr
    refine ⟨?_, ?_⟩
    case refine_2 =>
      rintro - ⟨it, hit, hlive⟩
      simp [hfree it hit] at hlive
    rintro x hx ⟨hslot, -⟩
    obtain ⟨it, hit, hlive, rfl⟩ := mem_live.mp hx
    have hitem := Multiset.mem_coe.mp hit
    have hmem := (hok.placed hitem (hok.keyed hitem hlive)).2
    rw [hslot, hkey, slot_nil] at hmem
    simp [hfree it hmem] at hlive
  · obtain ⟨-, hnil⟩ | ⟨a, -, -, hlen, -⟩ := hs.delivered.key
    · exact absurd hnil hkey
    rw [if_neg hkey, ← hlen]
    refine (hget_post hok f.key []).mono (fun ref hr => ?_) fun _ => False.elim
    cases ref with
    | none => exact ⟨hr, fun h => absurd h hkey⟩
    | some ref => exact ⟨hkey, hr⟩

/-! ## The commands on the cache -/

/-- The faults of a command. -/
def CommandFault (ht : Cache) (f : Fields) (e : Fault) : Prop :=
  (e = .nullDeref ∧ ReadsNull ht f) ∨
    (e = .nullItemKey ∧ ¬ ht.AllKeyed ∧ ¬ ReadsNull ht f)

/-- What a command does when no growth fails. -/
def Done (H : Host σ) (h : Heap σ) (ht : Cache) (set : Settings) (conn : Conn)
    (q : Addr) (r : Request) (f : Fields) (Q B W : Multiset Addr) (c' : Ctx σ) :
    Prop :=
  ¬ ReadsNull ht f ∧ ∃ res, Outcome H h ht set q r.received f res ∧
    Served H h ht conn c' q r f res Q B W

theorem getItem_post (hs : Serving H c.heap c.cache c.conn q r f Q B W)
    (hcmd : f.command = some .cmdGet) :
    Post (getItem H c r) (Done H c.heap c.cache c.settings c.conn q r f Q B W)
      (CommandFault c.cache f) := by
  have hreads : ReadsNull c.cache f ↔ f.key = [] ∧ HeadLive c.cache := by
    simp [ReadsNull, hcmd]
  obtain ⟨key, hload, hget⟩ := hs.lookup
  rw [getItem, hload, ok_bind]
  refine (hget.mono (fun _ hr => hr) fun e he => .inl ⟨he.1, hreads.mpr he.2⟩).bind
    fun ref hr => ?_
  cases ref with
  | none =>
      obtain ⟨hmiss, hhead⟩ := hr
      obtain ⟨c', hc', hserved⟩ := served_send (c := c.withStats _) hs rfl hs.req
        hs.changed_refl .keyNotexists
      dsimp only
      rw [getKeyNotexists, hc']
      exact ⟨fun h => hhead (hreads.mp h).1 (hreads.mp h).2, _,
        .getMiss hcmd hmiss, hserved⟩
  | some ref =>
      obtain ⟨hkey, it, hat, hlive, hmem, hclash⟩ := hr
      have hnot : ¬ ReadsNull c.cache f := fun h => hkey (hreads.mp h).1
      obtain ⟨q₀, r₀, e, hval, hcached⟩ := hs.store.exists_cached hmem
      obtain ⟨x, bytes, hx, hbytes, htimeout⟩ := hcached.filled.extra
      have hholds : Holds c.heap it.val e := ⟨q₀, r₀, hval, hcached⟩
      dsimp only
      rw [itemAt_eq hat, ok_bind, hval]
      dsimp only
      rw [readRequest_eq hcached.req, ok_bind, hx, load_eq hbytes, ok_bind,
        atoull_some, htimeout, ok_bind]
      dsimp only
      rw [← hcached.filled.received]
      by_cases hexp : uint32 (r.received - e.received) > e.timeout
      · -- the entry is removed first
        rw [if_pos hexp]
        obtain ⟨heap, cache, kept, hevict, hchanged⟩ := evict_post hs.store hat hlive
        rw [hevict, ok_bind]
        have hr' : heap.reqs q = some r := by
          rw [hchanged.agree.reqs q (by simp), hs.req]
        obtain ⟨c', hc', hserved⟩ := served_send
          (c := (c.withStore heap cache).withStats _) hs rfl hr'
          (hchanged.mono (Multiset.le_add_left ..) (Multiset.le_add_left ..))
          .keyNotexists
        rw [getKeyNotexists, hc']
        exact ⟨hnot, _, .getExpired hcmd hchanged.before hclash hholds hexp, hserved⟩
      · rw [if_neg hexp]
        obtain ⟨d, dbytes, hd, hdbytes, hlen, hdata⟩ := hcached.filled.data
        rw [addResponse_eq (c := c.withStats _) hs.inReq hs.req, ok_bind]
        refine ⟨hnot, _, .getHit hcmd hmem hclash hholds hexp, ?_⟩
        have hlength : e.data.length = r₀.dataLength := by
          rw [hdata, List.length_take, Nat.min_eq_left hlen]
        refine served_keep r₀.rdata false hs ?_ hs.req ?_ ?_
          (fun _ => ⟨d, dbytes, hd, hdbytes, ?_⟩)
          fun _ => ⟨_, hmem, q₀, r₀, hval, hcached.req, rfl⟩
        · rw [hlength]
          rfl
        · rw [if_neg (by simp), zero_add]
          exact hs.changed_refl
        · have := hcached.filled.small
          rw [hlength]
          simp only [protocolMaxDataSize, protocolMaxKeySize] at this
          omega
        · rw [hdata]
          exact List.take_prefix ..

theorem executeGet_post (hs : Serving H c.heap c.cache c.conn q r f Q B W)
    (hcmd : f.command = some .cmdGet) :
    Post (executeGet H c r) (Done H c.heap c.cache c.settings c.conn q r f Q B W)
      (CommandFault c.cache f) :=
  getItem_post (c := c.withStats _) hs hcmd

/-! ### SET -/

theorem FieldIs.eq_none {p : Option Addr} {bytes : Bytes} (hf : FieldIs h p n bytes) :
    p = none ↔ bytes = [] := by
  rcases hf with ⟨rfl, rfl⟩ | ⟨a, rfl, -, -, hne⟩ <;> simp_all

theorem FieldIs.present {p : Option Addr} {bytes : Bytes} (hf : FieldIs h p n bytes)
    (hne : bytes ≠ []) :
    ∃ a, p = some a ∧ h.bufs a = some (bytes ++ [0]) ∧ bytes.length = n := by
  obtain ⟨-, hnil⟩ | ⟨a, hp, hbuf, hlen, -⟩ := hf
  · exact absurd hnil hne
  · exact ⟨a, hp, hbuf, hlen⟩

theorem atoullValue_nil : atoullValue [] = none := by decide

/-- A valid SET carries all that a cached request needs. -/
theorem Delivered.filled (hd : Delivered h r f) (hdata : f.data ≠ [])
    (hvalid : atoullValue f.extra ≠ none) : Filled h r (newEntry r f) := by
  obtain ⟨t, ht⟩ := Option.ne_none_iff_exists'.mp hvalid
  have hextra : f.extra ≠ [] := fun hnil => hvalid (hnil ▸ atoullValue_nil)
  obtain ⟨d, hd₁, hd₂, hd₃⟩ := hd.data.present hdata
  obtain ⟨x, hx₁, hx₂, -⟩ := hd.extra.present hextra
  refine ⟨hd.small, ⟨d, _, hd₁, hd₂, by simp [hd₃], ?_⟩, rfl, ⟨x, _, hx₁, hx₂, ?_⟩⟩
  · rw [← hd₃, List.take_left]
    rfl
  · rw [atoullValue_append_nul, newEntry, ht]
    rfl

/-- The answer to a SET once the table refers to the request. -/
theorem served_commit (gone : Contents) (hin : c.conn.inReq = some q)
    (hopcode : f.opcode = r.opcode) {name : Bytes}
    (hp : Pending H c.heap c.cache q r (newEntry r f) name kept Q B W)
    (hbefore : ht.live = gone + kept)
    (hagree : Agree (cachedReqs kept + Q) (cachedBufs h kept + B) h c.heap)
    (hkeyed : H.alloc.NeverFails → ht.AllKeyed → c.cache.AllKeyed) :
    ∃ c', keepRequest c q = .ok c' ∧
      Served H h ht c.conn c' q r f
        ⟨gone, {(name, some q)}, kept, c.settings, .success, []⟩ Q B W := by
  obtain ⟨hstore, hholds, hwrite⟩ := hp.commit
  obtain ⟨heap, hheap⟩ : ∃ heap, heap =
      c.heap.writeRequest q { r with canFree := false } := ⟨_, rfl⟩
  rw [← hheap] at hstore hholds hwrite
  have hr : heap.reqs q = some { r with canFree := false } :=
    hheap ▸ writeRequest_reqs ..
  refine ⟨{ c with
    heap := heap, conn := queued c.conn r.opcode none 0 .success true }, ?_, ?_⟩
  · rw [keepRequest, readRequest_eq hp.req, ok_bind, ← hheap]
    exact sendResponse_eq (c := { c with heap := heap }) hin hr .success
  refine ⟨⟨?_, hbefore, ?_, ?_, hkeyed⟩, rfl, ⟨rfl, rfl, rfl, hopcode.symm, rfl, rfl,
    by simp, by simp⟩, rfl, by simp, ?_, by simp [queued]⟩
  · have hin' : (queued c.conn r.opcode none 0 .success true).inReq = some q := hin
    dsimp only
    rw [connReqs_lent hin' hr rfl, connBufs_lent hin' hr rfl]
    simpa [outBufs, queued] using hstore
  · rw [hp.live]
    rfl
  · have hkept : cachedBufs c.heap kept = cachedBufs h kept :=
      cachedBufs_congr fun a ha => hagree.reqs a (Multiset.mem_add.mpr (.inl ha))
    refine hagree.trans (hwrite.mono le_rfl ?_)
    rw [hkept]
    exact Multiset.le_add_left ..
  · intro x hx
    rw [Multiset.mem_singleton.mp hx]
    exact ⟨rfl, hholds⟩

/-- The table refers to a request that the connection will release. -/
def Exhausted (ht : Cache) (q : Addr) (f : Fields) (c' : Ctx σ) : Prop :=
  c'.cache.live = (f.key, some q) ::ₘ ht.live ∧
    c'.conn.out.retcode = Code.outOfMemory.toByte

/-- What a command does: nothing else than `Done`, unless a growth fails. -/
def Answered (H : Host σ) (h : Heap σ) (ht : Cache) (set : Settings) (conn : Conn)
    (q : Addr) (r : Request) (f : Fields) (Q B W : Multiset Addr) (c' : Ctx σ) :
    Prop :=
  (GrowthRefused H h ht q f → Exhausted ht q f c') ∧
    (¬ GrowthRefused H h ht q f → Done H h ht set conn q r f Q B W c')

theorem setItem_post (hs : Serving H c.heap c.cache c.conn q r f Q B W)
    (hcmd : f.command = some .cmdSet) (hdata : f.data ≠ [])
    (hvalid : atoullValue f.extra ≠ none) :
    Post (setItem H c q r) (Answered H c.heap c.cache c.settings c.conn q r f Q B W)
      (CommandFault c.cache f) := by
  have hextra : f.extra ≠ [] := fun hnil => hvalid (hnil ▸ atoullValue_nil)
  have hreads : ¬ ReadsNull c.cache f := by
    simp [ReadsNull, hcmd, hextra]
  have hgrowth : GrowthRefused H c.heap c.cache q f ↔ growthFails H.alloc c.cache
      (some (f.key ++ [0])) f.key.length (some q) c.heap.mem = true := by
    simp [GrowthRefused, hcmd, hdata, hvalid]
  obtain ⟨t, htimeout⟩ := Option.ne_none_iff_exists'.mp hvalid
  have hfilled := hs.delivered.filled hdata hvalid
  obtain ⟨key, hload, hlookup⟩ := hs.lookup
  have hkey := hs.delivered.dataKey hdata
  obtain ⟨-, -, -, hlen⟩ := hs.delivered.key.present hkey
  have hkeyeq : key = some (f.key ++ [0]) := by
    have := hs.delivered.key.load
    rw [if_neg hkey, hload] at this
    exact Except.ok.inj this
  subst hkeyeq
  have hown := hs.store.typed.tableOwns
  rw [add_assoc] at hown
  rw [setItem, hload, ok_bind, ← hlen]
  rw [← hlen] at hlookup
  refine (((hset_post f.key (some q) [] hs.store.ok hown).and
    (hset_failure f.key (some q) [] hs.store.ok hown)).mono (fun _ hr => hr)
    fun e he => .inr ⟨he.1.1, he.1.2, hreads⟩).bind fun ⟨ret, cache, mem⟩ hr => ?_
  obtain ⟨hset, hfail⟩ := hr
  cases ret with
  | hsuccess =>
      have hnot : ¬ GrowthRefused H c.heap c.cache q f := fun hg => by
        have := (hfail.1 (hgrowth.mp hg)).1
        cases this
      have hlinked : Linked H.alloc c.cache f.key (some q) _ cache mem := hset
      obtain ⟨c', hc', hserved⟩ := served_commit
        (c := c.withStore { c.heap with mem := mem } cache) (h := c.heap) 0 hs.inReq
        hs.delivered.opcode (pending_of_linked hs.store hs.req hfilled hlinked)
        (by simp) ⟨fun _ _ => rfl, fun _ _ => rfl⟩ fun _ => hlinked.keyed
      dsimp only
      rw [hc']
      exact ⟨fun h => absurd h hnot, fun _ => ⟨hreads, _,
        .setNew hcmd hdata htimeout hlinked.fresh, hserved⟩⟩
  | hexists =>
      have hnot : ¬ GrowthRefused H c.heap c.cache q f := fun hg => by
        have := (hfail.1 (hgrowth.mp hg)).1
        cases this
      obtain ⟨hcache, hmem, x, hx, hclash⟩ : cache = c.cache ∧ mem = c.heap.mem ∧
        ∃ x ∈ c.cache.live, Clash c.cache.realsize x.1 f.key := hset
      have hsame : c.withStore { c.heap with mem := mem } cache = c := by
        rw [hcache, hmem]
        rfl
      dsimp only
      rw [hsame]
      cases hget : hget c.cache (some (f.key ++ [0])) f.key.length with
      | error e =>
          rw [hget] at hlookup
          exact absurd hlookup.2.1 hkey
      | ok ref =>
          rw [hget] at hlookup
          cases ref with
          | none => exact absurd hclash (hlookup.1 x hx)
          | some ref =>
              obtain ⟨-, it, hat, hlive, -, hclash⟩ := hlookup
              obtain ⟨heap, cache', kept, hrep, hp, hbefore, hkeyed, hagree⟩ :=
                replaceItem_post hs.store hs.req hfilled hget hat hlive
              obtain ⟨c', hc', hserved⟩ := served_commit (c := c.withStore heap cache')
                (h := c.heap) {(it.name, it.val)} hs.inReq
                hs.delivered.opcode hp hbefore (hagree.mono
                  (add_le_add_right (Multiset.le_add_left ..) _)
                  (add_le_add_right (Multiset.le_add_left ..) _)) fun _ => hkeyed
              rw [hrep, ok_bind, hc']
              exact ⟨fun h => absurd h hnot, fun _ => ⟨hreads, _,
                .setOver hcmd hdata htimeout hbefore hclash, hserved⟩⟩
  | herror =>
      have hA : ¬ H.alloc.NeverFails := fun hA => by
        cases (hsetFails_of_neverFails hA 3 ..).symm.trans hset
      have hr' : (c.withStore { c.heap with mem := mem } cache).heap.reqs q = some r :=
        hs.req
      dsimp only
      by_cases hg : GrowthRefused H c.heap c.cache q f
      · rw [sendResponse_eq (c := c.withStore _ cache) hs.inReq hr']
        exact ⟨fun _ => ⟨(hfail.1 (hgrowth.mp hg)).2, rfl⟩, fun h => absurd hg h⟩
      · obtain ⟨href, hfails⟩ := hfail.2 (by rwa [hgrowth, Bool.not_eq_true] at hg) rfl
        have hrefused : memoryRefused H c.heap c.cache f = true := by
          simp [memoryRefused, hcmd, InvalidSet, hdata, htimeout, hfails]
        obtain ⟨c', hc', hserved⟩ := served_send
          (c := c.withStore { c.heap with mem := mem } cache) hs rfl hr'
          ((changed_of_refused hs.store href hA).mono (Multiset.le_add_left ..)
            (Multiset.le_add_left ..)) .outOfMemory
        rw [hc']
        exact ⟨fun h => absurd h hg, fun _ => ⟨hreads, _,
          .setRefused hcmd hdata htimeout hA hrefused, hserved⟩⟩

end Lightcache.Server
