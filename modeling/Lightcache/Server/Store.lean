import Lightcache.Server.Command
import Lightcache.Hashtab.Depth
import Lightcache.Hashtab.Release

/-!
# The cache and its memory

`Store` says that the table is in order, that every live entry points to a
cached request with its buffers in place, and that these blocks, the blocks of
the table, and a frame that belongs to the connections are all in use.  Each
change `execute_cmd` makes to the cache has one lemma here.
-/

namespace Lightcache.Server

open Lightcache Lightcache.Foundation Lightcache.Hashtab Heap

variable {σ : Type} {H : Host σ}

/-! ## Cached requests -/

/-- What a cached request says to a client. -/
structure Entry where
  data : Bytes
  received : Int
  timeout : Nat

/-- The request `r` carries the data and the timeout of `e`. -/
structure Filled (h : Heap σ) (r : Request) (e : Entry) : Prop where
  small : r.dataLength < protocolMaxDataSize
  data : ∃ d bytes, r.rdata = some d ∧ h.bufs d = some bytes ∧
    r.dataLength ≤ bytes.length ∧ e.data = bytes.take r.dataLength
  received : e.received = r.received
  extra : ∃ x bytes, r.rextra = some x ∧ h.bufs x = some bytes ∧
    atoullValue bytes = some e.timeout

structure Cached (h : Heap σ) (q : Addr) (r : Request) (e : Entry) : Prop where
  req : h.reqs q = some r
  kept : r.canFree = false
  filled : Filled h r e

/-- The entry behind the `val` of a live item. -/
def Holds (h : Heap σ) (v : Option Addr) (e : Entry) : Prop :=
  ∃ q r, v = some q ∧ Cached h q r e

/-- The contents of the table: keys, and pointers to requests. -/
abbrev Contents := Multiset (Bytes × Option Addr)

def cachedReqs (L : Contents) : Multiset Addr := L.bind fun e => ptrBlocks e.2

def valBuffers (h : Heap σ) (v : Option Addr) : Multiset Addr :=
  match v.bind h.reqs with
  | none => 0
  | some r => r.buffers

def cachedBufs (h : Heap σ) (L : Contents) : Multiset Addr :=
  L.bind fun e => valBuffers h e.2

section Multisets

variable {h h' : Heap σ} {L : Contents} {v : Option Addr} {name : Bytes} {q : Addr}
  {r : Request} {e : Entry}

@[simp] theorem cachedReqs_zero : cachedReqs 0 = 0 := rfl

@[simp] theorem cachedBufs_zero : cachedBufs h 0 = 0 := rfl

theorem cachedReqs_cons : cachedReqs ((name, v) ::ₘ L) = ptrBlocks v + cachedReqs L :=
  Multiset.cons_bind ..

theorem cachedBufs_cons :
    cachedBufs h ((name, v) ::ₘ L) = valBuffers h v + cachedBufs h L :=
  Multiset.cons_bind ..

theorem cachedReqs_add (L L' : Contents) :
    cachedReqs (L + L') = cachedReqs L + cachedReqs L' :=
  Multiset.add_bind ..

theorem cachedBufs_add (L L' : Contents) :
    cachedBufs h (L + L') = cachedBufs h L + cachedBufs h L' :=
  Multiset.add_bind ..

theorem valBuffers_some (hr : h.reqs q = some r) :
    valBuffers h (some q) = r.buffers := by
  simp [valBuffers, hr]

theorem mem_cachedReqs : q ∈ cachedReqs L ↔ ∃ name, (name, some q) ∈ L := by
  rw [cachedReqs, Multiset.mem_bind]
  constructor
  · rintro ⟨⟨name, v⟩, hmem, hq⟩
    cases v with
    | none => simp at hq
    | some q' =>
        rw [ptrBlocks_some, Multiset.mem_singleton] at hq
        exact ⟨name, hq ▸ hmem⟩
  · rintro ⟨name, hmem⟩
    exact ⟨(name, some q), hmem, by simp⟩

theorem cachedBufs_congr (h₁ : ∀ q ∈ cachedReqs L, h'.reqs q = h.reqs q) :
    cachedBufs h' L = cachedBufs h L := by
  refine Multiset.bind_congr fun ⟨name, v⟩ hmem => ?_
  cases v with
  | none => rfl
  | some q =>
      simp only [valBuffers, Option.bind_some]
      rw [h₁ q (mem_cachedReqs.mpr ⟨name, hmem⟩)]

theorem buffers_le (hr : h.reqs q = some r) (hmem : (name, some q) ∈ L) :
    r.buffers ≤ cachedBufs h L := by
  obtain ⟨L', rfl⟩ := Multiset.exists_cons_of_mem hmem
  rw [cachedBufs_cons, valBuffers_some hr]
  exact Multiset.le_add_right ..

theorem Filled.agree (hf : Filled h r e)
    (hB : ∀ a ∈ r.buffers, h'.bufs a = h.bufs a) : Filled h' r e := by
  obtain ⟨d, bytes, hd, hbytes, hlen⟩ := hf.data
  obtain ⟨x, xbytes, hx, hxbytes, htimeout⟩ := hf.extra
  refine ⟨hf.small, ⟨d, bytes, hd, ?_, hlen⟩, hf.received,
    ⟨x, xbytes, hx, ?_, htimeout⟩⟩
  · rw [hB d (by simp [Request.buffers, hd]), hbytes]
  · rw [hB x (by simp [Request.buffers, hx]), hxbytes]

/-- A cached request survives what leaves the requests and buffers alone. -/
theorem Holds.agree (hmem : (name, v) ∈ L) (hv : Holds h v e)
    (hagree : Agree (cachedReqs L) (cachedBufs h L) h h') : Holds h' v e := by
  obtain ⟨q, r, rfl, hc⟩ := hv
  refine ⟨q, r, rfl, ?_, hc.kept, hc.filled.agree fun a ha =>
    hagree.bufs a (Multiset.mem_of_le (buffers_le hc.req hmem) ha)⟩
  exact (hagree.reqs q (mem_cachedReqs.mpr ⟨name, hmem⟩)).trans hc.req

end Multisets

/-! ## The invariant -/

structure Store (H : Host σ) (h : Heap σ) (ht : Cache) (Q B W : Multiset Addr) :
    Prop where
  ok : TableOk ht
  typed : Typed H h (cachedReqs ht.live + Q) (cachedBufs h ht.live + B)
    (ht.blocks + W)
  cached : ∀ x ∈ ht.live, ∃ e, Holds h x.2 e
  leftover : ∀ v ∈ ht.leftover, v = none

namespace Store

variable {h h' : Heap σ} {ht ht' : Cache} {Q Q' B B' W W' : Multiset Addr}
  {q : Addr} {r : Request}

/-- What the frame does leaves the store in place. -/
theorem frame (hs : Store H h ht Q B W)
    (ht' : Typed H h' (cachedReqs ht.live + Q') (cachedBufs h ht.live + B')
      (ht.blocks + W'))
    (hagree : Agree (cachedReqs ht.live) (cachedBufs h ht.live) h h') :
    Store H h' ht Q' B' W' where
  ok := hs.ok
  typed := by
    rw [cachedBufs_congr hagree.reqs]
    exact ht'
  cached := fun ⟨_, _⟩ hx =>
    let ⟨e, he⟩ := hs.cached _ hx
    ⟨e, he.agree hx hagree⟩
  leftover := hs.leftover

theorem exists_cached (hs : Store H h ht Q B W) {name : Bytes} {v : Option Addr}
    (hmem : (name, v) ∈ ht.live) :
    ∃ q r e, v = some q ∧ Cached h q r e :=
  let ⟨e, q, r, hv, hc⟩ := hs.cached _ hmem
  ⟨q, r, e, hv, hc⟩

/-- The frame holds none of the cached requests. -/
theorem notMem_cached (hs : Store H h ht Q B W) (hq : q ∈ Q) :
    q ∉ cachedReqs ht.live := fun hmem =>
  Multiset.disjoint_left.mp (Multiset.nodup_add.mp hs.typed.reqs_nodup).2.2 hmem hq

end Store

/-! ## Changes of the contents -/

/--
In the contents `gone` has been replaced by `new`; the entries `kept` and the
frame `Q`, `B` have been left alone.
-/
structure Changed (H : Host σ) (h : Heap σ) (ht : Cache) (h' : Heap σ) (ht' : Cache)
    (gone new kept : Contents) (Q B Q' B' W : Multiset Addr) : Prop where
  store : Store H h' ht' Q' B' W
  before : ht.live = gone + kept
  after : ht'.live = new + kept
  agree : Agree (cachedReqs kept + Q) (cachedBufs h kept + B) h h'
  keyed : H.alloc.NeverFails → ht.AllKeyed → ht'.AllKeyed

theorem Changed.mono {h h' : Heap σ} {ht ht' : Cache} {gone new kept : Contents}
    {Q Q₁ Q' B B₁ B' W : Multiset Addr}
    (hc : Changed H h ht h' ht' gone new kept Q B Q' B' W) (hQ : Q₁ ≤ Q)
    (hB : B₁ ≤ B) : Changed H h ht h' ht' gone new kept Q₁ B₁ Q' B' W :=
  ⟨hc.store, hc.before, hc.after, hc.agree.mono (add_le_add_right hQ _)
    (add_le_add_right hB _), hc.keyed⟩

/-! ### Removing an entry -/

section Release

variable {c : Ctx σ} {ref : ItemRef} {it : HItem (Option Addr)}
  {Q B W : Multiset Addr}

theorem itemAt_eq {ht : Cache} (hat : ht.At ref it) : itemAt ht ref = .ok it := by
  rw [itemAt, Htab.item?_eq hat]

/-- `del_cached_req` on a live item: its request is gone, its key is still there. -/
theorem delItem_post (hs : Store H c.heap c.cache Q B W) (hat : c.cache.At ref it)
    (hit : it.free = false) :
    ∃ heap cache kept, delItem H c ref = .ok (c.withStore heap cache) ∧
      Overwritten c.cache it none cache ∧
      cache = c.cache.modify ref (fun it => { it with val := none }) ∧
      c.cache.live = (it.name, it.val) ::ₘ kept ∧
      cache.live = (it.name, none) ::ₘ kept ∧
      (∀ v ∈ cache.leftover, v = none) ∧
      Typed H heap (cachedReqs kept + Q) (cachedBufs c.heap kept + B)
        (cache.blocks + W) ∧
      Agree (cachedReqs kept + Q) (cachedBufs c.heap kept + B) c.heap heap := by
  have hover := modify_val_post hs.ok hat none
  obtain ⟨kept, hbefore, hafter⟩ := hover.live
  obtain ⟨left, hleft, hleft'⟩ := hover.leftover
  rw [hit] at hbefore hafter hleft hleft'
  replace hbefore : c.cache.live = (it.name, it.val) ::ₘ kept := hbefore
  obtain ⟨q, r, e, hval, hc⟩ := hs.exists_cached (hat.mem_live hit)
  have htyped := hs.typed
  rw [hbefore, cachedReqs_cons, cachedBufs_cons, hval, valBuffers_some hc.req,
    ptrBlocks_some, add_assoc, add_assoc] at htyped
  obtain ⟨heap, hrel, ht, hagree⟩ := htyped.release hc.req
  refine ⟨heap, _, kept, ?_, hover, rfl, hbefore, hafter, ?_, ?_, hagree⟩
  · rw [delItem, itemAt_eq hat, ok_bind, hval, delCachedReq, hrel]
    rfl
  · intro v hv
    refine hs.leftover v ?_
    rw [hleft]
    rwa [hleft'] at hv
  · rwa [hover.blocks]

/-- The entries that stay are held as before. -/
theorem Store.cached_kept {h h' : Heap σ} {ht : Cache} (hs : Store H h ht Q B W)
    (gone : Contents) {kept : Contents} (hbefore : ht.live = gone + kept)
    (hagree : Agree (cachedReqs kept + Q) (cachedBufs h kept + B) h h') :
    ∀ x ∈ kept, ∃ e, Holds h' x.2 e := by
  rintro ⟨name, v⟩ hx
  obtain ⟨e, he⟩ := hs.cached (name, v)
    (hbefore ▸ Multiset.mem_add.mpr (.inr hx))
  exact ⟨e, he.agree hx (hagree.mono (Multiset.le_add_right ..)
    (Multiset.le_add_right ..))⟩

theorem cachedBufs_kept {h h' : Heap σ} {kept : Contents}
    (hagree : Agree (cachedReqs kept + Q) (cachedBufs h kept + B) h h') :
    cachedBufs h' kept = cachedBufs h kept :=
  cachedBufs_congr fun q hq => hagree.reqs q (Multiset.mem_add.mpr (.inl hq))

theorem evict_post (hs : Store H c.heap c.cache Q B W) (hat : c.cache.At ref it)
    (hit : it.free = false) :
    ∃ heap cache kept, evict H c ref = .ok (c.withStore heap cache) ∧
      Changed H c.heap c.cache heap cache {(it.name, it.val)} 0 kept Q B Q B W := by
  obtain ⟨heap, cache, kept, hdel, hover, hcache, hbefore, hafter, hleft, htyped,
    hagree⟩ := delItem_post hs hat hit
  have hat' : cache.At ref { it with val := none } := hcache ▸ hat.modify _
  have hrel := hfree_post hover.ok hat' hit
  have hlive : (hfree cache ref).live = kept := by
    have := hrel.live
    rw [hafter] at this
    exact ((Multiset.cons_inj_right _).mp this).symm
  refine ⟨heap, hfree cache ref, kept, by rw [evict, hdel]; rfl, ⟨hrel.ok, ?_, ?_, ?_⟩,
    hbefore, by simpa using hlive, hagree, fun _ hall => hrel.keyed (hover.keyed hall)⟩
  · rw [hlive, hrel.blocks, cachedBufs_kept hagree]
    exact htyped
  · rw [hlive]
    exact hs.cached_kept {(it.name, it.val)} hbefore hagree
  · rw [hrel.leftover]
    intro v hv
    rcases Multiset.mem_cons.mp hv with rfl | hv
    · rfl
    · exact hleft v hv

end Release

/-! ### Adding an entry -/

section Insert

variable {h : Heap σ} {ht : Cache} {q : Addr} {r : Request} {e : Entry}
  {name : Bytes} {kept : Contents} {Q B W : Multiset Addr}

/-- The table refers to the request `q`, which is not yet marked as kept. -/
structure Pending (H : Host σ) (h : Heap σ) (ht : Cache) (q : Addr) (r : Request)
    (e : Entry) (name : Bytes) (kept : Contents) (Q B W : Multiset Addr) : Prop where
  ok : TableOk ht
  live : ht.live = (name, some q) ::ₘ kept
  leftover : ∀ v ∈ ht.leftover, v = none
  typed : Typed H h ({q} + (cachedReqs kept + Q))
    (r.buffers + (cachedBufs h kept + B)) (ht.blocks + W)
  cached : ∀ x ∈ kept, ∃ e, Holds h x.2 e
  req : h.reqs q = some r
  filled : Filled h r e

/-- `conn->in->can_free = 0` hands the request over to the cache. -/
theorem Pending.commit (hp : Pending H h ht q r e name kept Q B W) :
    Store H (h.writeRequest q { r with canFree := false }) ht Q B W ∧
      Holds (h.writeRequest q { r with canFree := false }) (some q) e ∧
      Agree (cachedReqs kept + Q) (r.buffers + (cachedBufs h kept + B)) h
        (h.writeRequest q { r with canFree := false }) := by
  have hq : q ∉ cachedReqs kept + Q := by
    have := hp.typed.reqs_nodup
    rw [Multiset.singleton_add, Multiset.nodup_cons] at this
    exact this.1
  have hagree : Agree (cachedReqs kept + Q) (r.buffers + (cachedBufs h kept + B)) h
      (h.writeRequest q { r with canFree := false }) := agree_writeRequest hq
  have hholds : Holds (h.writeRequest q { r with canFree := false }) (some q) e :=
    ⟨q, _, rfl, writeRequest_reqs .., rfl, hp.filled.small, hp.filled.data,
      hp.filled.received, hp.filled.extra⟩
  have hbufs := hagree.mono le_rfl (Multiset.le_add_left (cachedBufs h kept + B) _)
  refine ⟨⟨hp.ok, ?_, ?_, hp.leftover⟩, hholds, hagree⟩
  · rw [hp.live, cachedReqs_cons, cachedBufs_cons, cachedBufs_kept hbufs,
      valBuffers_some (writeRequest_reqs ..), ptrBlocks_some, add_assoc, add_assoc]
    exact hp.typed.writeRequest (by simp) _
  · rw [hp.live]
    rintro ⟨name', v⟩ hx
    rcases Multiset.mem_cons.mp hx with hx | hx
    · obtain ⟨rfl, rfl⟩ := Prod.mk.inj hx
      exact ⟨e, hholds⟩
    · obtain ⟨e', he'⟩ := hp.cached _ hx
      exact ⟨e', he'.agree hx (hbufs.mono (Multiset.le_add_right ..)
        (Multiset.le_add_right ..))⟩

/-- After a successful `hset` the new item refers to the request. -/
theorem pending_of_linked (hs : Store H h ht ({q} + Q) (r.buffers + B) W)
    (hr : h.reqs q = some r) (hf : Filled h r e) {ht' : Cache} {mem : σ}
    (hlink : Linked H.alloc ht name (some q)
      (W + ((cachedReqs ht.live + ({q} + Q)) + (cachedBufs h ht.live +
        (r.buffers + B)))) ht' mem) :
    Pending H { h with mem := mem } ht' q r e name ht.live Q B W where
  ok := hlink.ok
  live := hlink.live
  leftover := fun v hv => hs.leftover v (Multiset.mem_of_le hlink.leftover hv)
  typed := by
    have htyped : Typed H { h with mem := mem } _ _ (ht'.blocks + W) :=
      hs.typed.withMem mem (hlink.owns.congr (by abel))
    refine htyped.congr ?_ ?_ rfl
    · abel
    · change r.buffers + (cachedBufs h ht.live + B) = _
      abel
  cached := fun x hx =>
    let ⟨e, q, r, hv, hc⟩ := hs.cached x hx
    ⟨e, q, r, hv, hc.req, hc.kept, hc.filled.agree fun _ _ => rfl⟩
  req := hr
  filled := hf.agree fun _ _ => rfl

/-- A refused `hset` has at most cost a recyclable item its key buffer. -/
theorem changed_of_refused (hs : Store H h ht Q B W) {ht' : Cache} {mem : σ}
    (href : Refused H.alloc ht (W + ((cachedReqs ht.live + Q) +
      (cachedBufs h ht.live + B))) ht' mem) (hA : ¬ H.alloc.NeverFails) :
    Changed H h ht { h with mem := mem } ht' 0 0 ht.live Q B Q B W where
  store := by
    refine ⟨href.ok, ?_, ?_, fun v hv => hs.leftover v (href.leftover ▸ hv)⟩
    · rw [href.live]
      refine hs.typed.withMem mem (href.owns.congr ?_)
      abel
    · rw [href.live]
      exact hs.cached_kept (Q := Q) (B := B) 0 (by simp)
        ⟨fun _ _ => rfl, fun _ _ => rfl⟩
  before := by simp
  after := by simpa using href.live
  agree := ⟨fun _ _ => rfl, fun _ _ => rfl⟩
  keyed := fun h => absurd h hA

/-- `hset` has found the key: its item takes over the new request. -/
theorem replaceItem_post {c : Ctx σ} {key : Option Bytes} {klen : Nat}
    {ref : ItemRef} {it : HItem (Option Addr)}
    (hs : Store H c.heap c.cache ({q} + Q) (r.buffers + B) W)
    (hr : c.heap.reqs q = some r) (hf : Filled c.heap r e)
    (hget : hget c.cache key klen = .ok (some ref)) (hat : c.cache.At ref it)
    (hit : it.free = false) :
    ∃ heap cache kept,
      replaceItem H c q key klen = .ok (c.withStore heap cache) ∧
      Pending H heap cache q r e it.name kept Q B W ∧
      c.cache.live = (it.name, it.val) ::ₘ kept ∧
      (c.cache.AllKeyed → cache.AllKeyed) ∧
      Agree (cachedReqs kept + ({q} + Q)) (cachedBufs c.heap kept + (r.buffers + B))
        c.heap heap := by
  obtain ⟨heap, cache, kept, hdel, hover, hcache, hbefore, hafter, hleft, htyped,
    hagree⟩ := delItem_post hs hat hit
  have hat' : cache.At ref { it with val := none } := hcache ▸ hat.modify _
  have hover' := modify_val_post hover.ok hat' (some q)
  obtain ⟨L, hold, hnew⟩ := hover'.live
  obtain ⟨left, hleft₁, hleft₂⟩ := hover'.leftover
  rw [hit] at hold hnew hleft₁ hleft₂
  have hL : L = kept := by
    rw [hafter] at hold
    exact ((Multiset.cons_inj_right _).mp hold).symm
  refine ⟨heap, _, kept, ?_, ⟨hover'.ok, ?_, ?_, ?_, ?_, ?_, ?_⟩, hbefore,
    fun hall => hover'.keyed (hover.keyed hall), hagree⟩
  · rw [replaceItem, hget, ok_bind]
    dsimp only
    rw [hdel]
    rfl
  · rw [hnew, hL]
    rfl
  · intro v hv
    refine hleft v ?_
    rw [hleft₁]
    rwa [hleft₂] at hv
  · rw [hover'.blocks, cachedBufs_kept hagree]
    exact htyped.congr (by abel) (by abel) rfl
  · exact hs.cached_kept {(it.name, it.val)} hbefore hagree
  · rw [hagree.reqs q (by simp), hr]
  · exact hf.agree fun a ha => hagree.bufs a (by simp [ha])

end Insert

/-! ### Removing all entries -/

section Flush

/-- The walk of `flush_item_enum` over the items of `ht`. -/
structure FlushInv (H : Host σ) (h : Heap σ) (Q B W : Multiset Addr)
    (done todo : Multiset (HItem (Option Addr))) (h' : Heap σ) : Prop where
  typed : Typed H h' (cachedReqs (live todo) + Q) (cachedBufs h' (live todo) + B) W
  agree : Agree Q B h h'
  coming : ∀ x ∈ live todo, ∃ e, Holds h' x.2 e
  blank : ∀ v ∈ leftover todo, v = none
  passed : live done = 0
  cleared : ∀ v ∈ leftover done, v = none

theorem flush_inv (h : Heap σ) (Q B W : Multiset Addr) :
    EnumInv (flushItemEnum H) true Gentle
      (fun done todo _ h' => FlushInv H h Q B W done todo h') (fun _ => False) where
  gentle := id
  refl := Gentle.refl
  skip := by simp
  visit := by
    intro done p todo fc h' hinv _
    have htyped := hinv.typed
    have hcoming := hinv.coming
    have hleft := hinv.blank
    rw [leftover_cons] at hleft
    -- either way the item ends up free, and without a request
    have hdone : ∀ p' : HItem (Option Addr), p'.free = true → p'.val = none →
        live (p' ::ₘ done) = 0 ∧ ∀ v ∈ leftover (p' ::ₘ done), v = none := by
      intro p' hfree hval
      rw [live_cons, leftover_cons, hfree, hval, hinv.passed]
      refine ⟨by simp, fun v hv => ?_⟩
      rcases Multiset.mem_add.mp hv with hv | hv
      · simpa using hv
      · exact hinv.cleared v hv
    rw [flushItemEnum]
    cases hfree : p.free with
    | true =>
        have hval : p.val = none := hleft p.val (by simp [hfree])
        rw [live_cons, hfree] at htyped hcoming
        rw [hval, delCachedReq, ok_bind]
        simp only [hfreeItem, if_true]
        obtain ⟨hlive, hclear⟩ := hdone { p with val := none, free := true } rfl rfl
        refine ⟨rfl, ⟨rfl, rfl, rfl, by simp⟩, ?_⟩
        exact ⟨by simpa using htyped, hinv.agree, by simpa using hcoming,
          fun v hv => hleft v (Multiset.mem_add.mpr (.inr hv)), hlive, hclear⟩
    | false =>
        rw [live_cons, hfree] at htyped hcoming
        replace htyped : Typed H h' (cachedReqs ((p.name, p.val) ::ₘ live todo) + Q)
          (cachedBufs h' ((p.name, p.val) ::ₘ live todo) + B) W := htyped
        obtain ⟨e, q, r, hval, hc⟩ := hcoming (p.name, p.val) (by simp)
        dsimp only at hval
        rw [hval, cachedReqs_cons, cachedBufs_cons, valBuffers_some hc.req,
          ptrBlocks_some, add_assoc, add_assoc] at htyped
        obtain ⟨h'', hrel, ht, hagree⟩ := htyped.release hc.req
        rw [hval, delCachedReq, hrel, ok_bind]
        simp only [hfreeItem, Bool.false_eq_true, if_false]
        obtain ⟨hlive, hclear⟩ := hdone { p with val := none, free := true } rfl rfl
        refine ⟨rfl, ⟨rfl, rfl, rfl, by simp⟩, ?_⟩
        refine ⟨by rwa [cachedBufs_kept hagree], hinv.agree.trans
          (hagree.mono (Multiset.le_add_left ..) (Multiset.le_add_left ..)), ?_,
          fun v hv => hleft v (Multiset.mem_add.mpr (.inr hv)), hlive, hclear⟩
        rintro ⟨name, v⟩ hx
        obtain ⟨e', he'⟩ := hcoming (name, v) (by simp [hx])
        exact ⟨e', he'.agree hx (hagree.mono (Multiset.le_add_right ..)
          (Multiset.le_add_right ..))⟩

theorem flush_post {h : Heap σ} {ht : Cache} {Q B W : Multiset Addr}
    (hs : Store H h ht Q B W) :
    ∃ h' ht', henum ht (flushItemEnum H) h true = .ok (ht', h') ∧
      Changed H h ht h' ht' ht.live 0 0 Q B Q B W := by
  have hstart : FlushInv H h Q B (ht.blocks + W) 0
      (↑ht.items : Multiset (HItem (Option Addr))) h :=
    ⟨hs.typed, .refl .., hs.cached, hs.leftover, by simp [live], by simp [leftover]⟩
  obtain ⟨⟨ht', h'⟩, hrun, hok, hframe, hrel, hend⟩ :=
    (henum_post (flush_inv h Q B (ht.blocks + W)) hs.ok hstart).exists_ok
  dsimp only at hok hframe hrel hend
  have hlive : ht'.live = 0 := hend.passed
  refine ⟨h', ht', hrun, ⟨hok, ?_, ?_, hend.cleared⟩, by simp, by simpa using hlive,
    by simpa using hend.agree,
    fun _ hall => Htab.allKeyed_gentle hframe.realsize hrel hall⟩
  · rw [hlive, Htab.blocks_gentle hframe hrel]
    exact hend.typed
  · simp [hlive]

end Flush

end Lightcache.Server
