import Lightcache.Slab.Capacity
import Lightcache.Slab.Setup
import Lightcache.Slab.Pool

/-!
# `slab.c`: what is left, in C widths

The capacity of the classes for the addresses that `scmalloc` computes and
`scfree` is given.  From 4096 slabs on the size of the region wraps, and with it
`mem_mallocd`: an assertion of `scmalloc` fails while there are chunks left.
-/

namespace Lightcache.Slab

open Lightcache Lightcache.Foundation

namespace CacheManager

/-- `scmalloc`, with the address that it computes. -/
def scmallocAt (slabs : Nat) (cm : CacheManager) (size : Nat) :
    Except Fault (CacheManager × Option Addr) := do
  let (r, cm) ← cm.scmalloc size
  return (cm, r.map (addrOf slabs))

/-- `scfree`, with the difference of the pointers and its bound in 32 bits. -/
def scfreeAt (slabs : Nat) (cm : CacheManager) (addr : Addr) : Except Fault CacheManager :=
  if u32 (sub64 addr slabs) > u32 (u32 cm.slabctlCount * slabSize) then .error .assertion
  else cm.scfree (ptrOf slabs addr)

end CacheManager

open CacheManager

inductive AddrCall where
  | scmalloc (size : Nat)
  | scfree (addr : Addr)

/-- The manager, with the addresses in use as `scmalloc` has returned them. -/
structure AddrArena where
  cm : CacheManager
  live : Multiset Addr

def callAt (slabs : Nat) (a : AddrArena) : AddrCall → Except Fault AddrArena
  | .scmalloc size => do
      let (cm, r) ← a.cm.scmallocAt slabs size
      return ⟨cm, ptrBlocks r + a.live⟩
  | .scfree addr => do
      let cm ← a.cm.scfreeAt slabs addr
      return ⟨cm, a.live.erase addr⟩

/-- A client releases only what it holds. -/
def FreesLiveAt (a : AddrArena) : AddrCall → Prop
  | .scmalloc _ => True
  | .scfree addr => addr ∈ a.live

/-- A size that some class holds is refused only when nothing is left for it. -/
structure ExactCapacityAt (slabs : Nat) (a : AddrArena) : Prop where
  /-- As many allocations succeed as free and partial slabs have chunks. -/
  succeeds : ∀ size ≤ (a.cm.caches (a.cm.cacheCount - 1)).chunkSize,
    ∃ c, Fits a.cm size c ∧ ∃ (addrs : List Addr) (cm' : CacheManager),
      replies (scmallocAt slabs) a.cm (List.replicate (a.cm.capacity c) size) =
          .ok (cm', addrs.map some) ∧ addrs.length = a.cm.capacity c ∧
        cm'.scmallocAt slabs size = .ok (cm', none)
  unchanged : ∀ size cm', a.cm.scmallocAt slabs size = .ok (cm', none) → cm' = a.cm
  /-- One chunk given back is one chunk more, and no more than one. -/
  oneMore : ∀ size c, Fits a.cm size c → a.cm.scmallocAt slabs size = .ok (a.cm, none) →
    ∀ addr ∈ a.live, (a.cm.slabCtls (ptrOf slabs addr).slab).cache = some c →
      ∃ cm₁ addr' cm₂, a.cm.scfreeAt slabs addr = .ok cm₁ ∧
        cm₁.scmallocAt slabs size = .ok (cm₂, some addr') ∧
        cm₂.scmallocAt slabs size = .ok (cm₂, none)
  allBack : ∀ order : List Addr, (order : Multiset Addr) = a.live →
    ∃ cm', run (scfreeAt slabs) a.cm order = .ok cm' ∧
      (cm'.items .slabsFree).Perm (List.range a.cm.slabctlCount) ∧
      ∀ c, cm'.capacity c = a.cm.slabctlCount * (a.cm.caches c).chunkCountPerslab

section Few

variable {slabs size c : Nat} {cm cm' : CacheManager} {a : AddrArena} {addr : Addr}
  {p : SlabPtr}

theorem scmallocAt_eq (slabs : Nat) (cm : CacheManager) (size : Nat) :
    cm.scmallocAt slabs size =
      (malloc cm size).map (Prod.map id (Option.map (addrOf slabs))) := by
  rw [scmallocAt, malloc]
  rcases cm.scmalloc size with e | ⟨r, cm'⟩ <;> rfl

theorem scmallocAt_none (h : cm.scmalloc size = .ok (none, cm')) :
    cm.scmallocAt slabs size = .ok (cm', none) := by
  rw [scmallocAt, h]
  rfl

theorem scmallocAt_some (h : cm.scmalloc size = .ok (some p, cm')) :
    cm.scmallocAt slabs size = .ok (cm', some (addrOf slabs p)) := by
  rw [scmallocAt, h]
  rfl

theorem none_of_scmallocAt (h : cm.scmallocAt slabs size = .ok (cm', none)) :
    cm.scmalloc size = .ok (none, cm') := by
  obtain ⟨⟨r, cm₁⟩, hmalloc, hr⟩ := ok_of_bind_eq_ok h
  obtain ⟨rfl, hnone⟩ := Prod.mk.inj (Except.ok.inj hr)
  rw [hmalloc, Option.map_eq_none_iff.mp hnone]

/-- The addresses in use are those of a pool. -/
def Pooled (slabs : Nat) (a : AddrArena) : Prop :=
  ∃ P : Pool slabs, P.cm = a.cm ∧ P.blocks.val = a.live

/-- The bound of `scfree` admits a chunk in use. -/
theorem Pool.scfreeAt_eq (P : Pool slabs) (ha : addr ∈ P.blocks) :
    P.cm.scfreeAt slabs addr = P.cm.scfree (ptrOf slabs addr) := by
  obtain ⟨hp, haddr⟩ := P.ptrOf_mem ha
  have hin := P.inside hp
  have hdiff := diff_addrOf P.few P.region hin
  have hsize : slabSize = 1048576 := by decide
  have hfew := P.few
  have hslab := hin.slab
  have hoffset := hin.offset
  rw [haddr] at hdiff
  rw [scfreeAt, if_neg]
  rw [hdiff, u32, u32, hsize]
  omega

theorem Pool.scfree_blocks (P : Pool slabs) (ha : addr ∈ P.blocks) :
    ∃ P' : Pool slabs, P.cm.scfreeAt slabs addr = .ok P'.cm ∧
      P'.blocks = P.blocks.erase addr ∧ P'.cm.caches = P.cm.caches ∧
      P'.cm.slabctlCount = P.cm.slabctlCount := by
  obtain ⟨hp, -⟩ := P.ptrOf_mem ha
  obtain ⟨cm, c, hfree, -, -, hgives⟩ := scfree_post P.inv hp
  obtain ⟨hp', cm', hfree', heq⟩ := P.free_eq ha
  obtain rfl := Except.ok.inj (hfree.symm.trans hfree')
  exact ⟨P.free addr, by rw [P.scfreeAt_eq ha, heq]; exact hfree', (Pool.free_of_mem ha).1,
    by rw [heq]; exact hgives.caches, by rw [heq]; exact hgives.slabctlCount⟩

theorem Pooled.call (h : Pooled slabs a) {e : AddrCall} (he : FreesLiveAt a e) :
    Post (callAt slabs a e) (Pooled slabs) fun _ => False := by
  obtain ⟨P, hcm, hlive⟩ := h
  cases e with
  | scmalloc size =>
      obtain ⟨r, cm', hmalloc, hpost⟩ := scmalloc_post P.inv size
      rw [callAt, ← hcm, ← hlive]
      cases r with
      | none =>
          rw [scmallocAt_none hmalloc]
          exact ⟨P, hpost.symm, (zero_add _).symm⟩
      | some p =>
          rw [scmallocAt_some hmalloc]
          refine ⟨P.take hmalloc, rfl, ?_⟩
          have hnew : addrOf slabs p ∉ P.blocks := by
            rw [P.mem_blocks (by
              rw [← (P.scmalloc_some hmalloc).2.2.1]
              exact hpost.2.2.inside (Finset.mem_insert_self p _))]
            exact hpost.1
          change ((insert p P.live).image (addrOf slabs)).val = _
          rw [Finset.image_insert]
          exact Finset.insert_val_of_notMem hnew
  | scfree addr =>
      have ha : addr ∈ P.blocks := by
        rw [← Finset.mem_val, hlive]
        exact he
      obtain ⟨P', hfree, hblocks, -⟩ := P.scfree_blocks ha
      rw [callAt, ← hcm, ← hlive, hfree]
      exact ⟨P', rfl, by rw [hblocks, Finset.erase_val]⟩

/-- Everything is given back, in whatever order. -/
theorem Pool.scfrees (P : Pool slabs) {order : List Addr}
    (horder : (order : Multiset Addr) = P.blocks.val) :
    ∃ P' : Pool slabs, run (scfreeAt slabs) P.cm order = .ok P'.cm ∧ P'.live = ∅ ∧
      P'.cm.caches = P.cm.caches ∧ P'.cm.slabctlCount = P.cm.slabctlCount := by
  induction order generalizing P with
  | nil =>
      have hnone : P.blocks = ∅ := Finset.val_eq_zero.mp horder.symm
      exact ⟨P, rfl, Finset.image_eq_empty.mp hnone, rfl, rfl⟩
  | cons addr order ih =>
      have ha : addr ∈ P.blocks := by
        rw [← Finset.mem_val, ← horder]
        simp
      obtain ⟨P₁, hfree, hblocks, hcaches, hcount⟩ := P.scfree_blocks ha
      obtain ⟨P', hrun, hempty, hcaches', hcount'⟩ := ih P₁ (by
        rw [hblocks, Finset.erase_val, ← horder, ← Multiset.cons_coe, Multiset.erase_cons_head])
      exact ⟨P', by rw [run_cons, hfree, ok_bind, hrun], hempty, hcaches'.trans hcaches,
        hcount'.trans hcount⟩

theorem Pooled.exactCapacityAt (h : Pooled slabs a) : ExactCapacityAt slabs a := by
  obtain ⟨P, hcm, hlive⟩ := h
  have hexact := SlabInv.exactCapacity (a := ⟨P.cm, P.live⟩) P.inv
  constructor
  all_goals rw [← hcm]
  · intro size hsize
    obtain ⟨c, hfits, ptrs, cm', hptrs, hlength, hnone⟩ := hexact.succeeds size hsize
    refine ⟨c, hfits, ptrs.map (addrOf slabs), cm', ?_, by rw [List.length_map, hlength],
      scmallocAt_none hnone⟩
    have hmap := replies_map (Option.map (addrOf slabs)) hptrs
    have hsome : Option.map (addrOf slabs) ∘ some = some ∘ addrOf slabs :=
      funext fun _ => Option.map_some ..
    rw [List.map_map, hsome] at hmap
    rw [List.map_map, funext₂ (scmallocAt_eq slabs), hmap]
  · intro size cm' h
    exact hexact.unchanged size cm' (none_of_scmallocAt h)
  · intro size c hfits hnone addr ha hcache
    rw [← hlive, Finset.mem_val] at ha
    obtain ⟨cm₁, p', cm₂, hfree, hsome, hlast⟩ := hexact.oneMore size c hfits
      (none_of_scmallocAt hnone) _ (P.ptrOf_mem ha).1 hcache
    exact ⟨cm₁, addrOf slabs p', cm₂, (P.scfreeAt_eq ha).trans hfree, scmallocAt_some hsome,
      scmallocAt_none hlast⟩
  · intro order horder
    obtain ⟨P', hrun, hempty, hcaches, hcount⟩ := P.scfrees (horder.trans hlive.symm)
    have hinv := P'.inv
    rw [hempty] at hinv
    obtain ⟨hperm, hcap⟩ := hinv.all_free
    exact ⟨P'.cm, hrun, hcount ▸ hperm, fun c => by rw [hcap, hcount, hcaches]⟩

end Few

/-! ## The account of the memory -/

section Account

variable {slabs size c n k : Nat} {cm cm' : CacheManager} {sizes : List Nat}

/-- The same classes, and the same account of what has been taken from the system. -/
structure SameSizes (cm cm' : CacheManager) : Prop where
  caches : cm'.caches = cm.caches
  cacheCount : cm'.cacheCount = cm.cacheCount
  memMallocd : cm'.memMallocd = cm.memMallocd
  memUsed : cm'.memUsed = cm.memUsed

theorem pop_sizes (cm : CacheManager) (li : ListId) : SameSizes cm (cm.pop li).2 :=
  ⟨rfl, rfl, rfl, rfl⟩

theorem slabFor_sizes (cm : CacheManager) (c : Nat) : SameSizes cm (cm.slabFor c).2 := by
  rw [slabFor]
  split
  · exact ⟨rfl, rfl, rfl, rfl⟩
  · have hpop := pop_sizes cm .slabsFree
    generalize cm.pop .slabsFree = x at hpop ⊢
    obtain ⟨_ | s, cm₁⟩ := x
    · exact hpop
    · exact ⟨hpop.caches, hpop.cacheCount, hpop.memMallocd, hpop.memUsed⟩

theorem relistTaken_sizes (cm : CacheManager) (c nused : Nat) :
    SameSizes cm (cm.relistTaken c nused) := by
  rw [relistTaken]
  split
  · have hpop := pop_sizes cm (.slabsPartial c)
    rw [popAndPush]
    generalize cm.pop (.slabsPartial c) = x at hpop ⊢
    obtain ⟨_ | s, cm₁⟩ := x
    · exact hpop
    · exact ⟨hpop.caches, hpop.cacheCount, hpop.memMallocd, hpop.memUsed⟩
  · exact ⟨rfl, rfl, rfl, rfl⟩

/-- The last assertion of `scmalloc`. -/
theorem takeChunk_charge (cm : CacheManager) (c s : Nat) :
    Ensures (cm.takeChunk c s) fun r => r.2.caches = cm.caches ∧
      r.2.cacheCount = cm.cacheCount ∧ r.2.memMallocd = cm.memMallocd ∧
      r.2.memUsed = cm.memUsed + (cm.caches c).chunkSize ∧ r.2.memUsed ≤ cm.memMallocd := by
  rw [takeChunk]
  dsimp only
  split
  · trivial
  split
  · trivial
  refine (ensures_true _).bind fun slots _ => ?_
  generalize hcm : relistTaken _ c _ = cm₁
  have hsame : SameSizes cm cm₁ := by
    rw [← hcm]
    exact ⟨(relistTaken_sizes ..).caches, (relistTaken_sizes ..).cacheCount,
      (relistTaken_sizes ..).memMallocd, (relistTaken_sizes ..).memUsed⟩
  split
  · rename_i hwithin
    refine Ensures.pure ⟨hsame.caches, hsame.cacheCount, hsame.memMallocd, ?_, ?_⟩
    · change cm₁.memUsed + (cm₁.caches c).chunkSize = _
      rw [hsame.caches, hsame.memUsed]
    · rw [← hsame.memMallocd]
      exact hwithin
  · trivial

theorem scmalloc_charge (hsearch : sizeToCache (fun i => (cm.caches i).chunkSize) cm.cacheCount
      (size % 2 ^ 32) = .ok (some c)) :
    Ensures (cm.scmalloc size) fun r => r.1 ≠ none → r.2.caches = cm.caches ∧
      r.2.cacheCount = cm.cacheCount ∧ r.2.memMallocd = cm.memMallocd ∧
      r.2.memUsed = cm.memUsed + (cm.caches c).chunkSize ∧ r.2.memUsed ≤ cm.memMallocd := by
  rw [CacheManager.scmalloc]
  split
  · exact fun h => absurd rfl h
  rw [hsearch, ok_bind]
  dsimp only
  have hsame := slabFor_sizes cm c
  rcases hs : cm.slabFor c with ⟨_ | s, cm₁⟩
  · exact fun h => absurd rfl h
  · rw [hs] at hsame
    refine (takeChunk_charge cm₁ c s).bind fun r hr => Ensures.pure fun _ => ?_
    obtain ⟨hcaches, hcount, hmallocd, hused⟩ := hsame
    rw [← hcaches, ← hcount, ← hmallocd, ← hused]
    exact hr

/-- However many allocations succeed, they stay within what the system has given. -/
theorem mallocs_charge (hsearch : sizeToCache (fun i => (cm.caches i).chunkSize) cm.cacheCount
      (size % 2 ^ 32) = .ok (some c)) (hused : cm.memUsed ≤ cm.memMallocd) {addrs : List Addr}
    (h : replies (scmallocAt slabs) cm (List.replicate k size) = .ok (cm', addrs.map some)) :
    cm.memUsed + k * (cm.caches c).chunkSize ≤ cm.memMallocd := by
  induction k generalizing cm addrs with
  | zero => simpa using hused
  | succ k ih =>
      rw [List.replicate_succ, replies] at h
      obtain ⟨⟨cm₁, r⟩, hone, hrest⟩ := ok_of_bind_eq_ok h
      obtain ⟨⟨cm₂, rs⟩, hmany, hlast⟩ := ok_of_bind_eq_ok hrest
      obtain ⟨rfl, hrs⟩ := Prod.mk.inj (Except.ok.inj hlast)
      obtain ⟨addr, addrs, rfl, haddr, rfl⟩ := List.map_eq_cons_iff.mp hrs.symm
      obtain ⟨⟨p, cm₁'⟩, hmalloc, hp⟩ := ok_of_bind_eq_ok hone
      obtain ⟨rfl, hmap⟩ := Prod.mk.inj (Except.ok.inj hp)
      obtain ⟨hcaches, hcount, hmallocd, hmem, hle⟩ := (scmalloc_charge hsearch).of_ok hmalloc
        (fun hnone => by
          change p = none at hnone
          rw [hnone, ← haddr] at hmap
          cases hmap)
      dsimp only at hcaches hcount hmallocd hmem hle
      have hsearch' : sizeToCache (fun i => (cm₁'.caches i).chunkSize) cm₁'.cacheCount
          (size % 2 ^ 32) = .ok (some c) := by
        rw [hcaches, hcount]
        exact hsearch
      have hrest := ih hsearch' (by omega) hmany
      rw [hcaches] at hrest
      rw [Nat.succ_mul]
      omega

theorem length_sizes (hmono : sizes.Pairwise (· < ·)) (hrange : ∀ size ∈ sizes, size ≤ slabSize) :
    sizes.length ≤ slabSize + 1 := by
  have hsub : sizes ⊆ List.range (slabSize + 1) := fun size hsize =>
    List.mem_range.mpr (Nat.lt_succ_of_le (hrange size hsize))
  have hnd : sizes.Nodup := hmono.imp fun h => h.ne
  simpa using (List.subperm_of_subset hnd hsub).length_le

/-- From 4096 slabs on, `mem_mallocd` counts less than the smallest chunks take. -/
theorem memMallocd_lt (hlength : sizes.length ≤ slabSize + 1) (hn : 4096 ≤ n) :
    (started sizes n).memMallocd < n * (slabSize / align minSlabChunkSize) *
      align minSlabChunkSize := by
  have hsize : slabSize = 1048576 := by decide
  have halign : align minSlabChunkSize = 24 := by decide
  change realSize 56 + realSize (40 * sizes.length) + realSize (6592 * n) +
    realSize (u32 (slabSize * n)) < _
  rw [halign]
  simp only [realSize, u32, hsize] at *
  omega

/-- With 4096 slabs or more, not all the smallest chunks can be handed out. -/
theorem not_exactCapacityAt (hmin : align minSlabChunkSize ∈ sizes)
    (hmono : sizes.Pairwise (· < ·))
    (hrange : ∀ size ∈ sizes, minSlabChunkSize ≤ size ∧ size ≤ slabSize) (hn : 4096 ≤ n) :
    ¬ ExactCapacityAt slabs ⟨started sizes n, 0⟩ := by
  intro hexact
  have hinv := slabInv_initialised (List.ne_nil_of_mem hmin) hmono hrange
    (show 0 < n by omega)
  obtain ⟨i, hi, hget⟩ := List.getElem_of_mem hmin
  have hclass : ((started sizes n).caches i).chunkSize = align minSlabChunkSize := by
    change sizes.getD i 0 = _
    rw [List.getD_eq_getElem _ _ hi, hget]
  have hsize : align minSlabChunkSize ≤
      ((started sizes n).caches ((started sizes n).cacheCount - 1)).chunkSize := by
    rw [← hclass]
    rcases Nat.lt_or_eq_of_le (show i ≤ sizes.length - 1 by omega) with hlt | heq
    · exact (hinv.classes.mono i _ hlt (by change sizes.length - 1 < sizes.length; omega)).le
    · exact le_of_eq (by rw [heq]; rfl)
  obtain ⟨c, hfits, addrs, cm', haddrs, -⟩ := hexact.succeeds _ hsize
  -- the class of the smallest chunks
  obtain rfl : c = i := hfits.unique ⟨hi, hclass.ge, fun j hj => by
    rw [← hclass]
    exact hinv.classes.mono j i hj hi⟩
  obtain ⟨d, hsearch, hfits'⟩ := hinv.classes.exists_fits hsize
  obtain rfl := hfits.unique
    (show Fits (started sizes n) _ d from ⟨hfits'.lt, hfits'.le, hfits'.smallest⟩)
  have hcap : (started sizes n).capacity c = n * (slabSize / align minSlabChunkSize) := by
    rw [← hclass]
    exact hinv.all_free.2 c
  have hused : (started sizes n).memUsed ≤ (started sizes n).memMallocd := Nat.zero_le _
  have hcharge := @mallocs_charge _ _ _ _ (started sizes n) _ hsearch hused _ haddrs
  have hlt := memMallocd_lt (length_sizes hmono fun size hsize => (hrange size hsize).2) hn
  change 0 + (started sizes n).capacity c * ((started sizes n).caches c).chunkSize ≤ _ at hcharge
  rw [hcap, hclass, zero_add] at hcharge
  exact absurd hlt (not_lt.mpr hcharge)

end Account

/--
With the classes of `init_cache_manager`, for whatever growth factor, the capacity is
exact after every run just for the counts of slabs below 4096.
-/
theorem capacity_exact_iff {sizes : List Nat} (hmin : align minSlabChunkSize ∈ sizes)
    (hmono : sizes.Pairwise (· < ·))
    (hrange : ∀ size ∈ sizes, minSlabChunkSize ≤ size ∧ size ≤ slabSize) {n slabs : Nat}
    (hn : 0 < n) (hregion : slabs + regionSize n ≤ 2 ^ 64) :
    (∀ calls, Meets (callAt slabs) FreesLiveAt ⟨started sizes n, 0⟩ calls →
        ∃ a, run (callAt slabs) ⟨started sizes n, 0⟩ calls = .ok a ∧ ExactCapacityAt slabs a) ↔
      n < 4096 := by
  constructor
  · intro h
    by_contra hmany
    obtain ⟨a, hrun, hexact⟩ := h [] trivial
    cases hrun
    exact not_exactCapacityAt hmin hmono hrange (not_lt.mp hmany) hexact
  · intro hfew calls hcalls
    have hinv := slabInv_initialised (List.ne_nil_of_mem hmin) hmono hrange hn
    have hpooled : Pooled slabs ⟨started sizes n, 0⟩ := by
      rw [started_eq hfew]
      refine ⟨⟨initialised sizes n, ∅, hinv, hfew, ?_⟩, rfl, rfl⟩
      rwa [regionSize_eq hfew] at hregion
    obtain ⟨a, hrun, hpool⟩ :=
      (run_post (fun a e h he => h.call he) hpooled hcalls).exists_ok
    exact ⟨a, hrun, hpool.exactCapacityAt⟩

/-- 100 MB make 99 slabs. -/
theorem capacity_exact_iff_hundred :
    (∀ calls, Meets (callAt 4096) FreesLiveAt ⟨started chunkTable 99, 0⟩ calls →
        ∃ a, run (callAt 4096) ⟨started chunkTable 99, 0⟩ calls = .ok a ∧
          ExactCapacityAt 4096 a) ↔ 99 < 4096 :=
  capacity_exact_iff (by decide) chunkTable_pairwise chunkTable_range (by decide) (by decide)

/-- 4200 MB make 4173 slabs, and a region for 77 of them. -/
theorem capacity_fails_at_4200 :
    (∃ l, initCacheManager 4200 = .ok (some l) ∧ l.slabctlCount = 4173 ∧
      l.memMallocd = (started chunkTable 4173).memMallocd) ∧
    ¬ ∀ calls, Meets (callAt 4096) FreesLiveAt ⟨started chunkTable 4173, 0⟩ calls →
      ∃ a, run (callAt 4096) ⟨started chunkTable 4173, 0⟩ calls = .ok a ∧
        ExactCapacityAt 4096 a := by
  refine ⟨⟨⟨4173, 80740352, 108250736, 4404019200⟩, by decide, rfl, by decide⟩, fun h => ?_⟩
  obtain ⟨a, hrun, hexact⟩ := h [] trivial
  cases hrun
  exact not_exactCapacityAt (by decide) chunkTable_pairwise chunkTable_range (by decide) hexact

end Lightcache.Slab
