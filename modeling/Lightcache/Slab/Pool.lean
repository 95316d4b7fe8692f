import Lightcache.Foundation.Accounting
import Lightcache.Mem
import Lightcache.Slab.Address

/-!
# The slabs as an allocator

`scmalloc` and `scfree` on the addresses that they compute in C widths.  A pool
carries the invariant of its manager, so that its calls never go wrong: the
slabs are an allocator like any other to what is built on them.
-/

namespace Lightcache.Slab

open Lightcache Lightcache.Foundation

/-- The address of a chunk that lies at `p` in the region `slabs`. -/
def addrOf (slabs : Nat) (p : SlabPtr) : Nat :=
  u64 (u64 (slabs + u32 (p.slab * slabSize)) + u32 p.offset)

/-- Where `scfree` looks for the chunk at an address. -/
def ptrOf (slabs addr : Nat) : SlabPtr :=
  ⟨u32 (sub64 addr slabs) / slabSize, u32 (sub64 addr slabs) % slabSize⟩

/-- The manager, the chunks in use, and what the widths of the addresses rest on. -/
structure Pool (slabs : Nat) where
  cm : CacheManager
  live : Finset SlabPtr
  inv : SlabInv cm live
  few : cm.slabctlCount < 4096
  region : slabs + cm.slabctlCount * slabSize ≤ 2 ^ 64

section Addresses

variable {slabs : Nat} {n : Nat} {p p' : SlabPtr} {cm : CacheManager}
  {live : Finset SlabPtr}

/-- The place lies inside a slab. -/
structure Inside (n : Nat) (p : SlabPtr) : Prop where
  slab : p.slab < n
  offset : p.offset < slabSize

/-- A chunk in use is one of those that its slab is cut into. -/
theorem SlabInv.chunk (h : SlabInv cm live) (hp : p ∈ live) : p.slab < cm.slabctlCount ∧
    0 < (cm.classOf p.slab).chunkSize ∧ ∃ k, p.offset = (cm.classOf p.slab).chunkSize * k ∧
      (cm.classOf p.slab).chunkSize * (k + 1) ≤ slabSize := by
  obtain ⟨hs, k, hk, hpk⟩ := h.slots.owned p hp
  obtain ⟨c, hc⟩ : ∃ c, (cm.slabCtls p.slab).cache = some c := by
    refine Option.ne_none_iff_exists'.mp fun hnone => ?_
    rw [CacheManager.classOf, hnone] at hk
    exact Nat.not_lt_zero k hk
  have hclass := h.slots.classed p.slab hs c hc
  rw [classOf_eq hc] at hk
  refine ⟨hs, ?_, k, congrArg SlabPtr.offset hpk, ?_⟩
  · rw [classOf_eq hc]
    exact h.classes.chunkSize_pos hclass
  · rw [classOf_eq hc]
    calc (cm.caches c).chunkSize * (k + 1)
        ≤ (cm.caches c).chunkSize * (cm.caches c).chunkCountPerslab :=
          Nat.mul_le_mul_left _ hk
      _ ≤ slabSize := by
          rw [Nat.mul_comm]
          exact h.classes.chunkCount_mul_le hclass

theorem SlabInv.inside (h : SlabInv cm live) (hp : p ∈ live) : Inside cm.slabctlCount p := by
  obtain ⟨hs, hpos, k, hk, hend⟩ := h.chunk hp
  refine ⟨hs, ?_⟩
  rw [Nat.mul_succ] at hend
  omega

theorem addrOf_eq (hn : n < 4096) (hregion : slabs + n * slabSize ≤ 2 ^ 64)
    (hp : Inside n p) : addrOf slabs p = slabs + p.slab * slabSize + p.offset := by
  have hsize : slabSize = 1048576 := by decide
  have hend : p.slab * slabSize + slabSize ≤ n * slabSize := by
    rw [← Nat.succ_mul]
    exact Nat.mul_le_mul_right _ hp.slab
  have hmax : n * slabSize < 4096 * slabSize := Nat.mul_lt_mul_of_pos_right hn (by decide)
  have hoffset := hp.offset
  rw [addrOf, u32, u32, u64, u64, Nat.mod_eq_of_lt (a := p.slab * slabSize) (by omega),
    Nat.mod_eq_of_lt (a := p.offset) (by omega),
    Nat.mod_eq_of_lt (a := slabs + p.slab * slabSize) (by omega), Nat.mod_eq_of_lt (by omega)]

/-- The difference of the pointers that `scfree` computes. -/
theorem diff_addrOf (hn : n < 4096) (hregion : slabs + n * slabSize ≤ 2 ^ 64)
    (hp : Inside n p) :
    u32 (sub64 (addrOf slabs p) slabs) = p.offset + p.slab * slabSize := by
  have hsize : slabSize = 1048576 := by decide
  have hend : p.slab * slabSize + slabSize ≤ n * slabSize := by
    rw [← Nat.succ_mul]
    exact Nat.mul_le_mul_right _ hp.slab
  have hmax : n * slabSize < 4096 * slabSize := Nat.mul_lt_mul_of_pos_right hn (by decide)
  have hoffset := hp.offset
  rw [addrOf_eq hn hregion hp, sub64, u64, u64, u32]
  omega

/-- `scfree` finds the chunk again. -/
theorem ptrOf_addrOf (hn : n < 4096) (hregion : slabs + n * slabSize ≤ 2 ^ 64)
    (hp : Inside n p) : ptrOf slabs (addrOf slabs p) = p := by
  have hsize : slabSize = 1048576 := by decide
  have hoffset := hp.offset
  have hdiff := diff_addrOf hn hregion hp
  have hquot : (p.offset + p.slab * slabSize) / slabSize = p.slab := by
    rw [Nat.add_mul_div_right _ _ (by omega), Nat.div_eq_of_lt (by omega), Nat.zero_add]
  have hrem : (p.offset + p.slab * slabSize) % slabSize = p.offset := by
    rw [Nat.add_mul_mod_self_right, Nat.mod_eq_of_lt (by omega)]
  rw [ptrOf, hdiff, hquot, hrem]

theorem addrOf_inj (hn : n < 4096) (hregion : slabs + n * slabSize ≤ 2 ^ 64)
    (hp : Inside n p) (hp' : Inside n p') (h : addrOf slabs p = addrOf slabs p') : p = p' := by
  rw [← ptrOf_addrOf hn hregion hp, h, ptrOf_addrOf hn hregion hp']

end Addresses

/-! ## Allocation and release -/

namespace Pool

variable {slabs : Nat} {P P' : Pool slabs} {p : SlabPtr} {cm : CacheManager} {n : Nat} {a : Addr}

/-- The addresses of the chunks in use. -/
def blocks (P : Pool slabs) : Finset Addr := P.live.image (addrOf slabs)

theorem inside (P : Pool slabs) (hp : p ∈ P.live) : Inside P.cm.slabctlCount p := P.inv.inside hp

theorem mem_blocks (P : Pool slabs) (hp : Inside P.cm.slabctlCount p) :
    addrOf slabs p ∈ P.blocks ↔ p ∈ P.live := by
  rw [blocks, Finset.mem_image]
  constructor
  · rintro ⟨p', hp', heq⟩
    obtain rfl := addrOf_inj P.few P.region (P.inside hp') hp heq
    exact hp'
  · exact fun h => ⟨p, h, rfl⟩

theorem ptrOf_mem (P : Pool slabs) (ha : a ∈ P.blocks) :
    ptrOf slabs a ∈ P.live ∧ addrOf slabs (ptrOf slabs a) = a := by
  obtain ⟨p, hp, rfl⟩ := Finset.mem_image.mp ha
  rw [ptrOf_addrOf P.few P.region (P.inside hp)]
  exact ⟨hp, rfl⟩

/-- A slab with chunks in use keeps its class. -/
theorem classOf_atSlab {cm' : CacheManager} {c s : Nat} (hat : AtSlab cm cm' s)
    (hcache : (cm'.slabCtls s).cache = some c) {p' : SlabPtr}
    (hbefore : p'.slab = s → (cm.slabCtls s).cache = some c) :
    cm'.classOf p'.slab = cm.classOf p'.slab := by
  by_cases hs : p'.slab = s
  · rw [hs, classOf_eq hcache, classOf_eq (hbefore hs), hat.caches]
  · rw [CacheManager.classOf, CacheManager.classOf, hat.other _ hs, hat.caches]

theorem scmalloc_some (P : Pool slabs) (h : P.cm.scmalloc n = .ok (some p, cm)) :
    p ∉ P.live ∧ SlabInv cm (insert p P.live) ∧ cm.slabctlCount = P.cm.slabctlCount ∧
      n ≤ (cm.classOf p.slab).chunkSize ∧
      ∀ p' ∈ P.live, cm.classOf p'.slab = P.cm.classOf p'.slab := by
  by_cases hbig : n > (P.cm.caches (P.cm.cacheCount - 1)).chunkSize
  · rw [scmalloc_big hbig] at h
    cases h
  obtain ⟨c, -, hfits⟩ := P.inv.classes.exists_fits (not_lt.mp hbig)
  obtain ⟨r, cm', hmalloc, hpost⟩ := scmalloc_fits P.inv hfits
  obtain ⟨rfl, rfl⟩ := Prod.mk.inj (Except.ok.inj (h.symm.trans hmalloc))
  obtain ⟨hnew, hinv, htakes⟩ := hpost
  refine ⟨hnew, hinv, htakes.slabctlCount, ?_, fun p' hp' => ?_⟩
  · rw [classOf_eq htakes.cache, htakes.caches]
    exact hfits.le
  · refine classOf_atSlab htakes.toAtSlab htakes.cache fun hs => ?_
    refine htakes.before.resolve_left fun hzero => ?_
    exact P.inv.slots.notMem_of_nused_eq_zero htakes.lt hzero p' hp' hs

theorem scfree_ok (P : Pool slabs) (hp : p ∈ P.live) (h : P.cm.scfree p = .ok cm) :
    SlabInv cm (P.live.erase p) ∧ cm.slabctlCount = P.cm.slabctlCount ∧
      ∀ p' ∈ P.live, cm.classOf p'.slab = P.cm.classOf p'.slab := by
  obtain ⟨cm', c, hfree, hinv, -, hgives⟩ := scfree_post P.inv hp
  obtain rfl := Except.ok.inj (h.symm.trans hfree)
  exact ⟨hinv, hgives.slabctlCount, fun p' _ =>
    classOf_atSlab hgives.toAtSlab hgives.cache fun _ => hgives.before⟩

/-- The pool after a chunk has been taken. -/
def take (P : Pool slabs) (h : P.cm.scmalloc n = .ok (some p, cm)) : Pool slabs where
  cm := cm
  live := insert p P.live
  inv := (P.scmalloc_some h).2.1
  few := (P.scmalloc_some h).2.2.1 ▸ P.few
  region := (P.scmalloc_some h).2.2.1 ▸ P.region

/-- The pool after a chunk has been given back. -/
def give (P : Pool slabs) (hp : p ∈ P.live) (h : P.cm.scfree p = .ok cm) : Pool slabs where
  cm := cm
  live := P.live.erase p
  inv := (P.scfree_ok hp h).1
  few := (P.scfree_ok hp h).2.1 ▸ P.few
  region := (P.scfree_ok hp h).2.1 ▸ P.region

/-- What `scmalloc` leaves, given its result. -/
def taken (P : Pool slabs) (size : Nat) : (r : Except Fault (Option SlabPtr × CacheManager)) →
    P.cm.scmalloc size = r → Option Addr × Pool slabs
  | .ok (some p, _), h => (some (addrOf slabs p), P.take h)
  | _, _ => (none, P)

/-- `li_malloc` of a positive size. -/
def malloc (P : Pool slabs) (size : Nat) : Option Addr × Pool slabs := P.taken size _ rfl

/-- What `scfree` leaves, given its result. -/
def given (P : Pool slabs) (hp : p ∈ P.live) : (r : Except Fault CacheManager) →
    P.cm.scfree p = r → Pool slabs
  | .ok _, h => P.give hp h
  | .error _, _ => P

/-- `li_free` of a chunk in use. -/
def free (P : Pool slabs) (addr : Addr) : Pool slabs :=
  if hp : ptrOf slabs addr ∈ P.live then P.given hp _ rfl else P

/-- What `slab_stats.mem_used` counts for a chunk. -/
def charge (P : Pool slabs) (a : Addr) : Nat := (P.cm.classOf (ptrOf slabs a).slab).chunkSize

/-- A request is served with a new chunk, and the other chunks stay what they are. -/
theorem malloc_some (h : P.malloc n = (some a, P')) : a ∉ P.blocks ∧
    P'.blocks = insert a P.blocks ∧ n ≤ P'.charge a ∧
      ∀ b ∈ P.blocks, P'.charge b = P.charge b := by
  have key : ∀ r (hr : P.cm.scmalloc n = r), P.taken n r hr = (some a, P') →
      ∃ p cm, ∃ h : P.cm.scmalloc n = .ok (some p, cm), a = addrOf slabs p ∧ P' = P.take h := by
    intro r hr heq
    rcases r with e | ⟨_ | p, cm⟩
    · cases heq
    · cases heq
    · cases heq
      exact ⟨p, cm, hr, rfl, rfl⟩
  obtain ⟨p, cm, hmalloc, rfl, rfl⟩ := key _ rfl h
  obtain ⟨hnew, hinv, hcount, hroom, hsame⟩ := P.scmalloc_some hmalloc
  have hin : Inside P.cm.slabctlCount p := hcount ▸ hinv.inside (Finset.mem_insert_self p _)
  refine ⟨mt (P.mem_blocks hin).mp hnew, Finset.image_insert .., ?_, fun b hb => ?_⟩
  · rw [charge, ptrOf_addrOf P.few P.region hin]
    exact hroom
  · exact congrArg Cache.chunkSize (hsame _ (P.ptrOf_mem hb).1)

/-- The assertions of `scmalloc` hold; a request is refused for lack of a slab or of a class. -/
theorem malloc_none (h : P.malloc n = (none, P')) :
    P' = P ∧ P.cm.scmalloc n = .ok (none, P.cm) := by
  obtain ⟨r, cm', hmalloc, hpost⟩ := scmalloc_post P.inv n
  have key : ∀ r (hr : P.cm.scmalloc n = r), P.taken n r hr = (none, P') →
      P' = P ∧ ∀ p cm, r ≠ .ok (some p, cm) := by
    intro r hr heq
    rcases r with e | ⟨_ | p, cm⟩
    · exact ⟨(Prod.mk.inj heq).2.symm, fun p cm h => by cases h⟩
    · exact ⟨(Prod.mk.inj heq).2.symm, fun p cm h => by cases h⟩
    · cases heq
  obtain ⟨hsame, hother⟩ := key _ rfl h
  refine ⟨hsame, ?_⟩
  cases r with
  | none => rw [hmalloc, hpost]
  | some p => exact absurd hmalloc (hother p cm')

/-- A chunk in use is given back: the assertions of `scfree` hold. -/
theorem free_eq (ha : a ∈ P.blocks) : ∃ hp : ptrOf slabs a ∈ P.live, ∃ cm,
    ∃ h : P.cm.scfree (ptrOf slabs a) = .ok cm, P.free a = P.give hp h := by
  obtain ⟨hp, -⟩ := P.ptrOf_mem ha
  obtain ⟨cm, c, hfree, -⟩ := scfree_post P.inv hp
  have key : ∀ r (hr : P.cm.scfree (ptrOf slabs a) = r) (h : r = .ok cm),
      P.given hp r hr = P.give hp (hr.trans h) := by
    intro r hr h
    subst h
    rfl
  exact ⟨hp, cm, hfree, by rw [free, dif_pos hp, key _ rfl hfree]⟩

theorem free_of_mem (ha : a ∈ P.blocks) : (P.free a).blocks = P.blocks.erase a ∧
    ∀ b ∈ P.blocks, (P.free a).charge b = P.charge b := by
  obtain ⟨hp, cm, hfree, heq⟩ := P.free_eq ha
  have haddr := (P.ptrOf_mem ha).2
  obtain ⟨-, -, hsame⟩ := P.scfree_ok hp hfree
  rw [heq]
  refine ⟨?_, fun b hb => congrArg Cache.chunkSize (hsame _ (P.ptrOf_mem hb).1)⟩
  have hinj : ∀ x y, x ∈ P.live → y ∈ P.live → addrOf slabs x = addrOf slabs y → x = y :=
    fun x y hx hy => addrOf_inj P.few P.region (P.inside hx) (P.inside hy)
  ext b
  rw [blocks, blocks, Finset.mem_erase, Finset.mem_image, Finset.mem_image]
  constructor
  · rintro ⟨p, hmem, rfl⟩
    obtain ⟨hne, hmem⟩ := Finset.mem_erase.mp hmem
    exact ⟨fun h => hne (hinj _ _ hmem hp (h.trans haddr.symm)), p, hmem, rfl⟩
  · rintro ⟨hne, p, hmem, rfl⟩
    exact ⟨p, Finset.mem_erase.mpr ⟨fun h => hne (by rw [h, haddr]), hmem⟩, rfl⟩

theorem memUsed_eq (P : Pool slabs) : P.cm.memUsed = ∑ a ∈ P.blocks, P.charge a := by
  rw [blocks, Finset.sum_image fun p hp p' hp' => addrOf_inj P.few P.region (P.inside hp)
    (P.inside hp'), P.inv.slots.memUsed]
  refine Finset.sum_congr rfl fun p hp => ?_
  rw [charge, ptrOf_addrOf P.few P.region (P.inside hp)]

/-! ## Where the blocks lie -/

theorem addr_eq (P : Pool slabs) {a : Nat} (ha : a ∈ P.blocks) :
    slabs + (ptrOf slabs a).slab * slabSize + (ptrOf slabs a).offset = a := by
  obtain ⟨hp, haddr⟩ := P.ptrOf_mem ha
  rwa [← addrOf_eq P.few P.region (P.inside hp)]

theorem within (P : Pool slabs) {a : Nat} (ha : a ∈ P.blocks) :
    slabs ≤ a ∧ a + P.charge a ≤ slabs + P.cm.slabctlCount * slabSize := by
  have heq := P.addr_eq ha
  obtain ⟨hs, -, k, hk, hend⟩ := P.inv.chunk (P.ptrOf_mem ha).1
  have hslab : (ptrOf slabs a).slab * slabSize + slabSize ≤ P.cm.slabctlCount * slabSize := by
    rw [← Nat.succ_mul]
    exact Nat.mul_le_mul_right _ hs
  rw [Nat.mul_succ, ← hk] at hend
  change slabs ≤ a ∧ a + (P.cm.classOf (ptrOf slabs a).slab).chunkSize ≤ _
  omega

/-- Chunks of one slab have the same size, so they are apart if their numbers are. -/
theorem apart (P : Pool slabs) {a b : Nat} (ha : a ∈ P.blocks) (hb : b ∈ P.blocks)
    (hab : a ≠ b) :
    a + P.charge a ≤ b ∨ b + P.charge b ≤ a := by
  have hae := P.addr_eq ha
  have hbe := P.addr_eq hb
  obtain ⟨-, hpos, k, hk, hend⟩ := P.inv.chunk (P.ptrOf_mem ha).1
  obtain ⟨-, -, l, hl, hendl⟩ := P.inv.chunk (P.ptrOf_mem hb).1
  change a + (P.cm.classOf (ptrOf slabs a).slab).chunkSize ≤ b ∨
    b + (P.cm.classOf (ptrOf slabs b).slab).chunkSize ≤ a
  have hslabs : ∀ s t, s < t → s * slabSize + slabSize ≤ t * slabSize := fun s t hst => by
    rw [← Nat.succ_mul]
    exact Nat.mul_le_mul_right _ hst
  rw [Nat.mul_succ, ← hk] at hend
  rw [Nat.mul_succ, ← hl] at hendl
  rcases lt_trichotomy (ptrOf slabs a).slab (ptrOf slabs b).slab with hlt | heq | hgt
  · have hnext := hslabs _ _ hlt
    omega
  · rw [heq] at hk hend hae ⊢
    have hne : k ≠ l := by
      rintro rfl
      exact hab (by omega)
    have hnumbers : ∀ i j, i < j → (P.cm.classOf (ptrOf slabs b).slab).chunkSize * i +
        (P.cm.classOf (ptrOf slabs b).slab).chunkSize ≤
          (P.cm.classOf (ptrOf slabs b).slab).chunkSize * j := fun i j hij => by
      rw [← Nat.mul_succ]
      exact Nat.mul_le_mul_left _ hij
    rcases Nat.lt_or_gt_of_ne hne with hlt | hgt
    · have hnext := hnumbers _ _ hlt
      omega
    · have hnext := hnumbers _ _ hgt
      omega
  · have hnext := hslabs _ _ hgt
    omega

end Pool

/-- `li_malloc` and `li_free` on the slabs; a chunk is handed out as it was left. -/
def slabAllocator (slabs : Nat) : Allocator (Pool slabs) Addr where
  malloc := Pool.malloc
  free := Pool.free
  live := Pool.blocks
  memused P := P.cm.memUsed
  clears := false
  fresh h := (Pool.malloc_some h).1
  live_some h := (Pool.malloc_some h).2.1
  live_none h := congrArg Pool.blocks (Pool.malloc_none h).1
  live_free h := (Pool.free_of_mem h).1

/-- The account of the slabs charges the size of the chunk. -/
theorem charges_slabs (slabs : Nat) :
    Allocator.Charges (slabAllocator slabs) Pool.charge where
  sum := Pool.memUsed_eq
  malloc h := (Pool.malloc_some h).2.2
  refused h b _ := by rw [(Pool.malloc_none h).1]
  free h := (Pool.free_of_mem h).2

end Lightcache.Slab
