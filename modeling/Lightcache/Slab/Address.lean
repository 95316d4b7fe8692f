import Lightcache.Slab.Runs

/-!
# `slab.c`: sizes and addresses in C widths

`init_cache_manager` with its arithmetic in `unsigned int` and `uint64_t`, and
the address computations of `scmalloc` and `scfree`.  The system's `malloc` is
taken to succeed.  With the growth factor 1.25 there are 47 classes.
-/

namespace Lightcache.Slab

open Lightcache Lightcache.Foundation

def u32 (n : Nat) : Nat := n % 2 ^ 32

def u64 (n : Nat) : Nat := n % 2 ^ 64

/-- `a - b` in 64 bits. -/
def sub64 (a b : Nat) : Nat := u64 (a + 2 ^ 64 - u64 b)

def chunkAlignBytes : Nat := 8

def align (size : Nat) : Nat :=
  if size % chunkAlignBytes ≠ 0 then size + (chunkAlignBytes - size % chunkAlignBytes)
  else size

/-- `count` classes from `size` on, each 1.25 times the one before. -/
def chunkSizes : Nat → Nat → List Nat
  | 0, _ => []
  | count + 1, size => align size :: chunkSizes count (align size * 5 / 4)

/-- `floor(log(SLAB_SIZE / MIN_SLAB_CHUNK_SIZE) / log(1.25)) - 1` -/
def cacheCount : Nat := 47

def chunkTable : List Nat := chunkSizes cacheCount minSlabChunkSize

/-- What `init_cache_manager` decides about the slab region. -/
structure Layout where
  slabctlCount : Nat
  regionSize : Nat
  memMallocd : Nat
  memLimit : Nat
  deriving DecidableEq, Repr

/-- The memory limit in bytes. -/
def memLimit (memoryLimit : Nat) : Nat := u64 (memoryLimit * 1024 * 1024)

/-- What the manager and the classes take from the system. -/
def memTables : Nat :=
  realSize sizeofCacheManager + realSize (sizeofCache * cacheCount)

def slabctlCount (memoryLimit : Nat) : Nat :=
  u32 (sub64 (sub64 (memLimit memoryLimit) memTables) (2 * 8) /
    (slabSize + sizeofSlabCtl))

/-- `SLAB_SIZE*slabctl_count`, which is an `unsigned int`. -/
def regionSize (count : Nat) : Nat := u32 (slabSize * count)

/-- The state that `init_cache_manager` leaves, with the size of the region in 32 bits. -/
def started (sizes : List Nat) (count : Nat) : CacheManager :=
  { initialised sizes count with
    memMallocd := realSize sizeofCacheManager + realSize (sizeofCache * sizes.length) +
      realSize (sizeofSlabCtl * count) + realSize (regionSize count) }

/-- Below 4096 slabs the region has its full size. -/
theorem regionSize_eq {count : Nat} (h : count < 4096) : regionSize count = count * slabSize := by
  have hsize : slabSize = 1048576 := by decide
  rw [regionSize, u32, Nat.mul_comm, Nat.mod_eq_of_lt (by rw [hsize]; omega)]

theorem started_eq {sizes : List Nat} {count : Nat} (h : count < 4096) :
    started sizes count = initialised sizes count := by
  rw [started, regionSize_eq h, Nat.mul_comm count]
  rfl

/-- `none` is the return value 0. -/
def initCacheManager (memoryLimit : Nat) : Except Fault (Option Layout) :=
  let count := slabctlCount memoryLimit
  if count ≤ 1 then .ok none
  else
    let memMallocd := memTables + realSize (sizeofSlabCtl * count) +
      realSize (regionSize count)
    if memMallocd ≤ memLimit memoryLimit then
      .ok (some ⟨count, regionSize count, memMallocd, memLimit memoryLimit⟩)
    else .error .overLimit

/-- The address `scmalloc` computes for a chunk. -/
def chunkAddr (slabs nindex chunkSize ffindex : Nat) : Nat :=
  u64 (u64 (slabs + u32 (nindex * slabSize)) + u32 (chunkSize * ffindex))

/-- The slab and the chunk index `scfree` computes for an address. -/
def chunkOf (l : Layout) (slabs : Nat) (chunkSize : Nat → Nat) (addr : Nat) :
    Except Fault (Nat × Nat) :=
  let pdiff := u32 (sub64 addr slabs)
  if pdiff > u32 (u32 l.slabctlCount * slabSize) then .error .assertion
  else
    let sidx := pdiff / slabSize
    .ok (sidx, pdiff % slabSize / chunkSize sidx)

theorem chunkTable_ne_nil : chunkTable ≠ [] := by decide

theorem chunkTable_pairwise : chunkTable.Pairwise (· < ·) := by decide +kernel

theorem chunkTable_range :
    ∀ size ∈ chunkTable, minSlabChunkSize ≤ size ∧ size ≤ slabSize := by
  decide +kernel

/-- The classes of `init_cache_manager` start in the invariant of the allocator. -/
theorem slabInv_chunkTable {n : Nat} (hn : 0 < n) :
    SlabInv (initialised chunkTable n) ∅ :=
  slabInv_initialised chunkTable_ne_nil chunkTable_pairwise chunkTable_range hn

/-- The chunks of slab `s`. -/
def IsChunk (l : Layout) (chunkSize : Nat → Nat) (s k : Nat) : Prop :=
  s < l.slabctlCount ∧ k < slabSize / chunkSize s

/--
Whatever classes the slabs belong to, their chunks have disjoint ranges inside
the region, and `scfree` finds a chunk from its address.
-/
structure AddressesExact (l : Layout) (slabs : Nat) : Prop where
  covers : l.slabctlCount * slabSize ≤ l.regionSize
  inside : ∀ chunkSize : Nat → Nat, (∀ s, chunkSize s ∈ chunkTable) →
    ∀ s k, IsChunk l chunkSize s k →
      slabs ≤ chunkAddr slabs s (chunkSize s) k ∧
        chunkAddr slabs s (chunkSize s) k + chunkSize s ≤ slabs + l.regionSize
  disjoint : ∀ chunkSize : Nat → Nat, (∀ s, chunkSize s ∈ chunkTable) →
    ∀ s k s' k', IsChunk l chunkSize s k → IsChunk l chunkSize s' k' →
      (s, k) ≠ (s', k') →
      chunkAddr slabs s (chunkSize s) k + chunkSize s ≤
          chunkAddr slabs s' (chunkSize s') k' ∨
        chunkAddr slabs s' (chunkSize s') k' + chunkSize s' ≤
          chunkAddr slabs s (chunkSize s) k
  recovers : ∀ chunkSize : Nat → Nat, (∀ s, chunkSize s ∈ chunkTable) →
    ∀ s k, IsChunk l chunkSize s k →
      chunkOf l slabs chunkSize (chunkAddr slabs s (chunkSize s) k) = .ok (s, k)

section Exact

variable {l : Layout} {slabs s k : Nat} {chunkSize : Nat → Nat}

/-- The end of a chunk lies inside its slab. -/
theorem chunk_end_le (hk : k < slabSize / chunkSize s) :
    chunkSize s * k + chunkSize s ≤ slabSize := by
  rw [← Nat.mul_succ, Nat.mul_comm]
  exact (Nat.mul_le_mul_right _ hk).trans (Nat.div_mul_le_self _ _)

/-- Below 4096 slabs nothing wraps. -/
theorem chunkAddr_eq (hcount : l.slabctlCount < 4096)
    (hslabs : slabs + l.slabctlCount * slabSize ≤ 2 ^ 64)
    (hchunk : IsChunk l chunkSize s k) :
    chunkAddr slabs s (chunkSize s) k = slabs + s * slabSize + chunkSize s * k := by
  obtain ⟨hs, hk⟩ := hchunk
  have hpos : 0 < chunkSize s := Nat.pos_of_ne_zero fun hzero => by
    rw [hzero, Nat.div_zero] at hk
    exact Nat.not_lt_zero k hk
  have hend := chunk_end_le hk
  have hslab : (s + 1) * slabSize ≤ l.slabctlCount * slabSize :=
    Nat.mul_le_mul_right _ hs
  have hmax : l.slabctlCount * slabSize < 4096 * slabSize :=
    Nat.mul_lt_mul_of_pos_right hcount (by decide)
  have hsize : slabSize = 1048576 := by decide
  rw [Nat.succ_mul] at hslab
  rw [chunkAddr, u32, u32, u64, u64, Nat.mod_eq_of_lt (a := s * slabSize) (by omega),
    Nat.mod_eq_of_lt (a := chunkSize s * k) (by omega),
    Nat.mod_eq_of_lt (a := slabs + s * slabSize) (by omega),
    Nat.mod_eq_of_lt (by omega)]

theorem addressesExact_of_lt (hcount : l.slabctlCount < 4096)
    (hregion : l.regionSize = regionSize l.slabctlCount)
    (hslabs : slabs + l.regionSize ≤ 2 ^ 64) : AddressesExact l slabs := by
  have hsize : slabSize = 1048576 := by decide
  have hmax : l.slabctlCount * slabSize < 4096 * slabSize :=
    Nat.mul_lt_mul_of_pos_right hcount (by decide)
  have hexact : l.regionSize = l.slabctlCount * slabSize := by
    rw [hregion, regionSize, u32, Nat.mul_comm, Nat.mod_eq_of_lt (by omega)]
  have hpos : ∀ {chunkSize : Nat → Nat}, (∀ s, chunkSize s ∈ chunkTable) →
      ∀ s, 0 < chunkSize s := fun h s =>
    (by decide : 0 < minSlabChunkSize).trans_le (chunkTable_range _ (h s)).1
  rw [hexact] at hslabs
  have haddr : ∀ {chunkSize : Nat → Nat}, (∀ s, chunkSize s ∈ chunkTable) →
      ∀ {s k}, IsChunk l chunkSize s k → chunkAddr slabs s (chunkSize s) k =
        slabs + s * slabSize + chunkSize s * k := fun _ {_ _} =>
    chunkAddr_eq hcount hslabs
  have hslab : ∀ {s}, s < l.slabctlCount →
      s * slabSize + slabSize ≤ l.slabctlCount * slabSize := fun {s} hs => by
    rw [← Nat.succ_mul]
    exact Nat.mul_le_mul_right _ hs
  refine ⟨hexact.ge, fun chunkSize h s k hchunk => ?_,
    fun chunkSize h s k s' k' hchunk hchunk' hne => ?_,
    fun chunkSize h s k hchunk => ?_⟩
  · rw [haddr h hchunk]
    have := chunk_end_le hchunk.2
    have := hslab hchunk.1
    omega
  · rw [haddr h hchunk, haddr h hchunk']
    have hend := chunk_end_le hchunk.2
    have hend' := chunk_end_le hchunk'.2
    rcases Nat.lt_trichotomy s s' with hss | rfl | hss
    · have : s * slabSize + slabSize ≤ s' * slabSize := by
        rw [← Nat.succ_mul]
        exact Nat.mul_le_mul_right _ hss
      omega
    · rcases Nat.lt_trichotomy k k' with hkk | rfl | hkk
      · have : chunkSize s * k + chunkSize s ≤ chunkSize s * k' := by
          rw [← Nat.mul_succ]
          exact Nat.mul_le_mul_left _ hkk
        omega
      · exact absurd rfl hne
      · have : chunkSize s * k' + chunkSize s ≤ chunkSize s * k := by
          rw [← Nat.mul_succ]
          exact Nat.mul_le_mul_left _ hkk
        omega
    · have : s' * slabSize + slabSize ≤ s * slabSize := by
        rw [← Nat.succ_mul]
        exact Nat.mul_le_mul_right _ hss
      omega
  · rw [haddr h hchunk]
    have hend := chunk_end_le hchunk.2
    have hin := hslab hchunk.1
    have hp := hpos h s
    have hdiff : u32 (sub64 (slabs + s * slabSize + chunkSize s * k) slabs) =
        chunkSize s * k + s * slabSize := by
      rw [sub64, u64, u64, u32]
      omega
    have hlimit : u32 (u32 l.slabctlCount * slabSize) = l.slabctlCount * slabSize := by
      rw [u32, u32, Nat.mod_eq_of_lt (a := l.slabctlCount) (by omega),
        Nat.mod_eq_of_lt (by omega)]
    have hquot : (chunkSize s * k + s * slabSize) / slabSize = s := by
      rw [Nat.add_mul_div_right _ _ (by omega), Nat.div_eq_of_lt (by omega),
        Nat.zero_add]
    have hrem : (chunkSize s * k + s * slabSize) % slabSize = chunkSize s * k := by
      rw [Nat.add_mul_mod_self_right, Nat.mod_eq_of_lt (by omega)]
    rw [chunkOf, hdiff, hlimit]
    dsimp only
    rw [if_neg (by omega), hquot, hrem, Nat.mul_div_cancel_left _ hp]

theorem not_addressesExact_of_le (hcount : 4096 ≤ l.slabctlCount)
    (hregion : l.regionSize = regionSize l.slabctlCount) :
    ¬ AddressesExact l slabs := by
  intro h
  have hcovers := h.covers
  have hsize : slabSize = 1048576 := by decide
  rw [hregion, regionSize, u32, hsize] at hcovers
  omega

end Exact

theorem slabctlCount_eq {memoryLimit : Nat} (h : memTables ≤ memLimit memoryLimit) :
    slabctlCount memoryLimit =
      (memoryLimit * 2 ^ 20 % 2 ^ 64 - 1968) / 1055168 % 2 ^ 32 := by
  have hlimit : memLimit memoryLimit = memoryLimit * 2 ^ 20 % 2 ^ 64 := by
    rw [memLimit, u64, Nat.mul_assoc]
    rfl
  have htables : memTables = 1952 := by decide
  have hper : slabSize + sizeofSlabCtl = 1055168 := by decide
  rw [hlimit, htables] at h
  -- a limit that is not zero is at least one megabyte
  have hrest : sub64 (sub64 (memoryLimit * 2 ^ 20 % 2 ^ 64) 1952) (2 * 8) =
      memoryLimit * 2 ^ 20 % 2 ^ 64 - 1968 := by
    simp only [sub64, u64]
    omega
  rw [slabctlCount, hlimit, htables, hper, hrest, u32]

theorem initCacheManager_eq {memoryLimit : Nat} {l : Layout}
    (h : initCacheManager memoryLimit = .ok (some l)) :
    l.slabctlCount =
        (memoryLimit * 2 ^ 20 % 2 ^ 64 - 1968) / 1055168 % 2 ^ 32 ∧
      l.regionSize = regionSize l.slabctlCount := by
  rw [initCacheManager] at h
  dsimp only at h
  split at h
  · cases h
  split at h
  swap
  · cases h
  next _ hmem =>
    obtain rfl := Option.some.inj (Except.ok.inj h)
    exact ⟨slabctlCount_eq (by omega), rfl⟩

/--
The address arithmetic is exact just for the limits that give fewer than 4096
slabs: from there on the size of the region wraps.
-/
theorem addressesExact_iff {memoryLimit : Nat} {l : Layout}
    (hinit : initCacheManager memoryLimit = .ok (some l)) {slabs : Nat}
    (hslabs : slabs + l.regionSize ≤ 2 ^ 64) :
    AddressesExact l slabs ↔
      (memoryLimit * 2 ^ 20 % 2 ^ 64 - 1968) / 1055168 % 2 ^ 32 < 4096 := by
  obtain ⟨hcount, hregion⟩ := initCacheManager_eq hinit
  rw [← hcount]
  constructor
  · intro h
    by_contra hle
    exact not_addressesExact_of_le (not_lt.mp hle) hregion h
  · exact fun hlt => addressesExact_of_lt hlt hregion hslabs

/-- 100 MB make 99 slabs. -/
theorem addressesExact_iff_hundred :
    AddressesExact ⟨99, 103809024, 104463600, 104857600⟩ 4096 ↔
      (100 * 2 ^ 20 % 2 ^ 64 - 1968) / 1055168 % 2 ^ 32 < 4096 :=
  addressesExact_iff (by decide) (by decide)

/-- 4200 MB make 4173 slabs, and a region for 77 of them. -/
theorem addressesExact_fails_at_4200 :
    ∃ l, initCacheManager 4200 = .ok (some l) ∧ ¬ AddressesExact l 4096 := by
  refine ⟨⟨4173, 80740352, 108250736, 4404019200⟩, by decide, ?_⟩
  exact not_addressesExact_of_le (by decide) (by decide)

end Lightcache.Slab
