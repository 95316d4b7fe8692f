import Lightcache.Mem
import Lightcache.Slab.Address
import Mathlib.Tactic.Abel

/-!
# `slab.c`: setting the pool up, and giving it back

`init_cache_manager` and `deinit_cache_manager` on a system whose `malloc` may
return NULL at any call.  `malloci` keeps the size of every block in front of it
for `freei`, and `mem_mallocd` is the sum of these sizes.
-/

namespace Lightcache.Slab

open Lightcache Lightcache.Foundation

/-- `malloc` of the system: NULL, or a block that is not in use. -/
structure Libc where
  malloc : Finset Addr → Nat → Option Addr
  fresh : ∀ {s n a}, malloc s n = some a → a ∉ s

/-- `slab_stats` -/
structure SlabStats where
  memUsed : Nat
  memMallocd : Nat
  memLimit : Nat
  memUsedMetadata : Nat
  cacheCount : Nat
  slabCount : Nat
  deriving DecidableEq, Repr

/-- `*cm`, at the address `self`, with the blocks that hang on it. -/
structure Manager where
  self : Addr
  cacheCount : Nat
  caches : Option Addr
  slabctlCount : Nat
  slabCtls : Option Addr
  slabs : Option Addr
  deriving DecidableEq, Repr

/-- The globals of `slab.c`, and the blocks that `malloci` has taken with their sizes. -/
structure Globals where
  cm : Option Manager
  stats : SlabStats
  blocks : Finset Addr
  header : Addr → Nat

/-- The blocks of a manager. -/
def partsOf : Option Manager → Multiset Addr
  | none => 0
  | some m => ptrBlocks m.caches + (ptrBlocks m.slabCtls + (ptrBlocks m.slabs + {m.self}))

namespace Globals

/-- Before `main`. -/
def fresh : Globals := ⟨none, ⟨0, 0, 0, 0, 0, 0⟩, ∅, fun _ => 0⟩

def malloci (libc : Libc) (g : Globals) (size : Nat) : Option Addr × Globals :=
  match libc.malloc g.blocks (realSize size) with
  | none => (none, g)
  | some ptr =>
      (some ptr, { g with
        stats := { g.stats with memMallocd := g.stats.memMallocd + realSize size }
        blocks := insert ptr g.blocks
        header := Function.update g.header ptr (realSize size) })

def freei (g : Globals) : Option Addr → Except Fault Globals
  | none => .error .assertion
  | some ptr =>
      if ptr ∈ g.blocks then
        .ok { g with
          stats := { g.stats with memMallocd := g.stats.memMallocd - g.header ptr }
          blocks := g.blocks.erase ptr }
      else .error .badFree

/-- A field of the manager is released if it is not NULL. -/
def freeField (g : Globals) (ptr : Option Addr) : Except Fault Globals :=
  if ptr = none then .ok g else g.freei ptr

def deinitCacheManager (g : Globals) : Except Fault Globals :=
  match g.cm with
  | none => .ok g
  | some m => do
      let g ← g.freeField m.caches
      let g ← g.freeField m.slabCtls
      let g ← g.freeField m.slabs
      let g ← g.freei (some m.self)
      let g := { g with
        cm := none
        stats := { g.stats with
          memUsedMetadata := 0, memUsed := 0, memLimit := 0, cacheCount := 0, slabCount := 0 } }
      if g.stats.memMallocd = 0 then return g else .error .assertion

/-- What follows the label `err`. -/
def initErr (g : Globals) : Except Fault (Bool × Globals) := do
  let g ← g.deinitCacheManager
  return (false, g)

/-- `cm` points to a manager with these fields. -/
def put (g : Globals) (m : Manager) : Globals := { g with cm := some m }

def withStats (g : Globals) (f : SlabStats → SlabStats) : Globals :=
  { g with stats := f g.stats }

/-- From the allocation of the slabs on. -/
def initSlabs (libc : Libc) (g : Globals) (m : Manager) : Except Fault (Bool × Globals) :=
  match g.malloci libc (regionSize m.slabctlCount) with
  | (none, g) => g.initErr
  | (some slabs, g) =>
      if g.stats.memMallocd ≤ g.stats.memLimit then
        return (true, g.put { m with slabs := some slabs })
      else .error .overLimit

/-- From the allocation of the slab controls on. -/
def initSlabCtls (libc : Libc) (g : Globals) (m : Manager) : Except Fault (Bool × Globals) :=
  match g.malloci libc (sizeofSlabCtl * m.slabctlCount) with
  | (none, g) => g.initErr
  | (some slabCtls, g) =>
      let m := { m with slabCtls := some slabCtls }
      let g := g.withStats fun stats => { stats with memUsedMetadata := stats.memMallocd }
      initSlabs libc (g.put m) m

/-- `slabctl_count`, from what is left of the limit. -/
def countSlabs (g : Globals) : Nat :=
  u32 (sub64 (sub64 g.stats.memLimit g.stats.memMallocd) (2 * 8) / (slabSize + sizeofSlabCtl))

/-- From the allocation of the classes on. -/
def initCaches (libc : Libc) (g : Globals) (m : Manager) : Except Fault (Bool × Globals) :=
  match g.malloci libc (sizeofCache * m.cacheCount) with
  | (none, g) => g.initErr
  | (some caches, g) =>
      let m := { m with caches := some caches, slabctlCount := g.countSlabs }
      let g := g.put m
      if m.slabctlCount ≤ 1 then g.initErr
      else
        let g := g.withStats fun stats => { stats with slabCount := m.slabctlCount }
        initSlabCtls libc g m

/-- From the allocation of the manager on; the growth factor is 1.25. -/
def initManager (libc : Libc) (g : Globals) : Except Fault (Bool × Globals) :=
  match g.malloci libc sizeofCacheManager with
  | (none, g) => g.initErr
  | (some self, g) =>
      let m := ⟨self, cacheCount, none, 0, none, none⟩
      let g := g.put m
      initCaches libc (g.withStats fun stats => { stats with cacheCount := m.cacheCount }) m

def initCacheManager (libc : Libc) (g : Globals) (memoryLimit : Nat) :
    Except Fault (Bool × Globals) :=
  if g.cm ≠ none then g.initErr
  else initManager libc (g.withStats fun stats =>
    { stats with memLimit := memLimit memoryLimit })

end Globals

/-! ## What is taken, and what is given back -/

section Setup

variable {libc : Libc} {g g' : Globals} {m : Manager} {M : Multiset Addr} {p : Addr}
  {ptr : Option Addr} {n k : Nat}

/-- Just the blocks `M` are in use, each once, and `mem_mallocd` counts them. -/
structure Taken (g : Globals) (M : Multiset Addr) : Prop where
  blocks : g.blocks.val = M
  mallocd : g.stats.memMallocd = ∑ a ∈ g.blocks, g.header a

/-- There is no manager, and nothing is left of one. -/
structure Released (g : Globals) : Prop where
  cm : g.cm = none
  taken : Taken g 0

theorem malloci_none (h : g.malloci libc k = (none, g')) :
    g' = g ∧ ∃ s j, libc.malloc s j = none := by
  rw [Globals.malloci] at h
  cases hm : libc.malloc g.blocks (realSize k) with
  | none =>
      rw [hm] at h
      exact ⟨(Prod.mk.inj h).2.symm, _, _, hm⟩
  | some a =>
      rw [hm] at h
      cases h

theorem malloci_some (h : g.malloci libc k = (some p, g')) (ht : Taken g M) :
    Taken g' (p ::ₘ M) ∧
      g'.stats = { g.stats with memMallocd := g.stats.memMallocd + realSize k } := by
  rw [Globals.malloci] at h
  cases hm : libc.malloc g.blocks (realSize k) with
  | none =>
      rw [hm] at h
      cases h
  | some a =>
      rw [hm] at h
      obtain ⟨rfl, rfl⟩ : a = p ∧ _ = g' := by simpa using h
      have hnew := libc.fresh hm
      refine ⟨⟨?_, ?_⟩, rfl⟩
      · rw [Finset.insert_val_of_notMem hnew, ht.blocks]
      · change g.stats.memMallocd + realSize k =
          ∑ b ∈ insert a g.blocks, Function.update g.header a (realSize k) b
        rw [Finset.sum_insert hnew, Function.update_self, ht.mallocd, Nat.add_comm]
        refine congrArg (realSize k + ·) (Finset.sum_congr rfl fun b hb => ?_)
        rw [Function.update_of_ne (ne_of_mem_of_not_mem hb hnew)]

theorem Taken.freei (ht : Taken g (p ::ₘ M)) :
    ∃ g', g.freei (some p) = .ok g' ∧ Taken g' M ∧ g'.cm = g.cm := by
  have hp : p ∈ g.blocks := by
    rw [← Finset.mem_val, ht.blocks]
    exact Multiset.mem_cons_self ..
  refine ⟨_, if_pos hp, ⟨?_, ?_⟩, rfl⟩
  · rw [Finset.erase_val, ht.blocks, Multiset.erase_cons_head]
  · change g.stats.memMallocd - g.header p = _
    rw [ht.mallocd, ← Finset.add_sum_erase _ _ hp, Nat.add_sub_cancel_left]

theorem Taken.freeField (ht : Taken g (ptrBlocks ptr + M)) :
    ∃ g', g.freeField ptr = .ok g' ∧ Taken g' M ∧ g'.cm = g.cm := by
  cases ptr with
  | none => exact ⟨g, rfl, by simpa using ht, rfl⟩
  | some a =>
      rw [ptrBlocks_some, Multiset.singleton_add] at ht
      exact ht.freei

/-- `deinit_cache_manager` gives everything back, and finds nothing missing. -/
theorem Taken.deinitCacheManager (ht : Taken g (partsOf g.cm)) :
    ∃ g', g.deinitCacheManager = .ok g' ∧ Released g' := by
  rw [Globals.deinitCacheManager]
  cases hcm : g.cm with
  | none =>
      rw [hcm] at ht
      exact ⟨g, rfl, hcm, ht⟩
  | some m =>
      rw [hcm, partsOf] at ht
      obtain ⟨g₁, h₁, ht₁, -⟩ := ht.freeField
      obtain ⟨g₂, h₂, ht₂, -⟩ := ht₁.freeField
      obtain ⟨g₃, h₃, ht₃, -⟩ := ht₂.freeField
      rw [← Multiset.cons_zero] at ht₃
      obtain ⟨g₄, h₄, ht₄, -⟩ := ht₃.freei
      have hnone : g₄.blocks = ∅ := Finset.val_eq_zero.mp ht₄.blocks
      have hzero : g₄.stats.memMallocd = 0 := by rw [ht₄.mallocd, hnone, Finset.sum_empty]
      dsimp only
      rw [h₁, ok_bind, h₂, ok_bind, h₃, ok_bind, h₄, ok_bind, if_pos hzero]
      exact ⟨_, rfl, rfl, ht₄.blocks, ht₄.mallocd⟩

/-! ## The outcomes of `init_cache_manager` -/

/-- The pool that `init_cache_manager(n)` leaves, within the limit. -/
structure SetUp (n : Nat) (g : Globals) (m : Manager) : Prop where
  cm : g.cm = some m
  taken : Taken g (partsOf g.cm)
  complete : m.caches ≠ none ∧ m.slabCtls ≠ none ∧ m.slabs ≠ none
  cacheCount : m.cacheCount = Slab.cacheCount ∧ g.stats.cacheCount = Slab.cacheCount
  slabctlCount : m.slabctlCount = Slab.slabctlCount n ∧ g.stats.slabCount = m.slabctlCount
  several : 1 < m.slabctlCount
  memMallocd : g.stats.memMallocd = memTables + realSize (sizeofSlabCtl * m.slabctlCount) +
    realSize (regionSize m.slabctlCount)
  memLimit : g.stats.memLimit = Slab.memLimit n
  within : g.stats.memMallocd ≤ g.stats.memLimit

/-- Why there is no pool: the limit is too small for one, or the system had no memory. -/
def Refuses (libc : Libc) (n : Nat) : Prop :=
  slabctlCount n ≤ 1 ∨ ∃ s j, libc.malloc s j = none

/-- What `init_cache_manager(n)` returns, and the globals then. -/
structure Outcome (libc : Libc) (n : Nat) (r : Bool × Globals) : Prop where
  built : r.1 = true → ∃ m, SetUp n r.2 m
  refused : r.1 = false → Released r.2 ∧ Refuses libc n

/-- The last assertion of `init_cache_manager` fails just when the limit is 0. -/
def Overdrawn (n : Nat) (e : Fault) : Prop :=
  e = .overLimit ∧ 1 < slabctlCount n ∧ memLimit n = 0

theorem Taken.initErr (ht : Taken g (partsOf g.cm)) (hwhy : Refuses libc n) :
    Post g.initErr (Outcome libc n) (Overdrawn n) := by
  obtain ⟨g', hg', hreleased⟩ := ht.deinitCacheManager
  rw [Globals.initErr, hg', ok_bind]
  exact post_pure.mpr ⟨(fun h => by cases h), fun _ => ⟨hreleased, hwhy⟩⟩

/-- What is allocated for the slabs of a limit that is not 0 stays within it. -/
theorem mallocd_le_memLimit (hlimit : memLimit n ≠ 0) (hcount : 1 < slabctlCount n) :
    memTables + realSize (sizeofSlabCtl * slabctlCount n) +
      realSize (regionSize (slabctlCount n)) ≤ memLimit n := by
  have hbytes : memLimit n = n * 2 ^ 20 % 2 ^ 64 := by
    rw [memLimit, u64, Nat.mul_assoc]
    rfl
  have htables : memTables = 1952 := by decide
  -- a limit that is not 0 is at least one megabyte
  have heq : slabctlCount n = (n * 2 ^ 20 % 2 ^ 64 - 1968) / 1055168 % 2 ^ 32 :=
    slabctlCount_eq (by omega)
  have hle : slabctlCount n ≤ (n * 2 ^ 20 % 2 ^ 64 - 1968) / 1055168 := heq ▸ Nat.mod_le ..
  have hdiv := Nat.div_mul_le_self (n * 2 ^ 20 % 2 ^ 64 - 1968) 1055168
  have hregion : regionSize (slabctlCount n) ≤ 1048576 * slabctlCount n := Nat.mod_le ..
  clear heq
  have hctls : realSize (sizeofSlabCtl * slabctlCount n) = 6592 * slabctlCount n + 8 := rfl
  rw [hctls, realSize, hbytes, htables]
  omega

theorem Taken.put (ht : Taken g M) (m : Manager) (hM : M = partsOf (some m)) :
    Taken (g.put m) (partsOf (g.put m).cm) :=
  ⟨ht.blocks.trans hM, ht.mallocd⟩

theorem Taken.withStats (ht : Taken g M) {f : SlabStats → SlabStats}
    (hf : (f g.stats).memMallocd = g.stats.memMallocd) : Taken (g.withStats f) M :=
  ⟨ht.blocks, hf.trans ht.mallocd⟩

/-- The stage before the slabs are allocated. -/
structure Staged (n : Nat) (g : Globals) (m : Manager) : Prop where
  cm : g.cm = some m
  taken : Taken g (partsOf g.cm)
  cacheCount : m.cacheCount = Slab.cacheCount ∧ g.stats.cacheCount = Slab.cacheCount
  memLimit : g.stats.memLimit = Slab.memLimit n

/-- The number of slabs has been found. -/
structure Counted (n : Nat) (g : Globals) (m : Manager) : Prop extends Staged n g m where
  caches : m.caches ≠ none
  slabctlCount : m.slabctlCount = Slab.slabctlCount n ∧ g.stats.slabCount = m.slabctlCount
  several : 1 < m.slabctlCount

theorem Staged.counted (hs : Staged n g m) (hcaches : m.caches ≠ none)
    (hcount : m.slabctlCount = slabctlCount n) (hmany : 1 < m.slabctlCount) :
    Counted n (g.withStats fun stats => { stats with slabCount := m.slabctlCount }) m where
  cm := hs.cm
  taken := hs.taken.withStats rfl
  cacheCount := hs.cacheCount
  memLimit := hs.memLimit
  caches := hcaches
  slabctlCount := ⟨hcount, rfl⟩
  several := hmany

theorem Counted.initSlabs (hc : Counted n g m) (hslabs : m.slabs = none)
    (hctls : m.slabCtls ≠ none)
    (hmallocd : g.stats.memMallocd = memTables + realSize (sizeofSlabCtl * m.slabctlCount)) :
    Post (g.initSlabs libc m) (Outcome libc n) (Overdrawn n) := by
  rw [Globals.initSlabs]
  rcases hm : g.malloci libc (regionSize m.slabctlCount) with ⟨_ | slabs, g'⟩
  · obtain ⟨rfl, hnone⟩ := malloci_none hm
    exact hc.taken.initErr (.inr hnone)
  obtain ⟨ht', hstats⟩ := malloci_some hm hc.taken
  have hsum : g'.stats.memMallocd = memTables +
      realSize (sizeofSlabCtl * m.slabctlCount) + realSize (regionSize m.slabctlCount) := by
    rw [hstats, hmallocd]
  have hlim : g'.stats.memLimit = memLimit n := by rw [hstats, hc.memLimit]
  dsimp only
  split
  case isTrue hwithin =>
    have ht'' := ht'.put { m with slabs := some slabs } (by
      simp only [hc.cm, partsOf, hslabs, ptrBlocks_none, ptrBlocks_some,
        ← Multiset.singleton_add]
      abel)
    refine post_pure.mpr ⟨fun _ => ⟨_, rfl, ht'', ⟨hc.caches, hctls, by simp⟩,
      ⟨hc.cacheCount.1, ?_⟩, ⟨hc.slabctlCount.1, ?_⟩, hc.several, hsum, hlim, hwithin⟩,
      (fun h => by cases h)⟩
    · exact hstats ▸ hc.cacheCount.2
    · exact hstats ▸ hc.slabctlCount.2
  case isFalse hover =>
    have hmany := hc.several
    rw [hc.slabctlCount.1] at hmany hsum
    rw [hsum, hlim] at hover
    exact ⟨rfl, hmany, by_contra fun h => hover (mallocd_le_memLimit h hmany)⟩

theorem Counted.initSlabCtls (hc : Counted n g m) (hslabs : m.slabs = none)
    (hctls : m.slabCtls = none) (hmallocd : g.stats.memMallocd = memTables) :
    Post (g.initSlabCtls libc m) (Outcome libc n) (Overdrawn n) := by
  rw [Globals.initSlabCtls]
  rcases hm : g.malloci libc (sizeofSlabCtl * m.slabctlCount) with ⟨_ | slabCtls, g'⟩
  · obtain ⟨rfl, hnone⟩ := malloci_none hm
    exact hc.taken.initErr (.inr hnone)
  obtain ⟨ht', hstats⟩ := malloci_some hm hc.taken
  have hsum : g'.stats.memMallocd = memTables + realSize (sizeofSlabCtl * m.slabctlCount) := by
    rw [hstats, hmallocd]
  have hclasses : g'.stats.cacheCount = Slab.cacheCount := by rw [hstats, hc.cacheCount.2]
  have hlim : g'.stats.memLimit = Slab.memLimit n := by rw [hstats, hc.memLimit]
  have hslab : g'.stats.slabCount = m.slabctlCount := by rw [hstats, hc.slabctlCount.2]
  have hM : slabCtls ::ₘ partsOf g.cm =
      partsOf (some { m with slabCtls := some slabCtls }) := by
    simp only [hc.cm, partsOf, hctls, ptrBlocks_none, ptrBlocks_some,
      ← Multiset.singleton_add]
    abel
  exact Counted.initSlabs ⟨⟨rfl, (ht'.withStats rfl).put _ hM, ⟨hc.cacheCount.1, hclasses⟩, hlim⟩,
    hc.caches, ⟨hc.slabctlCount.1, hslab⟩, hc.several⟩ hslabs (by simp) hsum

/-- From a number of slabs on that is more than one. -/
theorem Staged.initSlabCtls (hs : Staged n g m) (hcaches : m.caches ≠ none)
    (hcount : m.slabctlCount = slabctlCount n) (hmany : 1 < m.slabctlCount)
    (hslabs : m.slabs = none) (hctls : m.slabCtls = none)
    (hmallocd : g.stats.memMallocd = memTables) :
    Post ((g.withStats fun stats => { stats with slabCount := m.slabctlCount }).initSlabCtls
      libc m) (Outcome libc n) (Overdrawn n) :=
  (hs.counted hcaches hcount hmany).initSlabCtls hslabs hctls hmallocd

theorem Staged.initCaches (hs : Staged n g m) (hcaches : m.caches = none)
    (hctls : m.slabCtls = none) (hslabs : m.slabs = none)
    (hmallocd : g.stats.memMallocd = realSize sizeofCacheManager) :
    Post (g.initCaches libc m) (Outcome libc n) (Overdrawn n) := by
  rw [Globals.initCaches]
  rcases hm : g.malloci libc (sizeofCache * m.cacheCount) with ⟨_ | caches, g'⟩
  · obtain ⟨rfl, hnone⟩ := malloci_none hm
    exact hs.taken.initErr (.inr hnone)
  obtain ⟨ht', hstats⟩ := malloci_some hm hs.taken
  have hsum : g'.stats.memMallocd = memTables := by
    rw [hstats, hmallocd, hs.cacheCount.1, memTables]
  have hclasses : g'.stats.cacheCount = Slab.cacheCount := by rw [hstats, hs.cacheCount.2]
  have hlim : g'.stats.memLimit = Slab.memLimit n := by rw [hstats, hs.memLimit]
  have hcount : g'.countSlabs = slabctlCount n := by
    rw [Globals.countSlabs, hsum, hlim, slabctlCount]
  have hM : ∀ k, caches ::ₘ partsOf g.cm =
      partsOf (some { m with caches := some caches, slabctlCount := k }) := fun k => by
    simp only [hs.cm, partsOf, hcaches, ptrBlocks_none, ptrBlocks_some,
      ← Multiset.singleton_add]
    abel
  dsimp only
  generalize g'.countSlabs = k at hcount
  have hs' : Staged n (g'.put { m with caches := some caches, slabctlCount := k })
      { m with caches := some caches, slabctlCount := k } :=
    ⟨rfl, ht'.put _ (hM k), ⟨hs.cacheCount.1, hclasses⟩, hlim⟩
  split
  case isTrue hfew => exact hs'.taken.initErr (.inl (by rw [← hcount]; exact hfew))
  case isFalse hmany =>
    exact hs'.initSlabCtls (by simp) hcount (Nat.lt_of_not_le hmany) hslabs hctls hsum

theorem Taken.staged (ht : Taken g (partsOf g.cm)) (hcm : g.cm = some m)
    (hcount : m.cacheCount = cacheCount) (hlimit : g.stats.memLimit = memLimit n) :
    Staged n (g.withStats fun stats => { stats with cacheCount := m.cacheCount }) m where
  cm := hcm
  taken := ht.withStats rfl
  cacheCount := ⟨hcount, hcount⟩
  memLimit := hlimit

/-- From the fields of a new manager on. -/
theorem Taken.initCaches (ht : Taken g (partsOf g.cm)) (hcm : g.cm = some m)
    (hcount : m.cacheCount = cacheCount) (hlimit : g.stats.memLimit = memLimit n)
    (hcaches : m.caches = none) (hctls : m.slabCtls = none) (hslabs : m.slabs = none)
    (hmallocd : g.stats.memMallocd = realSize sizeofCacheManager) :
    Post ((g.withStats fun stats => { stats with cacheCount := m.cacheCount }).initCaches libc m)
      (Outcome libc n) (Overdrawn n) :=
  (ht.staged hcm hcount hlimit).initCaches hcaches hctls hslabs hmallocd

theorem Released.initManager (hr : Released g) (hlimit : g.stats.memLimit = memLimit n) :
    Post (g.initManager libc) (Outcome libc n) (Overdrawn n) := by
  have ht : Taken g (partsOf g.cm) := by
    rw [hr.cm]
    exact hr.taken
  rw [Globals.initManager]
  rcases hm : g.malloci libc sizeofCacheManager with ⟨_ | self, g'⟩
  · obtain ⟨rfl, hnone⟩ := malloci_none hm
    exact ht.initErr (.inr hnone)
  obtain ⟨ht', hstats⟩ := malloci_some hm hr.taken
  have hzero : g.stats.memMallocd = 0 := by
    rw [hr.taken.mallocd, Finset.val_eq_zero.mp hr.taken.blocks, Finset.sum_empty]
  have hsum : g'.stats.memMallocd = realSize sizeofCacheManager := by
    rw [hstats, hzero, Nat.zero_add]
  have hlim : g'.stats.memLimit = memLimit n := by rw [hstats, hlimit]
  have hM : self ::ₘ 0 = partsOf (some ⟨self, Slab.cacheCount, none, 0, none, none⟩) := by
    simp [partsOf]
  exact (ht'.put _ hM).initCaches rfl rfl hlim rfl rfl rfl hsum

/-- Without a pool, `init_cache_manager` sets one up, or leaves nothing behind. -/
theorem Released.initCacheManager (hr : Released g) :
    Post (g.initCacheManager libc n) (Outcome libc n) (Overdrawn n) := by
  rw [Globals.initCacheManager, if_neg (not_not.mpr hr.cm)]
  exact Released.initManager ⟨hr.cm, hr.taken.withStats rfl⟩ rfl

/-! ## The pool that is set up -/

/-- What the globals say about the region. -/
def Globals.layout (g : Globals) : Layout :=
  ⟨g.stats.slabCount, regionSize g.stats.slabCount, g.stats.memMallocd, g.stats.memLimit⟩

/-- If `malloc` never fails, the outcome is the one that the sizes decide. -/
theorem Released.layout (hr : Released g) (hlibc : ∀ s j, libc.malloc s j ≠ none) (n : Nat) :
    (g.initCacheManager libc n).map (fun r => if r.1 then some r.2.layout else none) =
      Slab.initCacheManager n := by
  have hpost : Post (g.initCacheManager libc n) (Outcome libc n) (Overdrawn n) :=
    hr.initCacheManager
  rw [Slab.initCacheManager]
  dsimp only
  rcases hrun : g.initCacheManager libc n with e | ⟨_ | _, g'⟩ <;> rw [hrun] at hpost
  · obtain ⟨rfl, hmany, hzero⟩ := hpost
    rw [if_neg (by omega), if_neg (by rw [hzero, realSize]; omega)]
    rfl
  · have hfew : slabctlCount n ≤ 1 := by
      rcases (hpost.refused rfl).2 with h | ⟨s, j, h⟩
      · exact h
      · exact absurd h (hlibc s j)
    rw [if_pos hfew]
    rfl
  · obtain ⟨m, hs⟩ := hpost.built rfl
    have hmany := hs.several
    have hsum := hs.memMallocd
    have hwithin := hs.within
    rw [hs.slabctlCount.1] at hmany hsum
    rw [hsum, hs.memLimit] at hwithin
    rw [if_neg (by omega), if_pos hwithin]
    change Except.ok (some g'.layout) = _
    rw [Globals.layout, hs.slabctlCount.2, hs.slabctlCount.1, hsum, hs.memLimit]

/-- The account of the pool is that of the model. -/
theorem SetUp.started (hs : SetUp n g m) :
    g.stats.memMallocd = (Slab.started chunkTable m.slabctlCount).memMallocd := by
  have hlength : chunkTable.length = Slab.cacheCount := by decide
  rw [hs.memMallocd, memTables, Slab.started, hlength]

/-! ## When a pool is set up -/

/-- The system grants blocks of these sizes, one after another. -/
def grants (libc : Libc) : Finset Addr → List Nat → Bool
  | _, [] => true
  | blocks, size :: sizes =>
      match libc.malloc blocks (realSize size) with
      | none => false
      | some ptr => grants libc (insert ptr blocks) sizes

/-- The four blocks of a pool. -/
def poolSizes (memoryLimit : Nat) : List Nat :=
  [sizeofCacheManager, sizeofCache * cacheCount, sizeofSlabCtl * slabctlCount memoryLimit,
    regionSize (slabctlCount memoryLimit)]

theorem initErr_false : Ensures g.initErr fun r => r.1 = false :=
  (ensures_true _).bind fun _ _ => rfl

/-- What a request that `malloci` makes says about the rest of them. -/
theorem malloci_grants (sizes : List Nat) (h : g.malloci libc k = (ptr, g')) :
    ptr = none ∧ grants libc g.blocks (k :: sizes) = false ∨
      (∃ p, ptr = some p) ∧ grants libc g.blocks (k :: sizes) = grants libc g'.blocks sizes ∧
        g'.stats = { g.stats with memMallocd := g.stats.memMallocd + realSize k } := by
  rw [Globals.malloci] at h
  rw [grants]
  cases hm : libc.malloc g.blocks (realSize k) with
  | none =>
      rw [hm] at h
      exact .inl ⟨(Prod.mk.inj h).1.symm, rfl⟩
  | some p =>
      rw [hm] at h
      obtain ⟨rfl, rfl⟩ := Prod.mk.inj h
      exact .inr ⟨⟨p, rfl⟩, rfl, rfl⟩

theorem initSlabs_true : Ensures (g.initSlabs libc m) fun r =>
    r.1 = true ↔ grants libc g.blocks [regionSize m.slabctlCount] = true := by
  rw [Globals.initSlabs]
  rcases hm : g.malloci libc (regionSize m.slabctlCount) with ⟨ptr, g'⟩
  rcases malloci_grants [] hm with ⟨rfl, hgrants⟩ | ⟨⟨p, rfl⟩, hgrants, -⟩
  · exact initErr_false.imp fun r hr => by simp [hr, hgrants]
  · dsimp only
    split
    · exact ensures_ok.mpr (iff_of_true rfl hgrants)
    · trivial

theorem initSlabCtls_true : Ensures (g.initSlabCtls libc m) fun r =>
    r.1 = true ↔ grants libc g.blocks
      [sizeofSlabCtl * m.slabctlCount, regionSize m.slabctlCount] = true := by
  rw [Globals.initSlabCtls]
  rcases hm : g.malloci libc (sizeofSlabCtl * m.slabctlCount) with ⟨ptr, g'⟩
  rcases malloci_grants [regionSize m.slabctlCount] hm with
    ⟨rfl, hgrants⟩ | ⟨⟨p, rfl⟩, hgrants, -⟩
  · exact initErr_false.imp fun r hr => by simp [hr, hgrants]
  · rw [hgrants]
    exact initSlabs_true

theorem initCaches_true (hmallocd : g.stats.memMallocd = realSize sizeofCacheManager)
    (hlimit : g.stats.memLimit = memLimit n) (hcount : m.cacheCount = cacheCount) :
    Ensures (g.initCaches libc m) fun r => r.1 = true ↔ 1 < slabctlCount n ∧
      grants libc g.blocks [sizeofCache * cacheCount, sizeofSlabCtl * slabctlCount n,
        regionSize (slabctlCount n)] = true := by
  rw [Globals.initCaches, hcount]
  rcases hm : g.malloci libc (sizeofCache * cacheCount) with ⟨ptr, g'⟩
  rcases malloci_grants [sizeofSlabCtl * slabctlCount n, regionSize (slabctlCount n)] hm
    with ⟨rfl, hgrants⟩ | ⟨⟨p, rfl⟩, hgrants, hstats⟩
  · exact initErr_false.imp fun r hr => by simp [hr, hgrants]
  have hslabs : g'.countSlabs = slabctlCount n := by
    rw [Globals.countSlabs, hstats, hmallocd, hlimit, slabctlCount, memTables]
  rw [hgrants]
  dsimp only
  rw [hslabs]
  split
  case isTrue hfew => exact initErr_false.imp fun r hr => by simp [hr, hfew]
  case isFalse hmany =>
    exact initSlabCtls_true.imp fun r hr => hr.trans (and_iff_right (Nat.lt_of_not_le hmany)).symm

/-- There is a pool if it has several slabs, and the system grants its blocks. -/
theorem initCacheManager_true (libc : Libc) (n : Nat) :
    Ensures (Globals.fresh.initCacheManager libc n) fun r =>
      r.1 = true ↔ 1 < slabctlCount n ∧ grants libc ∅ (poolSizes n) = true := by
  change Ensures (Globals.initManager libc _) _
  rw [Globals.initManager, poolSizes]
  rcases hm : Globals.malloci libc _ sizeofCacheManager with ⟨ptr, g⟩
  rcases malloci_grants [sizeofCache * cacheCount, sizeofSlabCtl * slabctlCount n,
    regionSize (slabctlCount n)] hm with ⟨rfl, hgrants⟩ | ⟨⟨p, rfl⟩, hgrants, hstats⟩
  · exact initErr_false.imp fun r hr => iff_of_false (by simp [hr]) fun h =>
      Bool.false_ne_true (hgrants.symm.trans h.2)
  · refine (initCaches_true (n := n) ?_ ?_ rfl).imp fun r hr => hr.trans ?_
    · exact congrArg SlabStats.memMallocd hstats
    · exact congrArg SlabStats.memLimit hstats
    · exact and_congr_right fun _ => (Bool.eq_iff_iff.mp hgrants).symm

/-! ## Any calls, with any failures -/

inductive SetupCall where
  | init (memoryLimit : Nat)
  | deinit

/-- The call, without what it returns. -/
def setupCall (libc : Libc) (g : Globals) : SetupCall → Except Fault Globals
  | .init memoryLimit => do
      let r ← g.initCacheManager libc memoryLimit
      return r.2
  | .deinit => g.deinitCacheManager

/-- There is a whole pool within its limit, or nothing at all. -/
def Whole (g : Globals) : Prop := Released g ∨ ∃ n m, SetUp n g m

theorem Whole.taken (h : Whole g) : Taken g (partsOf g.cm) := by
  rcases h with hr | ⟨n, m, hs⟩
  · rw [hr.cm]
    exact hr.taken
  · exact hs.taken

theorem Outcome.whole {r : Bool × Globals} (h : Outcome libc n r) : Whole r.2 := by
  cases hr : r.1 with
  | false => exact .inl (h.refused hr).1
  | true => exact .inr ⟨n, h.built hr⟩

/-- The assertion that fails is the last one, in a first `init_cache_manager`. -/
theorem Whole.call (h : Whole g) (call : SetupCall) : Post (setupCall libc g call) Whole
    fun e => ∃ n, call = .init n ∧ Released g ∧ Overdrawn n e := by
  cases call with
  | deinit =>
      obtain ⟨g', hg', hr⟩ := h.taken.deinitCacheManager
      rw [setupCall, hg']
      exact .inl hr
  | init n =>
      rw [setupCall]
      refine Post.bind (P := fun r => Whole r.2) ?_ fun r hr => post_pure.mpr hr
      rcases h with hr | ⟨k, m, hs⟩
      · exact hr.initCacheManager.mono (fun r hr => hr.whole) fun e he => ⟨n, rfl, hr, he⟩
      · -- a second pool is refused, and the first one is released
        obtain ⟨g', hg', hr⟩ := hs.taken.deinitCacheManager
        rw [Globals.initCacheManager, if_pos (by rw [hs.cm]; simp), Globals.initErr, hg']
        exact .inl hr

theorem released_fresh : Released .fresh := ⟨rfl, rfl, rfl⟩

theorem whole_run (libc : Libc) (calls : List SetupCall) :
    Ensures (run (setupCall libc) .fresh calls) Whole :=
  run_ensures (fun _ call hg => (hg.call call).mono (fun _ h => h) fun _ _ => trivial)
    (.inl released_fresh) calls

end Setup

end Lightcache.Slab
