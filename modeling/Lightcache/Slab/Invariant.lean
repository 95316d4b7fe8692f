import Lightcache.Slab.Listed
import Lightcache.Slab.Search
import Mathlib.Algebra.BigOperators.Fin
import Mathlib.Algebra.Order.BigOperators.Group.Finset

/-!
# The invariant of the slab allocator

`live` is the set of addresses that were handed out and not taken back.  The
bitmap, the use counter and the memory counter all speak about it, and the list
a slab is on follows from its use counter.
-/

namespace Lightcache.Slab

open Lightcache Lightcache.Foundation

namespace CacheManager

/-- The class a slab belongs to; one without any holds no chunks. -/
def classOf (cm : CacheManager) (slab : Nat) : Cache :=
  match (cm.slabCtls slab).cache with
  | none => ⟨0, 0⟩
  | some c => cm.caches c

/-- The address of a chunk. -/
def ptr (cm : CacheManager) (slab k : Nat) : SlabPtr :=
  ⟨slab, (cm.classOf slab).chunkSize * k⟩

/-- The list a slab belongs on. -/
def homeOf (caches : Nat → Cache) (ctl : SlabCtl) : ListId :=
  match ctl.cache with
  | none => .slabsFree
  | some c =>
      if ctl.nused = 0 then .slabsFree
      else if ctl.nused = (caches c).chunkCountPerslab then .slabsFull c
      else .slabsPartial c

def homes (cm : CacheManager) (slab : Nat) : Option ListId :=
  if slab < cm.slabctlCount then some (homeOf cm.caches (cm.slabCtls slab)) else none

end CacheManager

/-- The table of classes. -/
structure Classes (cm : CacheManager) : Prop where
  pos : 0 < cm.cacheCount
  mono : ∀ i j, i < j → j < cm.cacheCount →
    (cm.caches i).chunkSize < (cm.caches j).chunkSize
  low : ∀ i < cm.cacheCount, minSlabChunkSize ≤ (cm.caches i).chunkSize
  high : ∀ i < cm.cacheCount, (cm.caches i).chunkSize ≤ slabSize
  count : ∀ i < cm.cacheCount,
    (cm.caches i).chunkCountPerslab = slabSize / (cm.caches i).chunkSize

/-- The bitmaps and counters, for the given set of live addresses. -/
structure Slots (cm : CacheManager) (live : Finset SlabPtr) : Prop where
  nindex : ∀ i < cm.slabctlCount, (cm.slabCtls i).nindex = i
  classed : ∀ i < cm.slabctlCount, ∀ c, (cm.slabCtls i).cache = some c →
    c < cm.cacheCount
  owned : ∀ p ∈ live, p.slab < cm.slabctlCount ∧
    ∃ k < (cm.classOf p.slab).chunkCountPerslab, p = cm.ptr p.slab k
  bits : ∀ i < cm.slabctlCount, ∀ k < wordCount * wordSizeInBits,
    ((cm.slabCtls i).slots.free k = false ↔ cm.ptr i k ∈ live ∧
      k < (cm.classOf i).chunkCountPerslab)
  nused : ∀ i < cm.slabctlCount,
    (cm.slabCtls i).nused = (live.filter fun p => p.slab = i).card
  memUsed : cm.memUsed = ∑ p ∈ live, (cm.classOf p.slab).chunkSize
  mallocd : cm.slabctlCount * slabSize ≤ cm.memMallocd

structure SlabInv (cm : CacheManager) (live : Finset SlabPtr) : Prop where
  classes : Classes cm
  slots : Slots cm live
  listed : Listed cm cm.homes

/-! ## The table of classes -/

namespace Classes

variable {cm : CacheManager} {c : Nat}

theorem chunkSize_pos (h : Classes cm) (hc : c < cm.cacheCount) :
    0 < (cm.caches c).chunkSize :=
  (by decide : 0 < minSlabChunkSize).trans_le (h.low c hc)

theorem chunkCount_pos (h : Classes cm) (hc : c < cm.cacheCount) :
    0 < (cm.caches c).chunkCountPerslab := by
  rw [h.count c hc]
  exact Nat.div_pos (h.high c hc) (h.chunkSize_pos hc)

theorem chunkCount_mul_le (h : Classes cm) (hc : c < cm.cacheCount) :
    (cm.caches c).chunkCountPerslab * (cm.caches c).chunkSize ≤ slabSize := by
  rw [h.count c hc]
  exact Nat.div_mul_le_self _ _

theorem chunkCount_le (h : Classes cm) (hc : c < cm.cacheCount) :
    (cm.caches c).chunkCountPerslab ≤ wordCount * wordSizeInBits := by
  rw [h.count c hc]
  refine (Nat.div_le_div_left (h.low c hc) (by decide)).trans ?_
  decide

/-- A class is at least as large as its index, so there are not many. -/
theorem cacheCount_le (h : Classes cm) : cm.cacheCount ≤ 2 ^ 30 := by
  have hle : ∀ i < cm.cacheCount, i ≤ (cm.caches i).chunkSize := by
    intro i
    induction i with
    | zero => exact fun _ => Nat.zero_le _
    | succ i ih =>
        intro hi
        have := ih (by omega)
        have := h.mono i (i + 1) (Nat.lt_succ_self i) hi
        omega
  have hpos := h.pos
  have hlast := hle (cm.cacheCount - 1) (by omega)
  have hhigh := h.high (cm.cacheCount - 1) (by omega)
  have : slabSize = 1048576 := by decide
  omega

end Classes

/-! ## Bitmaps and counters -/

section ClassOf

variable {cm : CacheManager} {i k l c : Nat}

theorem classOf_eq (hc : (cm.slabCtls i).cache = some c) :
    cm.classOf i = cm.caches c := by
  rw [CacheManager.classOf, hc]

theorem ptr_inj (hpos : 0 < (cm.classOf i).chunkSize) (h : cm.ptr i k = cm.ptr i l) :
    k = l :=
  Nat.eq_of_mul_eq_mul_left hpos (congrArg SlabPtr.offset h)

end ClassOf

namespace Slots

variable {cm : CacheManager} {live : Finset SlabPtr} {s c b : Nat} {slots : Bitset}

theorem onlyLists {cm' : CacheManager} (h : Slots cm live) (hl : OnlyLists cm cm') :
    Slots cm' live := by
  obtain ⟨link, lists, rfl⟩ := hl
  exact ⟨h.nindex, h.classed, h.owned, h.bits, h.nused, h.memUsed, h.mallocd⟩

theorem nused_le (h : Slots cm live) (hs : s < cm.slabctlCount) :
    (cm.slabCtls s).nused ≤ (cm.classOf s).chunkCountPerslab := by
  rw [h.nused s hs, ← Finset.card_range (cm.classOf s).chunkCountPerslab]
  refine (Finset.card_le_card (t := (Finset.range _).image (cm.ptr s)) ?_).trans
    Finset.card_image_le
  intro p hp
  obtain ⟨hlive, rfl⟩ := Finset.mem_filter.mp hp
  obtain ⟨-, k, hk, heq⟩ := h.owned p hlive
  exact Finset.mem_image.mpr ⟨k, Finset.mem_range.mpr hk, heq.symm⟩

/-- A slab in use that is not full has a free chunk below its chunk count. -/
theorem exists_free (h : Slots cm live) (hs : s < cm.slabctlCount)
    (hpos : 0 < (cm.classOf s).chunkSize)
    (hcount : (cm.classOf s).chunkCountPerslab ≤ wordCount * wordSizeInBits)
    (hroom : (cm.slabCtls s).nused < (cm.classOf s).chunkCountPerslab) :
    ∃ k < (cm.classOf s).chunkCountPerslab, (cm.slabCtls s).slots.free k = true := by
  by_contra hnone
  rw [h.nused s hs] at hroom
  have hsub : (Finset.range (cm.classOf s).chunkCountPerslab).image (cm.ptr s) ⊆
      live.filter fun p => p.slab = s := by
    intro p hp
    obtain ⟨k, hk, rfl⟩ := Finset.mem_image.mp hp
    rw [Finset.mem_range] at hk
    have hused : (cm.slabCtls s).slots.free k = false :=
      Bool.eq_false_iff.mpr fun hfree => hnone ⟨k, hk, hfree⟩
    exact Finset.mem_filter.mpr ⟨((h.bits s hs k (hk.trans_le hcount)).mp hused).1, rfl⟩
  have hcard := Finset.card_le_card hsub
  rw [Finset.card_image_of_injective _ fun k l => ptr_inj hpos, Finset.card_range] at hcard
  omega

theorem memUsed_le (h : Slots cm live) (hcl : Classes cm) :
    cm.memUsed ≤ cm.slabctlCount * slabSize := by
  have hmaps : ∀ p ∈ live, p.slab ∈ Finset.range cm.slabctlCount := fun p hp =>
    Finset.mem_range.mpr (h.owned p hp).1
  rw [h.memUsed, ← Finset.sum_fiberwise_of_maps_to hmaps]
  refine (Finset.sum_le_card_nsmul _ _ slabSize fun i hi => ?_).trans
    (by rw [Finset.card_range, smul_eq_mul])
  have hi' := Finset.mem_range.mp hi
  rw [Finset.sum_congr rfl fun p hp => by rw [(Finset.mem_filter.mp hp).2],
    Finset.sum_const, smul_eq_mul, ← h.nused i hi']
  refine (Nat.mul_le_mul_right _ (h.nused_le hi')).trans ?_
  cases hc : (cm.slabCtls i).cache with
  | none => simp [CacheManager.classOf, hc]
  | some c =>
      rw [classOf_eq hc]
      exact hcl.chunkCount_mul_le (h.classed i hi' c hc)

/-! ### One slab changes -/

/-- `cm` with a new control for slab `s` and a new memory counter. -/
def setCtl (cm : CacheManager) (s : Nat) (ctl : SlabCtl) (memUsed : Nat) :
    CacheManager :=
  { cm with slabCtls := Function.update cm.slabCtls s ctl, memUsed := memUsed }

@[simp] theorem setCtl_self (ctl : SlabCtl) (n : Nat) :
    (setCtl cm s ctl n).slabCtls s = ctl := Function.update_self ..

theorem setCtl_of_ne (ctl : SlabCtl) (n : Nat) {i : Nat} (hi : i ≠ s) :
    (setCtl cm s ctl n).slabCtls i = cm.slabCtls i := Function.update_of_ne hi ..

theorem classOf_setCtl_of_ne (ctl : SlabCtl) (n : Nat) {i : Nat} (hi : i ≠ s) :
    (setCtl cm s ctl n).classOf i = cm.classOf i := by
  simp only [CacheManager.classOf, setCtl_of_ne ctl n hi]
  rfl

theorem classOf_setCtl {ctl : SlabCtl} {n : Nat} (hc : ctl.cache = some c) :
    (setCtl cm s ctl n).classOf s = cm.caches c := by
  rw [CacheManager.classOf, setCtl_self, hc]
  rfl

theorem change (h : Slots cm live) (hs : s < cm.slabctlCount) {ctl : SlabCtl}
    {memUsed : Nat} {live' : Finset SlabPtr} (hnindex : ctl.nindex = s)
    (hcache : ctl.cache = some c) (hc : c < cm.cacheCount)
    (hother : ∀ p, p.slab ≠ s → (p ∈ live' ↔ p ∈ live))
    (howned : ∀ p ∈ live', p.slab = s →
      ∃ k < (cm.caches c).chunkCountPerslab, p = ⟨s, (cm.caches c).chunkSize * k⟩)
    (hbits : ∀ k < wordCount * wordSizeInBits, (ctl.slots.free k = false ↔
      ⟨s, (cm.caches c).chunkSize * k⟩ ∈ live' ∧
        k < (cm.caches c).chunkCountPerslab))
    (hnused : ctl.nused = (live'.filter fun p => p.slab = s).card)
    (hmem : memUsed =
      ∑ p ∈ live', ((setCtl cm s ctl memUsed).classOf p.slab).chunkSize) :
    Slots (setCtl cm s ctl memUsed) live' where
  nindex := by
    intro i hi
    by_cases his : i = s
    · rw [his, setCtl_self, hnindex]
    · rw [setCtl_of_ne _ _ his]
      exact h.nindex i hi
  classed := by
    intro i hi d hd
    by_cases his : i = s
    · rw [his, setCtl_self, hcache] at hd
      exact Option.some.inj hd ▸ hc
    · rw [setCtl_of_ne _ _ his] at hd
      exact h.classed i hi d hd
  owned := by
    intro p hp
    by_cases hps : p.slab = s
    · obtain ⟨k, hk, hpk⟩ := howned p hp hps
      refine ⟨hps ▸ hs, k, ?_, ?_⟩
      · rwa [hps, classOf_setCtl hcache]
      · rw [CacheManager.ptr, hps, classOf_setCtl hcache]
        exact hpk
    · obtain ⟨hlt, k, hk, hpk⟩ := h.owned p ((hother p hps).mp hp)
      refine ⟨hlt, k, ?_, ?_⟩
      · rwa [classOf_setCtl_of_ne _ _ hps]
      · rwa [CacheManager.ptr, classOf_setCtl_of_ne _ _ hps]
  bits := by
    intro i hi k hk
    by_cases his : i = s
    · rw [his, setCtl_self, CacheManager.ptr, classOf_setCtl hcache]
      exact hbits k hk
    · rw [setCtl_of_ne _ _ his, CacheManager.ptr, classOf_setCtl_of_ne _ _ his,
        hother _ his]
      exact h.bits i hi k hk
  nused := by
    intro i hi
    by_cases his : i = s
    · rw [his, setCtl_self, hnused]
    · rw [setCtl_of_ne _ _ his, h.nused i hi]
      congr 1
      refine Finset.ext fun p => ?_
      simp only [Finset.mem_filter]
      refine and_congr_left fun hpi => (hother p ?_).symm
      rwa [hpi]
  memUsed := hmem
  mallocd := h.mallocd

theorem notMem_of_nused_eq_zero (h : Slots cm live) (hs : s < cm.slabctlCount)
    (hempty : (cm.slabCtls s).nused = 0) : ∀ p ∈ live, p.slab ≠ s := by
  intro p hp hps
  have hcard := h.nused s hs
  rw [hempty, eq_comm, Finset.card_eq_zero] at hcard
  have hmem : p ∈ live.filter fun p => p.slab = s := Finset.mem_filter.mpr ⟨hp, hps⟩
  simp [hcard] at hmem

/-- A slab without live chunks may change its class. -/
theorem setCache (h : Slots cm live) (hs : s < cm.slabctlCount)
    (hc : c < cm.cacheCount) (hempty : (cm.slabCtls s).nused = 0) :
    Slots (setCtl cm s { cm.slabCtls s with cache := some c } cm.memUsed) live := by
  have hnone := h.notMem_of_nused_eq_zero hs hempty
  refine h.change hs (h.nindex s hs) rfl hc (fun _ _ => Iff.rfl)
    (fun p hp hps => absurd hps (hnone p hp)) (fun k hk => ?_) (h.nused s hs) ?_
  · have hbit := h.bits s hs k hk
    constructor
    · intro hused
      exact absurd rfl (hnone _ (hbit.mp hused).1)
    · rintro ⟨hmem, -⟩
      exact absurd rfl (hnone _ hmem)
  · rw [h.memUsed]
    refine Finset.sum_congr rfl fun p hp => ?_
    rw [classOf_setCtl_of_ne _ _ (hnone p hp)]

theorem classOf_same {ctl : SlabCtl} {n : Nat}
    (hcache : ctl.cache = (cm.slabCtls s).cache) (i : Nat) :
    (setCtl cm s ctl n).classOf i = cm.classOf i := by
  by_cases his : i = s
  · subst his
    simp only [CacheManager.classOf, setCtl_self, hcache]
    rfl
  · exact classOf_setCtl_of_ne ctl n his

theorem sum_classOf_same (L : Finset SlabPtr) {ctl : SlabCtl} {n : Nat}
    (hcache : ctl.cache = (cm.slabCtls s).cache) :
    ∑ p ∈ L, ((setCtl cm s ctl n).classOf p.slab).chunkSize =
      ∑ p ∈ L, (cm.classOf p.slab).chunkSize :=
  Finset.sum_congr rfl fun p _ => by rw [classOf_same hcache]

/-- Handing out the free chunk `b`. -/
theorem take (h : Slots cm live) (hs : s < cm.slabctlCount)
    (hcache : (cm.slabCtls s).cache = some c) (hc : c < cm.cacheCount)
    (hpos : 0 < (cm.caches c).chunkSize)
    (hfree : (cm.slabCtls s).slots.free b = true)
    (hb : b < (cm.caches c).chunkCountPerslab)
    (hbound : (cm.caches c).chunkCountPerslab ≤ wordCount * wordSizeInBits)
    (hslots : ∀ k, slots.free k =
      (!decide (k = b) && (cm.slabCtls s).slots.free k)) :
    (⟨s, (cm.caches c).chunkSize * b⟩ : SlabPtr) ∉ live ∧
      Slots (setCtl cm s
        { cm.slabCtls s with slots := slots, nused := (cm.slabCtls s).nused + 1 }
        (cm.memUsed + (cm.caches c).chunkSize))
        (insert ⟨s, (cm.caches c).chunkSize * b⟩ live) := by
  have hclass := classOf_eq hcache
  have hnew : (⟨s, (cm.caches c).chunkSize * b⟩ : SlabPtr) ∉ live := fun hmem => by
    have := (h.bits s hs b (hb.trans_le hbound)).mpr
      ⟨by rwa [CacheManager.ptr, hclass], by rwa [hclass]⟩
    simp [this] at hfree
  refine ⟨hnew, h.change hs (h.nindex s hs) hcache hc (fun p hp => ?_)
    (fun p hp hps => ?_) (fun k hk => ?_) ?_ ?_⟩
  · have hne : p ≠ ⟨s, (cm.caches c).chunkSize * b⟩ := fun heq => hp (by rw [heq])
    simp [hne]
  · rcases Finset.mem_insert.mp hp with rfl | hp
    · exact ⟨b, hb, rfl⟩
    · obtain ⟨-, k, hk, hpk⟩ := h.owned p hp
      rw [hps, hclass] at hk
      rw [hps, CacheManager.ptr, hclass] at hpk
      exact ⟨k, hk, hpk⟩
  · have hbit := h.bits s hs k hk
    rw [CacheManager.ptr, hclass] at hbit
    dsimp only
    rw [hslots, Finset.mem_insert]
    by_cases hkb : k = b
    · simp [hkb, hb]
    · have hne : (⟨s, (cm.caches c).chunkSize * k⟩ : SlabPtr) ≠
          ⟨s, (cm.caches c).chunkSize * b⟩ := fun heq =>
        hkb (Nat.eq_of_mul_eq_mul_left hpos (congrArg SlabPtr.offset heq))
      simpa [hkb, hne] using hbit
  · dsimp only
    rw [Finset.filter_insert, if_pos rfl, Finset.card_insert_of_notMem, h.nused s hs]
    exact fun hmem => hnew (Finset.mem_filter.mp hmem).1
  · rw [sum_classOf_same _ (by rfl), Finset.sum_insert hnew, hclass, h.memUsed, Nat.add_comm]

/-- Taking back the live chunk `b`. -/
theorem give (h : Slots cm live) (hs : s < cm.slabctlCount)
    (hcache : (cm.slabCtls s).cache = some c) (hc : c < cm.cacheCount)
    (hpos : 0 < (cm.caches c).chunkSize)
    (hlive : (⟨s, (cm.caches c).chunkSize * b⟩ : SlabPtr) ∈ live)
    (hslots : ∀ k, slots.free k =
      (decide (k = b) || (cm.slabCtls s).slots.free k)) :
    Slots (setCtl cm s
      { cm.slabCtls s with slots := slots, nused := (cm.slabCtls s).nused - 1 }
      (cm.memUsed - (cm.caches c).chunkSize))
      (live.erase ⟨s, (cm.caches c).chunkSize * b⟩) := by
  have hclass := classOf_eq hcache
  refine h.change hs (h.nindex s hs) hcache hc (fun p hp => ?_) (fun p hp hps => ?_)
    (fun k hk => ?_) ?_ ?_
  · have hne : p ≠ ⟨s, (cm.caches c).chunkSize * b⟩ := fun heq => hp (by rw [heq])
    simp [hne]
  · obtain ⟨-, k, hk, hpk⟩ := h.owned p (Finset.mem_of_mem_erase hp)
    rw [hps, hclass] at hk
    rw [hps, CacheManager.ptr, hclass] at hpk
    exact ⟨k, hk, hpk⟩
  · have hbit := h.bits s hs k hk
    rw [CacheManager.ptr, hclass] at hbit
    dsimp only
    rw [hslots, Finset.mem_erase]
    by_cases hkb : k = b
    · simp [hkb]
    · have hne : (⟨s, (cm.caches c).chunkSize * k⟩ : SlabPtr) ≠
          ⟨s, (cm.caches c).chunkSize * b⟩ := fun heq =>
        hkb (Nat.eq_of_mul_eq_mul_left hpos (congrArg SlabPtr.offset heq))
      simpa [hkb, hne] using hbit
  · dsimp only
    rw [Finset.filter_erase, Finset.card_erase_of_mem, h.nused s hs]
    exact Finset.mem_filter.mpr ⟨hlive, rfl⟩
  · have hsum := Finset.add_sum_erase live
      (fun p => (cm.classOf p.slab).chunkSize) hlive
    rw [← h.memUsed] at hsum
    dsimp only at hsum
    rw [hclass] at hsum
    rw [sum_classOf_same _ (by rfl)]
    omega

end Slots

end Lightcache.Slab
