import Lightcache.Slab.Runs
import Mathlib.Algebra.BigOperators.Group.Finset.Basic

/-!
# What the slab allocator can still hand out

A class can use the chunks of its partial slabs and every free slab.  Taking a
chunk lowers this capacity by one, returning one raises it by one, and
`scmalloc` fails exactly when it is zero.
-/

namespace Lightcache.Slab

open Lightcache Lightcache.Foundation

namespace CacheManager

/-- The slabs met on a list. -/
def items (cm : CacheManager) (li : ListId) : List Nat :=
  follow cm.link cm.slabctlCount (cm.lists li).head

/-- The chunks left for class `c`. -/
def capacity (cm : CacheManager) (c : Nat) : Nat :=
  (cm.items .slabsFree).length * (cm.caches c).chunkCountPerslab +
    ((cm.items (.slabsPartial c)).map fun i =>
      (cm.caches c).chunkCountPerslab - (cm.slabCtls i).nused).sum

/-- What slab `i` contributes to the capacity of class `c`. -/
def share (cm : CacheManager) (c i : Nat) : Nat :=
  (if cm.homes i = some .slabsFree then (cm.caches c).chunkCountPerslab else 0) +
    if cm.homes i = some (.slabsPartial c) then
      (cm.caches c).chunkCountPerslab - (cm.slabCtls i).nused else 0

end CacheManager

variable {cm cm' : CacheManager} {live : Finset SlabPtr} {s c size : Nat}
  {q : Sequences ListId Nat} {p : SlabPtr}

/-! ## Capacity as a sum over the slabs -/

theorem Holds.length_le (h : Holds cm q) (li : ListId) :
    (q li).length ≤ cm.slabctlCount := by
  have hsub : q li ⊆ List.range cm.slabctlCount := fun i hi =>
    List.mem_range.mpr (h.bound li i hi)
  simpa using (List.subperm_of_subset (h.woven.threads li).nodup hsub).length_le

theorem Holds.items (h : Holds cm q) (li : ListId) : cm.items li = q li :=
  (h.visits li).follow _ (h.length_le li)

theorem SlabInv.items (h : SlabInv cm live) (li : ListId) :
    (cm.items li).Nodup ∧ (cm.items li).toFinset =
      (Finset.range cm.slabctlCount).filter fun i => cm.homes i = some li := by
  obtain ⟨q, hq, hmem⟩ := h.listed.holds
  rw [hq.items li]
  refine ⟨(hq.woven.threads li).nodup, Finset.ext fun i => ?_⟩
  rw [List.mem_toFinset, hmem, Finset.mem_filter, Finset.mem_range]
  exact ⟨fun hhome => ⟨hq.bound li i ((hmem li i).mpr hhome), hhome⟩, And.right⟩

theorem capacity_eq (h : SlabInv cm live) (c : Nat) :
    cm.capacity c = ∑ i ∈ Finset.range cm.slabctlCount, cm.share c i := by
  obtain ⟨hnd, hfree⟩ := h.items .slabsFree
  obtain ⟨hnd', hpart⟩ := h.items (.slabsPartial c)
  rw [CacheManager.capacity, ← List.toFinset_card_of_nodup hnd, hfree,
    ← List.sum_toFinset _ hnd', hpart, ← smul_eq_mul, ← Finset.sum_const,
    Finset.sum_filter, Finset.sum_filter, ← Finset.sum_add_distrib]
  rfl

/-! ## One chunk more or less -/

/-- A slab that is empty or in class `c` has all its unused chunks for `c`. -/
theorem share_eq (hs : s < cm.slabctlCount)
    (hclass : (cm.slabCtls s).nused = 0 ∨ (cm.slabCtls s).cache = some c) :
    cm.share c s = (cm.caches c).chunkCountPerslab - (cm.slabCtls s).nused := by
  by_cases hzero : (cm.slabCtls s).nused = 0
  · have hhome : cm.homes s = some .slabsFree := by
      rw [CacheManager.homes, if_pos hs, CacheManager.homeOf]
      cases (cm.slabCtls s).cache <;> simp [hzero]
    simp [CacheManager.share, hhome, hzero]
  have hhome : cm.homes s = some (if (cm.slabCtls s).nused =
      (cm.caches c).chunkCountPerslab then .slabsFull c else .slabsPartial c) := by
    rw [CacheManager.homes, if_pos hs, CacheManager.homeOf, hclass.resolve_left hzero]
    dsimp only
    rw [if_neg hzero]
  by_cases hfull : (cm.slabCtls s).nused = (cm.caches c).chunkCountPerslab
  · rw [if_pos hfull] at hhome
    simp [CacheManager.share, hhome, hfull]
  · rw [if_neg hfull] at hhome
    simp [CacheManager.share, hhome]

theorem share_other (hat : AtSlab cm cm' s) {i : Nat} (hi : i ≠ s) :
    cm'.share c i = cm.share c i := by
  have hhome : cm'.homes i = cm.homes i := by
    rw [CacheManager.homes, CacheManager.homes, hat.caches, hat.slabctlCount,
      hat.other i hi]
  rw [CacheManager.share, CacheManager.share, hhome, hat.caches, hat.other i hi]

theorem capacity_at (h : SlabInv cm live) {live' : Finset SlabPtr} (h' : SlabInv cm' live')
    (hat : AtSlab cm cm' s) (hs : s < cm.slabctlCount) (c : Nat) :
    cm.capacity c + cm'.share c s = cm'.capacity c + cm.share c s := by
  have hmem : s ∈ Finset.range cm.slabctlCount := Finset.mem_range.mpr hs
  have hrest : ∑ i ∈ (Finset.range cm.slabctlCount).erase s, cm'.share c i =
      ∑ i ∈ (Finset.range cm.slabctlCount).erase s, cm.share c i :=
    Finset.sum_congr rfl fun i hi => share_other hat (Finset.ne_of_mem_erase hi)
  rw [capacity_eq h, capacity_eq h', hat.slabctlCount, ← Finset.add_sum_erase _ _ hmem,
    ← Finset.add_sum_erase _ (cm'.share c) hmem, hrest]
  omega

theorem Takes.capacity (h : SlabInv cm live) {live' : Finset SlabPtr}
    (h' : SlabInv cm' live') (ht : Takes cm cm' c s) :
    cm.capacity c = cm'.capacity c + 1 := by
  have hs' : s < cm'.slabctlCount := ht.slabctlCount ▸ ht.lt
  have hbefore := share_eq ht.lt ht.before
  have hafter := share_eq hs' (.inr ht.cache)
  have hsum := capacity_at h h' ht.toAtSlab ht.lt c
  have hroom := ht.room
  rw [ht.caches, ht.nused] at hafter
  omega

theorem Gives.capacity (h : SlabInv cm live) {live' : Finset SlabPtr}
    (h' : SlabInv cm' live') (hg : Gives cm cm' c s) :
    cm'.capacity c = cm.capacity c + 1 := by
  have hs' : s < cm'.slabctlCount := hg.slabctlCount ▸ hg.lt
  have hbefore := share_eq hg.lt (.inr hg.before)
  have hafter := share_eq hs' (.inr hg.cache)
  have hsum := capacity_at h h' hg.toAtSlab hg.lt c
  have hnused := hg.nused
  have hroom := hg.room
  rw [hg.caches] at hafter
  omega

theorem Exhausted.capacity (he : Exhausted cm c) :
    cm.capacity c = 0 := by
  have hnil : ∀ li, (cm.lists li).head = none → cm.items li = [] := by
    intro li hli
    rw [CacheManager.items, hli]
    cases cm.slabctlCount <;> rfl
  rw [CacheManager.capacity, hnil _ he.1, hnil _ he.2]
  simp

/-! ## Running out -/

theorem Fits.atSlab (h : Fits cm size c) (hat : AtSlab cm cm' s) : Fits cm' size c :=
  ⟨hat.cacheCount ▸ h.lt, hat.caches ▸ h.le, hat.caches ▸ h.smallest⟩

/-- `scmalloc` succeeds exactly as long as there is capacity. -/
theorem scmalloc_capacity (h : SlabInv cm live) (hfits : Fits cm size c) :
    (cm.capacity c = 0 → cm.scmalloc size = .ok (none, cm)) ∧
      ∀ k, cm.capacity c = k + 1 → ∃ p cm', cm.scmalloc size = .ok (some p, cm') ∧
        p ∉ live ∧ SlabInv cm' (insert p live) ∧ Fits cm' size c ∧ cm'.capacity c = k := by
  obtain ⟨r, cm', hmalloc, hpost⟩ := scmalloc_fits h hfits
  cases r with
  | none =>
      obtain ⟨rfl, hex⟩ := hpost
      refine ⟨fun _ => hmalloc, fun k hk => ?_⟩
      rw [hex.capacity] at hk
      cases hk
  | some p =>
      obtain ⟨hnew, hinv, htakes⟩ := hpost
      have hcap := htakes.capacity h hinv
      refine ⟨fun hzero => ?_, fun k hk => ⟨p, cm', hmalloc, hnew, hinv, ?_, ?_⟩⟩
      · rw [hzero] at hcap
        cases hcap
      · exact hfits.atSlab htakes.toAtSlab
      · omega

/-- `scmalloc`, with its result as an answer. -/
def malloc (cm : CacheManager) (size : Nat) :
    Except Fault (CacheManager × Option SlabPtr) := do
  let (r, cm) ← cm.scmalloc size
  return (cm, r)

theorem mallocs_post (h : SlabInv cm live) (hfits : Fits cm size c) :
    ∃ (ptrs : List SlabPtr) (cm' : CacheManager),
      replies malloc cm (List.replicate (cm.capacity c) size) =
        .ok (cm', ptrs.map some) ∧ ptrs.length = cm.capacity c ∧
      cm'.scmalloc size = .ok (none, cm') := by
  generalize hk : cm.capacity c = k
  induction k generalizing cm live with
  | zero => exact ⟨[], cm, rfl, rfl, (scmalloc_capacity h hfits).1 hk⟩
  | succ k ih =>
      obtain ⟨p, cm₁, hmalloc, -, hinv, hfits₁, hcap⟩ :=
        (scmalloc_capacity h hfits).2 k hk
      obtain ⟨ptrs, cm', hrest, hlen, hnone⟩ := ih hinv hfits₁ hcap
      refine ⟨p :: ptrs, cm', ?_, by rw [List.length_cons, hlen], hnone⟩
      rw [List.replicate_succ, replies, malloc, hmalloc]
      simp only [ok_bind, pure_bind, hrest]
      rfl

/-! ## Giving everything back -/

theorem scfrees_post (h : SlabInv cm live) {order : List SlabPtr} (hnd : order.Nodup)
    (hlive : order.toFinset = live) :
    ∃ cm', run CacheManager.scfree cm order = .ok cm' ∧ SlabInv cm' ∅ ∧
      cm'.caches = cm.caches ∧ cm'.slabctlCount = cm.slabctlCount := by
  induction order generalizing cm live with
  | nil =>
      subst hlive
      exact ⟨cm, rfl, h, rfl, rfl⟩
  | cons p order ih =>
      obtain ⟨hp, hnd⟩ := List.nodup_cons.mp hnd
      obtain ⟨cm₁, d, hfree, hinv, -, hgives⟩ := scfree_post h
        (show p ∈ live by simp [← hlive])
      obtain ⟨cm', hrun, hinv', hcaches, hcount⟩ := ih hinv hnd (by
        rw [← hlive, List.toFinset_cons, Finset.erase_insert (by simpa using hp)])
      exact ⟨cm', by rw [run_cons, hfree, ok_bind, hrun], hinv',
        hcaches.trans hgives.caches, hcount.trans hgives.slabctlCount⟩

/-- Without live chunks every slab is on the free list. -/
theorem SlabInv.all_free (h : SlabInv cm ∅) :
    (cm.items .slabsFree).Perm (List.range cm.slabctlCount) ∧
      ∀ c, cm.capacity c = cm.slabctlCount * (cm.caches c).chunkCountPerslab := by
  have hzero : ∀ i < cm.slabctlCount, (cm.slabCtls i).nused = 0 := fun i hi => by
    rw [h.slots.nused i hi, Finset.filter_empty, Finset.card_empty]
  obtain ⟨hnd, hfree⟩ := h.items .slabsFree
  constructor
  · refine List.perm_of_nodup_nodup_toFinset_eq hnd List.nodup_range ?_
    rw [hfree, List.toFinset_range]
    refine Finset.filter_true_of_mem fun i hi => ?_
    have hi := Finset.mem_range.mp hi
    rw [CacheManager.homes, if_pos hi, CacheManager.homeOf, hzero i hi]
    cases (cm.slabCtls i).cache <;> rfl
  · intro c
    rw [capacity_eq h, Finset.sum_congr rfl fun i hi => share_eq
      (Finset.mem_range.mp hi) (.inl (hzero i (Finset.mem_range.mp hi))),
      Finset.sum_congr rfl fun i hi => by rw [hzero i (Finset.mem_range.mp hi), Nat.sub_zero],
      Finset.sum_const, Finset.card_range, smul_eq_mul]

/-- A size that some class holds is refused only when nothing is left for it. -/
structure ExactCapacity (a : Arena) : Prop where
  /-- As many allocations succeed as free and partial slabs have chunks. -/
  succeeds : ∀ size ≤ (a.cm.caches (a.cm.cacheCount - 1)).chunkSize,
    ∃ c, Fits a.cm size c ∧ ∃ (ptrs : List SlabPtr) (cm' : CacheManager),
      replies malloc a.cm (List.replicate (a.cm.capacity c) size) =
          .ok (cm', ptrs.map some) ∧ ptrs.length = a.cm.capacity c ∧
        cm'.scmalloc size = .ok (none, cm')
  unchanged : ∀ size cm', a.cm.scmalloc size = .ok (none, cm') → cm' = a.cm
  /-- One chunk given back is one chunk more, and no more than one. -/
  oneMore : ∀ size c, Fits a.cm size c → a.cm.scmalloc size = .ok (none, a.cm) →
    ∀ p ∈ a.live, (a.cm.slabCtls p.slab).cache = some c →
      ∃ cm₁ p' cm₂, a.cm.scfree p = .ok cm₁ ∧ cm₁.scmalloc size = .ok (some p', cm₂) ∧
        cm₂.scmalloc size = .ok (none, cm₂)
  allBack : ∀ order : List SlabPtr, order.Nodup → order.toFinset = a.live →
    ∃ cm', run CacheManager.scfree a.cm order = .ok cm' ∧
      (cm'.items .slabsFree).Perm (List.range a.cm.slabctlCount) ∧
      ∀ c, cm'.capacity c = a.cm.slabctlCount * (a.cm.caches c).chunkCountPerslab

theorem SlabInv.exactCapacity {a : Arena} (h : SlabInv a.cm a.live) :
    ExactCapacity a where
  succeeds := by
    intro size hsize
    obtain ⟨c, -, hfits⟩ := h.classes.exists_fits hsize
    exact ⟨c, hfits, mallocs_post h hfits⟩
  unchanged := by
    intro size cm' hmalloc
    obtain ⟨r, cm'', hres, hpost⟩ := scmalloc_post h size
    rw [hmalloc, Except.ok.injEq, Prod.mk.injEq] at hres
    obtain ⟨rfl, rfl⟩ := hres
    exact hpost
  oneMore := by
    intro size c hfits hnone p hp hcache
    obtain ⟨cm₁, d, hfree, hinv₁, -, hgives⟩ := scfree_post h hp
    obtain rfl : c = d := by
      have hbefore := hgives.before
      rw [hcache] at hbefore
      exact Option.some.inj hbefore
    have hzero : a.cm.capacity c = 0 := by
      by_contra hne
      obtain ⟨k, hk⟩ := Nat.exists_eq_succ_of_ne_zero hne
      obtain ⟨p', cm', hsome, -⟩ := (scmalloc_capacity h hfits).2 k hk
      rw [hnone] at hsome
      cases hsome
    have hone := hgives.capacity h hinv₁
    rw [hzero] at hone
    obtain ⟨p', cm₂, hmalloc, -, hinv₂, hfits₂, hcap⟩ :=
      (scmalloc_capacity hinv₁ (hfits.atSlab hgives.toAtSlab)).2 0 hone
    exact ⟨cm₁, p', cm₂, hfree, hmalloc, (scmalloc_capacity hinv₂ hfits₂).1 hcap⟩
  allBack := by
    intro order hnd hlive
    obtain ⟨cm', hfrees, hinv', hcaches, hcount⟩ := scfrees_post h hnd hlive
    obtain ⟨hperm, hcap⟩ := hinv'.all_free
    exact ⟨cm', hfrees, hcount ▸ hperm, fun c => by rw [hcap, hcount, hcaches]⟩

end Lightcache.Slab
