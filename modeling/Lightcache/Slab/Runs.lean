import Lightcache.Slab.Invariant
import Mathlib.Data.List.GetD

/-!
# Runs of the slab allocator

One call of `scmalloc` or `scfree` keeps the invariant and trips no assertion,
and so does every run that releases live addresses only.
-/

namespace Lightcache.Slab

open Lightcache Lightcache.Foundation

variable {cm : CacheManager} {live : Finset SlabPtr} {s c : Nat}

/-! ## Lists and controls -/

theorem homes_setCtl (hs : s < cm.slabctlCount) (ctl : SlabCtl) (n : Nat) :
    (Slots.setCtl cm s ctl n).homes =
      Function.update cm.homes s (some (CacheManager.homeOf cm.caches ctl)) := by
  funext i
  by_cases his : i = s
  · subst his
    rw [Function.update_self, CacheManager.homes, Slots.setCtl_self]
    exact if_pos hs
  · rw [Function.update_of_ne his, CacheManager.homes, Slots.setCtl_of_ne _ _ his]
    rfl

theorem Listed.setCtl {home : Nat → Option ListId} (h : Listed cm home)
    (ctl : SlabCtl) (n : Nat) : Listed (Slots.setCtl cm s ctl n) home :=
  ⟨h.bound, h.threads⟩

theorem Classes.onlyLists {cm' : CacheManager} (h : Classes cm)
    (hl : OnlyLists cm cm') : Classes cm' := by
  obtain ⟨_, _, rfl⟩ := hl
  exact ⟨h.pos, h.mono, h.low, h.high, h.count⟩

theorem Classes.setCtl (h : Classes cm) (ctl : SlabCtl) (n : Nat) :
    Classes (Slots.setCtl cm s ctl n) := ⟨h.pos, h.mono, h.low, h.high, h.count⟩

theorem SlabInv.onlyLists {cm' : CacheManager} (hcl : Classes cm)
    (hsl : Slots cm live) (hframe : OnlyLists cm cm') (hlist : Listed cm' cm.homes) :
    SlabInv cm' live := by
  refine ⟨hcl.onlyLists hframe, hsl.onlyLists hframe, ?_⟩
  obtain ⟨_, _, rfl⟩ := hframe
  exact hlist

/-- The first slab of a partial list is in use and not full. -/
theorem SlabInv.of_partial (h : SlabInv cm live)
    (hhome : cm.homes s = some (.slabsPartial c)) :
    s < cm.slabctlCount ∧ (cm.slabCtls s).cache = some c ∧
      (cm.slabCtls s).nused < (cm.caches c).chunkCountPerslab := by
  rw [CacheManager.homes] at hhome
  split at hhome
  swap
  · cases hhome
  next hs =>
    rw [Option.some.injEq, CacheManager.homeOf] at hhome
    cases hc : (cm.slabCtls s).cache with
    | none => simp [hc] at hhome
    | some d =>
        rw [hc] at hhome
        dsimp only at hhome
        split at hhome
        · cases hhome
        · split at hhome
          · cases hhome
          · next hfull =>
              cases hhome
              have hle := h.slots.nused_le hs
              rw [classOf_eq hc] at hle
              exact ⟨hs, rfl, lt_of_le_of_ne hle hfull⟩

theorem SlabInv.of_free (h : SlabInv cm live)
    (hhome : cm.homes s = some .slabsFree) :
    s < cm.slabctlCount ∧ (cm.slabCtls s).nused = 0 := by
  rw [CacheManager.homes] at hhome
  split at hhome
  swap
  · cases hhome
  next hs =>
    rw [Option.some.injEq, CacheManager.homeOf] at hhome
    refine ⟨hs, ?_⟩
    cases hc : (cm.slabCtls s).cache with
    | none =>
        have hle := h.slots.nused_le hs
        rw [CacheManager.classOf, hc] at hle
        exact Nat.le_zero.mp hle
    | some d =>
        rw [hc] at hhome
        dsimp only at hhome
        split at hhome
        · assumption
        · split at hhome <;> cases hhome

/-! ## One slab at a time -/

/-- `cm'` has another control for slab `s`, and other lists and counters. -/
structure AtSlab (cm cm' : CacheManager) (s : Nat) : Prop where
  caches : cm'.caches = cm.caches
  cacheCount : cm'.cacheCount = cm.cacheCount
  slabctlCount : cm'.slabctlCount = cm.slabctlCount
  other : ∀ i ≠ s, cm'.slabCtls i = cm.slabCtls i

theorem AtSlab.refl (cm : CacheManager) (s : Nat) : AtSlab cm cm s :=
  ⟨rfl, rfl, rfl, fun _ _ => rfl⟩

theorem AtSlab.trans {cm₁ cm₂ : CacheManager} (h₁ : AtSlab cm cm₁ s)
    (h₂ : AtSlab cm₁ cm₂ s) : AtSlab cm cm₂ s :=
  ⟨h₂.caches.trans h₁.caches, h₂.cacheCount.trans h₁.cacheCount,
    h₂.slabctlCount.trans h₁.slabctlCount,
    fun i hi => (h₂.other i hi).trans (h₁.other i hi)⟩

/-- One more chunk of slab `s` is in use, in class `c`. -/
structure Takes (cm cm' : CacheManager) (c s : Nat) : Prop extends AtSlab cm cm' s where
  lt : s < cm.slabctlCount
  before : (cm.slabCtls s).nused = 0 ∨ (cm.slabCtls s).cache = some c
  room : (cm.slabCtls s).nused < (cm.caches c).chunkCountPerslab
  cache : (cm'.slabCtls s).cache = some c
  nused : (cm'.slabCtls s).nused = (cm.slabCtls s).nused + 1

/-- One chunk less of slab `s` is in use, in class `c`. -/
structure Gives (cm cm' : CacheManager) (c s : Nat) : Prop extends AtSlab cm cm' s where
  lt : s < cm.slabctlCount
  before : (cm.slabCtls s).cache = some c
  room : (cm.slabCtls s).nused ≤ (cm.caches c).chunkCountPerslab
  cache : (cm'.slabCtls s).cache = some c
  nused : (cm'.slabCtls s).nused + 1 = (cm.slabCtls s).nused

/-! ## `scmalloc` -/

/-- A slab that `scmalloc` may take a chunk of class `c` from. -/
structure Ready (cm : CacheManager) (live : Finset SlabPtr) (c s : Nat) : Prop where
  classes : Classes cm
  slots : Slots cm live
  lt : s < cm.slabctlCount
  cache : (cm.slabCtls s).cache = some c
  room : (cm.slabCtls s).nused < (cm.caches c).chunkCountPerslab
  head : (cm.lists (.slabsPartial c)).head = some s
  listed : Listed cm (Function.update cm.homes s (some (.slabsPartial c)))

theorem slabFor_post (h : SlabInv cm live) (hc : c < cm.cacheCount) :
    match cm.slabFor c with
    | (none, cm') => cm' = cm ∧ (cm.lists (.slabsPartial c)).head = none ∧
        (cm.lists .slabsFree).head = none
    | (some s, cm') => Ready cm' live c s ∧ AtSlab cm cm' s ∧
        (cm'.slabCtls s).nused = (cm.slabCtls s).nused ∧
        ((cm.slabCtls s).nused = 0 ∨ (cm.slabCtls s).cache = some c) := by
  rw [CacheManager.slabFor]
  cases hpeek : peek (cm.lists (.slabsPartial c)) with
  | some s =>
      have hhead : (cm.lists (.slabsPartial c)).head = some s := hpeek
      have hhome : cm.homes s = some (.slabsPartial c) := by
        have hpop := h.listed.pop (.slabsPartial c)
        rw [hhead] at hpop
        exact hpop.2.2.1
      obtain ⟨hs, hcache, hroom⟩ := h.of_partial hhome
      refine ⟨⟨h.classes, h.slots, hs, hcache, hroom, hhead, ?_⟩, .refl cm s, rfl,
        .inr hcache⟩
      rw [← hhome, Function.update_eq_self]
      exact h.listed
  | none =>
      obtain ⟨hframe, hres, hlisted⟩ := h.listed.pop .slabsFree
      dsimp only
      cases hhead : (cm.lists .slabsFree).head with
      | none =>
          rw [hhead] at hres hlisted
          rcases hpop : cm.pop .slabsFree with ⟨res, cm₁⟩
          rw [hpop] at hframe hres hlisted
          dsimp only at hframe hres hlisted
          subst hres
          exact ⟨hlisted, hpeek, rfl⟩
      | some s =>
          rw [hhead] at hres hlisted
          obtain ⟨hhome, hlisted⟩ := hlisted
          obtain ⟨hs, hempty⟩ := h.of_free hhome
          rcases hpop : cm.pop .slabsFree with ⟨res, cm₁⟩
          rw [hpop] at hframe hres hlisted
          dsimp only at hframe hres hlisted
          subst hres
          obtain ⟨link, lists, rfl⟩ := hframe
          have hpush := hlisted.push (.slabsPartial c) s (by simp) hs
          rw [Function.update_idem] at hpush
          have hhd := Listed.head_push { cm with link := link, lists := lists }
            (.slabsPartial c) s
          obtain ⟨link', lists', hcm₂⟩ := Listed.onlyLists_push
            { cm with link := link, lists := lists } (.slabsPartial c) s
          dsimp only
          rw [hcm₂] at hpush hhd ⊢
          have hslots : Slots { cm with link := link', lists := lists' } live :=
            h.slots.onlyLists ⟨_, _, rfl⟩
          have hclasses : Classes { cm with link := link', lists := lists' } :=
            h.classes.onlyLists ⟨_, _, rfl⟩
          refine ⟨⟨hclasses.setCtl (s := s) { cm.slabCtls s with cache := some c }
            cm.memUsed, hslots.setCache hs hc hempty, hs, ?_, ?_, hhd, ?_⟩,
            ⟨rfl, rfl, rfl, fun i hi => Function.update_of_ne hi ..⟩, ?_, .inl hempty⟩
          · simp
          · dsimp only
            rw [Function.update_self]
            dsimp only
            rw [hempty]
            exact h.classes.chunkCount_pos hc
          · change Listed (Slots.setCtl { cm with link := link', lists := lists' } s
              { cm.slabCtls s with cache := some c } cm.memUsed)
              (Function.update (Slots.setCtl { cm with link := link', lists := lists' } s
                { cm.slabCtls s with cache := some c } cm.memUsed).homes s _)
            rw [homes_setCtl (show s < CacheManager.slabctlCount
              { cm with link := link', lists := lists' } from hs), Function.update_idem]
            exact hpush.setCtl _ _
          · dsimp only
            rw [Function.update_self]

theorem takeChunk_post (h : Ready cm live c s) (hc : c < cm.cacheCount) :
    ∃ p cm', cm.takeChunk c s = .ok (p, cm') ∧ p.slab = s ∧ p ∉ live ∧
      SlabInv cm' (insert p live) ∧ Takes cm cm' c s := by
  have hpos := h.classes.chunkSize_pos hc
  have hbound := h.classes.chunkCount_le hc
  have hclass := classOf_eq h.cache
  obtain ⟨k, hk, hkfree⟩ := h.slots.exists_free h.lt (by rwa [hclass])
    (by rwa [hclass]) (by rw [hclass]; exact h.room)
  rw [hclass] at hk
  obtain ⟨b, hff, hbfree, hbk⟩ := ffSetbit_lowest (hk.trans_le hbound) hkfree
  have hb := hbk.trans_lt hk
  obtain ⟨slots, hclear, hslots⟩ := clearBit_free (cm.slabCtls s).slots
    (hb.trans_le hbound)
  obtain ⟨hnew, htake⟩ := h.slots.take h.lt h.cache hc hpos hbfree hb hbound hslots
  obtain ⟨ctl, hctl⟩ : ∃ ctl, ctl = { cm.slabCtls s with
    slots := slots, nused := (cm.slabCtls s).nused + 1 } := ⟨_, rfl⟩
  rw [← hctl] at htake
  have hcache : ctl.cache = some c := by rw [hctl]; exact h.cache
  have hnused : ctl.nused = (cm.slabCtls s).nused + 1 := by rw [hctl]
  -- the slab ends on the list its new counter asks for
  obtain ⟨link, lists, hmove, hlisted⟩ : ∃ link lists,
      (Slots.setCtl cm s ctl cm.memUsed).relistTaken c ctl.nused =
        { Slots.setCtl cm s ctl cm.memUsed with link := link, lists := lists } ∧
      Listed { Slots.setCtl cm s ctl cm.memUsed with link := link, lists := lists }
        (Function.update cm.homes s (some (CacheManager.homeOf cm.caches ctl))) := by
    have hlist := h.listed.setCtl (s := s) ctl cm.memUsed
    have hcaches : (Slots.setCtl cm s ctl cm.memUsed).caches = cm.caches := rfl
    rw [CacheManager.homeOf, CacheManager.relistTaken, hcache, hcaches]
    dsimp only
    rw [hnused, if_neg (Nat.succ_ne_zero _)]
    by_cases hfull : (cm.slabCtls s).nused + 1 = (cm.caches c).chunkCountPerslab
    · rw [if_pos hfull, if_pos hfull]
      obtain ⟨⟨link, lists, hframe⟩, hmoved⟩ :=
        hlist.popAndPush (.slabsFull c) h.head
      rw [Function.update_idem, hframe] at hmoved
      exact ⟨link, lists, hframe, hmoved⟩
    · rw [if_neg hfull, if_neg hfull]
      exact ⟨_, _, rfl, hlist⟩
  have hinv : SlabInv { Slots.setCtl cm s ctl (cm.memUsed + (cm.caches c).chunkSize)
      with link := link, lists := lists }
      (insert ⟨s, (cm.caches c).chunkSize * b⟩ live) := by
    refine SlabInv.onlyLists (h.classes.setCtl ctl _) htake ⟨_, _, rfl⟩ ?_
    rw [homes_setCtl h.lt]
    exact ⟨hlisted.bound, hlisted.threads⟩
  have hmem : cm.memUsed + (cm.caches c).chunkSize ≤ cm.memMallocd :=
    (hinv.slots.memUsed_le hinv.classes).trans h.slots.mallocd
  have htakes : Takes cm { Slots.setCtl cm s ctl (cm.memUsed + (cm.caches c).chunkSize)
      with link := link, lists := lists } c s := by
    refine ⟨⟨rfl, rfl, rfl, fun i hi => Function.update_of_ne hi ..⟩, h.lt, .inr h.cache,
      h.room, ?_, ?_⟩
    · dsimp only
      rw [Slots.setCtl_self, hcache]
    · dsimp only
      rw [Slots.setCtl_self, hnused]
  refine ⟨⟨s, (cm.caches c).chunkSize * b⟩, _, ?_, rfl, hnew, hinv, htakes⟩
  rw [CacheManager.takeChunk]
  dsimp only
  rw [if_neg (by simp [h.cache]), hff]
  dsimp only
  rw [hclear, ok_bind, ← hctl, ← hnused]
  change (if ((Slots.setCtl cm s ctl cm.memUsed).relistTaken c ctl.nused).memUsed + _ ≤
    _ then _ else _) = _
  simp only [show CacheManager.relistTaken { cm with
    slabCtls := Function.update cm.slabCtls s ctl } c ctl.nused = _ from hmove, hmove]
  rw [h.slots.nindex s h.lt]
  exact if_pos hmem

/-- The smallest class that holds `size` bytes. -/
structure Fits (cm : CacheManager) (size c : Nat) : Prop where
  lt : c < cm.cacheCount
  le : size ≤ (cm.caches c).chunkSize
  smallest : ∀ i < c, (cm.caches i).chunkSize < size

theorem Classes.exists_fits (h : Classes cm) {size : Nat}
    (hsize : size ≤ (cm.caches (cm.cacheCount - 1)).chunkSize) :
    ∃ c, CacheManager.sizeToCache (fun i => (cm.caches i).chunkSize) cm.cacheCount
      (size % 2 ^ 32) = .ok (some c) ∧ Fits cm size c := by
  have hpos := h.pos
  have hmod : size % 2 ^ 32 = size := by
    have := h.high (cm.cacheCount - 1) (by omega)
    have : slabSize = 1048576 := by decide
    exact Nat.mod_eq_of_lt (by omega)
  obtain ⟨res, hsearch, hceil⟩ := CacheManager.sizeToCache_post size h.mono hpos
    h.cacheCount_le
  obtain ⟨c, rfl, hc, hle, hsmall⟩ := CacheManager.ceiling_of_le hceil hpos hsize
  exact ⟨c, by rw [hmod, hsearch], hc, hle, hsmall⟩

theorem Fits.unique {size d : Nat} (h : Fits cm size c) (hd : Fits cm size d) : c = d := by
  rcases Nat.lt_trichotomy c d with hlt | heq | hlt
  · exact absurd (hd.smallest c hlt) (not_lt.mpr h.le)
  · exact heq
  · exact absurd (h.smallest d hlt) (not_lt.mpr hd.le)

/-- Nothing is left for class `c`. -/
def Exhausted (cm : CacheManager) (c : Nat) : Prop :=
  (cm.lists (.slabsPartial c)).head = none ∧ (cm.lists .slabsFree).head = none

theorem scmalloc_fits (h : SlabInv cm live) {size : Nat} (hfits : Fits cm size c) :
    ∃ r cm', cm.scmalloc size = .ok (r, cm') ∧
      match r with
      | none => cm' = cm ∧ Exhausted cm c
      | some p => p ∉ live ∧ SlabInv cm' (insert p live) ∧ Takes cm cm' c p.slab := by
  have hlt := hfits.lt
  have hlast : (cm.caches c).chunkSize ≤ (cm.caches (cm.cacheCount - 1)).chunkSize := by
    rcases Nat.lt_or_eq_of_le (show c ≤ cm.cacheCount - 1 by omega) with hlt' | heq
    · exact (h.classes.mono c _ hlt' (by omega)).le
    · rw [← heq]
  have hsize : size ≤ (cm.caches (cm.cacheCount - 1)).chunkSize := hfits.le.trans hlast
  obtain ⟨d, hsearch, hfits'⟩ := h.classes.exists_fits hsize
  obtain rfl := hfits.unique hfits'
  rw [CacheManager.scmalloc, if_neg (not_lt.mpr hsize), hsearch, ok_bind]
  have hslab := slabFor_post h hlt
  dsimp only
  rcases hs : cm.slabFor c with ⟨_ | s, cm₁⟩
  · rw [hs] at hslab
    exact ⟨none, cm₁, rfl, hslab⟩
  · rw [hs] at hslab
    obtain ⟨hready, hat, hnused, hbefore⟩ := hslab
    obtain ⟨p, cm₂, htake, hps, hnew, hinv, htakes⟩ :=
      takeChunk_post hready (hat.cacheCount ▸ hlt)
    subst hps
    dsimp only
    rw [htake, ok_bind]
    refine ⟨some p, cm₂, rfl, hnew, hinv, hat.trans htakes.toAtSlab, ?_, hbefore, ?_,
      htakes.cache, ?_⟩
    · exact hat.slabctlCount ▸ htakes.lt
    · rw [← hnused, ← hat.caches]
      exact htakes.room
    · rw [htakes.nused, hnused]

theorem scmalloc_big {size : Nat}
    (hbig : size > (cm.caches (cm.cacheCount - 1)).chunkSize) :
    cm.scmalloc size = .ok (none, cm) := by
  rw [CacheManager.scmalloc, if_pos hbig]
  rfl

theorem scmalloc_post (h : SlabInv cm live) (size : Nat) :
    ∃ r cm', cm.scmalloc size = .ok (r, cm') ∧
      match r with
      | none => cm' = cm
      | some p => p ∉ live ∧ size ≤ (cm'.classOf p.slab).chunkSize ∧
          SlabInv cm' (insert p live) := by
  by_cases hbig : size > (cm.caches (cm.cacheCount - 1)).chunkSize
  · exact ⟨none, cm, scmalloc_big hbig, rfl⟩
  obtain ⟨c, -, hfits⟩ := h.classes.exists_fits (not_lt.mp hbig)
  obtain ⟨r, cm', hmalloc, hpost⟩ := scmalloc_fits h hfits
  refine ⟨r, cm', hmalloc, ?_⟩
  cases r with
  | none => exact hpost.1
  | some p =>
      obtain ⟨hnew, hinv, htakes⟩ := hpost
      refine ⟨hnew, ?_, hinv⟩
      rw [classOf_eq htakes.cache, htakes.caches]
      exact hfits.le

/-! ## `scfree` -/

theorem relist_post {home : Nat → Option ListId} (h : Listed cm home)
    (hpos : 0 < (cm.caches c).chunkCountPerslab) {ctl : SlabCtl}
    (hcache : ctl.cache = some c)
    (hroom : ctl.nused < (cm.caches c).chunkCountPerslab)
    (hhome : home s = some (if ctl.nused + 1 = (cm.caches c).chunkCountPerslab then
      .slabsFull c else .slabsPartial c)) :
    ∃ cm', cm.relist c s ctl.nused = .ok cm' ∧ OnlyLists cm cm' ∧
      Listed cm' (Function.update home s
        (some (CacheManager.homeOf cm.caches ctl))) := by
  rw [CacheManager.relist, CacheManager.homeOf, hcache]
  dsimp only
  by_cases hzero : ctl.nused = 0
  · -- an empty slab is free again, whichever list it was on
    rw [if_pos hzero, if_pos hzero]
    obtain ⟨cm₁, hrem, hframe, hlist⟩ := h.remAndPush (.slabsPartial c) .slabsFree s
    rw [hrem, ok_bind]
    by_cases hpart : home s = some (.slabsPartial c)
    · rw [if_pos hpart] at hlist
      exact ⟨cm₁, by simp [hpart]; rfl, hframe, hlist⟩
    · rw [if_neg hpart] at hlist
      have hfull : home s = some (.slabsFull c) := by
        split at hhome
        · exact hhome
        · exact absurd hhome hpart
      obtain ⟨cm₂, hrem₂, hframe₂, hlist₂⟩ :=
        hlist.remAndPush (.slabsFull c) .slabsFree s
      rw [if_pos hfull] at hlist₂
      refine ⟨cm₂, ?_, hframe.trans hframe₂, hlist₂⟩
      simp only [hrem₂, hfull, ok_bind]
      rfl
  · rw [if_neg hzero, if_neg hzero, if_neg hroom.ne]
    by_cases hlast : ctl.nused = (cm.caches c).chunkCountPerslab - 1
    · rw [if_pos hlast]
      rw [if_pos (by omega)] at hhome
      obtain ⟨cm₁, hrem, hframe, hlist⟩ :=
        h.remAndPush (.slabsFull c) (.slabsPartial c) s
      rw [if_pos hhome] at hlist
      exact ⟨cm₁, by rw [hrem, ok_bind]; simp [hhome]; rfl, hframe, hlist⟩
    · rw [if_neg hlast]
      rw [if_neg (by omega)] at hhome
      refine ⟨cm, rfl, .refl cm, ?_⟩
      rw [← hhome, Function.update_eq_self]
      exact h

theorem scfree_post (h : SlabInv cm live) {p : SlabPtr} (hp : p ∈ live) :
    ∃ cm' c, cm.scfree p = .ok cm' ∧ SlabInv cm' (live.erase p) ∧
      c < cm.cacheCount ∧ Gives cm cm' c p.slab := by
  obtain ⟨hs, b, hb, hpb⟩ := h.slots.owned p hp
  obtain ⟨c, hcache⟩ : ∃ c, (cm.slabCtls p.slab).cache = some c := by
    refine Option.ne_none_iff_exists'.mp fun hnone => ?_
    rw [CacheManager.classOf, hnone] at hb
    exact Nat.not_lt_zero b hb
  have hc := h.slots.classed _ hs c hcache
  have hclass := classOf_eq hcache
  have hpos := h.classes.chunkSize_pos hc
  rw [hclass] at hb
  rw [CacheManager.ptr, hclass] at hpb
  obtain ⟨s, hps⟩ : ∃ s, s = p.slab := ⟨_, rfl⟩
  rw [← hps] at hs hcache hpb hclass
  have hoffset : p.offset = (cm.caches c).chunkSize * b := by rw [hpb]
  have hbound := hb.trans_le (h.classes.chunkCount_le hc)
  have hinside : ¬ s * slabSize + p.offset > cm.slabctlCount * slabSize := by
    have h₁ : (s + 1) * slabSize ≤ cm.slabctlCount * slabSize :=
      Nat.mul_le_mul_right _ hs
    have h₂ : (cm.caches c).chunkSize * b ≤ slabSize := by
      rw [Nat.mul_comm]
      exact (Nat.mul_le_mul_right _ hb.le).trans (h.classes.chunkCount_mul_le hc)
    rw [Nat.succ_mul] at h₁
    omega
  have hused : (cm.slabCtls s).slots.free b = false :=
    (h.slots.bits s hs b hbound).mpr
      ⟨by rw [CacheManager.ptr, hclass, ← hpb]; exact hp, by rwa [hclass]⟩
  obtain ⟨bit, hget, hbit⟩ := getBit_free (cm.slabCtls s).slots hbound
  have hclear : ¬ bit ≠ 0#64 := fun hne => by simp [hused] at hbit; exact hne hbit
  obtain ⟨slots, hset, hslots⟩ := setBit_free (cm.slabCtls s).slots hbound
  have hgive := h.slots.give hs hcache hc hpos (hpb ▸ hp) hslots
  rw [← hpb] at hgive
  obtain ⟨ctl, hctl⟩ : ∃ ctl, ctl = { cm.slabCtls s with
    slots := slots, nused := (cm.slabCtls s).nused - 1 } := ⟨_, rfl⟩
  rw [← hctl] at hgive
  have hcache' : ctl.cache = some c := by rw [hctl]; exact hcache
  have hnused : ctl.nused = (cm.slabCtls s).nused - 1 := by rw [hctl]
  have hmk : (⟨(cm.slabCtls s).nused - 1, (cm.slabCtls s).nindex, slots, some c⟩ :
      SlabCtl) = ctl := by rw [hctl, ← hcache]
  -- the slab holds `p`, so it was in use
  have hinuse : 0 < (cm.slabCtls s).nused := by
    rw [h.slots.nused s hs, Finset.card_pos]
    exact ⟨p, Finset.mem_filter.mpr ⟨hp, hps.symm⟩⟩
  have hle := h.slots.nused_le hs
  rw [hclass] at hle
  have hhome : cm.homes s = some (if ctl.nused + 1 =
      (cm.caches c).chunkCountPerslab then .slabsFull c else .slabsPartial c) := by
    rw [CacheManager.homes, if_pos hs, CacheManager.homeOf, hcache]
    dsimp only
    rw [if_neg hinuse.ne', show ctl.nused + 1 = (cm.slabCtls s).nused by omega]
  obtain ⟨cm₁, hrelist, hframe, hlist⟩ := relist_post
    (h.listed.setCtl (s := s) ctl cm.memUsed) (h.classes.chunkCount_pos hc) hcache'
    (show ctl.nused < (cm.caches c).chunkCountPerslab by omega) hhome
  obtain ⟨link, lists, rfl⟩ := hframe
  refine ⟨{ Slots.setCtl cm s ctl (cm.memUsed - (cm.caches c).chunkSize) with
    link := link, lists := lists }, c, ?_, ?_, hc, ?_⟩
  · rw [CacheManager.scfree, ← hps, if_neg hinside, if_neg (not_le.mpr hs)]
    dsimp only
    rw [hcache]
    dsimp only
    rw [hoffset, Nat.mul_div_cancel_left _ hpos, hget, ok_bind, if_neg hclear, hset,
      ok_bind, hmk, ← hnused]
    change (Slots.setCtl cm s ctl cm.memUsed).relist c s ctl.nused >>= _ = _
    rw [hrelist]
    rfl
  · refine SlabInv.onlyLists (h.classes.setCtl ctl _) hgive ⟨_, _, rfl⟩ ?_
    rw [homes_setCtl hs]
    exact ⟨hlist.bound, hlist.threads⟩
  · rw [← hps]
    refine ⟨⟨rfl, rfl, rfl, fun i hi => Function.update_of_ne hi ..⟩, hs, hcache, hle,
      ?_, ?_⟩
    · dsimp only
      rw [Slots.setCtl_self, hcache']
    · dsimp only
      rw [Slots.setCtl_self, hnused]
      omega

/-! ## The initial state -/

theorem slabInv_initialised {sizes : List Nat} (hne : sizes ≠ [])
    (hmono : sizes.Pairwise (· < ·))
    (hrange : ∀ size ∈ sizes, minSlabChunkSize ≤ size ∧ size ≤ slabSize) {n : Nat}
    (hn : 0 < n) : SlabInv (initialised sizes n) ∅ := by
  have hget : ∀ i < sizes.length, sizes.getD i 0 ∈ sizes := fun i hi => by
    rw [List.getD_eq_getElem _ _ hi]
    exact List.getElem_mem hi
  refine ⟨⟨List.length_pos_iff.mpr hne, fun i j hij hj => ?_,
    fun i hi => (hrange _ (hget i hi)).1, fun i hi => (hrange _ (hget i hi)).2,
    fun _ _ => rfl⟩, ⟨fun _ _ => rfl, ?_, by simp, ?_, ?_, rfl, ?_⟩, ?_⟩
  · have hi : i < sizes.length := hij.trans hj
    change sizes.getD i 0 < sizes.getD j 0
    rw [List.getD_eq_getElem _ _ hi, List.getD_eq_getElem _ _ hj]
    exact List.pairwise_iff_getElem.mp hmono i j hi hj hij
  · rintro i - c hc
    simp [initialised] at hc
  · rintro i - k -
    have hset : (BitVec.allOnes 64).getLsbD (bloffset k) = true := by
      rw [BitVec.getLsbD_allOnes]
      exact decide_eq_true (bloffset_lt k)
    simp [initialised, Bitset.free, -BitVec.reduceAllOnes, hset]
  · rintro i -
    rfl
  · simp only [initialised, realSize]
    rw [Nat.mul_comm n]
    omega
  · have hfree : ∀ i, (initialised sizes n).homes i =
        if i < n then some .slabsFree else none := fun _ => rfl
    refine Listed.of_holds (holds_initialised sizes hn) fun li i => ?_
    rw [hfree, mem_initialQueues]
    split <;> simp_all [eq_comm]

/-! ## Runs -/

inductive Call where
  | scmalloc (size : Nat)
  | scfree (ptr : SlabPtr)

/-- The manager, with the addresses its clients hold. -/
structure Arena where
  cm : CacheManager
  live : Finset SlabPtr

def call (a : Arena) : Call → Except Fault Arena
  | .scmalloc size => do
      let (r, cm) ← a.cm.scmalloc size
      match r with
      | none => return ⟨cm, a.live⟩
      | some ptr => return ⟨cm, insert ptr a.live⟩
  | .scfree ptr => do
      let cm ← a.cm.scfree ptr
      return ⟨cm, a.live.erase ptr⟩

/-- A client releases only what it holds. -/
def FreesLive (a : Arena) : Call → Prop
  | .scmalloc _ => True
  | .scfree ptr => ptr ∈ a.live

theorem call_post {a : Arena} (h : SlabInv a.cm a.live) {e : Call}
    (he : FreesLive a e) :
    Post (call a e) (fun a' => SlabInv a'.cm a'.live) (fun _ => False) := by
  cases e with
  | scmalloc size =>
      obtain ⟨r, cm', hmalloc, hpost⟩ := scmalloc_post h size
      rw [call, hmalloc, ok_bind]
      cases r with
      | none =>
          dsimp only at hpost
          subst hpost
          exact h
      | some p => exact hpost.2.2
  | scfree ptr =>
      obtain ⟨cm', c, hfree, hpost, -⟩ := scfree_post h he
      rw [call, hfree, ok_bind]
      exact hpost

/-- The lists, bitmaps and counters agree with the live addresses. -/
structure Consistent (cm : CacheManager) (live : Finset SlabPtr) : Prop where
  lists : ∃ items : ListId → List Nat,
    (∀ li, Threads cm.link (cm.lists li) (items li)) ∧
    ∀ i < cm.slabctlCount, (∃! li, i ∈ items li) ∧
      (i ∈ items .slabsFree ↔ (cm.slabCtls i).nused = 0) ∧
      (∀ c, i ∈ items (.slabsFull c) ↔ (cm.slabCtls i).cache = some c ∧
        (cm.slabCtls i).nused = (cm.caches c).chunkCountPerslab) ∧
      (∀ c, i ∈ items (.slabsPartial c) ↔ (cm.slabCtls i).cache = some c ∧
        (cm.slabCtls i).nused ≠ 0 ∧
        (cm.slabCtls i).nused ≠ (cm.caches c).chunkCountPerslab)
  chunks : ∀ p ∈ live, p.slab < cm.slabctlCount ∧
    ∃ k < (cm.classOf p.slab).chunkCountPerslab, p = cm.ptr p.slab k
  slots : ∀ i < cm.slabctlCount, ∀ k < wordCount * wordSizeInBits,
    ((cm.slabCtls i).slots.free k = false ↔ cm.ptr i k ∈ live ∧
      k < (cm.classOf i).chunkCountPerslab)
  nused : ∀ i < cm.slabctlCount,
    (cm.slabCtls i).nused = (live.filter fun p => p.slab = i).card
  memUsed : cm.memUsed = ∑ p ∈ live, (cm.classOf p.slab).chunkSize

theorem SlabInv.consistent (h : SlabInv cm live) : Consistent cm live where
  lists := by
    obtain ⟨items, hitems⟩ := h.listed.threads
    refine ⟨items, fun li => (hitems li).1, fun i hi => ?_⟩
    have hmem : ∀ li, i ∈ items li ↔
        CacheManager.homeOf cm.caches (cm.slabCtls i) = li := fun li => by
      rw [(hitems li).2, CacheManager.homes, if_pos hi, Option.some.injEq]
    refine ⟨⟨_, (hmem _).mpr rfl, fun li hli => ((hmem li).mp hli).symm⟩, ?_⟩
    simp only [hmem, CacheManager.homeOf]
    cases hc : (cm.slabCtls i).cache with
    | none =>
        have hle := h.slots.nused_le hi
        rw [CacheManager.classOf, hc] at hle
        simp [Nat.le_zero.mp hle]
    | some c =>
        have hpos := h.classes.chunkCount_pos (h.slots.classed i hi c hc)
        dsimp only
        by_cases hzero : (cm.slabCtls i).nused = 0
        · have hcount : ∀ d, c = d → ¬ 0 = (cm.caches d).chunkCountPerslab := by
            rintro d rfl
            exact hpos.ne
          simpa [hzero] using hcount
        rw [if_neg hzero]
        by_cases hfull : (cm.slabCtls i).nused = (cm.caches c).chunkCountPerslab
        · rw [if_pos hfull]
          refine ⟨by simp [hzero], fun d => ?_, fun d => ?_⟩
          · rw [ListId.slabsFull.injEq, Option.some.injEq]
            exact ⟨fun hcd => ⟨hcd, hcd ▸ hfull⟩, And.left⟩
          · refine ⟨fun h => (by cases h), ?_⟩
            rintro ⟨hcd, -, hne⟩
            exact absurd (Option.some.inj hcd ▸ hfull) hne
        · rw [if_neg hfull]
          refine ⟨by simp [hzero], fun d => ?_, fun d => ?_⟩
          · refine ⟨fun h => (by cases h), ?_⟩
            rintro ⟨hcd, heq⟩
            exact absurd (Option.some.inj hcd ▸ heq) hfull
          · rw [ListId.slabsPartial.injEq, Option.some.injEq]
            exact ⟨fun hcd => ⟨hcd, hzero, hcd ▸ hfull⟩, And.left⟩
  chunks := h.slots.owned
  slots := h.slots.bits
  nused := h.slots.nused
  memUsed := h.slots.memUsed

/--
From the initialised state on, in every run that releases live addresses only,
no assertion fails and the data structure stays consistent; what `scmalloc`
returns next is a new address of a class that is large enough.
-/
theorem slab_invariant {sizes : List Nat} (hne : sizes ≠ [])
    (hmono : sizes.Pairwise (· < ·))
    (hrange : ∀ size ∈ sizes, minSlabChunkSize ≤ size ∧ size ≤ slabSize) {n : Nat}
    (hn : 0 < n) (calls : List Call)
    (hcalls : Meets call FreesLive ⟨initialised sizes n, ∅⟩ calls) :
    ∃ a, run call ⟨initialised sizes n, ∅⟩ calls = .ok a ∧
      Consistent a.cm a.live ∧
      (∀ size, ∃ r cm', a.cm.scmalloc size = .ok (r, cm') ∧
        ∀ p, r = some p → p ∉ a.live ∧ size ≤ (cm'.classOf p.slab).chunkSize) ∧
      ∀ p ∈ a.live, ∃ cm', a.cm.scfree p = .ok cm' := by
  obtain ⟨a, hrun, hinv⟩ := (run_post (fun a e h he => call_post h he)
    (slabInv_initialised hne hmono hrange hn) hcalls).exists_ok
  refine ⟨a, hrun, hinv.consistent, fun size => ?_, fun p hp => ?_⟩
  · obtain ⟨r, cm', hmalloc, hpost⟩ := scmalloc_post hinv size
    refine ⟨r, cm', hmalloc, fun p hp => ?_⟩
    subst hp
    exact ⟨hpost.1, hpost.2.1⟩
  · obtain ⟨cm', c, hfree, -⟩ := scfree_post hinv hp
    exact ⟨cm', hfree⟩

theorem scmalloc_initialised :
    ((initialised [24, 1024] 2).scmalloc 20).map Prod.fst = .ok (some ⟨0, 0⟩) := by
  have hsearch : CacheManager.sizeToCache
      (fun i => ((initialised [24, 1024] 2).caches i).chunkSize) 2 20 =
        .ok (some 0) := by
    simp [CacheManager.sizeToCache, CacheManager.searchLoop, initialised]
    rfl
  rw [CacheManager.scmalloc, if_neg (by decide)]
  change Except.map _ (CacheManager.sizeToCache
    (fun i => ((initialised [24, 1024] 2).caches i).chunkSize) 2 20 >>= _) = _
  rw [hsearch, ok_bind]
  decide +kernel

theorem slab_invariant_reuse :
    ∃ a, run call ⟨initialised [24, 1024] 2, ∅⟩
        [.scmalloc 20, .scfree ⟨0, 0⟩, .scmalloc 1000] = .ok a ∧
      Consistent a.cm a.live ∧
      (∀ size, ∃ r cm', a.cm.scmalloc size = .ok (r, cm') ∧
        ∀ p, r = some p → p ∉ a.live ∧ size ≤ (cm'.classOf p.slab).chunkSize) ∧
      ∀ p ∈ a.live, ∃ cm', a.cm.scfree p = .ok cm' := by
  refine slab_invariant (by decide) (by decide) (by decide) (by decide) _
    ⟨trivial, fun a ha => ⟨?_, fun _ _ => ⟨trivial, fun _ _ => trivial⟩⟩⟩
  have hfirst := scmalloc_initialised
  obtain ⟨⟨r, cm'⟩, hmalloc, ha⟩ := ok_of_bind_eq_ok ha
  rw [hmalloc] at hfirst
  obtain rfl : r = some ⟨0, 0⟩ := Except.ok.inj hfirst
  cases ha
  exact Finset.mem_insert_self _ _

end Lightcache.Slab
