import Lightcache.CRuntime
import Mathlib.Logic.Function.Basic
import Mathlib.Data.Finset.Basic
import Mathlib.Data.Nat.Find
import Mathlib.Order.Bounds.Basic

/-!
# `slab.c`: the slot bitmap

A set bit is a free slot.  The bitmap has room for the slots of the smallest
chunk size, rounded up to whole words, and `ff_setbit` finds its lowest set bit.
-/

namespace Lightcache.Slab

open Lightcache

def slabSize : Nat := 1024 * 1024

def minSlabChunkSize : Nat := 20

def wordSizeInBits : Nat := 64

def wordCount : Nat := slabSize / minSlabChunkSize / wordSizeInBits + 1

/-- The words of a `bitset_t`; the ones past `wordCount` are not used. -/
abbrev Bitset := Nat → BitVec 64

def bindex (b : Nat) : Nat := b / wordSizeInBits

def bloffset (b : Nat) : Nat := b % wordSizeInBits

def setBit (bts : Bitset) (b : Nat) : Except Fault Bitset :=
  if b < wordCount * wordSizeInBits then
    .ok (Function.update bts (bindex b) (bts (bindex b) ||| (1#64 <<< bloffset b)))
  else .error .assertion

def clearBit (bts : Bitset) (b : Nat) : Except Fault Bitset :=
  if b < wordCount * wordSizeInBits then
    .ok (Function.update bts (bindex b)
      (bts (bindex b) &&& ~~~(1#64 <<< bloffset b)))
  else .error .assertion

def getBit (bts : Bitset) (b : Nat) : Except Fault (BitVec 64) :=
  if b < wordCount * wordSizeInBits then
    .ok ((bts (bindex b) >>> bloffset b) &&& 1#64)
  else .error .assertion

def debruijTab : List Nat :=
  [0,  1,  2, 53,  3,  7, 54, 27,
   4, 38, 41,  8, 34, 55, 48, 28,
   62,  5, 39, 46, 44, 42, 22,  9,
   24, 35, 59, 56, 49, 18, 29, 11,
   63, 52,  6, 26, 37, 40, 33, 47,
   61, 45, 43, 21, 23, 58, 17, 10,
   51, 25, 36, 32, 60, 20, 57, 16,
   50, 31, 19, 15, 30, 14, 13, 12]

def nlz64 (x : BitVec 64) : Nat :=
  debruijTab.getD (((x &&& -x) * 0x022FDD63CC95386D#64) >>> 58).toNat 0

def ffSetbit (bts : Bitset) : Option Nat :=
  (List.range wordCount).findSome? fun i =>
    if bts i ≠ 0#64 then some (nlz64 (bts i) + i * wordSizeInBits) else none

/-! ## The lowest set bit of a word -/

theorem and_neg_eq_shiftLeft {x : BitVec 64} {k : Nat} (hk : x.getLsbD k = true)
    (hlow : ∀ j < k, x.getLsbD j = false) : x &&& -x = 1#64 <<< k := by
  refine BitVec.eq_of_getLsbD_eq fun i hi => ?_
  rw [BitVec.getLsbD_and, BitVec.getLsbD_neg, BitVec.getLsbD_shiftLeft]
  rcases Nat.lt_trichotomy i k with hik | rfl | hik
  · simp [hlow i hik, hik]
  · have hnone : ¬ ∃ j < i, x.getLsbD j = true := fun ⟨j, hj, hset⟩ => by
      simp [hlow j hj] at hset
    simp [hk, hi, hnone]
  · have hsome : ∃ j < i, x.getLsbD j = true := ⟨k, hik, hk⟩
    have hne : i - k ≠ 0 := by omega
    cases hx : x.getLsbD i <;> simp [hi, hsome, hne]

theorem debruijTab_shiftLeft : ∀ k : Fin 64,
    debruijTab.getD (((1#64 <<< k.val) * 0x022FDD63CC95386D#64) >>> 58).toNat 0 =
      k.val := by
  decide

theorem nlz64_eq {x : BitVec 64} {k : Nat} (hk : x.getLsbD k = true)
    (hlow : ∀ j < k, x.getLsbD j = false) : nlz64 x = k := by
  have hlt : k < 64 := BitVec.lt_of_getLsbD hk
  rw [nlz64, and_neg_eq_shiftLeft hk hlow]
  exact debruijTab_shiftLeft ⟨k, hlt⟩

theorem nlz64_lowest {x : BitVec 64} (hx : x ≠ 0#64) :
    x.getLsbD (nlz64 x) = true ∧ ∀ j < nlz64 x, x.getLsbD j = false := by
  have hex : ∃ k, x.getLsbD k = true := by
    by_contra hnone
    refine hx (BitVec.eq_of_getLsbD_eq fun i _ => ?_)
    rw [BitVec.getLsbD_zero]
    exact Bool.eq_false_iff.mpr fun hset => hnone ⟨i, hset⟩
  have hlow : ∀ j < Nat.find hex, x.getLsbD j = false := fun j hj =>
    Bool.eq_false_iff.mpr (Nat.find_min hex hj)
  rw [nlz64_eq (Nat.find_spec hex) hlow]
  exact ⟨Nat.find_spec hex, hlow⟩

/-! ## The bitmap as a set of slots -/

def Bitset.free (bts : Bitset) (b : Nat) : Bool :=
  (bts (bindex b)).getLsbD (bloffset b)

theorem bloffset_lt (b : Nat) : bloffset b < 64 := Nat.mod_lt _ (by decide)

theorem bindex_bloffset (b : Nat) : bloffset b + bindex b * wordSizeInBits = b := by
  rw [Nat.mul_comm]
  exact Nat.mod_add_div b wordSizeInBits

theorem eq_of_bindex_bloffset {b c : Nat} (hi : bindex b = bindex c)
    (ho : bloffset b = bloffset c) : b = c := by
  rw [← bindex_bloffset b, ← bindex_bloffset c, hi, ho]

theorem setBit_free (bts : Bitset) {b : Nat} (hb : b < wordCount * wordSizeInBits) :
    ∃ bts', setBit bts b = .ok bts' ∧
      ∀ c, bts'.free c = (decide (c = b) || bts.free c) := by
  refine ⟨_, if_pos hb, fun c => ?_⟩
  rw [Bitset.free]
  by_cases hi : bindex c = bindex b
  · rw [hi, Function.update_self, BitVec.getLsbD_or, BitVec.getLsbD_shiftLeft,
      Bitset.free, hi, Bool.or_comm]
    congr 1
    by_cases ho : bloffset c = bloffset b
    · simp [eq_of_bindex_bloffset hi ho, bloffset_lt]
    · have hcb : c ≠ b := fun h => ho (h ▸ rfl)
      simp [hcb]
      omega
  · have hcb : c ≠ b := fun h => hi (h ▸ rfl)
    rw [Function.update_of_ne hi]
    simp [Bitset.free, hcb]

theorem clearBit_free (bts : Bitset) {b : Nat}
    (hb : b < wordCount * wordSizeInBits) :
    ∃ bts', clearBit bts b = .ok bts' ∧
      ∀ c, bts'.free c = (!decide (c = b) && bts.free c) := by
  refine ⟨_, if_pos hb, fun c => ?_⟩
  rw [Bitset.free]
  by_cases hi : bindex c = bindex b
  · rw [hi, Function.update_self, BitVec.getLsbD_and, BitVec.getLsbD_not,
      BitVec.getLsbD_shiftLeft, Bitset.free, hi, Bool.and_comm]
    congr 1
    by_cases ho : bloffset c = bloffset b
    · simp [eq_of_bindex_bloffset hi ho, bloffset_lt]
    · have hcb : c ≠ b := fun h => ho (h ▸ rfl)
      have := bloffset_lt c
      simp [hcb]
      omega
  · have hcb : c ≠ b := fun h => hi (h ▸ rfl)
    rw [Function.update_of_ne hi]
    simp [Bitset.free, hcb]

theorem getBit_free (bts : Bitset) {b : Nat} (hb : b < wordCount * wordSizeInBits) :
    ∃ r, getBit bts b = .ok r ∧ (r ≠ 0#64 ↔ bts.free b = true) := by
  refine ⟨_, if_pos hb, ?_⟩
  have hbit : ∀ i, ((bts (bindex b) >>> bloffset b) &&& 1#64).getLsbD i =
      (decide (i = 0) && bts.free b) := by
    intro i
    rw [BitVec.getLsbD_and, BitVec.getLsbD_ushiftRight]
    by_cases hi : i = 0
    · simp [hi, Bitset.free]
    · simp [hi]
  constructor
  · intro hne
    by_contra hfree
    refine hne (BitVec.eq_of_getLsbD_eq fun i _ => ?_)
    rw [hbit, BitVec.getLsbD_zero, Bool.eq_false_iff.mpr hfree, Bool.and_false]
  · intro hfree hzero
    have := hbit 0
    rw [hzero] at this
    simp [hfree] at this

/-- `ff_setbit` finds the lowest free slot, if there is one at or below `c`. -/
theorem ffSetbit_lowest {bts : Bitset} {c : Nat}
    (hc : c < wordCount * wordSizeInBits) (hfree : bts.free c = true) :
    ∃ b, ffSetbit bts = some b ∧ bts.free b = true ∧ b ≤ c := by
  have hword : bindex c < wordCount := Nat.div_lt_of_lt_mul (by rwa [Nat.mul_comm])
  have hne : bts (bindex c) ≠ 0#64 := fun hzero => by simp [Bitset.free, hzero] at hfree
  have hsome : (ffSetbit bts).isSome := by
    rw [ffSetbit, List.findSome?_isSome_iff]
    exact ⟨bindex c, List.mem_range.mpr hword, by simp [hne]⟩
  obtain ⟨b, hb⟩ := Option.isSome_iff_exists.mp hsome
  refine ⟨b, hb, ?_⟩
  obtain ⟨before, i, after, hrange, hi, hbefore⟩ := List.findSome?_eq_some_iff.mp hb
  by_cases hi0 : bts i = 0#64
  · simp [hi0] at hi
  have heq : nlz64 (bts i) + i * wordSizeInBits = b := by
    simpa [hi0] using hi
  obtain ⟨hset, hlow⟩ := nlz64_lowest hi0
  have hlt : nlz64 (bts i) < wordSizeInBits := BitVec.lt_of_getLsbD hset
  have hbi : bindex b = i := by
    rw [bindex, ← heq, Nat.add_mul_div_right _ _ (by decide), Nat.div_eq_of_lt hlt,
      Nat.zero_add]
  have hbo : bloffset b = nlz64 (bts i) := by
    rw [bloffset, ← heq, Nat.add_mul_mod_self_right, Nat.mod_eq_of_lt hlt]
  refine ⟨by rw [Bitset.free, hbi, hbo, hset], ?_⟩
  -- the words before the one found are all zero
  have hfirst : i ≤ bindex c := by
    by_contra hgt
    have hlen : before.length = i := by
      have := congrArg (fun l : List Nat => l[before.length]?) hrange
      simp only [List.getElem?_append_right (Nat.le_refl _), Nat.sub_self,
        List.getElem?_cons_zero] at this
      have hlt : before.length < wordCount := by
        have hl := congrArg List.length hrange
        simp at hl
        omega
      rw [List.getElem?_range hlt] at this
      exact Option.some.inj this
    have hmem : bindex c ∈ before := by
      have : (List.range wordCount)[bindex c]? = some (bindex c) :=
        List.getElem?_range hword
      rw [hrange, List.getElem?_append_left (by omega)] at this
      exact List.mem_of_getElem? this
    have := hbefore _ hmem
    simp [hne] at this
  rw [← bindex_bloffset b, ← bindex_bloffset c, hbi, hbo]
  rcases Nat.lt_or_eq_of_le hfirst with hlt' | rfl
  · have : (i + 1) * wordSizeInBits ≤ bindex c * wordSizeInBits :=
      Nat.mul_le_mul_right _ hlt'
    rw [Nat.succ_mul] at this
    omega
  · refine Nat.add_le_add_right ?_ _
    by_contra hgt
    have := hlow (bloffset c) (by omega)
    rw [Bitset.free] at hfree
    simp [this] at hfree

/-! ## The bitmap as a finite set with a minimum -/

def Bitset.members (bts : Bitset) : Finset Nat :=
  (Finset.range (wordCount * wordSizeInBits)).filter fun b => bts.free b = true

variable {bts : Bitset} {a b : Nat}

theorem mem_members :
    b ∈ bts.members ↔ b < wordCount * wordSizeInBits ∧ bts.free b = true := by
  simp [Bitset.members]

theorem setBit_members (bts : Bitset) (ha : a < wordCount * wordSizeInBits) :
    ∃ bts', setBit bts a = .ok bts' ∧ bts'.members = insert a bts.members := by
  obtain ⟨bts', hset, hfree⟩ := setBit_free bts ha
  refine ⟨bts', hset, Finset.ext fun b => ?_⟩
  rw [mem_members, Finset.mem_insert, mem_members, hfree, Bool.or_eq_true,
    decide_eq_true_iff]
  constructor
  · rintro ⟨hb, rfl | hmem⟩
    · exact .inl rfl
    · exact .inr ⟨hb, hmem⟩
  · rintro (rfl | ⟨hb, hmem⟩)
    · exact ⟨ha, .inl rfl⟩
    · exact ⟨hb, .inr hmem⟩

theorem clearBit_members (bts : Bitset) (ha : a < wordCount * wordSizeInBits) :
    ∃ bts', clearBit bts a = .ok bts' ∧ bts'.members = bts.members.erase a := by
  obtain ⟨bts', hclear, hfree⟩ := clearBit_free bts ha
  refine ⟨bts', hclear, Finset.ext fun b => ?_⟩
  rw [mem_members, Finset.mem_erase, mem_members, hfree, Bool.and_eq_true,
    Bool.not_eq_true', decide_eq_false_iff_not]
  tauto

theorem getBit_members (bts : Bitset) (ha : a < wordCount * wordSizeInBits) :
    ∃ r, getBit bts a = .ok r ∧ (r ≠ 0#64 ↔ a ∈ bts.members) := by
  obtain ⟨r, hget, hfree⟩ := getBit_free bts ha
  exact ⟨r, hget, by rw [mem_members, hfree, and_iff_right ha]⟩

/-- A word that is not zero holds a member of the set. -/
theorem lowest_mem_members {i : Nat} (hi : i < wordCount) (hword : bts i ≠ 0#64) :
    nlz64 (bts i) + i * wordSizeInBits ∈ bts.members := by
  obtain ⟨hset, -⟩ := nlz64_lowest hword
  have hlt : nlz64 (bts i) < wordSizeInBits := BitVec.lt_of_getLsbD hset
  have hindex : bindex (nlz64 (bts i) + i * wordSizeInBits) = i := by
    rw [bindex, Nat.add_mul_div_right _ _ (by decide), Nat.div_eq_of_lt hlt,
      Nat.zero_add]
  have hoffset : bloffset (nlz64 (bts i) + i * wordSizeInBits) = nlz64 (bts i) := by
    rw [bloffset, Nat.add_mul_mod_self_right, Nat.mod_eq_of_lt hlt]
  have hbound : (i + 1) * wordSizeInBits ≤ wordCount * wordSizeInBits :=
    Nat.mul_le_mul_right _ hi
  rw [Nat.succ_mul] at hbound
  refine mem_members.mpr ⟨by omega, ?_⟩
  rw [Bitset.free, hindex, hoffset, hset]

theorem ffSetbit_none_iff : ffSetbit bts = none ↔ bts.members = ∅ := by
  constructor
  · intro hnone
    refine Finset.eq_empty_of_forall_notMem fun c hc => ?_
    obtain ⟨hlt, hfree⟩ := mem_members.mp hc
    obtain ⟨b, hsome, -⟩ := ffSetbit_lowest hlt hfree
    rw [hnone] at hsome
    cases hsome
  · intro hempty
    refine List.findSome?_eq_none_iff.mpr fun i hi => ?_
    by_cases hword : bts i = 0#64
    · simp [hword]
    · have hmem := lowest_mem_members (List.mem_range.mp hi) hword
      rw [hempty] at hmem
      cases hmem

theorem ffSetbit_some_iff : ffSetbit bts = some b ↔ IsLeast ↑bts.members b := by
  have hleast : ∀ {b}, ffSetbit bts = some b → IsLeast ↑bts.members b := by
    intro b hb
    have hfound : ∀ c ∈ bts.members, bts.free b = true ∧ b ≤ c := fun c hc => by
      obtain ⟨b', hb', hfree, hle⟩ :=
        ffSetbit_lowest (mem_members.mp hc).1 (mem_members.mp hc).2
      rw [hb, Option.some.injEq] at hb'
      subst hb'
      exact ⟨hfree, hle⟩
    have hne : bts.members ≠ ∅ := fun hempty => by
      rw [ffSetbit_none_iff.mpr hempty] at hb
      cases hb
    obtain ⟨c, hc⟩ := Finset.nonempty_iff_ne_empty.mpr hne
    obtain ⟨hfree, hle⟩ := hfound c hc
    exact ⟨mem_members.mpr ⟨hle.trans_lt (mem_members.mp hc).1, hfree⟩,
      fun c hc => (hfound c hc).2⟩
  refine ⟨hleast, fun h => ?_⟩
  cases hres : ffSetbit bts with
  | none =>
      have hmem := h.1
      rw [ffSetbit_none_iff.mp hres] at hmem
      simp at hmem
  | some b' => rw [h.unique (hleast hres)]

theorem bitmap_is_finite_set :
    (∀ (bts : Bitset) (a : Nat), a < wordCount * wordSizeInBits →
      (∃ bts', setBit bts a = .ok bts' ∧ bts'.members = insert a bts.members) ∧
      (∃ bts', clearBit bts a = .ok bts' ∧ bts'.members = bts.members.erase a) ∧
      ∃ r, getBit bts a = .ok r ∧ (r ≠ 0#64 ↔ a ∈ bts.members)) ∧
    (∀ bts : Bitset, (ffSetbit bts = none ↔ bts.members = ∅) ∧
      ∀ b, ffSetbit bts = some b ↔ IsLeast ↑bts.members b) ∧
    ∀ x : BitVec 64, x ≠ 0#64 →
      x.getLsbD (nlz64 x) = true ∧ ∀ j < nlz64 x, x.getLsbD j = false := by
  refine ⟨fun bts a ha => ⟨setBit_members bts ha, clearBit_members bts ha,
    getBit_members bts ha⟩, fun bts => ⟨ffSetbit_none_iff, fun b => ffSetbit_some_iff⟩,
    fun x hx => nlz64_lowest hx⟩

/-- The last slot is in a word of its own. -/
theorem bitmap_is_finite_set_last :
    (∃ bts', setBit (fun _ => 0#64) 52479 = .ok bts' ∧
      bts'.members = insert 52479 (Bitset.members fun _ => 0#64)) ∧
    (0x8000000000000000#64).getLsbD (nlz64 0x8000000000000000#64) = true :=
  ⟨(bitmap_is_finite_set.1 (fun _ => 0#64) 52479 (by decide)).1,
    (bitmap_is_finite_set.2.2 0x8000000000000000#64 (by decide)).1⟩

end Lightcache.Slab
