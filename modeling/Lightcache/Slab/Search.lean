import Lightcache.Slab.Manager

/-!
# The class `size_to_cache` finds

In a strictly increasing table the search returns the first class that holds a
chunk of the given size.
-/

namespace Lightcache.Slab.CacheManager

open Lightcache Lightcache.Foundation

variable {sizes : Nat → Nat} {n key : Nat}

/-- Everything below `l` is too small and everything above `r` too large. -/
structure SearchInv (sizes : Nat → Nat) (n key : Nat) (l r : Int) : Prop where
  nonneg : 0 ≤ l
  bound : r < n
  meet : l ≤ r + 1
  small : ∀ i : Nat, i < l → sizes i < key
  large : ∀ i : Nat, r < i → i < n → key < sizes i

theorem searchLoop_post (hmono : ∀ i j, i < j → j < n → sizes i < sizes j)
    (hmax : n ≤ 2 ^ 30) {l r : Int} (h : SearchInv sizes n key l r) :
    Post (searchLoop sizes n key l r)
      (fun
        | .inl m => m < n ∧ sizes m = key
        | .inr r' => -1 ≤ r' ∧ r' < n ∧ (∀ i : Nat, i < r' → sizes i < key) ∧
            ∀ i : Nat, r' < i → i < n → key < sizes i)
      (fun _ => False) := by
  induction l, r using searchLoop.induct sizes n key with
  | case1 l r hlt hover =>
      have := h.bound
      exact absurd hover (by omega)
  | case2 l r hlt hsum m hm hgt ih =>
      rw [searchLoop, if_pos hlt, if_neg hsum, if_pos hm, if_pos hgt]
      refine ih ⟨by omega, h.bound, by omega, fun i hi => ?_, h.large⟩
      rcases Nat.lt_or_eq_of_le (show i ≤ m.toNat by omega) with him | rfl
      · exact (hmono i m.toNat him (by omega)).trans hgt
      · exact hgt
  | case3 l r hlt hsum m hm hle hgt ih =>
      rw [searchLoop, if_pos hlt, if_neg hsum, if_pos hm, if_neg hle, if_pos hgt]
      refine ih ⟨h.nonneg, by omega, by omega, h.small, fun i hi hin => ?_⟩
      rcases Nat.lt_or_eq_of_le (show m.toNat ≤ i by omega) with him | rfl
      · exact hgt.trans (hmono m.toNat i him hin)
      · exact hgt
  | case4 l r hlt hsum m hm hle hge =>
      rw [searchLoop, if_pos hlt, if_neg hsum, if_pos hm, if_neg hle, if_neg hge]
      exact ⟨by omega, le_antisymm (not_lt.mp hge) (not_lt.mp hle)⟩
  | case5 l r hlt hsum m hm =>
      have := h.nonneg
      have := h.bound
      exact absurd ⟨by omega, by omega⟩ hm
  | case6 l r hge =>
      rw [searchLoop, if_neg hge]
      have := h.meet
      have := h.nonneg
      exact ⟨by omega, h.bound, fun i hi => h.small i (by omega), h.large⟩

/-- The first class that holds the key, or none where every class is too small. -/
def Ceiling (sizes : Nat → Nat) (n key : Nat) : Option Nat → Prop
  | some c => c < n ∧ key ≤ sizes c ∧ ∀ i < c, sizes i < key
  | none => ∀ i < n, sizes i < key

theorem sizeToCache_post (key : Nat) (hmono : ∀ i j, i < j → j < n → sizes i < sizes j)
    (hn : 1 ≤ n) (hmax : n ≤ 2 ^ 30) :
    ∃ c, sizeToCache sizes n key = .ok c ∧ Ceiling sizes n key c := by
  have hstart : SearchInv sizes n key 0 (n - 1) :=
    ⟨by omega, by omega, by omega, fun i hi => by omega, fun i hi hin => by omega⟩
  obtain ⟨found, hloop, hpost⟩ := (searchLoop_post hmono hmax hstart).exists_ok
  have hguard : ¬ (n ≥ 2147483647 ∨ n < 1) := by omega
  rw [sizeToCache, if_neg hguard, hloop, ok_bind]
  cases found with
  | inl m =>
      refine ⟨some m, rfl, hpost.1, hpost.2.ge, fun i hi => ?_⟩
      rw [← hpost.2]
      exact hmono i m hi hpost.1
  | inr r =>
      obtain ⟨hlow, hhigh, hsmall, hlarge⟩ := hpost
      have hr : ¬ r.toNat ≥ n := by omega
      dsimp only
      rw [if_neg hr]
      by_cases hfit : key ≤ sizes r.toNat
      · rw [if_pos hfit]
        exact ⟨some r.toNat, rfl, by omega, hfit, fun i hi => hsmall i (by omega)⟩
      have hneg : ¬ r < 0 := fun hneg => hfit (hlarge _ (by omega) (by omega)).le
      have hsmall' : ∀ i ≤ r.toNat, sizes i < key := fun i hi => by
        rcases Nat.lt_or_eq_of_le hi with hir | rfl
        · exact hsmall i (by omega)
        · exact not_le.mp hfit
      rw [if_neg hfit]
      by_cases hnext : r.toNat < n - 1
      · -- the class after `r` is the first that fits
        have hlt := hlarge (r.toNat + 1) (by omega) (by omega)
        rw [if_pos hnext, if_pos hlt.le]
        exact ⟨some (r.toNat + 1), rfl, by omega, hlt.le, fun i hi =>
          hsmall' i (Nat.lt_succ_iff.mp hi)⟩
      · rw [if_neg hnext]
        exact ⟨none, rfl, fun i hi => hsmall' i (by omega)⟩

theorem ceiling_of_le {c : Option Nat} (h : Ceiling sizes n key c) (hn : 1 ≤ n)
    (hkey : key ≤ sizes (n - 1)) :
    ∃ i, c = some i ∧ i < n ∧ key ≤ sizes i ∧ ∀ j < i, sizes j < key := by
  cases c with
  | none => exact absurd (h (n - 1) (by omega)) (not_lt.mpr hkey)
  | some i => exact ⟨i, rfl, h⟩

theorem size_to_cache_ceiling (sizes : Nat → Nat) (n key : Nat)
    (hmono : ∀ i j, i < j → j < n → sizes i < sizes j) (hn : 1 ≤ n)
    (hmax : n ≤ 2 ^ 30) :
    ∃ c, sizeToCache sizes n key = .ok c ∧
      (∀ i, c = some i → i < n ∧ key ≤ sizes i ∧
        ∀ j < n, key ≤ sizes j → sizes i ≤ sizes j) ∧
      (c = none ↔ ∀ i < n, sizes i < key) := by
  obtain ⟨c, hsearch, hceil⟩ := sizeToCache_post key hmono hn hmax
  refine ⟨c, hsearch, fun i hc => ?_, fun hc => ?_, fun hbig => ?_⟩
  · subst hc
    obtain ⟨hi, hfit, hsmall⟩ := hceil
    refine ⟨hi, hfit, fun j hj hfitj => ?_⟩
    rcases Nat.lt_trichotomy i j with hij | rfl | hji
    · exact (hmono i j hij hj).le
    · exact Nat.le_refl _
    · exact absurd (hsmall j hji) (not_lt.mpr hfitj)
  · subst hc
    exact hceil
  · cases c with
    | none => rfl
    | some i => exact absurd (hbig i hceil.1) (not_lt.mpr hceil.2.1)

/-- A key below the first class, where `r` becomes negative. -/
theorem size_to_cache_ceiling_two :
    ∃ c, sizeToCache (fun i => 20 * (i + 1)) 2 5 = .ok c ∧
      (∀ i, c = some i → i < 2 ∧ 5 ≤ 20 * (i + 1) ∧
        ∀ j < 2, 5 ≤ 20 * (j + 1) → 20 * (i + 1) ≤ 20 * (j + 1)) ∧
      (c = none ↔ ∀ i < 2, 20 * (i + 1) < 5) :=
  size_to_cache_ceiling (fun i => 20 * (i + 1)) 2 5 (fun i j hij _ => by omega)
    (by decide) (by decide)

end Lightcache.Slab.CacheManager
