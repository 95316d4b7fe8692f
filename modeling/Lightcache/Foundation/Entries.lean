import Mathlib.Data.Multiset.Filter
import Mathlib.Data.Multiset.MapFold
import Mathlib.Data.Finset.Card
import Mathlib.Logic.Function.Basic

/-!
# Finite maps as multisets of entries

A multiset of key-value pairs represents a partial function when it holds at
most one entry for each key and exactly the entries of the function.
-/

namespace Lightcache.Foundation

variable {K V : Type} {M : Multiset (K × V)} {f : K → Option V} {k : K} {v : V}

structure Represents (M : Multiset (K × V)) (f : K → Option V) : Prop where
  nodup : (M.map Prod.fst).Nodup
  mem : ∀ k v, (k, v) ∈ M ↔ f k = some v

theorem represents_zero : Represents (0 : Multiset (K × V)) fun _ => none :=
  ⟨by simp, by simp⟩

namespace Represents

theorem eq_none (h : Represents M f) (hk : ∀ e ∈ M, e.1 ≠ k) : f k = none := by
  by_contra hne
  obtain ⟨v, hv⟩ := Option.ne_none_iff_exists'.mp hne
  exact hk _ ((h.mem k v).mpr hv) rfl

theorem insert [DecidableEq K] (h : Represents M f) (hk : f k = none) :
    Represents ((k, v) ::ₘ M) (Function.update f k (some v)) where
  nodup := by
    rw [Multiset.map_cons, Multiset.nodup_cons]
    refine ⟨fun hmem => ?_, h.nodup⟩
    obtain ⟨⟨k', w⟩, he, rfl⟩ := Multiset.mem_map.mp hmem
    simp [(h.mem k' w).mp he] at hk
  mem := by
    intro k' w
    rw [Multiset.mem_cons, h.mem]
    by_cases hkk : k' = k
    · subst hkk
      simp [hk, eq_comm]
    · simp [hkk]

theorem erase [DecidableEq K] (h : Represents ((k, v) ::ₘ M) f) :
    Represents M (Function.update f k none) where
  nodup := by
    have := h.nodup
    rw [Multiset.map_cons, Multiset.nodup_cons] at this
    exact this.2
  mem := by
    have hnot : ∀ w, (k, w) ∉ M := fun w hw => by
      have := h.nodup
      rw [Multiset.map_cons, Multiset.nodup_cons] at this
      exact this.1 (Multiset.mem_map.mpr ⟨(k, w), hw, rfl⟩)
    intro k' w
    by_cases hkk : k' = k
    · subst hkk
      simp [hnot w]
    · have := h.mem k' w
      rw [Multiset.mem_cons] at this
      simpa [hkk] using this

theorem replace [DecidableEq K] (h : Represents ((k, v) ::ₘ M) f) (w : V) :
    Represents ((k, w) ::ₘ M) (Function.update f k (some w)) := by
  have := h.erase.insert (k := k) (v := w) (by simp)
  rwa [Function.update_idem] at this

theorem filter (h : Represents M f) (q : K → V → Bool) :
    Represents (M.filter fun e => q e.1 e.2) fun k => (f k).filter (q k) where
  nodup := Multiset.nodup_of_le (Multiset.map_le_map (Multiset.filter_le _ _)) h.nodup
  mem := by
    intro k v
    rw [Multiset.mem_filter, h.mem, Option.filter_eq_some_iff]

/-- The number of entries is the number of keys. -/
theorem card_eq [DecidableEq K] (h : Represents M f) :
    ∃ keys : Finset K, (∀ k, k ∈ keys ↔ (f k).isSome) ∧ M.card = keys.card := by
  refine ⟨(M.map Prod.fst).toFinset, fun k => ?_, ?_⟩
  · rw [Multiset.mem_toFinset, Multiset.mem_map, Option.isSome_iff_exists]
    constructor
    · rintro ⟨⟨k', v⟩, he, rfl⟩
      exact ⟨v, (h.mem k' v).mp he⟩
    · rintro ⟨v, hv⟩
      exact ⟨(k, v), (h.mem k v).mpr hv, rfl⟩
  · rw [Multiset.toFinset_card_of_nodup h.nodup, Multiset.card_map]

end Represents

end Lightcache.Foundation
