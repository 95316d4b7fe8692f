import Lightcache.Hashtab.Grow

/-!
# The recursion of `hset` and `hgrow`

The counters of a table under construction count its insertions: `freecount`
goes down with every recycled item and never up.  So the load a re-insertion
sees is the number of items moved so far.  A growth inside a growth therefore
moves fewer items than its table can hold without growing again, and three
nested calls of `hset` are always enough.
-/

namespace Lightcache.Hashtab

open Lightcache Lightcache.Foundation

variable {V σ : Type} {A : Allocator σ Addr}

theorem overloaded_iff {ht : Htab V} :
    ht.overloaded = true ↔ 3 * (ht.realsize : Int) ≤ 4 * hcount ht := by
  simp [Htab.overloaded, hcount]

theorem Fresh.realsize {logsize : Nat} {ht : Htab V} (h : Fresh logsize ht) :
    ht.realsize = hsize logsize := by rw [h.ok.size, h.logsize]

theorem hsize_succ (n : Nat) : hsize (n + 1) = 2 * hsize n := by
  simp only [hsize, Nat.one_shiftLeft, Nat.pow_succ, Nat.mul_comm]

/-- `ht` has `n` buckets and takes `k` more insertions without growing. -/
def Roomy (n k : Nat) (ht : Htab V) : Prop :=
  ht.realsize = n ∧ 4 * (hcount ht + k) < 3 * (n : Int)

/-- A table under construction: as many insertions as items, and not full. -/
def Young (ht : Htab V) : Prop :=
  (ht.items.length : Int) ≤ hcount ht ∧ 2 ≤ ht.realsize ∧
    4 * hcount ht < 3 * (ht.realsize : Int)

theorem modify_items_length {ht : Htab V} {ref : ItemRef} {it : HItem V}
    (hat : ht.At ref it) (f : HItem V → HItem V) :
    (ht.modify ref f).items.length = ht.items.length := by
  obtain ⟨s, hold, hnew⟩ := Htab.modify_items hat f
  rw [← Multiset.coe_card, hnew, ← Multiset.coe_card, hold, Multiset.card_cons,
    Multiset.card_cons]

/-- While there is room nothing grows. -/
theorem hsetDepth_roomy (depth n : Nat) :
    SetFnOk A (hsetDepth (V := V) A (depth + 1)) (hsetFails A (depth + 1)) (Roomy n) := by
  have hnever : ∀ {k : Nat} {ht ht₁ : Htab V}, Roomy n (k + 1) ht →
      ht₁.realsize = ht.realsize → hcount ht₁ = hcount ht + 1 →
      ht₁.overloaded ≠ true := by
    intro k ht ht₁ hP hsize hcount hover
    rw [overloaded_iff, hsize, hcount, hP.1] at hover
    have := hP.2
    push_cast at this
    omega
  refine hsetDepth_ok ?_ ?_ ?_
  · intro k ht ht₁ hP _ hsize hcount _ hover
    exact absurd hover (hnever hP hsize hcount)
  · intro k ht ht₁ hP hsize hcount _ _
    refine ⟨hsize.trans hP.1, ?_⟩
    have := hP.2
    push_cast at this
    omega
  · exact fun hP _ => hP

/--
A table that started with `S` buckets for `N` insertions, `k` of them to come.
It has grown only as far as its insertions made it.
-/
structure Growing (S N k : Nat) (ht : Htab V) : Prop where
  young : Young ht
  left : hcount ht + k = N
  least : ht.realsize = S ∨ 3 * (ht.realsize : Int) ≤ 8 * hcount ht
  dvd : S ∣ ht.realsize

/-- The least number of buckets from `S` on, by doubling, that `N` items do not fill. -/
structure Sized (S N D : Nat) : Prop where
  room : 4 * N < 3 * D
  least : D = S ∨ 3 * D ≤ 8 * N
  dvd : S ∣ D

theorem Growing.sized {S N : Nat} {ht : Htab V} (h : Growing S N 0 ht) :
    Sized S N ht.realsize := by
  obtain ⟨⟨hitems, hpos, hload⟩, hleft, hleast, hdvd⟩ := h
  exact ⟨by omega, by omega, hdvd⟩

theorem Fresh.growing {n N : Nat} {ht : Htab V} (h : Fresh (n + 1) ht) :
    Growing (2 * hsize n) N N ht := by
  have hpos : 1 ≤ hsize n := by
    rw [hsize, Nat.one_shiftLeft]
    exact Nat.two_pow_pos _
  have hsize := h.realsize.trans (hsize_succ _)
  have hempty := h.items
  have hzero := h.hcount
  refine ⟨⟨by simp [hempty, hzero], by omega, by omega⟩, by omega, .inl hsize, ?_⟩
  rw [hsize]

/-- A growth inside a growth has room for all the items it moves. -/
theorem hsetDepth_growing (depth S N : Nat) :
    SetFnOk A (hsetDepth (V := V) A (depth + 2)) (hsetFails A (depth + 2)) (Growing S N) := by
  refine hsetDepth_ok ?_ ?_ ?_
  · rintro k ht ht₁ ⟨⟨hitems, hpos, hload⟩, hleft, hleast, hdvd⟩ hok hsize hone hle hover
    -- the table has only just passed the load limit
    rw [overloaded_iff] at hover
    push_cast at hleft
    refine ⟨Roomy (2 * ht.realsize), hsetDepth_roomy depth _, ?_, ?_⟩
    · intro dummy hfresh
      refine ⟨?_, ?_⟩
      · rw [hfresh.realsize, hsize_succ, ← hok.size, hsize]
      · rw [hfresh.hcount]
        omega
    · rintro d ht₂ ⟨hd, -⟩ hsize₂ hcount₂ hle₂
      refine ⟨⟨by omega, by omega, by omega⟩, by omega, .inr (by omega), ?_⟩
      rw [hsize₂, hd]
      exact Dvd.dvd.mul_left hdvd 2
  · rintro k ht ht₁ ⟨⟨hitems, hpos, hload⟩, hleft, hleast, hdvd⟩ hsize hone hle hover
    have hfit : ¬ (3 * (ht₁.realsize : Int) ≤ 4 * hcount ht₁) := fun h => by
      simp [overloaded_iff.mpr h] at hover
    push_cast at hleft
    exact ⟨⟨by omega, by omega, by omega⟩, by omega, by omega, hsize ▸ hdvd⟩
  · rintro k ht ref it f ⟨⟨hitems, hpos, hload⟩, hleft, hleast, hdvd⟩ hat
    exact ⟨⟨by rwa [modify_items_length hat], hpos, hload⟩, hleft, hleast, hdvd⟩

/-- Three nested calls of `hset` are enough for every table. -/
theorem hsetDepth_enough (depth : Nat) :
    SetFnOk A (hsetDepth (V := V) A (depth + 3)) (hsetFails A (depth + 3)) fun _ _ => True := by
  refine hsetDepth_ok ?_ ?_ ?_
  · intro k ht ht₁ _ hok _ _ _ _
    exact ⟨Growing (2 * hsize ht₁.logsize) ht₁.items.length, hsetDepth_growing depth _ _,
      fun dummy hfresh => hfresh.growing, fun _ _ _ _ _ _ => trivial⟩
  · exact fun _ _ _ _ _ => trivial
  · exact fun _ _ => trivial

/-- `hset`: what it returns, and the one way it can fault. -/
theorem hset_post {ht : Htab V} {m : σ} {F : Multiset Addr} (name : Bytes)
    (val : V) (rest : Bytes) (hok : TableOk ht) (hown : A.Owns m (ht.blocks + F)) :
    Post (hset A ht (some (name ++ 0 :: rest)) name.length val m)
      (SetPost A ht name val m F
        (hsetFails A 3 ht (some (name ++ 0 :: rest)) name.length val m = true))
      (SetFault ht) :=
  ((hsetDepth_enough 0).post (k := 0) name val rest trivial hok hown).imp fun _ h => h.1

end Lightcache.Hashtab
