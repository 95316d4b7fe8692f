import Mathlib.Data.Finset.Lattice.Fold
import Mathlib.Data.Multiset.AddSub
import Mathlib.Order.Lattice.Nat

/-!
# Allocators and ownership

An allocator hands out addresses that are not in use and takes them back.  Its
state is abstract, so one interface covers an allocator that never fails, every
pattern of failures, and every way of handing a released address out again.

Ownership is counted in multisets: `A.Owns s M` says that `M` lists the addresses
in use, each of them once.  A frame is a summand of `M`.
-/

namespace Lightcache.Foundation

structure Allocator (σ α : Type) [DecidableEq α] where
  malloc : σ → Nat → Option α × σ
  free : σ → α → σ
  live : σ → Finset α
  /-- The memory in use, as the allocator itself accounts for it. -/
  memused : σ → Nat
  /-- Whether a block is cleared when it is handed out. -/
  clears : Bool
  fresh : ∀ {s n a s'}, malloc s n = (some a, s') → a ∉ live s
  live_some : ∀ {s n a s'}, malloc s n = (some a, s') →
    live s' = insert a (live s)
  live_none : ∀ {s n s'}, malloc s n = (none, s') → live s' = live s
  live_free : ∀ {s a}, a ∈ live s → live (free s a) = (live s).erase a

namespace Allocator

variable {σ α : Type} [DecidableEq α] (A : Allocator σ α)

/-- No request for a positive number of bytes is refused. -/
def NeverFails : Prop :=
  ∀ s n, 0 < n → ∃ a s', A.malloc s n = (some a, s')

def Owns (s : σ) (M : Multiset α) : Prop := (A.live s).val = M

variable {A} {s s' : σ} {n : Nat} {a : α} {M N : Multiset α}

theorem Owns.congr (h : A.Owns s N) (heq : M = N) : A.Owns s M := h.trans heq.symm

theorem owns_live (s : σ) : A.Owns s (A.live s).val := rfl

theorem Owns.mem_iff (h : A.Owns s M) : a ∈ A.live s ↔ a ∈ M := by
  rw [← h, Finset.mem_val]

theorem Owns.nodup (h : A.Owns s M) : M.Nodup := h ▸ (A.live s).nodup

theorem Owns.malloc (h : A.Owns s M) (hm : A.malloc s n = (some a, s')) :
    A.Owns s' ({a} + M) := by
  rw [Owns, A.live_some hm, Finset.insert_val_of_notMem (A.fresh hm),
    Multiset.singleton_add, h]

theorem Owns.malloc_notMem (h : A.Owns s M)
    (hm : A.malloc s n = (some a, s')) : a ∉ M := fun ha =>
  A.fresh hm (h.mem_iff.mpr ha)

theorem Owns.malloc_none (h : A.Owns s M) (hm : A.malloc s n = (none, s')) :
    A.Owns s' M := by
  rw [Owns, A.live_none hm]
  exact h

theorem Owns.head (h : A.Owns s ({a} + M)) : a ∈ A.live s :=
  h.mem_iff.mpr (by simp)

theorem Owns.free (h : A.Owns s ({a} + M)) : A.Owns (A.free s a) M := by
  rw [Owns, A.live_free h.head, Finset.erase_val, h, Multiset.singleton_add,
    Multiset.erase_cons_head]

theorem sup_succ_notMem (s : Finset ℕ) : s.sup id + 1 ∉ s := fun hmem =>
  absurd (Finset.le_sup (f := id) hmem) (Nat.not_succ_le_self _)

/-- An allocator that always has an address above those in use. -/
def unlimited : Allocator (Finset ℕ) ℕ where
  malloc s _ := (some (s.sup id + 1), insert (s.sup id + 1) s)
  free s a := s.erase a
  live := id
  memused := Finset.card
  clears := true
  fresh := by
    rintro s n a s' ⟨⟩
    exact sup_succ_notMem s
  live_some := by
    rintro s n a s' ⟨⟩
    rfl
  live_none := by
    rintro s n s' ⟨⟩
  live_free _ := rfl

theorem neverFails_unlimited : unlimited.NeverFails :=
  fun s _ _ => ⟨s.sup id + 1, insert (s.sup id + 1) s, rfl⟩

/-- An allocator that refuses requests for more than `limit` bytes. -/
def upTo (limit : Nat) : Allocator (Finset ℕ) ℕ where
  malloc s n := if n ≤ limit then (some (s.sup id + 1), insert (s.sup id + 1) s) else (none, s)
  free s a := s.erase a
  live := id
  memused := Finset.card
  clears := true
  fresh := by
    intro s n a s' h
    split at h <;> cases h
    exact sup_succ_notMem s
  live_some := by
    intro s n a s' h
    split at h <;> cases h
    rfl
  live_none := by
    intro s n s' h
    split at h <;> cases h
    rfl
  live_free _ := rfl

/-- The lowest address from 1 on that is not in use. -/
def lowest (s : Finset ℕ) : ℕ :=
  ((List.range' 1 (s.card + 1)).find? (· ∉ s)).getD (s.sup id + 1)

theorem lowest_notMem (s : Finset ℕ) : lowest s ∉ s := by
  rw [lowest]
  cases hfind : (List.range' 1 (s.card + 1)).find? (· ∉ s) with
  | none => exact sup_succ_notMem s
  | some a => simpa using List.find?_some hfind

/-- An allocator that hands out the lowest address, and the block as it was left. -/
def recycling : Allocator (Finset ℕ) ℕ where
  malloc s _ := (some (lowest s), insert (lowest s) s)
  free s a := s.erase a
  live := id
  memused := Finset.card
  clears := false
  fresh := by
    rintro s n a s' ⟨⟩
    exact lowest_notMem s
  live_some := by
    rintro s n a s' ⟨⟩
    rfl
  live_none := by
    rintro s n s' ⟨⟩
  live_free _ := rfl

end Allocator

end Lightcache.Foundation
