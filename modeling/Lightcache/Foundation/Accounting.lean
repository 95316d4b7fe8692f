import Lightcache.Foundation.Allocator
import Mathlib.Algebra.BigOperators.Group.Finset.Basic

/-!
# The account of an allocator

An allocator keeps an account if it charges every block for as long as it is in
use, and no other call changes the charge.
-/

namespace Lightcache.Foundation.Allocator

variable {σ α : Type} [DecidableEq α] {A : Allocator σ α} {charge : σ → α → Nat}

/-- `charge` is what `memused` counts for each block in use. -/
structure Charges (A : Allocator σ α) (charge : σ → α → Nat) : Prop where
  sum : ∀ s, A.memused s = ∑ a ∈ A.live s, charge s a
  malloc : ∀ {s n a s'}, A.malloc s n = (some a, s') →
    n ≤ charge s' a ∧ ∀ b ∈ A.live s, charge s' b = charge s b
  refused : ∀ {s n s'}, A.malloc s n = (none, s') → ∀ b ∈ A.live s, charge s' b = charge s b
  free : ∀ {s a}, a ∈ A.live s → ∀ b ∈ A.live s, charge (A.free s a) b = charge s b

/-- Who owns the blocks can be charged for them one by one. -/
theorem Charges.memused_eq (h : Charges A charge) {s : σ} {M : Multiset α} (hown : A.Owns s M) :
    A.memused s = (M.map (charge s)).sum := by
  rw [h.sum, ← hown, Finset.sum]

end Lightcache.Foundation.Allocator
