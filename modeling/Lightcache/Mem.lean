import Lightcache.CRuntime
import Lightcache.Foundation.Allocator

/-!
# `mem.c`: the allocation front end

`li_malloc` refuses a request for zero bytes and passes every other one to the
allocator in use; `li_free` ignores NULL.  Releasing an address that is not in
use is a fault.
-/

namespace Lightcache

open Lightcache.Foundation

variable {σ : Type} (A : Allocator σ Addr)

def liMalloc (m : σ) (size : Nat) : Option Addr × σ :=
  if size = 0 then (none, m) else A.malloc m size

def liFree (m : σ) : Option Addr → Except Fault σ
  | none => .ok m
  | some a => if a ∈ A.live m then .ok (A.free m a) else .error .badFree

variable {A} {m m' : σ} {n : Nat} {a : Addr} {M : Multiset Addr}

theorem liMalloc_pos (h : 0 < n) : liMalloc A m n = A.malloc m n := by
  simp [liMalloc, Nat.ne_of_gt h]

theorem Owns.liMalloc (hown : A.Owns m M)
    (h : liMalloc A m n = (some a, m')) : A.Owns m' ({a} + M) := by
  rw [Lightcache.liMalloc] at h
  split at h
  · cases h
  · exact hown.malloc h

theorem Owns.liMalloc_notMem (hown : A.Owns m M)
    (h : Lightcache.liMalloc A m n = (some a, m')) : a ∉ M := by
  rw [Lightcache.liMalloc] at h
  split at h
  · cases h
  · exact hown.malloc_notMem h

theorem Owns.liMalloc_none (hown : A.Owns m M)
    (h : Lightcache.liMalloc A m n = (none, m')) : A.Owns m' M := by
  rw [Lightcache.liMalloc] at h
  split at h
  · cases h; exact hown
  · exact hown.malloc_none h

theorem liMalloc_ne_none (hA : A.NeverFails) (hn : 0 < n) :
    liMalloc A m n ≠ (none, m') := by
  obtain ⟨a, s, h⟩ := hA m n hn
  simp [liMalloc_pos hn, h]

/-- The blocks a pointer accounts for: none for NULL. -/
def ptrBlocks : Option Addr → Multiset Addr
  | none => 0
  | some a => {a}

@[simp] theorem ptrBlocks_none : ptrBlocks none = 0 := rfl

@[simp] theorem ptrBlocks_some (a : Addr) : ptrBlocks (some a) = {a} := rfl

/-- Releasing an owned pointer succeeds and gives up exactly its block. -/
theorem Owns.liFree {p : Option Addr} (hown : A.Owns m (ptrBlocks p + M)) :
    ∃ m', Lightcache.liFree A m p = .ok m' ∧ A.Owns m' M := by
  cases p with
  | none => exact ⟨m, rfl, by simpa using hown⟩
  | some a =>
      rw [ptrBlocks_some] at hown
      exact ⟨A.free m a, if_pos hown.head, hown.free⟩

end Lightcache
