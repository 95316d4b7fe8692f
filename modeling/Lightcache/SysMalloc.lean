import Lightcache.Foundation.Accounting
import Lightcache.Mem

/-!
# `mem.c` on the allocator of the system

With `use_sys_malloc`, `li_malloc` keeps the size of every block in front of it
and refuses what would take `mem_used` above `mem_avail`.  The limit and the
account are part of the state, so no state violates them.
-/

namespace Lightcache

open Lightcache.Foundation

/-- Where `malloc` puts a block, behind the size that `li_malloc` keeps there. -/
structure SystemMalloc where
  pick : Finset Addr → Nat → Addr
  fresh : ∀ s n, pick s n ∉ s

/-- The system hands out the address after the last one in use. -/
def nextAddress : SystemMalloc := ⟨fun s _ => s.sup id + 1, fun s _ => Allocator.sup_succ_notMem s⟩

/-- `mem_used`, and the sizes that `li_free` finds in front of the blocks. -/
structure SysHeap (memAvail : Nat) where
  blocks : Finset Addr
  size : Addr → Nat
  memUsed : Nat
  accounted : memUsed = ∑ a ∈ blocks, size a
  within : memUsed ≤ memAvail

namespace SysHeap

variable {memAvail : Nat}

def empty (memAvail : Nat) : SysHeap memAvail := ⟨∅, fun _ => 0, 0, rfl, Nat.zero_le _⟩

theorem sum_insert {m : SysHeap memAvail} {a : Addr} (n : Nat) (h : a ∉ m.blocks) :
    m.memUsed + n = ∑ b ∈ insert a m.blocks, Function.update m.size a n b := by
  rw [Finset.sum_insert h, Function.update_self, m.accounted, Nat.add_comm]
  refine congrArg (n + ·) (Finset.sum_congr rfl fun b hb => ?_)
  rw [Function.update_of_ne (ne_of_mem_of_not_mem hb h)]

theorem sum_erase {m : SysHeap memAvail} {a : Addr} (h : a ∈ m.blocks) :
    m.memUsed - m.size a = ∑ b ∈ m.blocks.erase a, m.size b := by
  rw [m.accounted, ← Finset.add_sum_erase _ _ h, Nat.add_sub_cancel_left]

/-- `li_malloc` of a positive size. -/
def malloc (sys : SystemMalloc) (m : SysHeap memAvail) (size : Nat) :
    Option Addr × SysHeap memAvail :=
  if h : size + m.memUsed > memAvail then (none, m)
  else
    (some (sys.pick m.blocks size),
      ⟨insert (sys.pick m.blocks size) m.blocks,
        Function.update m.size (sys.pick m.blocks size) size, m.memUsed + size,
        sum_insert size (sys.fresh _ _), by omega⟩)

/-- `li_free` of a block that is in use. -/
def free (m : SysHeap memAvail) (a : Addr) : SysHeap memAvail :=
  if h : a ∈ m.blocks then
    ⟨m.blocks.erase a, m.size, m.memUsed - m.size a, sum_erase h,
      (Nat.sub_le ..).trans m.within⟩
  else m

theorem malloc_some {sys : SystemMalloc} {m m' : SysHeap memAvail} {n : Nat} {a : Addr}
    (h : malloc sys m n = (some a, m')) : a ∉ m.blocks ∧ m'.blocks = insert a m.blocks ∧
      m'.size = Function.update m.size a n ∧ m'.memUsed = m.memUsed + n := by
  rw [malloc] at h
  split at h
  · cases h
  · rw [Prod.mk.injEq, Option.some.injEq] at h
    obtain ⟨rfl, rfl⟩ := h
    exact ⟨sys.fresh _ _, rfl, rfl, rfl⟩

/-- A request is refused exactly when the limit leaves no room for it. -/
theorem malloc_none {sys : SystemMalloc} {m m' : SysHeap memAvail} {n : Nat} :
    malloc sys m n = (none, m') ↔ memAvail < n + m.memUsed ∧ m' = m := by
  rw [malloc]
  split
  · rename_i hroom
    simp [hroom, eq_comm]
  · rename_i hroom
    simp [hroom]

theorem free_of_mem {m : SysHeap memAvail} {a : Addr} (h : a ∈ m.blocks) :
    (m.free a).blocks = m.blocks.erase a ∧ (m.free a).size = m.size ∧
      (m.free a).memUsed = m.memUsed - m.size a := by
  rw [free, dif_pos h]
  exact ⟨rfl, rfl, rfl⟩

end SysHeap

/-- `li_malloc` and `li_free` with `use_sys_malloc`; every block is cleared. -/
def sysAllocator (sys : SystemMalloc) (memAvail : Nat) : Allocator (SysHeap memAvail) Addr where
  malloc := SysHeap.malloc sys
  free := SysHeap.free
  live := SysHeap.blocks
  memused := SysHeap.memUsed
  clears := true
  fresh h := (SysHeap.malloc_some h).1
  live_some h := (SysHeap.malloc_some h).2.1
  live_none h := congrArg SysHeap.blocks (SysHeap.malloc_none.mp h).2
  live_free h := (SysHeap.free_of_mem h).1

/-- The account of the system's blocks charges what was asked for. -/
theorem charges_sys (sys : SystemMalloc) (memAvail : Nat) :
    Allocator.Charges (sysAllocator sys memAvail) SysHeap.size where
  sum := SysHeap.accounted
  malloc {s n a s'} h := by
    obtain ⟨hnew, -, hsize, -⟩ := SysHeap.malloc_some h
    rw [hsize]
    refine ⟨by rw [Function.update_self], fun b hb => ?_⟩
    exact Function.update_of_ne (ne_of_mem_of_not_mem hb hnew) ..
  refused h b _ := by rw [(SysHeap.malloc_none.mp h).2]
  free h b _ := by
    change (SysHeap.free _ _).size b = _
    rw [(SysHeap.free_of_mem h).2.1]

end Lightcache
