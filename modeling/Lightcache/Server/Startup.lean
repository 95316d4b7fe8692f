import Lightcache.Server.Connection
import Lightcache.Slab.Setup
import Lightcache.SysMalloc

/-!
# `main`: the memory limit

The options of the command line, and the choice between the slabs and the
system's allocator: a pool that cannot be built, or has fewer slabs than classes,
is not used.  In the second case it is not given back either.
-/

namespace Lightcache.Server

open Lightcache Lightcache.Foundation Lightcache.Slab

/-- An option with its argument, as `getopt` returns it. -/
inductive Opt where
  | m (optarg : Bytes)
  | d (optarg : Bytes)
  | s (optarg : Bytes)
  | l (optarg : Bytes)
  deriving DecidableEq, Repr

/-- Without `DEBUG`. -/
def initSettings : Settings := ⟨64 * 1024 * 1024, 2⟩

/-- The loop over the options; `none` is the jump to `err`. -/
def readOpts : Settings → List Opt → Option Settings
  | settings, [] => some settings
  | settings, .m optarg :: opts =>
      match atoullValue optarg with
      | none => none
      | some param => readOpts { settings with memAvail := u64 (param * 1024 * 1024) } opts
  | settings, _ :: opts => readOpts settings opts

/-- What `main` has decided about the memory. -/
structure Instance where
  settings : Settings
  useSysMalloc : Bool
  slab : Globals

/-- `main` up to the choice of the allocator; `none` is the jump to `err`. -/
def chooseMalloc (libc : Libc) (opts : List Opt) : Except Fault (Option Instance) :=
  match readOpts initSettings opts with
  | none => .ok none
  | some settings => do
      let r ← Globals.fresh.initCacheManager libc (settings.memAvail / 1024 / 1024)
      return some ⟨settings, !r.1 || r.2.stats.slabCount < r.2.stats.cacheCount, r.2⟩

section Limit

variable {libc : Libc} {opts : List Opt} {settings settings' : Settings} {inst : Instance}
  {sys : SystemMalloc}

/-- A whole number of megabytes in 64 bits. -/
def Megabytes (n : Nat) : Prop := 2 ^ 20 ∣ n ∧ n < 2 ^ 64

theorem megabytes_u64 (param : Nat) : Megabytes (u64 (param * 1024 * 1024)) := by
  rw [Megabytes, u64]
  omega

theorem readOpts_megabytes (hbefore : Megabytes settings.memAvail)
    (h : readOpts settings opts = some settings') : Megabytes settings'.memAvail := by
  induction opts generalizing settings with
  | nil =>
      obtain rfl := Option.some.inj h
      exact hbefore
  | cons opt opts ih =>
      cases opt with
      | m optarg =>
          rw [readOpts] at h
          cases hparam : atoullValue optarg with
          | none =>
              rw [hparam] at h
              cases h
          | some param =>
              rw [hparam] at h
              exact ih (megabytes_u64 param) h
      | d optarg => exact ih hbefore h
      | s optarg => exact ih hbefore h
      | l optarg => exact ih hbefore h

/-- The pool is built for just the limit of the settings. -/
theorem Megabytes.memLimit {n : Nat} (h : Megabytes n) : memLimit (n / 1024 / 1024) = n := by
  obtain ⟨⟨k, rfl⟩, hlt⟩ := h
  rw [Slab.memLimit, u64]
  omega

/-- The pool has been built, but the system's allocator is used. -/
def Instance.Kept (inst : Instance) : Prop := inst.useSysMalloc = true ∧ inst.slab.cm ≠ none

/-- A pool can be built, but not one with a slab for each class. -/
def TooSmall (memAvail : Nat) : Prop :=
  1 < slabctlCount (memAvail / 1024 / 1024) ∧ slabctlCount (memAvail / 1024 / 1024) < cacheCount

/-- The system grants the blocks of the pool for this limit. -/
def Granted (libc : Libc) (memAvail : Nat) : Prop :=
  grants libc ∅ (poolSizes (memAvail / 1024 / 1024)) = true

/-- What start-up has decided, by its three outcomes. -/
structure Chosen (libc : Libc) (inst : Instance) : Prop where
  outcome : inst.useSysMalloc = true ∧ Released inst.slab ∨
    inst.slab.cm ≠ none ∧ 0 < inst.slab.stats.memMallocd ∧
      inst.slab.stats.memMallocd ≤ inst.settings.memAvail
  kept : inst.Kept ↔ TooSmall inst.settings.memAvail ∧ Granted libc inst.settings.memAvail

theorem chooseMalloc_chosen (h : chooseMalloc libc opts = .ok (some inst)) :
    Chosen libc inst := by
  rw [chooseMalloc] at h
  cases hopts : readOpts initSettings opts with
  | none =>
      rw [hopts] at h
      cases h
  | some settings =>
      rw [hopts] at h
      obtain ⟨r, hinit, hr⟩ := ok_of_bind_eq_ok h
      obtain rfl := Option.some.inj (Except.ok.inj hr)
      have hdefault : Megabytes initSettings.memAvail := ⟨⟨64, rfl⟩, by decide⟩
      have hmb : Megabytes settings.memAvail := readOpts_megabytes hdefault hopts
      have hpost := released_fresh.initCacheManager.of_ok hinit
      have htrue := (initCacheManager_true libc _).of_ok hinit
      cases hr : r.1 with
      | false =>
          have hreleased := (hpost.refused hr).1
          refine ⟨.inl ⟨by simp, hreleased⟩, iff_of_false (fun h => h.2 hreleased.cm) fun h => ?_⟩
          rw [htrue.mpr ⟨h.1.1, h.2⟩] at hr
          cases hr
      | true =>
          obtain ⟨m, hs⟩ := hpost.built hr
          obtain ⟨hmany, hgranted⟩ := htrue.mp hr
          have hcount : r.2.stats.slabCount = slabctlCount (settings.memAvail / 1024 / 1024) :=
            hs.slabctlCount.2.trans hs.slabctlCount.1
          refine ⟨.inr ⟨by simp [hs.cm], ?_, ?_⟩, ?_⟩
          · rw [hs.memMallocd]
            exact Nat.add_pos_right _ (Nat.succ_pos _)
          · exact hs.within.trans_eq (hs.memLimit.trans hmb.memLimit)
          · simp [Instance.Kept, TooSmall, Granted, hs.cm, hcount, hs.cacheCount.2, hmany, hgranted]

/-! ## Any history of allocations -/

inductive MemCall where
  | malloc (size : Nat)
  | free (ptr : Addr)

/-- `li_malloc` of a positive size and `li_free`, with `use_sys_malloc`. -/
def memCall {memAvail : Nat} (sys : SystemMalloc) (m : SysHeap memAvail) :
    MemCall → SysHeap memAvail
  | .malloc size => (m.malloc sys size).2
  | .free ptr => m.free ptr

/-- What the instance has from the system after these calls. -/
def Instance.held (inst : Instance) (sys : SystemMalloc) (calls : List MemCall) : Nat :=
  inst.slab.stats.memMallocd + if inst.useSysMalloc then
    (calls.foldl (memCall sys) (SysHeap.empty inst.settings.memAvail)).memUsed else 0

/-- A pool that is used, or no pool at all, leaves the instance within its limit. -/
theorem Chosen.held_le (h : Chosen libc inst) (hnot : ¬ inst.Kept) (sys : SystemMalloc)
    (calls : List MemCall) : inst.held sys calls ≤ inst.settings.memAvail := by
  rcases h.outcome with ⟨hsys, hreleased⟩ | ⟨hcm, -, hle⟩
  · have hzero : inst.slab.stats.memMallocd = 0 := by
      rw [hreleased.taken.mallocd, Finset.val_eq_zero.mp hreleased.taken.blocks,
        Finset.sum_empty]
    rw [Instance.held, if_pos hsys, hzero, Nat.zero_add]
    exact SysHeap.within _
  · have hsys : ¬ inst.useSysMalloc = true := fun hsys => hnot ⟨hsys, hcm⟩
    rwa [Instance.held, if_neg hsys, Nat.add_zero]

/-- Beside a pool that is kept, one block takes all that the limit allows. -/
theorem Chosen.exceeds (h : Chosen libc inst) (hkept : inst.Kept) (sys : SystemMalloc) :
    inst.settings.memAvail < inst.held sys [.malloc inst.settings.memAvail] := by
  obtain ⟨hsys, hcm⟩ := hkept
  rcases h.outcome with ⟨-, hreleased⟩ | ⟨-, hpos, -⟩
  · exact absurd hreleased.cm hcm
  have hfull : (memCall sys (SysHeap.empty inst.settings.memAvail)
      (.malloc inst.settings.memAvail)).memUsed = inst.settings.memAvail := by
    rw [memCall, SysHeap.malloc, dif_neg (by simp [SysHeap.empty])]
    exact Nat.zero_add _
  rw [Instance.held, if_pos hsys, List.foldl_cons, List.foldl_nil, hfull]
  omega

/--
The limit bounds what the instance holds, through every history of allocations,
unless a pool that is too small is kept beside the system's allocator.
-/
theorem limit_kept_iff (h : chooseMalloc libc opts = .ok (some inst)) (sys : SystemMalloc) :
    (∀ calls, inst.held sys calls ≤ inst.settings.memAvail) ↔ ¬ inst.Kept :=
  ⟨fun hall hkept => not_le.mpr ((chooseMalloc_chosen h).exceeds hkept sys) (hall _),
    fun hnot => (chooseMalloc_chosen h).held_le hnot sys⟩

/-- The system always has room, behind the last block. -/
def nextBlock : Libc where
  malloc s _ := some (s.sup id + 1)
  fresh h := by
    obtain rfl := Option.some.inj h
    exact Allocator.sup_succ_notMem _

/-- With `-m 3` a pool of two slabs is built, and kept. -/
theorem kept_three : ∃ inst, chooseMalloc nextBlock [.m [51]] = .ok (some inst) ∧
    inst.Kept := by
  have htest : returns (chooseMalloc nextBlock [.m [51]]) (Option.any fun inst =>
      inst.useSysMalloc && inst.slab.cm.isSome) = true := by decide +kernel
  obtain ⟨r, hr, hany⟩ := exists_of_returns htest
  obtain ⟨inst, rfl, hkept⟩ := (Option.any_eq_true ..).mp hany
  rw [Bool.and_eq_true] at hkept
  refine ⟨inst, hr, hkept.1, fun hnone => ?_⟩
  rw [hnone] at hkept
  cases hkept.2

theorem limit_kept_iff_three : ∃ inst, chooseMalloc nextBlock [.m [51]] = .ok (some inst) ∧
    inst.Kept ∧ ∀ sys, (∀ calls, inst.held sys calls ≤ inst.settings.memAvail) ↔
      ¬ inst.Kept := by
  obtain ⟨inst, hr, hkept⟩ := kept_three
  exact ⟨inst, hr, hkept, limit_kept_iff hr⟩

/--
In terms of the command line and of what the system grants: the limit bounds the
instance unless it is too small for a slab for each class, while the pool is built.
-/
theorem memory_bounded_iff (h : chooseMalloc libc opts = .ok (some inst)) :
    (∀ sys calls, inst.held sys calls ≤ inst.settings.memAvail) ↔
      ¬ (TooSmall inst.settings.memAvail ∧ Granted libc inst.settings.memAvail) := by
  have hchosen := chooseMalloc_chosen h
  rw [← hchosen.kept]
  exact ⟨fun hall hkept => not_le.mpr (hchosen.exceeds hkept nextAddress) (hall _ _),
    fun hnot sys calls => hchosen.held_le hnot sys calls⟩

/-- The limit of 64 MB that `init_settings` sets is enough. -/
theorem memory_bounded_iff_default :
    ∃ inst, chooseMalloc nextBlock [] = .ok (some inst) ∧
      ∀ sys calls, inst.held sys calls ≤ inst.settings.memAvail := by
  have htest : returns (chooseMalloc nextBlock []) (Option.any fun inst =>
      inst.settings.memAvail == 64 * 1024 * 1024) = true := by decide +kernel
  obtain ⟨r, hr, hany⟩ := exists_of_returns htest
  obtain ⟨inst, rfl, hmem⟩ := (Option.any_eq_true ..).mp hany
  refine ⟨inst, hr, (memory_bounded_iff hr).mpr fun hsmall => ?_⟩
  have hfew := hsmall.1.2
  rw [beq_iff_eq.mp hmem] at hfew
  revert hfew
  decide

/-- With `-m 3` all of the limit is still there for the system's allocator. -/
theorem memory_not_bounded : ∃ inst, chooseMalloc nextBlock [.m [51]] = .ok (some inst) ∧
    ∃ sys calls, inst.settings.memAvail < inst.held sys calls := by
  obtain ⟨inst, hr, hkept⟩ := kept_three
  exact ⟨inst, hr, nextAddress, _, (chooseMalloc_chosen hr).exceeds hkept _⟩

end Limit

end Lightcache.Server
