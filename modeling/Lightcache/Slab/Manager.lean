import Lightcache.Slab.Bitset
import Lightcache.Slab.List
import Mathlib.Algebra.Group.Nat.Defs

/-!
# `slab.c`: the cache manager

Pointers to caches and to slab controls are indices into their arrays.  The
`next` and `prev` fields of the slab controls are kept in `link`, and all
`list_t` structures in `lists`, under the name of the field that holds them.
An address in the slab region is an exact pair of slab index and offset, and
sizes and counters are exact integers; the widths of C are those of `started`,
`scmallocAt` and `scfreeAt`.
-/

namespace Lightcache.Slab

open Lightcache Lightcache.Foundation

structure Cache where
  chunkSize : Nat
  chunkCountPerslab : Nat
  deriving DecidableEq, Repr

structure SlabCtl where
  nused : Nat
  nindex : Nat
  slots : Bitset
  cache : Option Nat

/-- The lists of the manager and of its caches. -/
inductive ListId where
  | slabsFree
  | slabsFull (cache : Nat)
  | slabsPartial (cache : Nat)
  deriving DecidableEq, Repr

/-- An address in the slab region. -/
structure SlabPtr where
  slab : Nat
  offset : Nat
  deriving DecidableEq, Repr

structure CacheManager where
  caches : Nat → Cache
  cacheCount : Nat
  slabCtls : Nat → SlabCtl
  link : Nat → Link Nat
  slabctlCount : Nat
  lists : ListId → Ends Nat
  memUsed : Nat
  memMallocd : Nat

def sizeofCacheManager : Nat := 56

def sizeofCache : Nat := 40

def sizeofSlabCtl : Nat := 6592

/-- What `malloci` takes from the system for `size` bytes. -/
def realSize (size : Nat) : Nat := size + 8

/-- What `init_cache_manager` leaves for a table of chunk sizes, if the region does not wrap. -/
def initialised (sizes : List Nat) (slabctlCount : Nat) : CacheManager where
  caches i := ⟨sizes.getD i 0, slabSize / sizes.getD i 0⟩
  cacheCount := sizes.length
  slabCtls i := ⟨0, i, fun _ => BitVec.allOnes 64, none⟩
  link i := ⟨if i = slabctlCount - 1 then none else some (i + 1),
    if i = 0 then none else some (i - 1)⟩
  slabctlCount := slabctlCount
  lists
    | .slabsFree => ⟨some 0, some (slabctlCount - 1)⟩
    | _ => ⟨none, none⟩
  memUsed := 0
  memMallocd := realSize sizeofCacheManager + realSize (sizeofCache * sizes.length) +
    realSize (sizeofSlabCtl * slabctlCount) + realSize (slabSize * slabctlCount)

namespace CacheManager

/-! ## List operations -/

def push (cm : CacheManager) (li : ListId) (item : Nat) : CacheManager :=
  let (link, ends) := Slab.push cm.link (cm.lists li) item
  { cm with link := link, lists := Function.update cm.lists li ends }

def pop (cm : CacheManager) (li : ListId) : Option Nat × CacheManager :=
  let (item, link, ends) := Slab.pop cm.link (cm.lists li)
  (item, { cm with link := link, lists := Function.update cm.lists li ends })

def rem (cm : CacheManager) (li : ListId) (item : Nat) :
    Except Fault (Bool × CacheManager) := do
  let (found, link, ends) ← Slab.rem cm.slabctlCount cm.link (cm.lists li) item
  return (found, { cm with link := link, lists := Function.update cm.lists li ends })

def remAndPush (cm : CacheManager) (src dest : ListId) (item : Nat) :
    Except Fault (Bool × CacheManager) := do
  let (found, cm) ← cm.rem src item
  if found then return (true, cm.push dest item) else return (false, cm)

def popAndPush (cm : CacheManager) (src dest : ListId) : Bool × CacheManager :=
  match cm.pop src with
  | (some item, cm) => (true, cm.push dest item)
  | (none, cm) => (false, cm)

/-! ## The class of a size -/

/--
The loop of `size_to_cache`: the index of a class of exactly this size, or the
last `r`.  `l` is never negative, so the division rounds as in C.
-/
def searchLoop (sizes : Nat → Nat) (arrSize key : Nat) (l r : Int) :
    Except Fault (Nat ⊕ Int) :=
  if l < r then
    if l + r > 2147483647 then .error .intOverflow
    else
      let m := (l + r) / 2
      if 0 ≤ m ∧ m < arrSize then
        if key > sizes m.toNat then searchLoop sizes arrSize key (m + 1) r
        else if key < sizes m.toNat then searchLoop sizes arrSize key l (m - 1)
        else .ok (.inl m.toNat)
      else .error .outOfBounds
  else .ok (.inr r)
  termination_by (r - l).toNat

def sizeToCache (sizes : Nat → Nat) (arrSize key : Nat) :
    Except Fault (Option Nat) :=
  if arrSize ≥ 2147483647 ∨ arrSize < 1 then .ok none
  else do
    match ← searchLoop sizes arrSize key 0 (arrSize - 1) with
    | .inl m => return some m
    | .inr r =>
        let r := r.toNat
        if r ≥ arrSize then .error .outOfBounds
        else if key ≤ sizes r then return some r
        else if r < arrSize - 1 then
          return if key ≤ sizes (r + 1) then some (r + 1) else none
        else return none

/-! ## Allocation and release -/

/-- A slab with a free chunk of class `ccache`: a partial one, or a free one. -/
def slabFor (cm : CacheManager) (ccache : Nat) : Option Nat × CacheManager :=
  match peek (cm.lists (.slabsPartial ccache)) with
  | some cslab => (some cslab, cm)
  | none =>
      match cm.pop .slabsFree with
      | (none, cm) => (none, cm)
      | (some cslab, cm) =>
          let cm := cm.push (.slabsPartial ccache) cslab
          (some cslab, { cm with
            slabCtls := Function.update cm.slabCtls cslab
              { cm.slabCtls cslab with cache := some ccache } })

/-- A slab that has just been filled moves to the full list. -/
def relistTaken (cm : CacheManager) (ccache nused : Nat) : CacheManager :=
  if nused = (cm.caches ccache).chunkCountPerslab then
    (cm.popAndPush (.slabsPartial ccache) (.slabsFull ccache)).2
  else cm

/-- Take the lowest free chunk of a slab. -/
def takeChunk (cm : CacheManager) (ccache cslab : Nat) :
    Except Fault (SlabPtr × CacheManager) := do
  let ctl := cm.slabCtls cslab
  if ctl.cache ≠ some ccache then .error .assertion
  else
    match ffSetbit ctl.slots with
    | none => .error .assertion
    | some ffindex =>
        let slots ← clearBit ctl.slots ffindex
        let nused := ctl.nused + 1
        let cm := { cm with
          slabCtls := Function.update cm.slabCtls cslab
            { ctl with slots := slots, nused := nused } }
        let cm := cm.relistTaken ccache nused
        let cm := { cm with memUsed := cm.memUsed + (cm.caches ccache).chunkSize }
        if cm.memUsed ≤ cm.memMallocd then
          return (⟨ctl.nindex, (cm.caches ccache).chunkSize * ffindex⟩, cm)
        else .error .assertion

def scmalloc (cm : CacheManager) (size : Nat) :
    Except Fault (Option SlabPtr × CacheManager) := do
  if size > (cm.caches (cm.cacheCount - 1)).chunkSize then return (none, cm)
  else
    match ← sizeToCache (fun i => (cm.caches i).chunkSize) cm.cacheCount
      (size % 2 ^ 32) with
    | none => .error .nullDeref
    | some ccache =>
        match cm.slabFor ccache with
        | (none, cm) => return (none, cm)
        | (some cslab, cm) =>
            let (ptr, cm) ← cm.takeChunk ccache cslab
            return (some ptr, cm)

/-- Move a slab that gave up a chunk to the list it belongs on. -/
def relist (cm : CacheManager) (c cslab nused : Nat) :
    Except Fault CacheManager := do
  if nused = 0 then
    let (res, cm) ← cm.remAndPush (.slabsPartial c) .slabsFree cslab
    if res then return cm
    else
      let (res, cm) ← cm.remAndPush (.slabsFull c) .slabsFree cslab
      if res then return cm else .error .assertion
  else if nused = (cm.caches c).chunkCountPerslab - 1 then
    let (res, cm) ← cm.remAndPush (.slabsFull c) (.slabsPartial c) cslab
    if res then return cm else .error .assertion
  else return cm

def scfree (cm : CacheManager) (ptr : SlabPtr) : Except Fault CacheManager := do
  if ptr.slab * slabSize + ptr.offset > cm.slabctlCount * slabSize then
    .error .assertion
  else if ptr.slab ≥ cm.slabctlCount then .error .outOfBounds
  else
    let ctl := cm.slabCtls ptr.slab
    match ctl.cache with
    | none => .error .nullDeref
    | some c =>
        let cidx := ptr.offset / (cm.caches c).chunkSize
        let bit ← getBit ctl.slots cidx
        if bit ≠ 0#64 then .error .assertion
        else
          let slots ← setBit ctl.slots cidx
          let nused := ctl.nused - 1
          let cm := { cm with
            slabCtls := Function.update cm.slabCtls ptr.slab
              { ctl with slots := slots, nused := nused } }
          let cm ← cm.relist c ptr.slab nused
          return { cm with memUsed := cm.memUsed - (cm.caches c).chunkSize }

end CacheManager

end Lightcache.Slab
