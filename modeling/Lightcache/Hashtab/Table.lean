import Lightcache.Mem
import Mathlib.Logic.Function.Basic

/-!
# `hashtab.c`: the tombstone hash table

Chains are lists in `next` order, and a chain item is referred to by its bucket
and position.  `val` is of an arbitrary type.  An item and its key buffer carry
the addresses of their blocks, so that the table says which blocks it uses; a
failed `hgrow` leaves items behind whose blocks were released.

Table sizes and counters are exact integers here, which agrees with `int` as
long as there are fewer than `2 ^ 31` buckets.  The hash itself is computed in
32-bit arithmetic.
-/

namespace Lightcache.Hashtab

open Lightcache

inductive HResult where
  | hsuccess
  | herror
  | hexists
  deriving DecidableEq, Repr

/-- A key buffer: its block and its bytes, up to the capacity. -/
structure KeyBuf where
  addr : Addr
  bytes : Bytes
  deriving DecidableEq, Repr

structure HItem (V : Type) where
  addr : Addr
  key : Option KeyBuf
  klen : Nat
  val : V
  free : Bool
  deriving DecidableEq, Repr

structure Htab (V : Type) where
  addr : Addr
  realsize : Nat
  logsize : Nat
  count : Int
  mask : Nat
  freecount : Int
  tableAddr : Addr
  table : Nat → List (HItem V)

structure ItemRef where
  bucket : Nat
  pos : Nat
  deriving DecidableEq, Repr

def HItem.keyPtr {V : Type} (it : HItem V) : Option Bytes := it.key.map KeyBuf.bytes

def HItem.keyAddr {V : Type} (it : HItem V) : Option Addr := it.key.map KeyBuf.addr

def hsize (n : Nat) : Nat := 1 <<< n

def hmask (n : Nat) : Nat := hsize n - 1

def sizeofHtab : Nat := 32

def sizeofHitem : Nat := 40

def sizeofPtr : Nat := 8

/-! ## Hashing -/

/-- One round of the loop in `HHASH`; `char` is signed. -/
def mix (hash : BitVec 32) (c : UInt8) : BitVec 32 :=
  let hash := hash + c.toBitVec.signExtend 32
  let hash := hash + (hash <<< 10)
  hash ^^^ (hash.sshiftRight 6)

def oneAtATime (key : Bytes) : BitVec 32 :=
  let hash := key.foldl mix 0
  let hash := hash + (hash <<< 3)
  let hash := hash ^^^ (hash.sshiftRight 11)
  hash + (hash <<< 15)

variable {V : Type}

def hhash (ht : Htab V) (key : Option Bytes) (len : Nat) : Except Fault Nat := do
  let bytes ← readBytes key len
  return (oneAtATime bytes).toNat &&& ht.mask

/-! ## Chains -/

namespace Htab

def item? (ht : Htab V) (ref : ItemRef) : Option (HItem V) :=
  (ht.table ref.bucket)[ref.pos]?

def setChain (ht : Htab V) (h : Nat) (chain : List (HItem V)) : Htab V :=
  { ht with table := Function.update ht.table h chain }

/-- Write through a pointer to a chain item. -/
def modify (ht : Htab V) (ref : ItemRef) (f : HItem V → HItem V) : Htab V :=
  ht.setChain ref.bucket ((ht.table ref.bucket).modify ref.pos f)

/-- All chain items in the order the table loops visit them. -/
def items (ht : Htab V) : List (HItem V) :=
  (List.range ht.realsize).flatMap ht.table

/-- The test `(count - freecount) / (double)realsize >= 0.75`. -/
def overloaded (ht : Htab V) : Bool :=
  decide (3 * (ht.realsize : Int) ≤ 4 * (ht.count - ht.freecount))

end Htab

/-- A fault on the key buffer of an item, not on the key of the caller. -/
def HItem.blame {α : Type} (p : HItem V) : Except Fault α → Except Fault α
  | .ok a => .ok a
  | .error f => .error (if p.key = none then .nullItemKey else f)

/-- The outcome of the chain walk in `hset`. -/
inductive Slot (V : Type) where
  | taken
  | vacant (new : Option (Nat × HItem V))

/--
The walk tests the key before the free flag, and remembers the last free item
it passes.
-/
def hsetScan (key : Option Bytes) :
    List (HItem V) → Nat → Option (Nat × HItem V) → Except Fault (Slot V)
  | [], _, new => .ok (.vacant new)
  | p :: rest, i, new => do
      let same ← p.blame (strcmpEq p.keyPtr key)
      if same && !p.free then return .taken
      else hsetScan key rest (i + 1) (if p.free then some (i, p) else new)

def hgetScan (key : Option Bytes) :
    List (HItem V) → Nat → Except Fault (Option Nat)
  | [], _ => .ok none
  | p :: rest, i =>
      if p.free then hgetScan key rest (i + 1)
      else do
        let same ← p.blame (strcmpEq p.keyPtr key)
        if same then return some i else hgetScan key rest (i + 1)

def hget (ht : Htab V) (key : Option Bytes) (klen : Nat) :
    Except Fault (Option ItemRef) := do
  let h ← hhash ht key klen
  let pos ← hgetScan key (ht.table h) 0
  return pos.map fun i => ⟨h, i⟩

def hcount (ht : Htab V) : Int := ht.count - ht.freecount

/-- `hfree` on an item in place: the item and the table's `freecount` after. -/
def hfreeItem (it : HItem V) (freecount : Int) : HItem V × Int :=
  if it.free then (it, freecount) else ({ it with free := true }, freecount + 1)

def hfree (ht : Htab V) (ref : ItemRef) : Htab V :=
  match ht.item? ref with
  | none => ht
  | some it =>
      { ht.modify ref fun it => (hfreeItem it ht.freecount).1 with
        freecount := (hfreeItem it ht.freecount).2 }

/-! ## Creation and destruction -/

section Memory

variable {σ : Type} (A : Foundation.Allocator σ Addr)

def htcreate (logsize : Nat) (m : σ) : Except Fault (Option (Htab V) × σ) :=
  match liMalloc A m sizeofHtab with
  | (none, m) => .ok (none, m)
  | (some addr, m) =>
      match liMalloc A m (hsize logsize * sizeofPtr) with
      | (none, m) => do
          let m ← liFree A m (some addr)
          return (none, m)
      | (some tableAddr, m) =>
          .ok (some
            { addr := addr
              realsize := hsize logsize
              logsize := logsize
              count := 0
              mask := hmask logsize
              freecount := 0
              tableAddr := tableAddr
              table := fun _ => [] }, m)

/-! ## Insertion -/

/-- The recycling branch of `hset`: put the key into the free item `new`. -/
def recycle (ht : Htab V) (h : Nat) (slot : Nat × HItem V)
    (key : Option Bytes) (klen : Nat) (val : V) (m : σ) :
    Except Fault (HResult × Htab V × σ) := do
  let (pos, new) := slot
  if new.klen < klen + 1 then
    let m ← liFree A m new.keyAddr
    match liMalloc A m (klen + 1) with
    | (none, m) =>
        return (.herror, ht.modify ⟨h, pos⟩ (fun it => { it with key := none }), m)
    | (some a, m) =>
        let bytes ← memcpy (List.replicate (klen + 1) 0) key (klen + 1)
        let new := { new with
          key := some ⟨a, bytes⟩, klen := klen, val := val, free := false }
        return (.hsuccess,
          { ht.modify ⟨h, pos⟩ (fun _ => new) with
            freecount := ht.freecount - 1 }, m)
  else
    match new.key with
    | none => .error .nullItemKey
    | some buf =>
        let bytes ← memcpy buf.bytes key (klen + 1)
        let new := { new with
          key := some { buf with bytes := bytes }
          klen := klen
          val := val
          free := false }
        return (.hsuccess,
          { ht.modify ⟨h, pos⟩ (fun _ => new) with
            freecount := ht.freecount - 1 }, m)

/-- The allocating branch of `hset`: add a new item in front of the chain. -/
def addFront (ht : Htab V) (h : Nat) (key : Option Bytes) (klen : Nat) (val : V)
    (m : σ) : Except Fault (HResult × Htab V × σ) :=
  match liMalloc A m sizeofHitem with
  | (none, m) => .ok (.herror, ht, m)
  | (some addr, m) =>
      match liMalloc A m (klen + 1) with
      | (none, m) => do
          let m ← liFree A m (some addr)
          return (.herror, ht, m)
      | (some a, m) => do
          let bytes ← memcpy (List.replicate (klen + 1) 0) key (klen + 1)
          let new : HItem V :=
            { addr := addr, key := some ⟨a, bytes⟩, klen := klen, val := val,
              free := false }
          return (.hsuccess,
            { ht.setChain h (new :: ht.table h) with count := ht.count + 1 }, m)

/-- `hset` up to the load test. -/
def hsetLink (ht : Htab V) (key : Option Bytes) (klen : Nat) (val : V) (m : σ) :
    Except Fault (HResult × Htab V × σ) := do
  let h ← hhash ht key klen
  match ← hsetScan key (ht.table h) 0 none with
  | .taken => return (.hexists, ht, m)
  | .vacant (some slot) => recycle A ht h slot key klen val m
  | .vacant none => addFront A ht h key klen val m

/-- The type of `hset` on a given table, for the recursion through `hgrow`. -/
abbrev SetFn (σ V : Type) :=
  Htab V → Option Bytes → Nat → V → σ → Except Fault (HResult × Htab V × σ)

/--
The loop of `hgrow`: re-insert every item into `dummy`, copy its free flag and
release the old one.  `none` is the early return, which drops `dummy`.
-/
def moveItems (hset : SetFn σ V) :
    List (HItem V) → Htab V → σ → Except Fault (Option (Htab V) × σ)
  | [], dummy, m => .ok (some dummy, m)
  | p :: rest, dummy, m => do
      let (r, dummy, m) ← p.blame (hset dummy p.keyPtr p.klen p.val m)
      if r = .hsuccess then
        match ← hget dummy p.keyPtr p.klen with
        | none => return (none, m)
        | some ref =>
            let dummy := dummy.modify ref fun it => { it with free := p.free }
            let m ← liFree A m p.keyAddr
            let m ← liFree A m (some p.addr)
            moveItems hset rest dummy m
      else return (none, m)

/-- `_hgrow`: `count` and `freecount` of `ht` are kept. -/
def hgrow (hset : SetFn σ V) (ht : Htab V) (m : σ) :
    Except Fault (Bool × Htab V × σ) := do
  match ← htcreate A (ht.logsize + 1) m with
  | (none, m) => return (false, ht, m)
  | (some dummy, m) =>
      match ← moveItems A hset ht.items dummy m with
      | (none, m) => return (false, ht, m)
      | (some dummy, m) =>
          let m ← liFree A m (some ht.tableAddr)
          let m ← liFree A m (some dummy.addr)
          return (true,
            { ht with
              table := dummy.table
              tableAddr := dummy.tableAddr
              logsize := dummy.logsize
              realsize := dummy.realsize
              mask := dummy.mask }, m)

/-- `hset` with at most `depth` nested calls of itself. -/
def hsetDepth : Nat → SetFn σ V
  | 0, _, _, _, _, _ => .error .outOfFuel
  | depth + 1, ht, key, klen, val, m => do
      let (r, ht, m) ← hsetLink A ht key klen val m
      if r = .hsuccess ∧ ht.overloaded then
        let (grown, ht, m) ← hgrow A (hsetDepth depth) ht m
        return (if grown then .hsuccess else .herror, ht, m)
      else return (r, ht, m)

/--
`hset`: a growth started by the re-insertions of another growth starts no
further one, so the depth is at most three.
-/
def hset : SetFn σ V := hsetDepth A 3

end Memory

/-! ## Enumeration -/

section Enumeration

variable {S : Type}

/--
A callback of `henum`: from the item, the table's `freecount` and its own
state, the same three afterwards and whether it asks to stop.
-/
abbrev EnumFn (V S : Type) :=
  HItem V → Int → S → Except Fault (HItem V × Int × S × Bool)

def henumChain (fn : EnumFn V S) (enumFree : Bool) :
    List (HItem V) → Int → S → Except Fault (List (HItem V) × Int × S × Bool)
  | [], fc, s => .ok ([], fc, s, false)
  | p :: rest, fc, s =>
      if !p.free || enumFree then do
        let (p, fc, s, rc) ← fn p fc s
        if rc then return (p :: rest, fc, s, true)
        else
          let (rest, fc, s, stop) ← henumChain fn enumFree rest fc s
          return (p :: rest, fc, s, stop)
      else do
        let (rest, fc, s, stop) ← henumChain fn enumFree rest fc s
        return (p :: rest, fc, s, stop)

def henumBuckets (fn : EnumFn V S) (enumFree : Bool) :
    List Nat → Htab V → S → Except Fault (Htab V × S)
  | [], ht, s => .ok (ht, s)
  | i :: rest, ht, s => do
      let (chain, fc, s, stop) ←
        henumChain fn enumFree (ht.table i) ht.freecount s
      let ht := { ht.setChain i chain with freecount := fc }
      if stop then return (ht, s) else henumBuckets fn enumFree rest ht s

def henum (ht : Htab V) (fn : EnumFn V S) (s : S) (enumFree : Bool) :
    Except Fault (Htab V × S) :=
  henumBuckets fn enumFree (List.range ht.realsize) ht s

end Enumeration

end Lightcache.Hashtab
