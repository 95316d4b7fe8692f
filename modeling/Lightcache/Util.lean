import Lightcache.CRuntime
import Mathlib.Algebra.Order.Ring.Nat

/-!
# `util.c`: numbers as bytes and as text

Integers in memory, in host and in network order, and the conversions between
numbers and text: `strtoull` in base ten, as the C standard describes it, and
the decimal conversions of `sprintf`.
-/

namespace Lightcache

/-- `(unsigned int)z`. -/
def uint32 (z : Int) : Nat := (z % 2 ^ 32).toNat

/-! ## Integers in memory -/

/-- The `n` low bytes of a number, the lowest one first. -/
def leBytes : Nat → Nat → Bytes
  | 0, _ => []
  | n + 1, v => UInt8.ofNat (v % 256) :: leBytes n (v / 256)

def leNat : Bytes → Nat
  | [] => 0
  | b :: rest => b.toNat + 256 * leNat rest

/-- The bytes of an `n`-byte integer in network order. -/
def netBytes (n v : Nat) : Bytes := (leBytes n v).reverse

def netNat (bytes : Bytes) : Nat := leNat bytes.reverse

inductive Endian where
  | little
  | big
  deriving DecidableEq, Repr

/-- An `n`-byte integer as the host stores it. -/
def Endian.store : Endian → Nat → Nat → Bytes
  | .little, n, v => leBytes n v
  | .big, n, v => netBytes n v

/-- The loop of `li_swap64`. -/
def liSwap64Loop : Nat → BitVec 64 → BitVec 64 → BitVec 64
  | 0, _, rv => rv
  | i + 1, v, rv => liSwap64Loop i (v >>> 8) ((rv <<< 8) ||| (v &&& 0xff))

def liSwap64 : Endian → BitVec 64 → BitVec 64
  | .little, v => liSwap64Loop 8 v 0
  | .big, v => v

def htonll (host : Endian) (v : BitVec 64) : BitVec 64 := liSwap64 host v

def ntohll (host : Endian) (v : BitVec 64) : BitVec 64 := liSwap64 host v

@[simp] theorem length_leBytes (n v : Nat) : (leBytes n v).length = n := by
  induction n generalizing v with
  | zero => rfl
  | succ n ih => simp [leBytes, ih]

@[simp] theorem length_netBytes (n v : Nat) : (netBytes n v).length = n := by
  simp [netBytes]

@[simp] theorem length_store (host : Endian) (n v : Nat) :
    (host.store n v).length = n := by
  cases host <;> simp [Endian.store]

theorem leNat_leBytes (n v : Nat) : leNat (leBytes n v) = v % 256 ^ n := by
  induction n generalizing v with
  | zero => simp [leBytes, leNat, Nat.mod_one]
  | succ n ih =>
      have hbyte : (UInt8.ofNat (v % 256)).toNat = v % 256 := by simp
      rw [leBytes, leNat, ih, hbyte, pow_succ', Nat.mod_mul]

theorem netNat_netBytes (n v : Nat) : netNat (netBytes n v) = v % 256 ^ n := by
  rw [netNat, netBytes, List.reverse_reverse, leNat_leBytes]

/-! ## Text to numbers -/

def isSpace (c : UInt8) : Bool := c == 32 || (9 ≤ c && c ≤ 13)

def isDigit (c : UInt8) : Bool := 48 ≤ c && c ≤ 57

def digitsVal (digits : Bytes) : Nat :=
  digits.foldl (fun acc c => acc * 10 + (c.toNat - 48)) 0

/-- The optional sign: whether it is a minus, and what follows it. -/
def splitSign : Bytes → Bool × Bytes
  | [] => (false, [])
  | c :: rest =>
      if c = 45 then (true, rest)
      else if c = 43 then (false, rest)
      else (false, c :: rest)

/-- `strtoull(s, NULL, 10)`: the value, and whether `errno` is `ERANGE`. -/
def strtoull (s : Bytes) : Nat × Bool :=
  let (negative, s) := splitSign ((cstr s).dropWhile isSpace)
  let v := digitsVal (s.takeWhile isDigit)
  if 2 ^ 64 ≤ v then (2 ^ 64 - 1, true)
  else (if negative then (2 ^ 64 - v) % 2 ^ 64 else v, false)

/-- The value that `atoull` accepts of a string. -/
def atoullValue (s : Bytes) : Option Nat :=
  let (v, erange) := strtoull s
  if erange || v == 0 then none else some v

def atoull : Option Bytes → Except Fault (Option Nat)
  | none => .error .nullDeref
  | some s => .ok (atoullValue s)

@[simp] theorem atoull_none : atoull none = .error .nullDeref := rfl

@[simp] theorem atoull_some (s : Bytes) : atoull (some s) = .ok (atoullValue s) := rfl

theorem atoullValue_append_nul (s rest : Bytes) :
    atoullValue (s ++ 0 :: rest) = atoullValue s := by
  rw [atoullValue, atoullValue, strtoull, strtoull, cstr_append_nul]

/-! ## Numbers to text -/

def ascii (s : String) : Bytes := s.toList.map fun c => UInt8.ofNat c.toNat

@[simp] theorem length_ascii (s : String) : (ascii s).length = s.length := by
  simp [ascii, String.length]

/-- `%llu` and `%lu`. -/
def formatUnsigned (n : Nat) : Bytes :=
  (Nat.toDigits 10 n).map fun c => UInt8.ofNat c.toNat

/-- `%d`. -/
def formatInt (n : Int) : Bytes :=
  if n < 0 then 45 :: formatUnsigned n.natAbs else formatUnsigned n.natAbs

theorem length_formatUnsigned_le {n k : Nat} (hk : 0 < k) (h : n < 10 ^ k) :
    (formatUnsigned n).length ≤ k := by
  rw [formatUnsigned, List.length_map]
  exact (Nat.length_toDigits_le_iff (by decide) hk).mpr h

theorem length_formatInt_le {n : Int} {k : Nat} (hk : 0 < k)
    (h : n.natAbs < 10 ^ k) : (formatInt n).length ≤ k + 1 := by
  have hlen := length_formatUnsigned_le hk h
  rw [formatInt]
  split
  · simpa using hlen
  · exact hlen.trans (Nat.le_succ k)

end Lightcache
