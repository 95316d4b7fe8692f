import Mathlib.Data.List.TakeWhile
import Lightcache.Foundation.Execution

/-!
# The C run-time the server relies on

A pointer is `none` for NULL.  The bytes behind a `char *` are a list, up to
the end of the block it points into; reading or writing through NULL or past
that end is undefined behaviour and stops the model with a fault, as a failed
assertion does.
-/

namespace Lightcache

abbrev Addr := Nat

abbrev Bytes := List UInt8

inductive Fault where
  | nullDeref
  /-- The key buffer of a chain item is missing. -/
  | nullItemKey
  | outOfBounds
  /-- A request object is read after its release. -/
  | useAfterFree
  /-- A byte buffer is read after its release. -/
  | staleBuffer
  | badFree
  | intOverflow
  | assertion
  /-- The assertion at the end of `init_cache_manager`. -/
  | overLimit
  /-- The recursion depth of the model is exhausted. -/
  | outOfFuel
  deriving DecidableEq, Repr

/-- The C string at the head of a byte block: everything before the first NUL. -/
def cstr (bytes : Bytes) : Bytes := bytes.takeWhile (· ≠ 0)

/-- `strcmp(a, b) == 0`. -/
def strcmpEq : Option Bytes → Option Bytes → Except Fault Bool
  | some a, some b => .ok (cstr a == cstr b)
  | _, _ => .error .nullDeref

/-- The `n` bytes at a pointer. -/
def readBytes : Option Bytes → Nat → Except Fault Bytes
  | _, 0 => .ok []
  | none, _ + 1 => .error .nullDeref
  | some bytes, n + 1 =>
      if n + 1 ≤ bytes.length then .ok (bytes.take (n + 1))
      else .error .outOfBounds

/-- `memcpy(dst, src, n)`, as the new contents of the block at `dst`. -/
def memcpy (dst : Bytes) (src : Option Bytes) (n : Nat) :
    Except Fault Bytes := do
  let bytes ← readBytes src n
  if bytes.length ≤ dst.length then
    return bytes ++ dst.drop bytes.length
  else .error .outOfBounds

theorem cstr_append_nul (name rest : Bytes) :
    cstr (name ++ 0 :: rest) = cstr name := by
  induction name with
  | nil => simp [cstr]
  | cons c name ih =>
      by_cases hc : c = 0
      · simp [cstr, hc]
      · simpa [cstr, hc] using ih

theorem cstr_of_nulFree {name : Bytes} (h : 0 ∉ name) : cstr name = name := by
  rw [cstr, List.takeWhile_eq_self_iff]
  intro c hc
  simpa using fun h0 : c = 0 => h (h0 ▸ hc)

@[simp] theorem strcmpEq_some (a b : Bytes) :
    strcmpEq (some a) (some b) = .ok (cstr a == cstr b) := rfl

@[simp] theorem strcmpEq_none (a : Option Bytes) :
    strcmpEq none a = .error .nullDeref := by
  cases a <;> rfl

@[simp] theorem strcmpEq_none_right (a : Option Bytes) :
    strcmpEq a none = .error .nullDeref := by
  cases a <;> rfl

theorem readBytes_prefix (bytes rest : Bytes) :
    readBytes (some (bytes ++ rest)) bytes.length = .ok bytes := by
  cases bytes with
  | nil => rfl
  | cons b bytes => simp [readBytes]

theorem memcpy_prefix (dst bytes rest : Bytes)
    (h : bytes.length ≤ dst.length) :
    memcpy dst (some (bytes ++ rest)) bytes.length =
      .ok (bytes ++ dst.drop bytes.length) := by
  simp [memcpy, readBytes_prefix, h]
  rfl

end Lightcache
