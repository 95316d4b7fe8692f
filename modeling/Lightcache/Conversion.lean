import Lightcache.Util
import Mathlib.Data.Nat.Bitwise
import Mathlib.Tactic.Ring

/-!
# What the conversions of `util.c` compute

`htonll` reverses the bytes of a number on a little-endian host, so that the
host stores them in network order, and is its own inverse.  `atoull` is right on
decimal numerals, and on other strings only where the digits that `strtoull`
finds are worth nothing or too much.
-/

namespace Lightcache

/-! ## Network order -/

theorem leNat_append (as bs : Bytes) :
    leNat (as ++ bs) = leNat as + 256 ^ as.length * leNat bs := by
  induction as with
  | nil => simp [leNat]
  | cons a as ih =>
      rw [List.cons_append, leNat, ih, leNat, List.length_cons, pow_succ]
      ring

theorem leNat_lt (bytes : Bytes) : leNat bytes < 256 ^ bytes.length := by
  induction bytes with
  | nil => simp [leNat]
  | cons b bytes ih =>
      have := b.toNat_lt
      rw [leNat, List.length_cons, pow_succ]
      omega

theorem leBytes_leNat (bytes : Bytes) : leBytes bytes.length (leNat bytes) = bytes := by
  induction bytes with
  | nil => rfl
  | cons b bytes ih =>
      have := b.toNat_lt
      have hlow : (b.toNat + 256 * leNat bytes) % 256 = b.toNat := by omega
      have hhigh : (b.toNat + 256 * leNat bytes) / 256 = leNat bytes := by omega
      rw [leNat, List.length_cons, leBytes, hlow, hhigh, ih, UInt8.ofNat_toNat]

theorem netNat_cons (b : UInt8) (bytes : Bytes) :
    netNat (b :: bytes) = b.toNat * 256 ^ bytes.length + netNat bytes := by
  rw [netNat, List.reverse_cons, leNat_append, List.length_reverse, netNat]
  simp [leNat]
  ring

theorem netNat_lt (bytes : Bytes) : netNat bytes < 256 ^ bytes.length := by
  rw [← List.length_reverse]
  exact leNat_lt _

/-- One round of the loop appends the lowest byte of `v`. -/
theorem toNat_shift_or (v rv : BitVec 64) :
    ((rv <<< 8) ||| (v &&& 0xff)).toNat = (rv.toNat * 256 + v.toNat % 256) % 2 ^ 64 := by
  have hbyte : v.toNat % 256 < 2 ^ 8 := Nat.mod_lt _ (by decide)
  have hmask : (v &&& 0xff).toNat = v.toNat % 256 := by
    rw [BitVec.toNat_and]
    exact Nat.and_two_pow_sub_one_eq_mod v.toNat 8
  have hshift : (rv <<< 8).toNat = 2 ^ 8 * (rv.toNat % 2 ^ 56) := by
    rw [BitVec.toNat_shiftLeft, Nat.shiftLeft_eq]
    omega
  rw [BitVec.toNat_or, hmask, hshift, ← Nat.two_pow_add_eq_or_of_lt hbyte]
  omega

/-- The loop appends the bytes of `v` to `rv`, the lowest one first. -/
theorem toNat_liSwap64Loop (n : Nat) (v rv : BitVec 64) :
    (liSwap64Loop n v rv).toNat =
      (rv.toNat * 256 ^ n + netNat (leBytes n v.toNat)) % 2 ^ 64 := by
  induction n generalizing v rv with
  | zero => simp [liSwap64Loop, leBytes, netNat, leNat, Nat.mod_eq_of_lt rv.isLt]
  | succ n ih =>
      have hshift : (v >>> 8).toNat = v.toNat / 256 := by
        rw [BitVec.toNat_ushiftRight, Nat.shiftRight_eq_div_pow]
      have hbyte : (UInt8.ofNat (v.toNat % 256)).toNat = v.toNat % 256 := by simp
      rw [liSwap64Loop, ih, toNat_shift_or, hshift, leBytes, netNat_cons, hbyte,
        length_leBytes, Nat.add_mod, Nat.mul_mod, Nat.mod_mod, ← Nat.mul_mod, ← Nat.add_mod]
      congr 1
      ring

theorem toNat_liSwap64_little (v : BitVec 64) :
    (liSwap64 .little v).toNat = netNat (leBytes 8 v.toNat) := by
  have hlt := netNat_lt (leBytes 8 v.toNat)
  rw [length_leBytes] at hlt
  rw [liSwap64, toNat_liSwap64Loop]
  simpa using Nat.mod_eq_of_lt hlt

/-- The host stores a converted number in network order. -/
theorem store_htonll (host : Endian) (v : BitVec 64) :
    host.store 8 (htonll host v).toNat = netBytes 8 v.toNat := by
  cases host with
  | big => rfl
  | little =>
      have hbytes := leBytes_leNat (leBytes 8 v.toNat).reverse
      rw [List.length_reverse, length_leBytes] at hbytes
      rw [Endian.store, htonll, toNat_liSwap64_little, netNat, hbytes, netBytes]

theorem ntohll_htonll (host : Endian) (v : BitVec 64) : ntohll host (htonll host v) = v := by
  cases host with
  | big => rfl
  | little =>
      apply BitVec.eq_of_toNat_eq
      have hstore := store_htonll .little v
      rw [Endian.store] at hstore
      rw [ntohll, toNat_liSwap64_little, hstore, netNat_netBytes]
      exact Nat.mod_eq_of_lt v.isLt

/-! ## Decimal numerals -/

/-- `s` is a decimal numeral of `n`. -/
structure Decimal (s : Bytes) (n : Nat) : Prop where
  nonempty : s ≠ []
  digits : ∀ b ∈ s, isDigit b = true
  value : digitsVal s = n

theorem isDigit_byte {c : Char} (h : c.isDigit = true) :
    isDigit (UInt8.ofNat c.toNat) = true ∧ (UInt8.ofNat c.toNat).toNat = c.toNat := by
  rw [Char.isDigit, Bool.and_eq_true, decide_eq_true_eq, decide_eq_true_eq] at h
  obtain ⟨hlow, hhigh⟩ := h
  have hlow : 48 ≤ c.toNat := hlow
  have hhigh : c.toNat ≤ 57 := hhigh
  have hbyte : (UInt8.ofNat c.toNat).toNat = c.toNat := by simp; omega
  refine ⟨?_, hbyte⟩
  rw [isDigit, Bool.and_eq_true, decide_eq_true_eq, decide_eq_true_eq,
    UInt8.le_iff_toNat_le, UInt8.le_iff_toNat_le, hbyte]
  exact ⟨hlow, hhigh⟩

/-- What `sprintf` prints is a numeral of the number. -/
theorem decimal_formatUnsigned (n : Nat) : Decimal (formatUnsigned n) n := by
  have hdigits : ∀ c ∈ Nat.toDigits 10 n, c.isDigit = true := fun c hc =>
    Nat.isDigit_of_mem_toDigits (by decide) (by decide) hc
  refine ⟨?_, fun b hb => ?_, ?_⟩
  · simp [formatUnsigned, Nat.toDigits_ne_nil]
  · obtain ⟨c, hc, rfl⟩ := List.mem_map.mp hb
    exact (isDigit_byte (hdigits c hc)).1
  · conv_rhs => rw [← Nat.ofDigitChars_ten_toDigits (n := n)]
    rw [digitsVal, formatUnsigned, List.foldl_map, Nat.ofDigitChars_eq_foldl]
    refine List.foldl_ext _ _ _ fun acc c hc => ?_
    rw [(isDigit_byte (hdigits c hc)).2, Nat.mul_comm]
    rfl

/-- The numbers that a timeout can have. -/
def Decimal.Valid (s : Bytes) : Prop := ∃ n, Decimal s n ∧ 1 ≤ n ∧ n < 2 ^ 64

/-- The value of the digits that `strtoull` finds. -/
def subject (s : Bytes) : Nat :=
  digitsVal ((splitSign ((cstr s).dropWhile isSpace)).2.takeWhile isDigit)

theorem atoullValue_eq_none_iff (s : Bytes) :
    atoullValue s = none ↔ subject s = 0 ∨ 2 ^ 64 ≤ subject s := by
  rw [atoullValue, strtoull, subject]
  dsimp only
  split
  · rename_i hover
    exact ⟨fun _ => .inr hover, fun _ => rfl⟩
  · rename_i hfits
    rw [or_iff_left hfits]
    split
    · simp
      omega
    · simp

theorem subject_digits {s : Bytes} (h : ∀ b ∈ s, isDigit b = true) :
    subject s = digitsVal s ∧ (splitSign ((cstr s).dropWhile isSpace)).1 = false := by
  have hcstr : cstr s = s := cstr_of_nulFree fun h0 => by simpa [isDigit] using h 0 h0
  cases s with
  | nil => exact ⟨rfl, rfl⟩
  | cons b s =>
      have hb := h b (by simp)
      simp only [isDigit, Bool.and_eq_true, decide_eq_true_eq] at hb
      have hspace : isSpace b = false := by
        simp only [isSpace, Bool.or_eq_false_iff, Bool.and_eq_false_iff]
        refine ⟨beq_false_of_ne ?_, .inr (decide_eq_false fun hle => ?_)⟩
        · rintro rfl
          exact absurd hb.1 (by decide)
        · exact absurd (UInt8.le_trans hb.1 hle) (by decide)
      have hplus : b ≠ 43 := by
        rintro rfl
        exact absurd hb.1 (by decide)
      have hminus : b ≠ 45 := by
        rintro rfl
        exact absurd hb.1 (by decide)
      rw [subject, hcstr, List.dropWhile_cons_of_neg (by simp [hspace]), splitSign,
        if_neg hminus, if_neg hplus]
      exact ⟨congrArg digitsVal (List.takeWhile_eq_self_iff.mpr h), rfl⟩

theorem atoullValue_digits {s : Bytes} (h : ∀ b ∈ s, isDigit b = true) :
    atoullValue s = if 1 ≤ digitsVal s ∧ digitsVal s < 2 ^ 64 then some (digitsVal s)
      else none := by
  obtain ⟨hvalue, hsign⟩ := subject_digits h
  by_cases hrange : 1 ≤ digitsVal s ∧ digitsVal s < 2 ^ 64
  · obtain ⟨hpos, hfits⟩ := hrange
    rw [if_pos ⟨hpos, hfits⟩]
    rw [subject] at hvalue
    rw [atoullValue, strtoull]
    dsimp only
    rw [hvalue, hsign, if_neg (not_le.mpr hfits)]
    simp [Nat.ne_of_gt hpos]
  · rw [if_neg hrange, atoullValue_eq_none_iff, hvalue]
    omega

theorem Decimal.atoull {s : Bytes} {n : Nat} (h : Decimal s n) (hn : 1 ≤ n)
    (hlt : n < 2 ^ 64) : atoullValue s = some n := by
  rw [atoullValue_digits h.digits, h.value, if_pos ⟨hn, hlt⟩]

theorem atoullValue_cstr (s : Bytes) : atoullValue (cstr s) = atoullValue s := by
  have hcstr : cstr (cstr s) = cstr s := by
    rw [cstr, cstr, List.takeWhile_takeWhile]
    simp
  rw [atoullValue, atoullValue, strtoull, strtoull, hcstr]

/-- `atoull` accepts a string as it should. -/
theorem atoull_exact_iff (s : Bytes) :
    (atoullValue s ≠ none ↔ Decimal.Valid s) ↔
      (∀ b ∈ s, isDigit b = true) ∨ subject s = 0 ∨ 2 ^ 64 ≤ subject s := by
  constructor
  · intro h
    by_cases hnone : atoullValue s = none
    · exact .inr ((atoullValue_eq_none_iff s).mp hnone)
    · obtain ⟨n, hn, -⟩ := h.mp hnone
      exact .inl hn.digits
  · intro h
    by_cases hdigits : ∀ b ∈ s, isDigit b = true
    · rw [atoullValue_digits hdigits]
      constructor
      · intro hsome
        have hrange : 1 ≤ digitsVal s ∧ digitsVal s < 2 ^ 64 := by
          by_contra hrange
          exact hsome (if_neg hrange)
        refine ⟨_, ⟨?_, hdigits, rfl⟩, hrange⟩
        rintro rfl
        exact absurd hrange.1 (by decide)
      · rintro ⟨n, hn, hrange⟩
        rw [hn.value, if_pos hrange]
        simp
    · have hnone := (atoullValue_eq_none_iff s).mpr (h.resolve_left hdigits)
      exact ⟨fun hsome => absurd hnone hsome, fun ⟨n, hn, _⟩ => absurd hn.digits hdigits⟩

end Lightcache
