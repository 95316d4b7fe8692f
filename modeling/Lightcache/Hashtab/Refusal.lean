import Lightcache.Hashtab.Link

/-!
# Refused allocations

Where `hset` asks for memory: for the item and its key, and in the growth of the
table, which asks for a new table and for all items once more.  The tests below
say that one of these requests is refused.
-/

namespace Lightcache.Hashtab

open Lightcache Lightcache.Foundation

variable {V σ : Type}

/-- The type of a test that `hset` is refused memory. -/
abbrev FailFn (σ V : Type) := Htab V → Option Bytes → Nat → V → σ → Bool

section Refusals

variable (A : Allocator σ Addr)

/-- `hset` gives up the short buffer of a recyclable item and gets no other. -/
def rekeyFails (ht : Htab V) (key : Option Bytes) (klen : Nat) (m : σ) : Bool :=
  match hhash ht key klen with
  | .error _ => false
  | .ok h =>
      match hsetScan key (ht.table h) 0 none with
      | .ok (.vacant (some (_, new))) =>
          decide (new.klen < klen + 1) &&
            match liFree A m new.keyAddr with
            | .ok m => (liMalloc A m (klen + 1)).1.isNone
            | .error _ => false
      | _ => false

/-- `hset` gets no memory for a new item or its key. -/
def itemFails (ht : Htab V) (key : Option Bytes) (klen : Nat) (m : σ) : Bool :=
  match hhash ht key klen with
  | .error _ => false
  | .ok h =>
      match hsetScan key (ht.table h) 0 none with
      | .ok (.vacant none) =>
          match liMalloc A m sizeofHitem with
          | (none, _) => true
          | (some _, m) => (liMalloc A m (klen + 1)).1.isNone
      | _ => false

/-- `hset` is refused memory before it has linked its key. -/
def linkFails (ht : Htab V) (key : Option Bytes) (klen : Nat) (m : σ) : Bool :=
  rekeyFails A ht key klen m || itemFails A ht key klen m

/-- `htcreate` is refused one of its two blocks. -/
def createFails (logsize : Nat) (m : σ) : Bool :=
  match liMalloc A m sizeofHtab with
  | (none, _) => true
  | (some _, m) => (liMalloc A m (hsize logsize * sizeofPtr)).1.isNone

/-- One of the items is refused memory in the table they are moved to. -/
def moveFails (set : SetFn σ V) (fails : FailFn σ V) : List (HItem V) → Htab V → σ → Bool
  | [], _, _ => false
  | p :: rest, dummy, m =>
      fails dummy p.keyPtr p.klen p.val m ||
        match moveItems A set [p] dummy m with
        | .ok (some dummy, m) => moveFails set fails rest dummy m
        | _ => false

/-- An allocation of `_hgrow` is refused. -/
def growFails (set : SetFn σ V) (fails : FailFn σ V) (ht : Htab V) (m : σ) : Bool :=
  createFails A (ht.logsize + 1) m ||
    match htcreate A (ht.logsize + 1) m with
    | .ok (some dummy, m) => moveFails A set fails ht.items dummy m
    | _ => false

/-- An allocation of `hset`, with at most `depth` nested calls of itself, is refused. -/
def hsetFails : Nat → FailFn σ V
  | 0, _, _, _, _, _ => false
  | depth + 1, ht, key, klen, val, m =>
      linkFails A ht key klen m ||
        match hsetLink A ht key klen val m with
        | .ok (.hsuccess, ht, m) =>
            ht.overloaded && growFails A (hsetDepth A depth) (hsetFails depth) ht m
        | _ => false

/-- `hset` links its item, the table is due to grow, and an allocation of that is refused. -/
def growthFails (ht : Htab V) (key : Option Bytes) (klen : Nat) (val : V) (m : σ) : Bool :=
  match hsetLink A ht key klen val m with
  | .ok (.hsuccess, ht, m) => ht.overloaded && growFails A (hsetDepth A 2) (hsetFails A 2) ht m
  | _ => false

end Refusals

variable {A : Allocator σ Addr} {ht dummy : Htab V} {m : σ} {set : SetFn σ V}
  {fails : FailFn σ V} {key : Option Bytes} {klen : Nat} {val : V} {L : List (HItem V)}

/-! ## What a refusal does -/

/-- `hset` up to the load test: refusals are its errors, and only one kind is felt later. -/
theorem hsetLink_fails (key : Option Bytes) (klen : Nat) (val : V) :
    Ensures (hsetLink A ht key klen val m) fun r =>
      (r.1 = .herror ↔ linkFails A ht key klen m = true) ∧
        (rekeyFails A ht key klen m = false → r.1 = .herror → r.2.1 = ht) := by
  rw [hsetLink, linkFails, rekeyFails, itemFails]
  rcases hhash ht key klen with e | h
  · trivial
  rw [ok_bind]
  dsimp only
  rcases hsetScan key (ht.table h) 0 none with e | _ | _ | ⟨pos, new⟩
  · trivial
  · exact ensures_ok.mpr (by simp)
  · rw [ok_bind]
    dsimp only
    rw [addFront]
    rcases liMalloc A m sizeofHitem with ⟨_ | addr, m₁⟩
    · exact ensures_ok.mpr (by simp)
    dsimp only
    rcases liMalloc A m₁ (klen + 1) with ⟨_ | a, m₂⟩
    · exact (ensures_true _).bind fun m₃ _ => ensures_ok.mpr (by simp)
    · exact (ensures_true _).bind fun bytes _ => ensures_ok.mpr (by simp)
  · rw [ok_bind]
    dsimp only
    rw [recycle]
    by_cases hshort : new.klen < klen + 1
    · rw [if_pos hshort, decide_eq_true hshort]
      rcases liFree A m new.keyAddr with e | m₁
      · trivial
      rw [ok_bind]
      dsimp only
      rcases liMalloc A m₁ (klen + 1) with ⟨_ | a, m₂⟩
      · exact ensures_ok.mpr (by simp)
      · exact (ensures_true _).bind fun bytes _ => ensures_ok.mpr (by simp)
    · rw [if_neg hshort, decide_eq_false hshort]
      cases new.key with
      | none => trivial
      | some buf => exact (ensures_true _).bind fun bytes _ => ensures_ok.mpr (by simp)

theorem hsetLink_herror (key : Option Bytes) (klen : Nat) (val : V) :
    Ensures (hsetLink A ht key klen val m) fun r =>
      r.1 = .herror ↔ linkFails A ht key klen m = true :=
  (hsetLink_fails key klen val).imp fun _ h => h.1

/-- Unless it loses a key buffer, a refused `hset` leaves the table alone. -/
theorem hsetLink_refused (key : Option Bytes) (klen : Nat) (val : V)
    (hkept : rekeyFails A ht key klen m = false) :
    Ensures (hsetLink A ht key klen val m) fun r => r.1 = .herror → r.2.1 = ht :=
  (hsetLink_fails key klen val).imp fun _ h => h.2 hkept

theorem htcreate_none (logsize : Nat) :
    Ensures (htcreate (V := V) A logsize m) fun r =>
      r.1 = none ↔ createFails A logsize m = true := by
  rw [htcreate, createFails]
  rcases liMalloc A m sizeofHtab with ⟨_ | addr, m₁⟩
  · exact ensures_ok.mpr (by simp)
  dsimp only
  rcases liMalloc A m₁ (hsize logsize * sizeofPtr) with ⟨_ | tableAddr, m₂⟩
  · exact (ensures_true _).bind fun m₃ _ => ensures_ok.mpr (by simp)
  · exact ensures_ok.mpr (by simp)

theorem moveItems_cons (p : HItem V) :
    moveItems A set (p :: L) dummy m = moveItems A set [p] dummy m >>= fun r =>
      r.1.elim (.ok (none, r.2)) fun dummy => moveItems A set L dummy r.2 := by
  simp only [moveItems]
  rcases p.blame (set dummy p.keyPtr p.klen p.val m) with f | ⟨r, d₁, m₁⟩
  · rfl
  simp only [ok_bind]
  split
  · rcases hget d₁ p.keyPtr p.klen with f | _ | ref
    · rfl
    · rfl
    simp only [ok_bind]
    rcases liFree A m₁ p.keyAddr with f | m₂
    · rfl
    simp only [ok_bind]
    rcases liFree A m₂ (some p.addr) with f | m₃
    · rfl
    · rfl
  · rfl

/-- Items that have all been moved have been refused nothing. -/
theorem moveItems_some
    (hset : ∀ (ht : Htab V) key klen val m, Ensures (set ht key klen val m) fun r =>
      r.1 = .hsuccess → fails ht key klen val m = false) :
    Ensures (moveItems A set L dummy m) fun r =>
      r.1.isSome → moveFails A set fails L dummy m = false := by
  induction L generalizing dummy m with
  | nil => exact fun _ => rfl
  | cons p L ih =>
      have hone : Ensures (moveItems A set [p] dummy m) fun r =>
          r.1.isSome → fails dummy p.keyPtr p.klen p.val m = false := by
        have hp := hset dummy p.keyPtr p.klen p.val m
        rw [moveItems]
        rcases hrun : set dummy p.keyPtr p.klen p.val m with f | ⟨r, d₁, m₁⟩
        · exact ensures_of_ok fun r hr => by cases p; cases hr
        rw [HItem.blame_ok, ok_bind]
        dsimp only
        split
        · exact ensures_of_ok fun _ _ _ => hp.of_ok hrun ‹_›
        · exact fun h => by cases h
      rw [moveItems_cons, moveFails]
      rcases hmove : moveItems A set [p] dummy m with f | ⟨_ | d, m'⟩
      · trivial
      · exact fun h => by cases h
      · rw [hone.of_ok hmove rfl]
        exact ih

theorem hgrow_true
    (hset : ∀ (ht : Htab V) key klen val m, Ensures (set ht key klen val m) fun r =>
      r.1 = .hsuccess → fails ht key klen val m = false) :
    Ensures (hgrow A set ht m) fun r => r.1 = true → growFails A set fails ht m = false := by
  have hcreate := htcreate_none (V := V) (A := A) (m := m) (ht.logsize + 1)
  rw [hgrow, growFails]
  rcases hrun : htcreate (V := V) A (ht.logsize + 1) m with f | ⟨_ | dummy, m₁⟩
  · trivial
  · exact fun h => by cases h
  have hcreated : createFails A (ht.logsize + 1) m = false := by
    simpa using mt (hcreate.of_ok hrun).mpr (by simp)
  rw [ok_bind, hcreated, Bool.false_or]
  dsimp only
  rcases hmove : moveItems A set ht.items dummy m₁ with f | ⟨_ | d, m₂⟩
  · trivial
  · exact fun h => by cases h
  · rw [ok_bind]
    exact ensures_of_ok fun _ _ _ => (moveItems_some hset).of_ok hmove rfl

/-- An `hset` that succeeds has been refused nothing. -/
theorem hsetDepth_hsuccess (depth : Nat) (ht : Htab V) (key : Option Bytes) (klen : Nat)
    (val : V) (m : σ) : Ensures (hsetDepth A depth ht key klen val m) fun r =>
      r.1 = .hsuccess → hsetFails A depth ht key klen val m = false := by
  induction depth generalizing ht key klen val m with
  | zero => trivial
  | succ depth ih =>
      rw [hsetDepth, hsetFails]
      rcases hrun : hsetLink A ht key klen val m with f | ⟨r, ht₁, m₁⟩
      · trivial
      rw [ok_bind]
      dsimp only
      cases r with
      | hexists => exact fun h => by cases h
      | herror => exact fun h => by cases h
      | hsuccess =>
          have hlinked : linkFails A ht key klen m = false := by
            simpa using mt ((hsetLink_herror key klen val).of_ok hrun).mpr (by simp)
          rw [hlinked, Bool.false_or]
          dsimp only
          cases hover : ht₁.overloaded with
          | false => exact fun _ => rfl
          | true =>
              rw [if_pos ⟨rfl, rfl⟩, Bool.true_and]
              refine (hgrow_true ih).bind fun r hgrown => ?_
              obtain ⟨grown, ht₂, m₂⟩ := r
              cases grown with
              | false => exact fun h => by cases h
              | true => exact fun _ => hgrown rfl

/-! ## Without refusals -/

theorem isNone_liMalloc {n : Nat} (hA : A.NeverFails) (hn : 0 < n) :
    (liMalloc A m n).1.isNone = false := by
  rcases h : liMalloc A m n with ⟨_ | a, m'⟩
  · exact absurd h (liMalloc_ne_none hA hn)
  · rfl

theorem linkFails_of_neverFails (hA : A.NeverFails) (key : Option Bytes) (klen : Nat) :
    linkFails A ht key klen m = false := by
  rw [linkFails, rekeyFails, itemFails]
  rcases hhash ht key klen with e | h
  · rfl
  dsimp only
  rcases hsetScan key (ht.table h) 0 none with e | _ | _ | ⟨pos, new⟩
  · rfl
  · rfl
  · dsimp only
    rcases hitem : liMalloc A m sizeofHitem with ⟨_ | addr, m₁⟩
    · exact absurd hitem (liMalloc_ne_none hA (by decide))
    · exact isNone_liMalloc hA (Nat.succ_pos _)
  · dsimp only
    rcases liFree A m new.keyAddr with e | m₁
    · simp
    · simp [isNone_liMalloc hA (Nat.succ_pos klen)]

theorem createFails_of_neverFails (hA : A.NeverFails) (logsize : Nat) :
    createFails A logsize m = false := by
  have hpos : 0 < hsize logsize * sizeofPtr := by
    rw [hsize, Nat.one_shiftLeft]
    exact Nat.mul_pos (Nat.two_pow_pos _) (by decide)
  rw [createFails]
  rcases hheader : liMalloc A m sizeofHtab with ⟨_ | addr, m₁⟩
  · exact absurd hheader (liMalloc_ne_none hA (by decide))
  · exact isNone_liMalloc hA hpos

theorem moveFails_eq_false (hfails : ∀ ht key klen val m, fails ht key klen val m = false) :
    moveFails A set fails L dummy m = false := by
  induction L generalizing dummy m with
  | nil => rfl
  | cons p L ih =>
      rw [moveFails, hfails, Bool.false_or]
      rcases moveItems A set [p] dummy m with f | ⟨_ | d, m'⟩
      · rfl
      · rfl
      · exact ih

theorem growFails_of_neverFails (hA : A.NeverFails)
    (hfails : ∀ ht key klen val m, fails ht key klen val m = false) :
    growFails A set fails ht m = false := by
  rw [growFails, createFails_of_neverFails hA, Bool.false_or]
  rcases htcreate (V := V) A (ht.logsize + 1) m with f | ⟨_ | dummy, m₁⟩
  · rfl
  · rfl
  · exact moveFails_eq_false hfails

theorem hsetFails_of_neverFails (hA : A.NeverFails) (depth : Nat) (ht : Htab V)
    (key : Option Bytes) (klen : Nat) (val : V) (m : σ) :
    hsetFails A depth ht key klen val m = false := by
  induction depth generalizing ht key klen val m with
  | zero => rfl
  | succ depth ih =>
      rw [hsetFails, linkFails_of_neverFails hA, Bool.false_or]
      rcases hsetLink A ht key klen val m with f | ⟨_ | _ | _, ht₁, m₁⟩
      all_goals simp [growFails_of_neverFails hA ih]

theorem growthFails_of_neverFails (hA : A.NeverFails) (ht : Htab V) (key : Option Bytes)
    (klen : Nat) (val : V) (m : σ) : growthFails A ht key klen val m = false := by
  rw [growthFails]
  rcases hsetLink A ht key klen val m with f | ⟨_ | _ | _, ht₁, m₁⟩
  all_goals simp [growFails_of_neverFails hA (hsetFails_of_neverFails hA 2)]

end Lightcache.Hashtab
