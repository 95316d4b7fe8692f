import Lightcache.Hashtab.Buffers

/-!
# When and how far a table grows

The load test of a table counts its live keys, and that of a table under
construction counts its insertions, the recyclable items included.  So a growth
doubles the table as long as its chain items, live or not, leave room in twice
the buckets, and goes further where they do not.
-/

namespace Lightcache.Hashtab

open Lightcache Lightcache.Foundation

variable {V σ : Type} {A : Allocator σ Addr} {ht : Htab V} {m : σ} {F : Multiset Addr}
  {name rest : Bytes} {val : V}

/-! ## The size after a successful insertion -/

theorem hset_sized (hok : TableOk ht) (hown : A.Owns m (ht.blocks + F)) :
    Ensures (hset A ht (some (name ++ 0 :: rest)) name.length val m) fun r =>
      r.1 = .hsuccess →
        (4 * (hcount ht + 1) < 3 * (ht.realsize : Int) →
          r.2.1.realsize = ht.realsize) ∧
        (3 * (ht.realsize : Int) ≤ 4 * (hcount ht + 1) →
          Sized (2 * ht.realsize) (ht.itemsWith name) r.2.1.realsize) := by
  have hlink := hsetLink_post name val rest hok hown
  rw [hset, hsetDepth]
  rcases hrun : hsetLink A ht (some (name ++ 0 :: rest)) name.length val m with
    f | ⟨r, ht₁, m₁⟩
  · trivial
  rw [hrun] at hlink
  rw [ok_bind]
  cases r with
  | hexists => exact fun h => by cases h
  | herror => exact fun h => by cases h
  | hsuccess =>
      obtain ⟨hlinked, hsize, hitems⟩ := hlink
      have hload : ht₁.overloaded = true ↔
          3 * (ht.realsize : Int) ≤ 4 * (hcount ht + 1) := by
        rw [overloaded_iff, hlinked.hcount, hsize]
      dsimp only
      by_cases hover : ht₁.overloaded = true
      · rw [if_pos ⟨rfl, hover⟩]
        have hout := hgrow_outer (A := A) hlinked.ok hlinked.owns
        rcases hg : hgrow A (hsetDepth A 2) ht₁ m₁ with f | ⟨_ | _, ht₂, m₂⟩
        · trivial
        · exact fun h => by cases h
        · rw [hg] at hout
          rw [← hsize, ← hitems]
          have hfull := hload.mp hover
          rw [← hsize] at hfull
          exact fun _ => ⟨fun hlow => absurd hfull (not_le.mpr hlow), fun _ => hout.2⟩
      · rw [if_neg (fun h => hover h.2)]
        exact fun _ => ⟨fun _ => hsize, fun hfull => absurd (hload.mpr hfull) hover⟩

/-! ## The resize policy -/

/-- What the load factor of `L` live keys asks of a table of `R` buckets. -/
structure FollowsLoad (R L D : Nat) : Prop where
  unchanged : 4 * L < 3 * R → D = R
  doubled : 3 * R ≤ 4 * L → D = 2 * R
  load : D ≠ R → 3 * D ≤ 8 * L

theorem Sized.eq_iff {S N D : Nat} (h : Sized S N D) :
    D = S ↔ 4 * N < 3 * S := by
  refine ⟨fun heq => heq ▸ h.room, fun hroom => h.least.elim id fun hfull => ?_⟩
  obtain ⟨k, rfl⟩ := h.dvd
  have hlt : k < 2 := Nat.lt_of_mul_lt_mul_left (show S * k < S * 2 by omega)
  have hne : k ≠ 0 := fun hzero => by
    have := h.room
    simp [hzero] at this
  rw [show k = 1 by omega, Nat.mul_one]

/--
After a run in which no item has lost its memory, a successful insertion follows
the load factor exactly when it does not grow the table, or the chain items that
the growth moves leave room in a table of twice the size.
-/
theorem resize_follows_load_iff {logsize : Nat} {m₀ m₁ m' : σ} {ht₀ ht' : Htab V}
    (hcreate : htcreate (V := V) A logsize m₀ = .ok (some ht₀, m₁)) {edits : List (Edit V)}
    (hedits : Meets (edit A) (fun s e => Points s e ∧ Kept A s e) (ht₀, m₁) edits)
    (hrun : run (edit A) (ht₀, m₁) edits = .ok (ht, m))
    (hset : hset A ht (some (name ++ 0 :: rest)) name.length val m =
      .ok (.hsuccess, ht', m')) :
    FollowsLoad ht.realsize ht'.live.card ht'.realsize ↔
      4 * (ht.live.card + 1) < 3 * ht.realsize ∨
        2 * ht.itemsWith name < 3 * ht.realsize := by
  have hsteady : Steady A (ht, m) :=
    (run_post (fun s e h he => edit_steady h he.1 he.2) (htcreate_steady hcreate)
      hedits).of_ok hrun
  obtain ⟨F, hown⟩ := hsteady.owns
  have hlinked : Linked A ht name val F ht' m' :=
    (hset_post name val rest hsteady.ok hown).of_ok hset
  obtain ⟨hsame, hgrown⟩ := (hset_sized hsteady.ok hown).of_ok hset rfl
  have hcount : Hashtab.hcount ht = ht.live.card := hsteady.hcount
  have hlive : ht'.live.card = ht.live.card + 1 := by
    rw [hlinked.live, Multiset.card_cons]
  dsimp only at hsame hgrown
  rw [hcount] at hsame hgrown
  by_cases hlow : 4 * (ht.live.card + 1) < 3 * ht.realsize
  · have hD := hsame (by omega)
    exact iff_of_true ⟨fun _ => hD, fun h => by omega, fun h => absurd hD h⟩ (.inl hlow)
  · have hdouble := (hgrown (by omega)).eq_iff
    constructor
    · intro h
      have := hdouble.mp (h.doubled (by omega))
      exact .inr (by omega)
    · intro h
      have hD := hdouble.mpr (by omega)
      exact ⟨fun h => by omega, fun _ => hD, fun _ => by omega⟩

/-- An insertion of the one-byte key `k` after some edits, seen by a test. -/
def insertTest (edits : List (Edit Nat)) (k : UInt8) (p : Htab Nat → Htab Nat → Bool)
    (r : Option (Htab Nat) × Finset ℕ) : Bool :=
  match r with
  | (none, _) => false
  | (some ht₀, m₁) =>
      meetsTest (edit Allocator.unlimited)
          (fun s e => pointsTest s e && decide (Kept Allocator.unlimited s e)) (ht₀, m₁)
          edits &&
        returns (run (edit Allocator.unlimited) (ht₀, m₁) edits) fun s =>
          returns (hset Allocator.unlimited s.1 (some ([k] ++ 0 :: [])) [k].length 0 s.2)
            fun r => decide (r.1 = .hsuccess) && p s.1 r.2.1

theorem exists_of_insertTest (logsize : Nat) (edits : List (Edit Nat)) (k : UInt8)
    (p : Htab Nat → Htab Nat → Bool)
    (h : returns (htcreate (V := Nat) Allocator.unlimited logsize ∅)
      (insertTest edits k p) = true) :
    ∃ ht₀ m₁ ht m ht' m',
      htcreate (V := Nat) Allocator.unlimited logsize ∅ = .ok (some ht₀, m₁) ∧
      Meets (edit Allocator.unlimited) (fun s e => Points s e ∧ Kept Allocator.unlimited s e)
        (ht₀, m₁) edits ∧
      run (edit Allocator.unlimited) (ht₀, m₁) edits = .ok (ht, m) ∧
      hset Allocator.unlimited ht (some ([k] ++ 0 :: [])) [k].length 0 m =
        .ok (.hsuccess, ht', m') ∧ p ht ht' = true := by
  obtain ⟨⟨_ | ht₀, m₁⟩, hcreate, htest⟩ := exists_of_returns h
  · cases htest
  rw [insertTest, Bool.and_eq_true] at htest
  obtain ⟨⟨ht, m⟩, hrun, htest'⟩ := exists_of_returns htest.2
  obtain ⟨⟨r, ht', m'⟩, hset, hp⟩ := exists_of_returns htest'
  rw [Bool.and_eq_true, decide_eq_true_iff] at hp
  obtain ⟨rfl, hp⟩ := hp
  refine ⟨ht₀, m₁, ht, m, ht', m', hcreate, meets_of_test htest.1 fun s e _ he => ?_, hrun,
    hset, hp⟩
  rw [Bool.and_eq_true, decide_eq_true_iff] at he
  exact ⟨points_of_test he.1, he.2⟩

/-- A recyclable item in four buckets, beside two live keys. -/
def releasedEdits : List (Edit Nat) :=
  [.hset [101] [] 1, .hset [108] [] 2, .hfree ⟨0, 0⟩, .hset [97] [] 3]

/-- The third live key doubles the table. -/
theorem resize_follows_load_iff_released :
    ∃ ht₀ m₁ ht m ht' m',
      htcreate (V := Nat) Allocator.unlimited 2 ∅ = .ok (some ht₀, m₁) ∧
      run (edit Allocator.unlimited) (ht₀, m₁) releasedEdits = .ok (ht, m) ∧
      hset Allocator.unlimited ht (some ([99] ++ 0 :: [])) [99].length 0 m =
        .ok (.hsuccess, ht', m') ∧
      ht.realsize = 4 ∧ ht.live.card = 2 ∧ ht.itemsWith [99] = 4 ∧ ht'.realsize = 8 ∧
      (FollowsLoad ht.realsize ht'.live.card ht'.realsize ↔
        4 * (ht.live.card + 1) < 3 * ht.realsize ∨
          2 * ht.itemsWith [99] < 3 * ht.realsize) := by
  obtain ⟨ht₀, m₁, ht, m, ht', m', hcreate, hedits, hrun, hset, hp⟩ :=
    exists_of_insertTest 2 releasedEdits 99
      (fun ht ht' => decide (ht.realsize = 4 ∧ ht.live.card = 2 ∧ ht.itemsWith [99] = 4 ∧
        ht'.realsize = 8)) (by decide +kernel)
  obtain ⟨hR, hL, hN, hD⟩ := of_decide_eq_true hp
  exact ⟨ht₀, m₁, ht, m, ht', m', hcreate, hrun, hset, hR, hL, hN, hD,
    resize_follows_load_iff hcreate hedits hrun hset⟩

/-- Four recyclable items in two of four buckets, and the third live key. -/
def spreadEdits : List (Edit Nat) :=
  [.hset [101] [] 1, .hset [108] [] 2, .hfree ⟨0, 0⟩, .hfree ⟨0, 1⟩,
    .hset [99] [] 3, .hset [100] [] 4, .hfree ⟨1, 0⟩, .hfree ⟨1, 1⟩,
    .hset [97] [] 5, .hset [102] [] 6]

/-- Three live keys in four buckets make the table grow to sixteen. -/
theorem resize_beyond_load :
    ∃ ht₀ m₁ ht m ht' m',
      htcreate (V := Nat) Allocator.unlimited 2 ∅ = .ok (some ht₀, m₁) ∧
      Meets (edit Allocator.unlimited) (fun s e => Points s e ∧ Kept Allocator.unlimited s e)
        (ht₀, m₁) spreadEdits ∧
      run (edit Allocator.unlimited) (ht₀, m₁) spreadEdits = .ok (ht, m) ∧
      hset Allocator.unlimited ht (some ([101] ++ 0 :: [])) [101].length 0 m =
        .ok (.hsuccess, ht', m') ∧
      ht.realsize = 4 ∧ ht'.live.card = 3 ∧ ht'.realsize = 16 ∧
      ¬ FollowsLoad ht.realsize ht'.live.card ht'.realsize := by
  obtain ⟨ht₀, m₁, ht, m, ht', m', hcreate, hedits, hrun, hset, hp⟩ :=
    exists_of_insertTest 2 spreadEdits 101
      (fun ht ht' => decide (ht.realsize = 4 ∧ ht'.live.card = 3 ∧ ht'.realsize = 16))
      (by decide +kernel)
  obtain ⟨hR, hL, hD⟩ := of_decide_eq_true hp
  refine ⟨ht₀, m₁, ht, m, ht', m', hcreate, hedits, hrun, hset, hR, hL, hD, fun h => ?_⟩
  have := h.doubled (by omega)
  omega

/-! ## The depth of the recursion -/

/-- `hset`, with `set` for the insertions of the growth it may start. -/
def hsetOver (A : Allocator σ Addr) (set : SetFn σ V) : SetFn σ V :=
  fun ht key klen val m => do
    let (r, ht, m) ← hsetLink A ht key klen val m
    if r = .hsuccess ∧ ht.overloaded then
      let (grown, ht, m) ← hgrow A set ht m
      return (if grown then .hsuccess else .herror, ht, m)
    else return (r, ht, m)

theorem hsetDepth_succ (depth : Nat) :
    hsetDepth (V := V) A (depth + 1) = hsetOver A (hsetDepth A depth) := rfl

theorem hgrow_congr {set set' : SetFn σ V} {fails : FailFn σ V} {P : Nat → Htab V → Prop}
    (hset : SetFnOk A set fails P) (heq : AgreesOn A P set set')
    (hP : ∀ dummy, Fresh (ht.logsize + 1) dummy → P ht.items.length dummy)
    (hok : TableOk ht) (hkeyed : ht.AllKeyed) (hown : A.Owns m (ht.blocks + F)) :
    hgrow A set' ht m = hgrow A set ht m := by
  have hcreate := htcreate_post (V := V) hown (ht.logsize + 1)
  rw [hgrow, hgrow]
  rcases hc : htcreate (V := V) A (ht.logsize + 1) m with f | ⟨_ | dummy, m₁⟩
  · rfl
  · rfl
  rw [hc] at hcreate
  obtain ⟨hfresh, hown₁⟩ := hcreate
  rw [ok_bind, ok_bind]
  dsimp only
  rw [moveItems_congr hset heq (hfresh.moving hok hown₁ (hP dummy hfresh)) hkeyed]

/-- Two functions that grow the tables alike insert alike. -/
theorem hsetOver_congr {set set' : SetFn σ V}
    (heq : ∀ {ht₁ : Htab V} {m₁ : σ}, TableOk ht₁ → ht₁.AllKeyed →
      A.Owns m₁ (ht₁.blocks + F) → ht₁.realsize = ht.realsize →
      hcount ht₁ = hcount ht + 1 → ht₁.items.length ≤ ht.items.length + 1 →
      ht₁.overloaded = true → hgrow A set' ht₁ m₁ = hgrow A set ht₁ m₁)
    (hok : TableOk ht) (hkeyed : ht.AllKeyed) (hown : A.Owns m (ht.blocks + F)) :
    hsetOver A set' ht (some (name ++ 0 :: rest)) name.length val m =
      hsetOver A set ht (some (name ++ 0 :: rest)) name.length val m := by
  have hlink := hsetLink_post name val rest hok hown
  rw [hsetOver, hsetOver]
  rcases hrun : hsetLink A ht (some (name ++ 0 :: rest)) name.length val m with
    f | ⟨r, ht₁, m₁⟩
  · rfl
  rw [hrun] at hlink
  rw [ok_bind, ok_bind]
  dsimp only
  by_cases hover : r = .hsuccess ∧ ht₁.overloaded = true
  · obtain ⟨rfl, hload⟩ := hover
    obtain ⟨hlinked, hsize, -⟩ := hlink
    rw [if_pos ⟨rfl, hload⟩, if_pos ⟨rfl, hload⟩, heq hlinked.ok (hlinked.keyed hkeyed)
      hlinked.owns hsize hlinked.hcount hlinked.items_le hload]
  · rw [if_neg hover, if_neg hover]

/-- With room for one more no growth is started. -/
theorem roomy_agrees (depth n : Nat) :
    AgreesOn A (Roomy n) (hsetDepth (V := V) A (depth + 1)) (hsetLink A) := by
  intro k ht m F name val rest hP hok hkeyed hown
  have hlink := hsetLink_post name val rest hok hown
  rw [hsetDepth]
  rcases hrun : hsetLink A ht (some (name ++ 0 :: rest)) name.length val m with
    f | ⟨r, ht₁, m₁⟩
  · rfl
  rw [hrun] at hlink
  rw [ok_bind]
  dsimp only
  rw [if_neg]
  · rfl
  rintro ⟨rfl, hover⟩
  obtain ⟨hlinked, hsize, -⟩ := hlink
  rw [overloaded_iff, hsize, hlinked.hcount, hP.1] at hover
  have hroom := hP.2
  push_cast at hroom
  omega

/-- The insertions of a growth inside a growth start none. -/
theorem growing_agrees (depth S N : Nat) :
    AgreesOn A (Growing S N) (hsetDepth (V := V) A (depth + 2))
      (hsetOver A (hsetLink A)) := by
  intro k ht m F name val rest hP hok hkeyed hown
  rw [hsetDepth_succ]
  refine hsetOver_congr (fun {ht₁ m₁} hok₁ hkeyed₁ hown₁ hsize hone hle hover => ?_) hok
    hkeyed hown
  refine hgrow_congr (hsetDepth_roomy depth (2 * ht₁.realsize)) (roomy_agrees depth _)
    (fun dummy hfresh => ?_) hok₁ hkeyed₁ hown₁
  obtain ⟨⟨hitems, hpos, hload⟩, -, -, -⟩ := hP
  refine ⟨?_, ?_⟩
  · rw [hfresh.realsize, hsize_succ, ← hok₁.size]
  · rw [hfresh.hcount]
    omega

/-- Whatever the depth, `hset` grows through a growth that starts no further one. -/
theorem hsetDepth_eq (depth : Nat) (hok : TableOk ht) (hkeyed : ht.AllKeyed)
    (hown : A.Owns m (ht.blocks + F)) :
    hsetDepth A (depth + 3) ht (some (name ++ 0 :: rest)) name.length val m =
      hsetOver A (hsetOver A (hsetLink A)) ht (some (name ++ 0 :: rest)) name.length val
        m := by
  rw [hsetDepth_succ]
  refine (hsetOver_congr (fun {ht₁ m₁} hok₁ hkeyed₁ hown₁ _ _ _ _ => ?_) hok hkeyed
    hown).symm
  exact hgrow_congr (hsetDepth_growing depth (2 * hsize ht₁.logsize) ht₁.items.length)
    (growing_agrees depth _ _) (fun dummy hfresh => hfresh.growing) hok₁ hkeyed₁ hown₁

/-- Every failed allocation makes `hset` return an error. -/
def Unfailed (A : Allocator σ Addr) (s : Htab V × σ) : Edit V → Prop
  | .hset name rest val => ∀ ht m,
      hset A s.1 (some (name ++ 0 :: rest)) name.length val s.2 ≠ .ok (.herror, ht, m)
  | _ => True

theorem edit_unfailed {s : Htab V × σ} {e : Edit V} (h : Steady A s) (hp : Points s e)
    (hu : Unfailed A s e) : Post (edit A s e) (Steady A) (fun _ => False) := by
  cases e with
  | hset name rest val =>
      obtain ⟨F, hown⟩ := h.owns
      have hpost := hset_post name val rest h.ok hown
      rw [edit]
      rcases hrun : hset A s.1 (some (name ++ 0 :: rest)) name.length val s.2 with
        f | ⟨r, ht', m'⟩
      · rw [hrun] at hpost
        exact hpost.2 h.keyed
      rw [hrun] at hpost
      cases r with
      | herror => exact absurd hrun (hu ht' m')
      | hexists =>
          obtain ⟨rfl, rfl, -⟩ := hpost
          exact h
      | hsuccess => exact hpost.steady h.keyed h.hcount
  | hfree ref => exact edit_steady h hp trivial
  | write ref val => exact edit_steady h hp trivial

/--
On every table that was built without a failed allocation `hset` returns, at
every depth of recursion from three on.  The insertions of a growth inside a
growth start no growth, and the table is only as large as its items need.
-/
theorem hset_terminates {logsize : Nat} {m₀ m₁ : σ} {ht₀ : Htab V}
    (hcreate : htcreate (V := V) A logsize m₀ = .ok (some ht₀, m₁)) {edits : List (Edit V)}
    (hedits : Meets (edit A) (fun s e => Points s e ∧ Unfailed A s e) (ht₀, m₁) edits)
    (hrun : run (edit A) (ht₀, m₁) edits = .ok (ht, m)) (name rest : Bytes) (val : V) :
    (∀ depth, hsetDepth A (depth + 3) ht (some (name ++ 0 :: rest)) name.length val m =
      hsetOver A (hsetOver A (hsetLink A)) ht (some (name ++ 0 :: rest)) name.length val
        m) ∧
    ∃ r ht' m', hset A ht (some (name ++ 0 :: rest)) name.length val m =
        .ok (r, ht', m') ∧
      (r = .hsuccess → ht'.realsize = ht.realsize ∨ ht'.realsize = 2 * ht.realsize ∨
        (∃ j, ht'.realsize = 2 ^ j) ∧ 2 * ht.realsize < ht'.realsize ∧
          3 * ht'.realsize ≤ 8 * ht.itemsWith name) := by
  have hsteady : Steady A (ht, m) :=
    (run_post (fun s e h he => edit_unfailed h he.1 he.2) (htcreate_steady hcreate)
      hedits).of_ok hrun
  obtain ⟨F, hown⟩ := hsteady.owns
  refine ⟨fun depth => hsetDepth_eq depth hsteady.ok hsteady.keyed hown, ?_⟩
  obtain ⟨⟨r, ht', m'⟩, hset, hpost⟩ := ((hset_post name val rest hsteady.ok hown).mono
    (fun _ hr => hr) fun f hf => hf.2 hsteady.keyed).exists_ok
  refine ⟨r, ht', m', hset, fun hr => ?_⟩
  subst hr
  have hlinked : Linked A ht name val F ht' m' := hpost
  obtain ⟨hsame, hgrown⟩ := (hset_sized hsteady.ok hown).of_ok hset rfl
  rcases lt_or_ge (4 * (hcount ht + 1)) (3 * (ht.realsize : Int)) with hlow | hfull
  · exact .inl (hsame hlow)
  · have hsized := hgrown hfull
    rcases hsized.least with heq | hle
    · exact .inr (.inl heq)
    rcases Nat.eq_or_lt_of_le (Nat.le_of_dvd hlinked.ok.realsize_pos hsized.dvd) with
      heq | hlt
    · exact .inr (.inl heq.symm)
    · refine .inr (.inr ⟨⟨ht'.logsize, ?_⟩, hlt, hle⟩)
      rw [hlinked.ok.size, hsize, Nat.one_shiftLeft]

/-- Whether an insertion is not answered with an error. -/
def unfailedTest (A : Allocator σ Addr) (s : Htab V × σ) : Edit V → Bool
  | .hset name rest val =>
      !returns (hset A s.1 (some (name ++ 0 :: rest)) name.length val s.2) fun r =>
        decide (r.1 = .herror)
  | _ => true

theorem unfailed_of_test {s : Htab V × σ} {e : Edit V} (h : unfailedTest A s e = true) :
    Unfailed A s e := by
  cases e with
  | hset name rest val =>
      intro ht m hset
      simp [unfailedTest, hset, returns] at h
  | hfree ref => trivial
  | write ref val => trivial

/-- The table of the two growths, which needs both levels of the recursion. -/
theorem hset_terminates_spread :
    ∃ ht₀ m₁ ht m,
      htcreate (V := Nat) Allocator.unlimited 2 ∅ = .ok (some ht₀, m₁) ∧
      run (edit Allocator.unlimited) (ht₀, m₁) spreadEdits = .ok (ht, m) ∧
      (∀ depth, hsetDepth Allocator.unlimited (depth + 3) ht (some ([101] ++ 0 :: []))
          [101].length 2 m =
        hsetOver Allocator.unlimited (hsetOver Allocator.unlimited
          (hsetLink Allocator.unlimited)) ht (some ([101] ++ 0 :: [])) [101].length 2 m) ∧
      ∃ r ht' m', hset Allocator.unlimited ht (some ([101] ++ 0 :: [])) [101].length 2 m =
          .ok (r, ht', m') ∧
        (r = .hsuccess → ht'.realsize = ht.realsize ∨ ht'.realsize = 2 * ht.realsize ∨
          (∃ j, ht'.realsize = 2 ^ j) ∧ 2 * ht.realsize < ht'.realsize ∧
            3 * ht'.realsize ≤ 8 * ht.itemsWith [101]) := by
  obtain ⟨⟨_ | ht₀, m₁⟩, hcreate, htest⟩ := exists_of_returns
    (x := htcreate (V := Nat) Allocator.unlimited 2 ∅)
    (p := fun r => r.1.any fun ht₀ =>
      meetsTest (edit Allocator.unlimited)
          (fun s e => pointsTest s e && unfailedTest Allocator.unlimited s e) (ht₀, r.2)
          spreadEdits &&
        returns (run (edit Allocator.unlimited) (ht₀, r.2) spreadEdits) fun s =>
          s.1.realsize == 4) (by decide +kernel)
  · cases htest
  rw [Option.any_some, Bool.and_eq_true] at htest
  obtain ⟨⟨ht, m⟩, hrun, -⟩ := exists_of_returns htest.2
  have hedits : Meets (edit Allocator.unlimited) (fun s e => Points s e ∧
      Unfailed Allocator.unlimited s e) (ht₀, m₁) spreadEdits :=
    meets_of_test htest.1 fun s e _ he => by
      rw [Bool.and_eq_true] at he
      exact ⟨points_of_test he.1, unfailed_of_test he.2⟩
  exact ⟨ht₀, m₁, ht, m, hcreate, hrun, hset_terminates hcreate hedits hrun [101] [] 2⟩

end Lightcache.Hashtab
