import Lightcache.Hashtab.Failure
import Lightcache.Hashtab.Release

/-!
# The key buffers of the chain items

Every chain item has a key buffer with room for its key and the NUL, unless an
allocation fails at one of two moments: after `hset` has given up the buffer of
a recyclable item, and after a growth has given up the first item it moved.
-/

namespace Lightcache.Hashtab

open Lightcache Lightcache.Foundation

variable {V σ : Type}

/-! ## Editing a table -/

/-- The calls that change a table; `name ++ 0 :: rest` is the caller's key buffer. -/
inductive Edit (V : Type) where
  | hset (name rest : Bytes) (val : V)
  | hfree (ref : ItemRef)
  /-- A write to `val` through an item pointer. -/
  | write (ref : ItemRef) (val : V)

def edit (A : Allocator σ Addr) (s : Htab V × σ) : Edit V → Except Fault (Htab V × σ)
  | .hset name rest val => do
      let (_, ht, m) ← hset A s.1 (some (name ++ 0 :: rest)) name.length val s.2
      return (ht, m)
  | .hfree ref => .ok (hfree s.1 ref, s.2)
  | .write ref val => .ok (s.1.modify ref fun it => { it with val := val }, s.2)

/-- An item pointer of the caller points to a chain item. -/
def Points (s : Htab V × σ) : Edit V → Prop
  | .hset .. => True
  | .hfree ref => ∃ it, s.1.At ref it
  | .write ref _ => ∃ it, s.1.At ref it

theorem Htab.at_of_item? {ht : Htab V} {ref : ItemRef} {it : HItem V}
    (hbucket : ref.bucket < ht.realsize) (hitem : ht.item? ref = some it) :
    ht.At ref it := by
  obtain ⟨hlt, hget⟩ := List.getElem?_eq_some_iff.mp hitem
  refine ⟨hbucket, (ht.table ref.bucket).take ref.pos,
    (ht.table ref.bucket).drop (ref.pos + 1), ?_, ?_⟩
  · rw [← hget, List.getElem_cons_drop, List.take_append_drop]
  · rw [List.length_take, Nat.min_eq_left hlt.le]

def pointsTest (s : Htab V × σ) : Edit V → Bool
  | .hset .. => true
  | .hfree ref => decide (ref.bucket < s.1.realsize) && (s.1.item? ref).isSome
  | .write ref _ => decide (ref.bucket < s.1.realsize) && (s.1.item? ref).isSome

theorem points_of_test {s : Htab V × σ} {e : Edit V} (h : pointsTest s e = true) :
    Points s e := by
  have hat : ∀ ref : ItemRef, decide (ref.bucket < s.1.realsize) &&
      (s.1.item? ref).isSome → ∃ it, s.1.At ref it := fun ref h => by
    rw [Bool.and_eq_true, decide_eq_true_iff] at h
    obtain ⟨it, hit⟩ := Option.isSome_iff_exists.mp h.2
    exact ⟨it, Htab.at_of_item? h.1 hit⟩
  cases e with
  | hset name rest val => trivial
  | hfree ref => exact hat ref h
  | write ref val => exact hat ref h

/-! ## The two moments -/

section Failures

variable (A : Allocator σ Addr) (ht : Htab V) (key : Option Bytes) (klen : Nat) (val : V)
  (m : σ)

/-- A growth is refused memory after it has moved and released its first item. -/
def moveBreaks : Bool :=
  match htcreate (V := V) A (ht.logsize + 1) m with
  | .ok (some dummy, m) =>
      moveFails A (hsetDepth A 2) (hsetFails A 2) ht.items dummy m &&
        !moveFails A (hsetDepth A 2) (hsetFails A 2) (ht.items.take 1) dummy m
  | _ => false

/-- `hset` links its key, the table is due to grow, and the growth breaks off. -/
def growthBreaks : Bool :=
  match hsetLink A ht key klen val m with
  | .ok (.hsuccess, ht, m) => ht.overloaded && moveBreaks A ht m
  | _ => false

end Failures

/-- Neither of the two failures happens. -/
def Kept (A : Allocator σ Addr) (s : Htab V × σ) : Edit V → Prop
  | .hset name rest val =>
      rekeyFails A s.1 (some (name ++ 0 :: rest)) name.length s.2 = false ∧
        growthBreaks A s.1 (some (name ++ 0 :: rest)) name.length val s.2 = false
  | _ => True

instance (A : Allocator σ Addr) (s : Htab V × σ) (e : Edit V) : Decidable (Kept A s e) :=
  match e with
  | .hset .. => inferInstanceAs (Decidable (_ ∧ _))
  | .hfree _ => inferInstanceAs (Decidable True)
  | .write _ _ => inferInstanceAs (Decidable True)

variable {A : Allocator σ Addr} {ht : Htab V} {m : σ} {F : Multiset Addr} {val : V}
  {name rest : Bytes}

/-- The first insertion into a new table does not make it grow. -/
theorem hsetDepth_fresh {depth n : Nat} (hfresh : Fresh (n + 1) ht)
    (hown : A.Owns m (ht.blocks + F)) :
    Ensures (hsetDepth A (depth + 1) ht (some (name ++ 0 :: rest)) name.length val m)
      fun r => r.1 ≠ .hsuccess → ∃ F', A.Owns r.2.2 (F + F') := by
  have hlink := hsetLink_post name val rest hfresh.ok hown
  rw [hsetDepth]
  rcases hrun : hsetLink A ht (some (name ++ 0 :: rest)) name.length val m with
    f | ⟨r, ht₁, m₁⟩
  · trivial
  rw [hrun] at hlink
  rw [ok_bind]
  cases r with
  | hexists =>
      obtain ⟨-, rfl, -⟩ := hlink
      exact fun _ => ⟨ht.blocks, hown.congr (add_comm _ _)⟩
  | herror => exact fun _ => ⟨ht₁.blocks, hlink.owns.congr (add_comm _ _)⟩
  | hsuccess =>
      obtain ⟨hlinked, hreal, -⟩ := hlink
      have hroom : ¬ ht₁.overloaded = true := by
        have hpos : 1 ≤ hsize n := by
          rw [hsize, Nat.one_shiftLeft]
          exact Nat.two_pow_pos _
        have hreal' := hfresh.realsize.trans (hsize_succ n)
        rw [overloaded_iff, hlinked.hcount, hfresh.hcount, hreal, hreal']
        omega
      dsimp only
      rw [if_neg (fun h => hroom h.2)]
      exact fun h => absurd rfl h

/-- A growth that releases nothing and fails leaves the items in place. -/
theorem hgrow_unbroken (hok : TableOk ht) (hkeyed : ht.AllKeyed)
    (hown : A.Owns m (ht.blocks + F)) (hkept : moveBreaks A ht m = false) :
    Ensures (hgrow A (hsetDepth A 2) ht m)
      fun r => r.1 = false → ∃ F', A.Owns r.2.2 (ht.blocks + F') := by
  have hcreate := htcreate_post (V := V) hown (ht.logsize + 1)
  rw [moveBreaks] at hkept
  rw [hgrow]
  rcases hc : htcreate (V := V) A (ht.logsize + 1) m with f | ⟨_ | dummy, m₁⟩
  · trivial
  · rw [hc] at hcreate
    exact fun _ => ⟨F, hcreate⟩
  rw [hc] at hcreate hkept
  obtain ⟨hfresh, hown₁⟩ := hcreate
  dsimp only at hkept
  rw [ok_bind]
  dsimp only
  have hmoving := hfresh.moving hok hown₁ (hok.size ▸ hfresh.growing)
  have hrefused := moveItems_post (hsetDepth_growing 0 _ _) hmoving
  rcases hmove : moveItems A (hsetDepth A 2) ht.items dummy m₁ with f | ⟨_ | d, m₂⟩
  · trivial
  swap
  · rw [ok_bind]
    refine (ensures_true _).bind fun m₃ _ => (ensures_true _).bind fun m₄ _ => ?_
    exact fun h => by cases h
  rw [hmove] at hrefused
  rw [hrefused, Bool.true_and, Bool.not_eq_false'] at hkept
  rw [ok_bind]
  refine fun _ => ?_
  cases hitems : ht.items with
  | nil =>
      rw [hitems] at hmove
      cases hmove
  | cons p L =>
      have hmem : p ∈ ht.items := by simp [hitems]
      obtain ⟨⟨rest, hptr, hlen⟩, -⟩ := hok.placed hmem (hkeyed p hmem)
      -- so the first item has already been refused its memory
      rw [hitems, List.take_succ_cons, List.take_zero, moveFails] at hkept
      have hfirst : hsetFails A 2 dummy p.keyPtr p.klen p.val m₁ = true := by
        rcases Bool.or_eq_true_iff.mp hkept with h | h
        · exact h
        · split at h <;> cases h
      rw [hitems, moveItems, HItem.blame_keyed (hkeyed p hmem)] at hmove
      obtain ⟨⟨r, d₁, m₁'⟩, hrun, hmove⟩ := ok_of_bind_eq_ok hmove
      have hr : r ≠ .hsuccess := fun hr => by
        rw [(hsetDepth_hsuccess 2 _ _ _ _ _).of_ok hrun hr] at hfirst
        cases hfirst
      dsimp only at hmove
      rw [if_neg hr] at hmove
      cases hmove
      rw [hptr, ← hlen] at hrun
      obtain ⟨F', hF'⟩ := (hsetDepth_fresh hfresh hown₁).of_ok hrun hr
      exact ⟨F + F', hF'.congr (by abel)⟩

/-! ## Tables whose items are all in place -/

structure Steady (A : Allocator σ Addr) (s : Htab V × σ) : Prop where
  ok : TableOk s.1
  keyed : s.1.AllKeyed
  owns : ∃ F, A.Owns s.2 (s.1.blocks + F)
  hcount : hcount s.1 = s.1.live.card

theorem Linked.steady {ht' : Htab V} {m' : σ} (h : Linked A ht name val F ht' m')
    (hkeyed : ht.AllKeyed) (hcount : Hashtab.hcount ht = ht.live.card) :
    Steady A (ht', m') where
  ok := h.ok
  keyed := h.keyed hkeyed
  owns := ⟨F, h.owns⟩
  hcount := by
    change Hashtab.hcount ht' = ht'.live.card
    rw [h.hcount, h.live, Multiset.card_cons, hcount]
    push_cast
    rfl

theorem hset_steady (h : Steady A (ht, m))
    (hkept : Kept A (ht, m) (.hset name rest val)) :
    Post (hset A ht (some (name ++ 0 :: rest)) name.length val m)
      (fun r => Steady A (r.2.1, r.2.2)) (fun _ => False) := by
  obtain ⟨F, hown⟩ := h.owns
  obtain ⟨hrekey, hgrowth⟩ := hkept
  have hlink := (hsetLink_post name val rest h.ok hown).and_ensures
    (hsetLink_refused _ _ _ hrekey)
  dsimp only at hgrowth
  rw [growthBreaks] at hgrowth
  rw [hset, hsetDepth]
  rcases hrun : hsetLink A ht (some (name ++ 0 :: rest)) name.length val m with
    f | ⟨r, ht₁, m₁⟩
  · rw [hrun] at hlink
    exact hlink.2 h.keyed
  rw [hrun] at hlink hgrowth
  obtain ⟨hlink, hsame⟩ := hlink
  rw [ok_bind]
  cases r with
  | hexists =>
      obtain ⟨rfl, rfl, -⟩ := hlink
      exact h
  | herror =>
      obtain rfl : ht₁ = ht := hsame rfl
      exact ⟨h.ok, h.keyed, ⟨F, hlink.owns⟩, h.hcount⟩
  | hsuccess =>
      have hsteady := hlink.1.steady h.keyed h.hcount
      dsimp only at hgrowth ⊢
      cases hover : ht₁.overloaded with
      | false => exact hsteady
      | true =>
          rw [hover, Bool.true_and] at hgrowth
          rw [if_pos ⟨rfl, rfl⟩]
          obtain ⟨F₁, hown₁⟩ := hsteady.owns
          refine (((hgrow_outer hsteady.ok hown₁).and_ensures (hgrow_unbroken hsteady.ok
            hsteady.keyed hown₁ hgrowth)).mono (fun _ hr => hr) fun f hf =>
              hf.2 hsteady.keyed).bind fun x hr => ?_
          obtain ⟨grown, ht₂, m₂⟩ := x
          cases grown with
          | false =>
              obtain ⟨⟨rfl, -⟩, hleft⟩ := hr
              exact ⟨hsteady.ok, hsteady.keyed, hleft rfl, hsteady.hcount⟩
          | true =>
              obtain ⟨⟨hgrown, -⟩, -⟩ := hr
              refine ⟨hgrown.ok, hgrown.keyed, ⟨F₁, hgrown.owns⟩, ?_⟩
              change Hashtab.hcount ht₂ = ht₂.live.card
              rw [hgrown.hcount, hgrown.live]
              exact hsteady.hcount

theorem edit_steady {s : Htab V × σ} {e : Edit V} (h : Steady A s) (hp : Points s e)
    (hkept : Kept A s e) : Post (edit A s e) (Steady A) (fun _ => False) := by
  obtain ⟨ht, m⟩ := s
  cases e with
  | hset name rest val => exact (hset_steady h hkept).bind fun r hr => hr
  | hfree ref =>
      obtain ⟨it, hat⟩ : ∃ it, ht.At ref it := hp
      change Steady A (hfree ht ref, m)
      cases hit : it.free with
      | true => rwa [hfree_of_free hat hit]
      | false =>
          have hrel : Released ht it (hfree ht ref) := hfree_post h.ok hat hit
          obtain ⟨F, hown⟩ := h.owns
          refine ⟨hrel.ok, hrel.keyed h.keyed, ⟨F, hrel.blocks ▸ hown⟩, ?_⟩
          have hcard := congrArg Multiset.card hrel.live
          have hcount : hcount ht = ht.live.card := h.hcount
          rw [Multiset.card_cons] at hcard
          change Hashtab.hcount (hfree ht ref) = (hfree ht ref).live.card
          rw [hrel.hcount]
          omega
  | write ref val =>
      obtain ⟨it, hat⟩ : ∃ it, ht.At ref it := hp
      have hover := modify_val_post h.ok hat val
      obtain ⟨F, hown⟩ := h.owns
      obtain ⟨L, hold, hnew⟩ := hover.live
      refine ⟨hover.ok, hover.keyed h.keyed, ⟨F, hover.blocks ▸ hown⟩, ?_⟩
      have hcount := h.hcount
      dsimp only at hcount ⊢
      rw [hover.hcount, hcount, hold, hnew, Multiset.card_add, Multiset.card_add]
      cases it.free <;> rfl

theorem htcreate_steady {logsize : Nat} {m₀ : σ}
    (hcreate : htcreate (V := V) A logsize m₀ = .ok (some ht, m)) : Steady A (ht, m) := by
  have hpost := (htcreate_post (V := V) (A.owns_live m₀) logsize).of_ok hcreate
  obtain ⟨hfresh, hown⟩ := hpost
  refine ⟨hfresh.ok, hfresh.allKeyed, ⟨_, hown⟩, ?_⟩
  change Hashtab.hcount ht = ht.live.card
  rw [hfresh.hcount, hfresh.live]
  rfl

/-! ## The buffers -/

/-- The item's key buffer is allocated and holds its key and the NUL. -/
def Buffered (A : Allocator σ Addr) (m : σ) (it : HItem V) : Prop :=
  ∃ buf, it.key = some buf ∧ buf.addr ∈ A.live m ∧ it.klen + 1 ≤ buf.bytes.length ∧
    buf.bytes[it.klen]? = some 0

theorem Steady.buffered {s : Htab V × σ} (h : Steady A s) :
    ∀ it ∈ s.1.items, Buffered A s.2 it := by
  intro it hit
  obtain ⟨buf, hbuf⟩ := Option.ne_none_iff_exists'.mp (h.keyed it hit)
  obtain ⟨⟨rest, hptr, hlen⟩, -⟩ := h.ok.placed hit (h.keyed it hit)
  have hbytes : buf.bytes = it.name ++ 0 :: rest := by
    simpa [HItem.keyPtr, hbuf] using hptr
  obtain ⟨F, hown⟩ := h.owns
  refine ⟨buf, hbuf, hown.mem_iff.mpr ?_, ?_, ?_⟩
  · have hblock : buf.addr ∈ it.blocks := by
      simp [HItem.blocks, HItem.keyAddr, hbuf]
    have hitems : buf.addr ∈ itemBlocks (↑s.1.items : Multiset (HItem V)) :=
      Multiset.mem_bind.mpr ⟨it, Multiset.mem_coe.mpr hit, hblock⟩
    exact Multiset.mem_add.mpr (.inl (Multiset.mem_add.mpr (.inr hitems)))
  · rw [hbytes, List.length_append, List.length_cons, hlen]
    omega
  · rw [hbytes, ← hlen, List.getElem?_append_right (Nat.le_refl _), Nat.sub_self]
    rfl

/--
In a run without these two failures every item keeps its buffer, and nothing is
read or written through NULL or past the end of a buffer.
-/
theorem keys_stay_valid {logsize : Nat} {m₀ : σ}
    (hcreate : htcreate (V := V) A logsize m₀ = .ok (some ht, m)) (edits : List (Edit V))
    (hedits : Meets (edit A) (fun s e => Points s e ∧ Kept A s e) (ht, m) edits) :
    ∃ s, run (edit A) (ht, m) edits = .ok s ∧ ∀ it ∈ s.1.items, Buffered A s.2 it := by
  obtain ⟨s, hrun, hs⟩ := (run_post (fun s e h he => edit_steady h he.1 he.2)
    (htcreate_steady hcreate) hedits).exists_ok
  exact ⟨s, hrun, hs.buffered⟩

/-- A recyclable item takes a longer key. -/
def rekeyEdits (n : Nat) : List (Edit Nat) :=
  [.hset [97] [] 1, .hfree ⟨0, 0⟩, .hset (List.replicate n 97) [] 2]

theorem keys_stay_valid_rekey :
    ∃ ht m, htcreate (V := Nat) (Allocator.upTo 40) 0 ∅ = .ok (some ht, m) ∧
      ∃ s, run (edit (Allocator.upTo 40)) (ht, m) (rekeyEdits 39) = .ok s ∧
        ∀ it ∈ s.1.items, Buffered (Allocator.upTo 40) s.2 it := by
  obtain ⟨⟨_ | ht, m⟩, hcreate, hedits⟩ := exists_of_returns
    (x := htcreate (V := Nat) (Allocator.upTo 40) 0 ∅)
    (p := fun r => match r with
      | (some ht, m) => meetsTest (edit (Allocator.upTo 40))
          (fun s e => pointsTest s e && decide (Kept (Allocator.upTo 40) s e)) (ht, m)
          (rekeyEdits 39)
      | (none, _) => false) (by decide +kernel)
  · cases hedits
  · refine ⟨ht, m, hcreate, keys_stay_valid hcreate _ (meets_of_test hedits
      fun s e _ h => ?_)⟩
    rw [Bool.and_eq_true, decide_eq_true_iff] at h
    exact ⟨points_of_test h.1, h.2⟩

/-- One byte more, and the item loses its key buffer; the next walk over it stops. -/
theorem keys_lost :
    ∃ ht m, htcreate (V := Nat) (Allocator.upTo 40) 0 ∅ = .ok (some ht, m) ∧
      Meets (edit (Allocator.upTo 40)) Points (ht, m) (rekeyEdits 40) ∧
      (∃ s, run (edit (Allocator.upTo 40)) (ht, m) (rekeyEdits 40) = .ok s ∧
        ∃ it ∈ s.1.items, it.key = none) ∧
      run (edit (Allocator.upTo 40)) (ht, m) (rekeyEdits 40 ++ [.hset [97] [] 3]) =
        .error .nullItemKey := by
  obtain ⟨⟨_ | ht, m⟩, hcreate, htest⟩ := exists_of_returns
    (x := htcreate (V := Nat) (Allocator.upTo 40) 0 ∅)
    (p := fun r => match r with
      | (some ht, m) => meetsTest (edit (Allocator.upTo 40)) pointsTest (ht, m)
            (rekeyEdits 40) &&
          returns (run (edit (Allocator.upTo 40)) (ht, m) (rekeyEdits 40))
            (fun s => s.1.items.any fun it => it.key.isNone) &&
          stops (run (edit (Allocator.upTo 40)) (ht, m)
            (rekeyEdits 40 ++ [.hset [97] [] 3])) .nullItemKey
      | (none, _) => false) (by decide +kernel)
  · cases htest
  · simp only [Bool.and_eq_true] at htest
    obtain ⟨s, hrun, hlost⟩ := exists_of_returns htest.1.2
    obtain ⟨it, hit, hnone⟩ := List.any_eq_true.mp hlost
    exact ⟨ht, m, hcreate, meets_of_test htest.1.1 fun s e _ h => points_of_test h,
      ⟨s, hrun, it, hit, Option.isNone_iff_eq_none.mp hnone⟩, eq_error_of_stops htest.2⟩

end Lightcache.Hashtab
