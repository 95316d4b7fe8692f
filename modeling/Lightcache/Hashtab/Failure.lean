import Lightcache.Hashtab.Depth

/-!
# The two ways `hset` fails

An allocation that fails before the item is linked leaves the table as it was.
One that fails in `hgrow` comes too late: the item is in its chain already, and
`hset` reports an error nevertheless.
-/

namespace Lightcache.Hashtab

open Lightcache Lightcache.Foundation

variable {V σ : Type} {A : Allocator σ Addr} {ht : Htab V} {m : σ} {F : Multiset Addr}

/-- The growth of a table that the caller of `hset` sees. -/
theorem hgrow_outer (hok : TableOk ht) (hown : A.Owns m (ht.blocks + F)) :
    Post (hgrow A (hsetDepth A 2) ht m)
      (fun r => match r with
        | (true, ht', m') => Grown A ht F ht' m' ∧
            Sized (2 * ht.realsize) ht.items.length ht'.realsize
        | (false, ht', _) => ht' = ht ∧
            growFails A (hsetDepth A 2) (hsetFails A 2) ht m = true)
      (SetFault ht) := by
  refine (hgrow_post (hsetDepth_growing 0 _ _)
    (fun _ hfresh => hok.size ▸ hfresh.growing) hok hown).imp fun r hr => ?_
  obtain ⟨_ | _, ht', m'⟩ := r
  · exact hr
  · obtain ⟨hgrown, d, hd, hsize⟩ := hr
    exact ⟨hgrown, hsize ▸ hd.sized⟩

theorem hgrow_granted : Ensures (hgrow A (hsetDepth A 2) ht m) fun r =>
    r.1 = true → growFails A (hsetDepth A 2) (hsetFails A 2) ht m = false :=
  hgrow_true (hsetDepth_hsuccess 2)

/-! ## The number of buckets -/

theorem hsetLink_size (key : Option Bytes) (klen : Nat) (val : V) :
    Ensures (hsetLink A ht key klen val m) fun r => r.2.1.realsize = ht.realsize := by
  refine (ensures_true _).bind fun h _ => (ensures_true _).bind fun slot _ => ?_
  rcases slot with _ | _ | ⟨pos, new⟩
  · exact rfl
  · dsimp only
    rw [addFront]
    rcases liMalloc A m sizeofHitem with ⟨_ | addr, m₁⟩
    · exact rfl
    dsimp only
    rcases liMalloc A m₁ (klen + 1) with ⟨_ | a, m₂⟩
    · exact (ensures_true _).bind fun m₃ _ => rfl
    · exact (ensures_true _).bind fun bytes _ => rfl
  · dsimp only
    rw [recycle]
    split
    · refine (ensures_true _).bind fun m₁ _ => ?_
      rcases liMalloc A m₁ (klen + 1) with ⟨_ | a, m₂⟩
      · exact rfl
      · exact (ensures_true _).bind fun bytes _ => rfl
    · cases new.key with
      | none => trivial
      | some buf => exact (ensures_true _).bind fun bytes _ => rfl

theorem hgrow_refused (set : SetFn σ V) :
    Ensures (hgrow A set ht m) fun r => r.1 = false → r.2.1 = ht := by
  refine (ensures_true _).bind fun ⟨dummy, m₁⟩ _ => ?_
  cases dummy with
  | none => exact fun _ => rfl
  | some dummy =>
      refine (ensures_true _).bind fun ⟨moved, m₂⟩ _ => ?_
      cases moved with
      | none => exact fun _ => rfl
      | some moved =>
          refine (ensures_true _).bind fun m₃ _ => (ensures_true _).bind fun m₄ _ => ?_
          exact fun h => by cases h

/-- Only a successful `hset` has made the table grow. -/
theorem hset_size (key : Option Bytes) (klen : Nat) (val : V) :
    Ensures (hset A ht key klen val m) fun r =>
      r.1 ≠ .hsuccess → r.2.1.realsize = ht.realsize := by
  refine (hsetLink_size key klen val).bind fun ⟨r, ht₁, m₁⟩ hlink => ?_
  dsimp only at hlink ⊢
  split
  · refine (hgrow_refused _).bind fun ⟨grown, ht₂, m₂⟩ hgrown => ?_
    cases grown with
    | true => exact fun h => absurd rfl h
    | false => exact fun _ => (congrArg Htab.realsize (hgrown rfl)).trans hlink
  · exact fun _ => hlink

/-! ## Failure -/

/-- What a failed `hset` leaves behind. -/
theorem hset_failure (name : Bytes) (val : V) (rest : Bytes) (hok : TableOk ht)
    (hown : A.Owns m (ht.blocks + F)) :
    Post (hset A ht (some (name ++ 0 :: rest)) name.length val m)
      (fun r =>
        (growthFails A ht (some (name ++ 0 :: rest)) name.length val m = true →
          r.1 = .herror ∧ r.2.1.live = (name, val) ::ₘ ht.live) ∧
        (growthFails A ht (some (name ++ 0 :: rest)) name.length val m = false →
          r.1 = .herror → Refused A ht F r.2.1 r.2.2 ∧
            linkFails A ht (some (name ++ 0 :: rest)) name.length m = true))
      (SetFault ht) := by
  have hlink := hsetLink_post name val rest hok hown
  rw [hset, hsetDepth, growthFails]
  cases hrun : hsetLink A ht (some (name ++ 0 :: rest)) name.length val m with
  | error f =>
      rw [hrun] at hlink
      exact hlink
  | ok r =>
      obtain ⟨r, ht₁, m₁⟩ := r
      rw [hrun] at hlink
      rw [ok_bind]
      cases r with
      | hexists => simp
      | herror =>
          dsimp only
          rw [if_neg (by simp)]
          have hfails := ((hsetLink_herror _ _ val).of_ok hrun).mp rfl
          simpa using ⟨hlink, hfails⟩
      | hsuccess =>
          obtain ⟨hlinked, -⟩ := hlink
          dsimp only
          by_cases hover : ht₁.overloaded = true
          · rw [if_pos ⟨rfl, hover⟩, hover, Bool.true_and]
            have hout := hgrow_outer (A := A) hlinked.ok hlinked.owns
            cases hg : hgrow A (hsetDepth A 2) ht₁ m₁ with
            | error f =>
                rw [hg] at hout
                exact ⟨hout.1, fun hall => hout.2 (hlinked.keyed hall)⟩
            | ok r =>
                obtain ⟨_ | _, ht₂, m₂⟩ := r
                · rw [hg] at hout
                  obtain ⟨rfl, hfails⟩ := hout
                  simpa [hfails] using hlinked.live
                · simp [hgrow_granted.of_ok hg rfl]
          · rw [if_neg (by simp [hover])]
            simp [hover]

end Lightcache.Hashtab
