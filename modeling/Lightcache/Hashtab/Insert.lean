import Lightcache.Hashtab.Invariant

/-!
# Lookup and insertion without growth

What `hget` finds, and what `hset` has done when it reaches the load test:
refused the key because it is live, failed to allocate with the live entries
unchanged, or linked the new entry.
-/

namespace Lightcache.Hashtab

open Lightcache Lightcache.Foundation

variable {V : Type}

/-! ## Walking a chain -/

@[simp] theorem HItem.blame_ok {α : Type} (p : HItem V) (a : α) :
    p.blame (.ok a) = .ok a := rfl

theorem HItem.blame_keyed {α : Type} {p : HItem V} (hkey : p.key ≠ none)
    (x : Except Fault α) : p.blame x = x := by
  cases x with
  | ok a => rfl
  | error f => simp [HItem.blame, hkey]

theorem HItem.blame_post {α : Type} {p : HItem V} (hkey : p.key = none)
    {x : Except Fault α} {Q : α → Prop} (hx : Post x Q fun _ => True) :
    Post (p.blame x) Q fun f => f = .nullItemKey := by
  cases x with
  | ok a => exact hx
  | error f => simp [HItem.blame, hkey]

theorem strcmpEq_keyPtr {it : HItem V} (hkey : it.key ≠ none) (src : Bytes) :
    it.blame (strcmpEq it.keyPtr (some src)) =
      .ok (decide (it.cname = some (cstr src))) := by
  obtain ⟨buf, hbuf⟩ := Option.ne_none_iff_exists'.mp hkey
  simp [HItem.keyPtr, HItem.cname, hbuf, beq_eq_decide]

theorem strcmpEq_keyPtr_none {it : HItem V} (hkey : it.key = none)
    (src : Option Bytes) :
    it.blame (strcmpEq it.keyPtr src) = .error .nullItemKey := by
  simp [HItem.keyPtr, HItem.blame, hkey]

theorem hgetScan_post (src : Bytes) (chain : List (HItem V)) (i : Nat)
    (hkeyed : ∀ it ∈ chain, it.free = false → it.key ≠ none) :
    Post (hgetScan (some src) chain i)
      (fun r => match r with
        | none => ∀ it ∈ chain, it.free = false → it.cname ≠ some (cstr src)
        | some j => ∃ pre it post, chain = pre ++ it :: post ∧
            j = i + pre.length ∧ it.free = false ∧
            it.cname = some (cstr src))
      (fun _ => False) := by
  induction chain generalizing i with
  | nil => simp [hgetScan]
  | cons p rest ih =>
      have hrest := ih (i + 1) fun it hit => hkeyed it (List.mem_cons_of_mem _ hit)
      have hskip : (p.free = false → p.cname ≠ some (cstr src)) →
          Post (hgetScan (some src) rest (i + 1))
            (fun r => match r with
              | none => ∀ it ∈ p :: rest, it.free = false →
                  it.cname ≠ some (cstr src)
              | some j => ∃ pre it post, p :: rest = pre ++ it :: post ∧
                  j = i + pre.length ∧ it.free = false ∧
                  it.cname = some (cstr src))
            (fun _ => False) := by
        intro hp
        refine hrest.imp fun r hr => ?_
        cases r with
        | none => exact List.forall_mem_cons.mpr ⟨hp, hr⟩
        | some j =>
            obtain ⟨pre, it, post, rfl, rfl, hfree, hname⟩ := hr
            exact ⟨p :: pre, it, post, rfl, by simp; omega, hfree, hname⟩
      cases hfree : p.free with
      | true =>
          rw [hgetScan, if_pos hfree]
          exact hskip fun h => by simp [hfree] at h
      | false =>
          rw [hgetScan, hfree, if_neg (by simp),
            strcmpEq_keyPtr (hkeyed p (by simp) hfree), ok_bind]
          by_cases hname : p.cname = some (cstr src)
          · rw [if_pos (by simpa using hname)]
            exact ⟨[], p, rest, rfl, by simp, hfree, hname⟩
          · rw [if_neg (by simpa using hname)]
            exact hskip fun _ => hname

/--
The walk of `hset` faults only on a recyclable item without a key buffer, which
a failed allocation has left behind.
-/
theorem hsetScan_post (src : Bytes) (chain : List (HItem V)) (i : Nat)
    (new : Option (Nat × HItem V)) :
    Post (hsetScan (some src) chain i new)
      (fun r => match r with
        | .taken => ∃ it ∈ chain, it.free = false ∧ it.cname = some (cstr src)
        | .vacant new' =>
            (∀ it ∈ chain, it.key ≠ none) ∧
            (∀ it ∈ chain, it.free = false → it.cname ≠ some (cstr src)) ∧
            ((new' = new ∧ ∀ it ∈ chain, it.free = false) ∨
              ∃ pre it post, chain = pre ++ it :: post ∧ it.free = true ∧
                (∀ b ∈ post, b.free = false) ∧ new' = some (i + pre.length, it)))
      (fun f => f = .nullItemKey ∧ ∃ it ∈ chain, it.key = none) := by
  induction chain generalizing i new with
  | nil => simp [hsetScan]
  | cons p rest ih =>
      rw [hsetScan]
      by_cases hkey : p.key = none
      · rw [strcmpEq_keyPtr_none hkey]
        exact ⟨rfl, p, by simp, hkey⟩
      rw [strcmpEq_keyPtr hkey, ok_bind]
      by_cases hhit : p.free = false ∧ p.cname = some (cstr src)
      · rw [if_pos (by simp [hhit.1, hhit.2])]
        exact ⟨p, by simp, hhit⟩
      have hp : p.free = false → p.cname ≠ some (cstr src) :=
        fun hfree hname => hhit ⟨hfree, hname⟩
      rw [if_neg (by
        intro h
        simp only [Bool.and_eq_true, decide_eq_true_eq, Bool.not_eq_eq_eq_not,
          Bool.not_true] at h
        exact hhit ⟨h.2, h.1⟩)]
      refine (ih (i + 1) (if p.free then some (i, p) else new)).mono
        (fun r hr => ?_) ?_
      · cases r with
        | taken =>
            obtain ⟨it, hit, h⟩ := hr
            exact ⟨it, List.mem_cons_of_mem _ hit, h⟩
        | vacant new' =>
            obtain ⟨hkeyed, hnone, hnew⟩ := hr
            refine ⟨List.forall_mem_cons.mpr ⟨hkey, hkeyed⟩,
              List.forall_mem_cons.mpr ⟨hp, hnone⟩, ?_⟩
            rcases hnew with ⟨rfl, hlive⟩ | ⟨pre, it, post, rfl, hfree, hlast, rfl⟩
            · cases hfree : p.free with
              | true => exact .inr ⟨[], p, rest, rfl, hfree, hlive, by simp⟩
              | false =>
                  exact .inl ⟨by simp, List.forall_mem_cons.mpr ⟨hfree, hlive⟩⟩
            · exact .inr ⟨p :: pre, it, post, rfl, hfree, hlast,
                by simp; omega⟩
      · rintro f ⟨rfl, it, hit, hnone⟩
        exact ⟨rfl, it, List.mem_cons_of_mem _ hit, hnone⟩

/-- Without a key pointer the walk stops at the first item. -/
theorem hsetScan_none (chain : List (HItem V)) (i : Nat)
    (new : Option (Nat × HItem V)) :
    Post (hsetScan none chain i new) (fun r => r = .vacant new ∧ chain = [])
      (fun _ => True) := by
  cases chain with
  | nil => simp [hsetScan]
  | cons p rest => simp [hsetScan, HItem.blame]

/-! ## Lookup -/

section Lookup

variable {ht : Htab V}

theorem hhash_eq (hok : TableOk ht) (name rest : Bytes) :
    hhash ht (some (name ++ 0 :: rest)) name.length =
      .ok (slot ht.realsize name) := by
  rw [hhash, readBytes_prefix, ok_bind, hok.mask, hok.size, hmask, hsize,
    Nat.one_shiftLeft, Nat.and_two_pow_sub_one_eq_mod]
  rfl

/-- The item behind a reference, with its place in the chain. -/
def Htab.At (ht : Htab V) (ref : ItemRef) (it : HItem V) : Prop :=
  ref.bucket < ht.realsize ∧
    ∃ pre post, ht.table ref.bucket = pre ++ it :: post ∧ ref.pos = pre.length

theorem hget_post (hok : TableOk ht) (name rest : Bytes) :
    Post (hget ht (some (name ++ 0 :: rest)) name.length)
      (fun r => match r with
        | none => ∀ e ∈ ht.live, ¬ Clash ht.realsize e.1 name
        | some ref => ∃ it, ht.At ref it ∧ it.free = false ∧
            (it.name, it.val) ∈ ht.live ∧ Clash ht.realsize it.name name)
      (fun _ => False) := by
  have hslot := hok.slot_lt name
  have hchain := hok.chains _ hslot
  rw [hget, hhash_eq hok, ok_bind, post_bind]
  refine (hgetScan_post (name ++ 0 :: rest) (ht.table (slot ht.realsize name)) 0
    hchain.keyed).imp fun r hr => ?_
  cases r with
  | none =>
      rintro e he ⟨hslot', hcstr⟩
      obtain ⟨it, hit, hfree, rfl⟩ := mem_live.mp he
      have hmem := (hok.placed (Multiset.mem_coe.mp hit)
        (hok.keyed (Multiset.mem_coe.mp hit) hfree)).2
      rw [hslot'] at hmem
      refine hr it hmem hfree ?_
      rw [hchain.cname_eq hmem hfree, cstr_append_nul, hcstr]
  | some j =>
      obtain ⟨pre, it, post, heq, rfl, hfree, hname⟩ := hr
      have hmem : it ∈ ht.table (slot ht.realsize name) := by simp [heq]
      have hitem : it ∈ ht.items := Htab.mem_items.mpr ⟨_, hslot, hmem⟩
      refine ⟨it, ⟨hslot, pre, post, heq, by simp⟩, hfree,
        mem_live.mpr ⟨it, hitem, hfree, rfl⟩, ?_, ?_⟩
      · exact (hchain.placed it hmem (hchain.keyed it hmem hfree)).2
      · rw [hchain.cname_eq hmem hfree, cstr_append_nul] at hname
        exact Option.some.inj hname

/-- A live key is found, and what is found is its entry. -/
theorem hget_of_live (hok : TableOk ht) {name : Bytes} {val : V} (rest : Bytes)
    (hlive : (name, val) ∈ ht.live) :
    ∃ ref it, hget ht (some (name ++ 0 :: rest)) name.length = .ok (some ref) ∧
      ht.At ref it ∧ it.free = false ∧ it.name = name ∧ it.val = val := by
  obtain ⟨r, hr, hpost⟩ := (hget_post hok name rest).exists_ok
  cases r with
  | none => exact absurd ⟨rfl, rfl⟩ (hpost _ hlive)
  | some ref =>
      obtain ⟨it, hat, hfree, -, hslot, hcstr⟩ := hpost
      obtain ⟨it', hit', hfree', heq⟩ := mem_live.mp hlive
      obtain ⟨rfl, rfl⟩ := Prod.mk.inj heq
      have hitem' := Multiset.mem_coe.mp hit'
      have hmem' := (hok.placed hitem' (hok.keyed hitem' hfree')).2
      obtain ⟨hbucket, pre, post, hchain, hpos⟩ := hat
      have hmem : it ∈ ht.table ref.bucket := by simp [hchain]
      have hplaced := (hok.chains _ hbucket).placed it hmem
        ((hok.chains _ hbucket).keyed it hmem hfree)
      rw [← hslot, hplaced.2] at hmem'
      have hsame := (hok.chains _ hbucket).live_unique hmem hmem' hfree hfree' hcstr
      subst hsame
      exact ⟨ref, it, hr, ⟨hbucket, pre, post, hchain, hpos⟩, hfree, rfl, rfl⟩

end Lookup

/-! ## Writing through an item pointer -/

theorem modify_append_cons (pre post : List (HItem V)) (it : HItem V)
    (f : HItem V → HItem V) :
    (pre ++ it :: post).modify pre.length f = pre ++ f it :: post := by
  induction pre with
  | nil => rfl
  | cons a pre ih => simp [ih]

namespace Htab

variable {ht : Htab V} {ref : ItemRef} {it : HItem V}

theorem modify_eq (hat : ht.At ref it) (f : HItem V → HItem V) :
    ∃ pre post, ht.table ref.bucket = pre ++ it :: post ∧
      ht.modify ref f = ht.setChain ref.bucket (pre ++ f it :: post) := by
  obtain ⟨-, pre, post, hchain, hpos⟩ := hat
  exact ⟨pre, post, hchain, by rw [modify, hchain, hpos, modify_append_cons]⟩

/-- Writing through a pointer replaces that one item of the table. -/
theorem modify_items (hat : ht.At ref it) (f : HItem V → HItem V) :
    ∃ rest, (↑ht.items : Multiset (HItem V)) = it ::ₘ rest ∧
      (↑(ht.modify ref f).items : Multiset (HItem V)) = f it ::ₘ rest := by
  obtain ⟨pre, post, hchain, heq⟩ := modify_eq hat f
  obtain ⟨rest, hold, hnew⟩ := coe_items_replace hat.1 hchain
  exact ⟨rest, hold, heq ▸ hnew (f it)⟩

theorem item?_eq (hat : ht.At ref it) : ht.item? ref = some it := by
  obtain ⟨-, pre, post, hchain, hpos⟩ := hat
  simp [item?, hchain, hpos]

end Htab

theorem TableOk.modify {ht : Htab V} (hok : TableOk ht) {ref : ItemRef}
    {it : HItem V} (hat : ht.At ref it) {f : HItem V → HItem V}
    (hkey : (f it).key = it.key) (hklen : (f it).klen = it.klen)
    (hfree : (f it).free = false → it.free = false) :
    TableOk (ht.modify ref f) := by
  obtain ⟨pre, post, hchain, heq⟩ := Htab.modify_eq hat f
  rw [heq]
  refine hok.setChain fun hh => ?_
  exact ChainOk.release (hchain ▸ hok.chains _ hh) hkey hklen hfree

end Lightcache.Hashtab
