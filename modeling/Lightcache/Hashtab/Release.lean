import Lightcache.Hashtab.Enum

/-!
# Releasing and overwriting an item

What `hfree` and a write of `val` through an item pointer do to the contents of
a table, and what becomes of a pointer held across these operations.
-/

namespace Lightcache.Hashtab

open Lightcache Lightcache.Foundation

variable {V : Type} {ht : Htab V} {ref : ItemRef} {it : HItem V}

theorem Htab.At.mem_items (hat : ht.At ref it) : it ∈ ht.items := by
  obtain ⟨hbucket, pre, post, hchain, -⟩ := hat
  exact Htab.mem_items.mpr ⟨_, hbucket, by simp [hchain]⟩

theorem Htab.At.mem_live (hat : ht.At ref it) (hfree : it.free = false) :
    (it.name, it.val) ∈ ht.live :=
  Hashtab.mem_live.mpr ⟨it, Multiset.mem_coe.mpr hat.mem_items, hfree, rfl⟩

/-- A pointer follows its item through changes in place. -/
theorem Htab.At.follow {ht' : Htab V} {R : HItem V → HItem V → Prop}
    (hat : ht.At ref it) (hsize : ht'.realsize = ht.realsize)
    (hrel : List.Forall₂ R (ht.table ref.bucket) (ht'.table ref.bucket)) :
    ∃ it', ht'.At ref it' ∧ R it it' := by
  obtain ⟨hbucket, pre, post, hchain, hpos⟩ := hat
  rw [hchain] at hrel
  have hdrop := List.forall₂_drop pre.length hrel
  rw [List.drop_left] at hdrop
  obtain ⟨it', post', hit, -, hrest⟩ := List.forall₂_cons_left_iff.mp hdrop
  have hlen := hrel.length_eq
  simp only [List.length_append, List.length_cons] at hlen
  refine ⟨it', ⟨hsize ▸ hbucket, (ht'.table ref.bucket).take pre.length, post',
    ?_, ?_⟩, hit⟩
  · rw [← hrest, List.take_append_drop]
  · rw [hpos, List.length_take, Nat.min_eq_left (by omega)]

theorem modify_gentle (hat : ht.At ref it) {f : HItem V → HItem V}
    (hf : Gentle it (f it)) (i : Nat) :
    List.Forall₂ Gentle (ht.table i) ((ht.modify ref f).table i) := by
  obtain ⟨pre, post, hchain, heq⟩ := Htab.modify_eq hat f
  rw [heq]
  by_cases hi : i = ref.bucket
  · rw [hi, Htab.setChain_table_self, hchain]
    exact List.rel_append (gentle_same pre) (.cons hf (gentle_same post))
  · rw [Htab.setChain_table_of_ne _ _ hi]
    exact gentle_same _

theorem Htab.At.modify (hat : ht.At ref it) (f : HItem V → HItem V) :
    (ht.modify ref f).At ref (f it) := by
  obtain ⟨hbucket, pre, post, hchain, hpos⟩ := hat
  refine ⟨hbucket, pre, post, ?_, hpos⟩
  rw [Htab.modify, Htab.setChain_table_self, hchain, hpos, modify_append_cons]

/-! ## `hfree` -/

theorem hfree_of_free (hat : ht.At ref it) (hit : it.free = true) :
    hfree ht ref = ht := by
  obtain ⟨pre, post, hchain, heq⟩ :=
    Htab.modify_eq hat fun b => (hfreeItem b ht.freecount).1
  rw [hfree, Htab.item?_eq hat]
  simp only [hfreeItem, hit, if_true] at heq ⊢
  rw [heq, ← hchain, Htab.setChain, Function.update_eq_self]

/-- What `hfree` of a live item does. -/
structure Released (ht : Htab V) (it : HItem V) (ht' : Htab V) : Prop where
  ok : TableOk ht'
  frame : Htab.SameFrame ht ht'
  blocks : ht'.blocks = ht.blocks
  live : ht.live = (it.name, it.val) ::ₘ ht'.live
  leftover : ht'.leftover = it.val ::ₘ ht.leftover
  keyed : ht.AllKeyed → ht'.AllKeyed
  hcount : hcount ht' = hcount ht - 1
  rel : ∀ i, List.Forall₂ Gentle (ht.table i) (ht'.table i)

theorem hfree_post (hok : TableOk ht) (hat : ht.At ref it)
    (hit : it.free = false) : Released ht it (hfree ht ref) := by
  have hgentle : Gentle it { it with free := true } := ⟨rfl, rfl, rfl, by simp⟩
  have hset : ∀ b : HItem V, b = it →
      (hfreeItem b ht.freecount).1 = { b with free := true } := by
    rintro b rfl
    simp [hfreeItem, hit]
  obtain ⟨s, hold, hnew⟩ :=
    Htab.modify_items hat fun b => (hfreeItem b ht.freecount).1
  rw [hset it rfl] at hnew
  rw [hfree, Htab.item?_eq hat]
  dsimp only
  have hfc : (hfreeItem it ht.freecount).2 = ht.freecount + 1 := by
    simp [hfreeItem, hit]
  rw [hfc]
  obtain ⟨ht₁, hht₁⟩ : ∃ ht₁, ht₁ =
      ht.modify ref fun b => (hfreeItem b ht.freecount).1 := ⟨_, rfl⟩
  rw [← hht₁] at hnew ⊢
  have hframe : Htab.SameFrame ht ht₁ := hht₁ ▸ ⟨rfl, rfl, rfl, rfl, rfl, rfl⟩
  refine ⟨?_, ⟨hframe.addr, hframe.tableAddr, hframe.realsize, hframe.logsize,
    hframe.mask, hframe.count⟩, ?_, ?_, ?_, ?_, ?_, ?_⟩
  · refine TableOk.counters ?_ _ _
    rw [hht₁]
    exact hok.modify hat (by rw [hset it rfl]) (by rw [hset it rfl])
      (by rw [hset it rfl]; simp)
  · change ht₁.blocks = _
    rw [Htab.blocks_of_items hold, Htab.blocks_of_items hnew, hgentle.blocks,
      hframe.addr, hframe.tableAddr]
  · change _ = _ ::ₘ ht₁.live
    rw [Htab.live_of_items hold, Htab.live_of_items hnew, hit]
    simp
  · change ht₁.leftover = _
    rw [Htab.leftover_of_items hold, Htab.leftover_of_items hnew, hit]
    simp
  · intro hall
    rw [Htab.allKeyed_of_items hold] at hall
    change ht₁.AllKeyed
    rwa [Htab.allKeyed_of_items hnew]
  · change ht₁.count - (ht.freecount + 1) = ht.count - ht.freecount - 1
    rw [hframe.count]
    omega
  · intro i
    change List.Forall₂ Gentle (ht.table i) (ht₁.table i)
    rw [hht₁]
    exact modify_gentle hat (by rw [hset it rfl]; exact hgentle) i

/-! ## Writing `val` -/

/-- What a write of `val` does; on a free item it changes no entry. -/
structure Overwritten (ht : Htab V) (it : HItem V) (val : V) (ht' : Htab V) :
    Prop where
  ok : TableOk ht'
  frame : Htab.SameFrame ht ht'
  blocks : ht'.blocks = ht.blocks
  live : ∃ L, ht.live = (if it.free then 0 else {(it.name, it.val)}) + L ∧
    ht'.live = (if it.free then 0 else {(it.name, val)}) + L
  leftover : ∃ L, ht.leftover = (if it.free then {it.val} else 0) + L ∧
    ht'.leftover = (if it.free then {val} else 0) + L
  keyed : ht.AllKeyed → ht'.AllKeyed
  hcount : hcount ht' = hcount ht
  rel : ∀ i, List.Forall₂ Gentle (ht.table i) (ht'.table i)

theorem modify_val_post (hok : TableOk ht) (hat : ht.At ref it) (val : V) :
    Overwritten ht it val (ht.modify ref fun b => { b with val := val }) := by
  obtain ⟨s, hold, hnew⟩ := Htab.modify_items hat fun b => { b with val := val }
  have hgentle : Gentle it { it with val := val } := ⟨rfl, rfl, rfl, id⟩
  refine ⟨hok.modify hat rfl rfl id, ⟨rfl, rfl, rfl, rfl, rfl, rfl⟩, ?_,
    ⟨Hashtab.live s, Htab.live_of_items hold, ?_⟩,
    ⟨Hashtab.leftover s, Htab.leftover_of_items hold, Htab.leftover_of_items hnew⟩,
    ?_, rfl, modify_gentle hat hgentle⟩
  · rw [Htab.blocks_of_items hold, Htab.blocks_of_items hnew]
    rfl
  · exact Htab.live_of_items hnew
  · intro hall
    rw [Htab.allKeyed_of_items hold] at hall
    exact (Htab.allKeyed_of_items hnew).mpr hall

end Lightcache.Hashtab
