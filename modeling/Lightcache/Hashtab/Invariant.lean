import Lightcache.Hashtab.Table
import Mathlib.Algebra.BigOperators.Group.Finset.Basic
import Mathlib.Data.Multiset.Bind

/-!
# The chain invariant of the hash table

Two keys clash when they fall into one bucket and agree up to their first NUL:
`hset` and `hget` cannot tell them apart.  A chain is in order when no item
after a live one clashes with it.  So a key is live at most once, and a
recyclable item that still carries the key of a live one comes before it; this
is what lets `hgrow` re-insert recyclable items through `hset`.
-/

namespace Lightcache.Hashtab

open Lightcache Lightcache.Foundation

variable {V : Type}

/-! ## Keys -/

namespace HItem

/-- The key an item was last set with. -/
def name (it : HItem V) : Bytes := (it.keyPtr.getD []).take it.klen

/-- What `strcmp` sees of the key. -/
def cname (it : HItem V) : Option Bytes := it.keyPtr.map cstr

/-- The key buffer holds `klen` bytes of key and their NUL. -/
def Keyed (it : HItem V) : Prop :=
  ∃ rest, it.keyPtr = some (it.name ++ 0 :: rest) ∧ it.name.length = it.klen

def blocks (it : HItem V) : Multiset Addr := {it.addr} + ptrBlocks it.keyAddr

@[simp] theorem keyPtr_eq_none {it : HItem V} :
    it.keyPtr = none ↔ it.key = none := by
  simp [keyPtr]

theorem Keyed.cname {it : HItem V} (h : it.Keyed) :
    it.cname = some (cstr it.name) := by
  obtain ⟨rest, hptr, -⟩ := h
  rw [HItem.cname, hptr, Option.map_some, cstr_append_nul]

theorem name_of_keyPtr {it : HItem V} {name rest : Bytes}
    (hptr : it.keyPtr = some (name ++ 0 :: rest))
    (hlen : it.klen = name.length) : it.name = name := by
  simp [HItem.name, hptr, hlen]

theorem keyed_of_keyPtr {it : HItem V} {name rest : Bytes}
    (hptr : it.keyPtr = some (name ++ 0 :: rest))
    (hlen : it.klen = name.length) : it.Keyed := by
  refine ⟨rest, ?_, ?_⟩
  · rw [name_of_keyPtr hptr hlen, hptr]
  · rw [name_of_keyPtr hptr hlen, hlen]

end HItem

/-- The bucket of a key among `n`. -/
def slot (n : Nat) (name : Bytes) : Nat := (oneAtATime name).toNat % n

def Clash (n : Nat) (a b : Bytes) : Prop :=
  slot n a = slot n b ∧ cstr a = cstr b

theorem Clash.refl (n : Nat) (a : Bytes) : Clash n a a := ⟨rfl, rfl⟩

theorem slot_of_dvd {n k : Nat} (h : n ∣ k) {a b : Bytes}
    (hab : slot k a = slot k b) : slot n a = slot n b := by
  simp only [slot] at hab ⊢
  rw [← Nat.mod_mod_of_dvd _ h, hab, Nat.mod_mod_of_dvd _ h]

theorem Clash.of_dvd {n k : Nat} (h : n ∣ k) {a b : Bytes} (hab : Clash k a b) :
    Clash n a b :=
  ⟨slot_of_dvd h hab.1, hab.2⟩

theorem Clash.eq {n : Nat} {a b : Bytes} (h : Clash n a b) (ha : 0 ∉ a)
    (hb : 0 ∉ b) : a = b := by
  have := h.2
  rwa [cstr_of_nulFree ha, cstr_of_nulFree hb] at this

/-! ## The contents of a table -/

/-- The live entries among some items. -/
def live (s : Multiset (HItem V)) : Multiset (Bytes × V) :=
  s.bind fun it => if it.free then 0 else {(it.name, it.val)}

/-- The values that recyclable items still carry. -/
def leftover (s : Multiset (HItem V)) : Multiset V :=
  s.bind fun it => if it.free then {it.val} else 0

def itemBlocks (s : Multiset (HItem V)) : Multiset Addr := s.bind HItem.blocks

theorem live_cons (it : HItem V) (s : Multiset (HItem V)) :
    live (it ::ₘ s) =
      (if it.free then 0 else {(it.name, it.val)}) + live s :=
  Multiset.cons_bind ..

theorem leftover_cons (it : HItem V) (s : Multiset (HItem V)) :
    leftover (it ::ₘ s) = (if it.free then {it.val} else 0) + leftover s :=
  Multiset.cons_bind ..

theorem itemBlocks_cons (it : HItem V) (s : Multiset (HItem V)) :
    itemBlocks (it ::ₘ s) = it.blocks + itemBlocks s :=
  Multiset.cons_bind ..

@[simp] theorem live_nil :
    live (↑([] : List (HItem V)) : Multiset (HItem V)) = 0 := rfl

@[simp] theorem leftover_nil :
    leftover (↑([] : List (HItem V)) : Multiset (HItem V)) = 0 := rfl

theorem live_coe_cons (it : HItem V) (L : List (HItem V)) :
    live (↑(it :: L) : Multiset (HItem V)) =
      (if it.free then 0 else {(it.name, it.val)}) +
        live (↑L : Multiset (HItem V)) := by
  rw [← Multiset.cons_coe, live_cons]

theorem leftover_coe_cons (it : HItem V) (L : List (HItem V)) :
    leftover (↑(it :: L) : Multiset (HItem V)) =
      (if it.free then {it.val} else 0) +
        leftover (↑L : Multiset (HItem V)) := by
  rw [← Multiset.cons_coe, leftover_cons]

theorem itemBlocks_coe_cons (it : HItem V) (L : List (HItem V)) :
    itemBlocks (↑(it :: L) : Multiset (HItem V)) =
      it.blocks + itemBlocks (↑L : Multiset (HItem V)) := by
  rw [← Multiset.cons_coe, itemBlocks_cons]

theorem mem_live {s : Multiset (HItem V)} {e : Bytes × V} :
    e ∈ live s ↔ ∃ it ∈ s, it.free = false ∧ (it.name, it.val) = e := by
  simp only [live, Multiset.mem_bind]
  refine exists_congr fun it => and_congr_right fun _ => ?_
  cases it.free <;> simp [eq_comm]

/-- The entry of a live item. -/
def liveEntry (it : HItem V) : Option (Bytes × V) :=
  if it.free then none else some (it.name, it.val)

theorem liveEntry_eq_some {it : HItem V} {e : Bytes × V} :
    liveEntry it = some e ↔ it.free = false ∧ (it.name, it.val) = e := by
  cases hfree : it.free <;> simp [liveEntry, hfree]

theorem live_coe (L : List (HItem V)) :
    live (↑L : Multiset (HItem V)) = ↑(L.filterMap liveEntry) := by
  induction L with
  | nil => rfl
  | cons it L ih =>
      rw [live_coe_cons, ih]
      cases hfree : it.free <;> simp [liveEntry, hfree]

namespace Htab

def live (ht : Htab V) : Multiset (Bytes × V) :=
  Hashtab.live (↑ht.items : Multiset (HItem V))

def leftover (ht : Htab V) : Multiset V :=
  Hashtab.leftover (↑ht.items : Multiset (HItem V))

/-- The blocks of a table: its header, its bucket array, its items. -/
def blocks (ht : Htab V) : Multiset Addr :=
  {ht.addr} + {ht.tableAddr} + itemBlocks (↑ht.items : Multiset (HItem V))

def AllKeyed (ht : Htab V) : Prop := ∀ it ∈ ht.items, it.key ≠ none

theorem mem_items {ht : Htab V} {it : HItem V} :
    it ∈ ht.items ↔ ∃ h < ht.realsize, it ∈ ht.table h := by
  simp [items]

/-- The items outside bucket `h`. -/
def others (ht : Htab V) (h : Nat) : Multiset (HItem V) :=
  ∑ i ∈ (Finset.range ht.realsize).erase h, (↑(ht.table i) : Multiset (HItem V))

theorem coe_items (ht : Htab V) :
    (↑ht.items : Multiset (HItem V)) =
      ∑ i ∈ Finset.range ht.realsize, ↑(ht.table i) := by
  rw [items]
  generalize ht.realsize = n
  induction n with
  | zero => simp
  | succ n ih =>
      rw [List.range_succ, List.flatMap_append, ← Multiset.coe_add, ih,
        Finset.sum_range_succ]
      simp

theorem coe_items_eq {ht : Htab V} {h : Nat} (hh : h < ht.realsize) :
    (↑ht.items : Multiset (HItem V)) = ↑(ht.table h) + ht.others h := by
  rw [coe_items, others,
    Finset.add_sum_erase _ (fun i => (↑(ht.table i) : Multiset (HItem V)))
      (Finset.mem_range.mpr hh)]

@[simp] theorem setChain_table_self (ht : Htab V) (h : Nat)
    (chain : List (HItem V)) : (ht.setChain h chain).table h = chain := by
  simp [setChain]

theorem setChain_table_of_ne (ht : Htab V) {h i : Nat}
    (chain : List (HItem V)) (hi : i ≠ h) :
    (ht.setChain h chain).table i = ht.table i := by
  simp [setChain, hi]

@[simp] theorem others_setChain (ht : Htab V) (h : Nat)
    (chain : List (HItem V)) : (ht.setChain h chain).others h = ht.others h := by
  refine Finset.sum_congr rfl fun i hi => ?_
  rw [setChain_table_of_ne ht chain (Finset.ne_of_mem_erase hi)]

/-- Replacing one item of a chain replaces one item of the table. -/
theorem coe_items_replace {ht : Htab V} {h : Nat} (hh : h < ht.realsize)
    {pre post : List (HItem V)} {it : HItem V}
    (hchain : ht.table h = pre ++ it :: post) :
    ∃ rest, (↑ht.items : Multiset (HItem V)) = it ::ₘ rest ∧
      ∀ it', (↑(ht.setChain h (pre ++ it' :: post)).items : Multiset (HItem V)) =
        it' ::ₘ rest := by
  refine ⟨↑(pre ++ post) + ht.others h, ?_, fun it' => ?_⟩
  · rw [coe_items_eq hh, hchain, ← Multiset.cons_add, Multiset.cons_coe,
      Multiset.coe_eq_coe.mpr List.perm_middle]
  · rw [coe_items_eq (h := h) (by exact hh), setChain_table_self, others_setChain,
      ← Multiset.cons_add, Multiset.cons_coe,
      Multiset.coe_eq_coe.mpr List.perm_middle]

theorem coe_items_addFront {ht : Htab V} {h : Nat} (hh : h < ht.realsize)
    (it : HItem V) :
    (↑(ht.setChain h (it :: ht.table h)).items : Multiset (HItem V)) =
      it ::ₘ ↑ht.items := by
  rw [coe_items_eq (h := h) (by exact hh), setChain_table_self, others_setChain,
    coe_items_eq hh, ← Multiset.cons_add, Multiset.cons_coe]

end Htab

/-! ## Chains in order -/

structure ChainOk (n h : Nat) (chain : List (HItem V)) : Prop where
  placed : ∀ it ∈ chain, it.key ≠ none → it.Keyed ∧ slot n it.name = h
  keyed : ∀ it ∈ chain, it.free = false → it.key ≠ none
  ordered : chain.Pairwise fun a b =>
    a.free = false → b.key ≠ none → cstr a.name ≠ cstr b.name

theorem chainOk_nil (n h : Nat) : ChainOk n h ([] : List (HItem V)) :=
  ⟨by simp, by simp, .nil⟩

namespace ChainOk

variable {n h : Nat} {chain pre post : List (HItem V)} {it it' : HItem V}

theorem cname_eq (hc : ChainOk n h chain) (hit : it ∈ chain)
    (hfree : it.free = false) : it.cname = some (cstr it.name) :=
  (hc.placed it hit (hc.keyed it hit hfree)).1.cname

/-- The keys `hset` and `hget` tell apart are live at most once in a chain. -/
theorem live_unique (hc : ChainOk n h chain) (hit : it ∈ chain)
    (hit' : it' ∈ chain) (hfree : it.free = false) (hfree' : it'.free = false)
    (hname : cstr it.name = cstr it'.name) : it = it' := by
  have hlive : chain.Pairwise fun a b =>
      a.free = false → b.free = false → cstr a.name ≠ cstr b.name :=
    hc.ordered.imp_of_mem fun {a b} _ hb hab ha hbf => hab ha (hc.keyed b hb hbf)
  have : Std.Symm fun a b : HItem V =>
      a.free = false → b.free = false → cstr a.name ≠ cstr b.name :=
    ⟨fun _ _ hab ha hb he => hab hb ha he.symm⟩
  by_contra hne
  exact hlive.forall hit hit' hne hfree hfree' hname

theorem cons (hc : ChainOk n h chain) (hkeyed : it.Keyed)
    (hslot : slot n it.name = h) (hlive : ∀ b ∈ chain, b.free = false)
    (hfresh : ∀ b ∈ chain, b.free = false → b.cname ≠ some (cstr it.name)) :
    ChainOk n h (it :: chain) where
  placed := by
    intro b hb hbk
    rcases List.mem_cons.mp hb with rfl | hb
    · exact ⟨hkeyed, hslot⟩
    · exact hc.placed b hb hbk
  keyed := by
    intro b hb hbf
    rcases List.mem_cons.mp hb with rfl | hb
    · obtain ⟨rest, hptr, -⟩ := hkeyed
      exact fun hnone => by simp [HItem.keyPtr, hnone] at hptr
    · exact hc.keyed b hb hbf
  ordered := by
    refine List.pairwise_cons.mpr ⟨fun b hb _ _ heq => ?_, hc.ordered⟩
    exact hfresh b hb (hlive b hb) (by rw [hc.cname_eq hb (hlive b hb), heq])

/--
An item may be overwritten when its new key is live nowhere in the chain, and
may go live under it when no free item follows.
-/
theorem replace (hc : ChainOk n h (pre ++ it :: post))
    (hplaced : it'.key ≠ none → it'.Keyed ∧ slot n it'.name = h)
    (hkeyed : it'.free = false → it'.key ≠ none)
    (hfresh : ∀ b ∈ pre ++ it :: post, b.free = false → it'.key ≠ none →
      b.cname ≠ some (cstr it'.name))
    (hlast : it'.free = false → ∀ b ∈ post, b.free = false) :
    ChainOk n h (pre ++ it' :: post) where
  placed := by
    intro b hb hbk
    rcases List.mem_append.mp hb with hb | hb
    · exact hc.placed b (by simp [hb]) hbk
    · rcases List.mem_cons.mp hb with rfl | hb
      · exact hplaced hbk
      · exact hc.placed b (by simp [hb]) hbk
  keyed := by
    intro b hb hbf
    rcases List.mem_append.mp hb with hb | hb
    · exact hc.keyed b (by simp [hb]) hbf
    · rcases List.mem_cons.mp hb with rfl | hb
      · exact hkeyed hbf
      · exact hc.keyed b (by simp [hb]) hbf
  ordered := by
    obtain ⟨hpre, hpost, hcross⟩ := List.pairwise_append.mp hc.ordered
    refine List.pairwise_append.mpr ⟨hpre, List.pairwise_cons.mpr
      ⟨?_, (List.pairwise_cons.mp hpost).2⟩, ?_⟩
    · intro b hb hlive _ heq
      have hbf := hlast hlive b hb
      have hmem : b ∈ pre ++ it :: post := by simp [hb]
      exact hfresh b hmem hbf (hkeyed hlive) (by rw [hc.cname_eq hmem hbf, heq])
    · intro a ha b hb haf hbk heq
      rcases List.mem_cons.mp hb with rfl | hb
      · have hmem : a ∈ pre ++ it :: post := by simp [ha]
        exact hfresh a hmem haf hbk (by rw [hc.cname_eq hmem haf, heq])
      · exact hcross a ha b (List.mem_cons_of_mem _ hb) haf hbk heq

/-- Releasing an item, or writing its value, keeps the chain in order. -/
theorem release (hc : ChainOk n h (pre ++ it :: post)) (hkey : it'.key = it.key)
    (hklen : it'.klen = it.klen) (hfree : it'.free = false → it.free = false) :
    ChainOk n h (pre ++ it' :: post) where
  placed := by
    have hptr : it'.keyPtr = it.keyPtr := by simp [HItem.keyPtr, hkey]
    have hname : it'.name = it.name := by simp [HItem.name, hptr, hklen]
    intro b hb hbk
    rcases List.mem_append.mp hb with hb | hb
    · exact hc.placed b (by simp [hb]) hbk
    · rcases List.mem_cons.mp hb with rfl | hb
      · have := hc.placed it (by simp) (hkey ▸ hbk)
        simpa [HItem.Keyed, hname, hptr, hklen] using this
      · exact hc.placed b (by simp [hb]) hbk
  keyed := by
    intro b hb hbf
    rcases List.mem_append.mp hb with hb | hb
    · exact hc.keyed b (by simp [hb]) hbf
    · rcases List.mem_cons.mp hb with rfl | hb
      · exact hkey ▸ hc.keyed it (by simp) (hfree hbf)
      · exact hc.keyed b (by simp [hb]) hbf
  ordered := by
    have hname : it'.name = it.name := by
      simp [HItem.name, HItem.keyPtr, hkey, hklen]
    obtain ⟨hpre, hpost, hcross⟩ := List.pairwise_append.mp hc.ordered
    refine List.pairwise_append.mpr ⟨hpre, List.pairwise_cons.mpr
      ⟨fun b hb haf hbk => ?_, (List.pairwise_cons.mp hpost).2⟩,
      fun a ha b hb haf hbk => ?_⟩
    · rw [hname]
      exact (List.pairwise_cons.mp hpost).1 b hb (hfree haf) hbk
    · rcases List.mem_cons.mp hb with rfl | hb
      · rw [hname]
        exact hcross a ha it (by simp) haf (hkey ▸ hbk)
      · exact hcross a ha b (List.mem_cons_of_mem _ hb) haf hbk

end ChainOk

/-! ## Tables in order -/

structure TableOk (ht : Htab V) : Prop where
  size : ht.realsize = hsize ht.logsize
  mask : ht.mask = hmask ht.logsize
  chains : ∀ h < ht.realsize, ChainOk ht.realsize h (ht.table h)

namespace TableOk

variable {ht : Htab V} {chain : List (HItem V)} {h : Nat}

theorem realsize_pos (hok : TableOk ht) : 0 < ht.realsize := by
  rw [hok.size, hsize, Nat.one_shiftLeft]
  exact Nat.two_pow_pos _

theorem slot_lt (hok : TableOk ht) (name : Bytes) :
    slot ht.realsize name < ht.realsize := Nat.mod_lt _ hok.realsize_pos

theorem setChain (hok : TableOk ht)
    (hchain : h < ht.realsize → ChainOk ht.realsize h chain) :
    TableOk (ht.setChain h chain) where
  size := hok.size
  mask := hok.mask
  chains := by
    intro i hi
    by_cases hih : i = h
    · subst hih
      rw [Htab.setChain_table_self]
      exact hchain hi
    · rw [Htab.setChain_table_of_ne ht chain hih]
      exact hok.chains i hi

/-- The order survives from the chains to the list of all items. -/
theorem items_ordered (hok : TableOk ht) :
    ht.items.Pairwise fun a b =>
      a.free = false → b.key ≠ none → ¬ Clash ht.realsize a.name b.name := by
  rw [Htab.items, List.pairwise_flatMap]
  constructor
  · intro i hi
    refine (hok.chains i (List.mem_range.mp hi)).ordered.imp ?_
    exact fun hab ha hb hclash => hab ha hb hclash.2
  · refine List.nodup_range.imp_of_mem fun {i j} hi hj hij a ha b hb haf hbk => ?_
    have hci := hok.chains i (List.mem_range.mp hi)
    have hcj := hok.chains j (List.mem_range.mp hj)
    intro hclash
    have hslot := hclash.1
    rw [(hci.placed a ha (hci.keyed a ha haf)).2, (hcj.placed b hb hbk).2] at hslot
    exact hij hslot

theorem placed (hok : TableOk ht) {it : HItem V} (hit : it ∈ ht.items)
    (hkey : it.key ≠ none) :
    it.Keyed ∧ it ∈ ht.table (slot ht.realsize it.name) := by
  obtain ⟨h, hh, hmem⟩ := Htab.mem_items.mp hit
  have hp := (hok.chains h hh).placed it hmem hkey
  exact ⟨hp.1, hp.2 ▸ hmem⟩

theorem keyed (hok : TableOk ht) {it : HItem V} (hit : it ∈ ht.items)
    (hfree : it.free = false) : it.key ≠ none := by
  obtain ⟨h, hh, hmem⟩ := Htab.mem_items.mp hit
  exact (hok.chains h hh).keyed it hmem hfree

/-- No two live entries clash. -/
theorem live_apart (hok : TableOk ht) {x : Bytes × V} {rest : Multiset (Bytes × V)}
    (h : ht.live = x ::ₘ rest) : ∀ y ∈ rest, ¬ Clash ht.realsize x.1 y.1 := by
  obtain ⟨l, rfl⟩ := Quot.exists_rep rest
  rw [Htab.live, live_coe] at h
  have hperm : (ht.items.filterMap liveEntry).Perm (x :: l) := Multiset.coe_eq_coe.mp h
  have hpair : (ht.items.filterMap liveEntry).Pairwise fun a b =>
      ¬ Clash ht.realsize a.1 b.1 := by
    rw [List.pairwise_filterMap]
    refine hok.items_ordered.imp_of_mem fun {a b} _ hb hab x hx y hy => ?_
    obtain ⟨ha, rfl⟩ := liveEntry_eq_some.mp hx
    obtain ⟨hb', rfl⟩ := liveEntry_eq_some.mp hy
    exact hab ha (hok.keyed hb hb')
  rw [hperm.pairwise_iff fun h hclash => h ⟨hclash.1.symm, hclash.2.symm⟩] at hpair
  exact fun y hy => List.rel_of_pairwise_cons hpair (Multiset.mem_coe.mp hy)

end TableOk

end Lightcache.Hashtab
