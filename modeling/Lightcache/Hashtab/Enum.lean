import Lightcache.Hashtab.Link

/-!
# Enumeration

The invariant rule of `henum`.  An invariant speaks about the items already
passed and those still to come; the callback moves one item from the second to
the first, and may only release it or write its value.
-/

namespace Lightcache.Hashtab

open Lightcache Lightcache.Foundation

variable {V S : Type}

/-! ## What a callback may do to an item -/

structure Gentle (it it' : HItem V) : Prop where
  addr : it'.addr = it.addr
  key : it'.key = it.key
  klen : it'.klen = it.klen
  free : it'.free = false → it.free = false

namespace Gentle

variable {it it' : HItem V}

theorem refl (it : HItem V) : Gentle it it := ⟨rfl, rfl, rfl, id⟩

theorem keyPtr (h : Gentle it it') : it'.keyPtr = it.keyPtr := by
  simp [HItem.keyPtr, h.key]

theorem name (h : Gentle it it') : it'.name = it.name := by
  simp [HItem.name, h.keyPtr, h.klen]

theorem keyed (h : Gentle it it') (hk : it.Keyed) : it'.Keyed := by
  simpa [HItem.Keyed, h.keyPtr, h.name, h.klen] using hk

theorem blocks (h : Gentle it it') : it'.blocks = it.blocks := by
  simp [HItem.blocks, HItem.keyAddr, h.key, h.addr]

end Gentle

theorem gentle_same (chain : List (HItem V)) : List.Forall₂ Gentle chain chain :=
  List.forall₂_same.mpr fun it _ => .refl it

theorem exists_gentle {chain chain' : List (HItem V)}
    (hrel : List.Forall₂ Gentle chain chain') {it' : HItem V}
    (hmem : it' ∈ chain') : ∃ it ∈ chain, Gentle it it' := by
  induction hrel with
  | nil => simp at hmem
  | @cons it _ rest rest' hit hrest ih =>
      rcases List.mem_cons.mp hmem with rfl | hmem
      · exact ⟨it, by simp, hit⟩
      · obtain ⟨b, hb, hgentle⟩ := ih hmem
        exact ⟨b, List.mem_cons_of_mem _ hb, hgentle⟩

theorem ChainOk.gentle {n h : Nat} {chain chain' : List (HItem V)}
    (hc : ChainOk n h chain) (hrel : List.Forall₂ Gentle chain chain') :
    ChainOk n h chain' where
  placed := by
    intro it' hmem hkey
    obtain ⟨it, hit, hgentle⟩ := exists_gentle hrel hmem
    have hp := hc.placed it hit (hgentle.key ▸ hkey)
    exact ⟨hgentle.keyed hp.1, hgentle.name ▸ hp.2⟩
  keyed := by
    intro it' hmem hfree
    obtain ⟨it, hit, hgentle⟩ := exists_gentle hrel hmem
    exact hgentle.key ▸ hc.keyed it hit (hgentle.free hfree)
  ordered := by
    have hord := hc.ordered
    clear hc
    induction hrel with
    | nil => exact .nil
    | @cons it it' rest rest' hit hrest ih =>
        obtain ⟨hhead, htail⟩ := List.pairwise_cons.mp hord
        refine List.pairwise_cons.mpr ⟨fun b' hb' hfree hkey => ?_, ih htail⟩
        obtain ⟨b, hb, hgentle⟩ := exists_gentle hrest hb'
        rw [hit.name, hgentle.name]
        exact hhead b hb (hit.free hfree) (hgentle.key ▸ hkey)

/-! ## The invariant rule -/

/--
`I done todo freecount s` is kept when the walk passes one more item, and `R`
relates the item before and after.
-/
structure EnumInv (fn : EnumFn V S) (enumFree : Bool)
    (R : HItem V → HItem V → Prop)
    (I : Multiset (HItem V) → Multiset (HItem V) → Int → S → Prop)
    (E : Fault → Prop) : Prop where
  gentle : ∀ {p p'}, R p p' → Gentle p p'
  refl : ∀ p, R p p
  visit : ∀ {done p todo fc s}, I done (p ::ₘ todo) fc s →
    (!p.free || enumFree) = true →
    Post (fn p fc s)
      (fun r => r.2.2.2 = false ∧ R p r.1 ∧
        I (r.1 ::ₘ done) todo r.2.1 r.2.2.1) E
  skip : ∀ {done p todo fc s}, I done (p ::ₘ todo) fc s →
    (!p.free || enumFree) = false → I (p ::ₘ done) todo fc s

variable {fn : EnumFn V S} {enumFree : Bool} {R : HItem V → HItem V → Prop}
  {I : Multiset (HItem V) → Multiset (HItem V) → Int → S → Prop}
  {E : Fault → Prop}

theorem henumChain_post (hinv : EnumInv fn enumFree R I E)
    {chain : List (HItem V)} {done todo : Multiset (HItem V)} {fc : Int} {s : S}
    (hI : I done ((↑chain : Multiset (HItem V)) + todo) fc s) :
    Post (henumChain fn enumFree chain fc s)
      (fun r => r.2.2.2 = false ∧ List.Forall₂ R chain r.1 ∧
        I ((↑r.1 : Multiset (HItem V)) + done) todo r.2.1 r.2.2.1) E := by
  induction chain generalizing done fc s with
  | nil => exact ⟨rfl, .nil, by simpa using hI⟩
  | cons p rest ih =>
      rw [← Multiset.cons_coe, Multiset.cons_add] at hI
      have hrest : ∀ {p' : HItem V} {fc : Int} {s : S}, R p p' →
          I (p' ::ₘ done) (↑rest + todo) fc s →
          Post (henumChain fn enumFree rest fc s >>= fun r => pure (p' :: r.1, r.2))
            (fun r => r.2.2.2 = false ∧ List.Forall₂ R (p :: rest) r.1 ∧
              I ((↑r.1 : Multiset (HItem V)) + done) todo r.2.1 r.2.2.1) E := by
        intro p' fc s hgentle hI'
        refine (ih hI').bind fun x hr => ?_
        obtain ⟨rest', fc', s', stop⟩ := x
        refine ⟨hr.1, .cons hgentle hr.2.1, ?_⟩
        have hlast := hr.2.2
        rwa [Multiset.add_cons, ← Multiset.cons_add, Multiset.cons_coe] at hlast
      rw [henumChain]
      cases hvisit : (!p.free || enumFree) with
      | true =>
          rw [if_pos rfl]
          refine (hinv.visit hI hvisit).bind fun x hr => ?_
          obtain ⟨p', fc', s', rc⟩ := x
          obtain ⟨hrc, hgentle, hI'⟩ := hr
          dsimp only at hrc hgentle hI' ⊢
          rw [hrc, if_neg (by simp)]
          exact hrest hgentle hI'
      | false =>
          rw [if_neg (by simp)]
          exact hrest (hinv.refl p) (hinv.skip hI hvisit)

/-- The items of some buckets. -/
def Htab.within (ht : Htab V) (buckets : List Nat) : Multiset (HItem V) :=
  (buckets.map fun i => (↑(ht.table i) : Multiset (HItem V))).sum

theorem Htab.within_congr {ht ht' : Htab V} {buckets : List Nat}
    (h : ∀ i ∈ buckets, ht'.table i = ht.table i) :
    ht'.within buckets = ht.within buckets := by
  rw [within, within, List.map_congr_left fun i hi => by rw [h i hi]]

theorem Htab.within_range (ht : Htab V) :
    ht.within (List.range ht.realsize) = (↑ht.items : Multiset (HItem V)) := by
  rw [coe_items, within]
  exact (Multiset.sum_coe _).symm

/-- The walk writes to the chains and to `freecount` only. -/
structure Htab.SameFrame (ht ht' : Htab V) : Prop where
  addr : ht'.addr = ht.addr
  tableAddr : ht'.tableAddr = ht.tableAddr
  realsize : ht'.realsize = ht.realsize
  logsize : ht'.logsize = ht.logsize
  mask : ht'.mask = ht.mask
  count : ht'.count = ht.count

namespace Htab.SameFrame

variable {ht ht₁ ht₂ : Htab V}

theorem refl (ht : Htab V) : SameFrame ht ht := ⟨rfl, rfl, rfl, rfl, rfl, rfl⟩

theorem trans (h₁ : SameFrame ht ht₁) (h₂ : SameFrame ht₁ ht₂) :
    SameFrame ht ht₂ :=
  ⟨h₂.addr.trans h₁.addr, h₂.tableAddr.trans h₁.tableAddr,
    h₂.realsize.trans h₁.realsize, h₂.logsize.trans h₁.logsize,
    h₂.mask.trans h₁.mask, h₂.count.trans h₁.count⟩

end Htab.SameFrame

theorem henumBuckets_post (hinv : EnumInv fn enumFree R I E)
    {buckets : List Nat} (hnodup : buckets.Nodup) {ht : Htab V}
    (hok : TableOk ht) {done : Multiset (HItem V)} {s : S}
    (hI : I done (ht.within buckets) ht.freecount s) :
    Post (henumBuckets fn enumFree buckets ht s)
      (fun r => TableOk r.1 ∧ Htab.SameFrame ht r.1 ∧
        (∀ i, List.Forall₂ R (ht.table i) (r.1.table i)) ∧
        (∀ i ∉ buckets, r.1.table i = ht.table i) ∧
        I (r.1.within buckets + done) 0 r.1.freecount r.2) E := by
  induction buckets generalizing ht done s with
  | nil => exact ⟨hok, .refl ht, fun i => List.forall₂_same.mpr fun it _ => hinv.refl it,
      fun _ _ => rfl, by simpa [Htab.within] using hI⟩
  | cons i rest ih =>
      obtain ⟨hi, hrest⟩ := List.nodup_cons.mp hnodup
      rw [henumBuckets]
      refine (henumChain_post hinv hI).bind fun ⟨chain, fc, s', stop⟩ hr => ?_
      obtain ⟨hstop, hgentle, hI'⟩ := hr
      dsimp only at hstop hgentle hI' ⊢
      rw [hstop, if_neg (by simp)]
      obtain ⟨ht₁, hht₁⟩ : ∃ ht₁, ht₁ = { ht.setChain i chain with freecount := fc } :=
        ⟨_, rfl⟩
      have hok₁ : TableOk ht₁ := hht₁ ▸
        (hok.setChain fun hh => (hok.chains i hh).gentle
          (hgentle.imp fun _ _ => hinv.gentle)).counters _ _
      have hframe₁ : Htab.SameFrame ht ht₁ := hht₁ ▸ ⟨rfl, rfl, rfl, rfl, rfl, rfl⟩
      have hchain : ht₁.table i = chain := by
        rw [hht₁]
        exact Htab.setChain_table_self ht i chain
      have hsame : ∀ j, j ≠ i → ht₁.table j = ht.table j := fun j hj => by
        rw [hht₁]
        exact Htab.setChain_table_of_ne ht chain hj
      have hwithin : ht₁.within rest = ht.within rest :=
        Htab.within_congr fun j hj => hsame j fun h => hi (h ▸ hj)
      rw [← hht₁]
      have hfc : ht₁.freecount = fc := by rw [hht₁]
      refine (ih hrest hok₁ (by rw [hwithin, hfc]; exact hI')).imp fun r h => ?_
      obtain ⟨hok', hframe, hrel, hother, hI''⟩ := h
      refine ⟨hok', hframe₁.trans hframe, fun j => ?_, fun j hj => ?_, ?_⟩
      · by_cases hj : j = i
        · rw [hj, hother i hi, hchain]
          exact hgentle
        · exact hsame j hj ▸ hrel j
      · rw [hother j fun h => hj (List.mem_cons_of_mem _ h)]
        exact hsame j fun h => hj (by simp [h])
      · have hsplit : r.1.within (i :: rest) =
            (↑chain : Multiset (HItem V)) + r.1.within rest := by
          rw [← hchain, ← hother i hi]
          rfl
        rw [hsplit, add_comm (↑chain : Multiset (HItem V)), add_assoc]
        exact hI''

theorem henum_post (hinv : EnumInv fn enumFree R I E) {ht : Htab V}
    (hok : TableOk ht) {s : S}
    (hI : I 0 (↑ht.items : Multiset (HItem V)) ht.freecount s) :
    Post (henum ht fn s enumFree)
      (fun r => TableOk r.1 ∧ Htab.SameFrame ht r.1 ∧
        (∀ i, List.Forall₂ R (ht.table i) (r.1.table i)) ∧
        I (↑r.1.items : Multiset (HItem V)) 0 r.1.freecount r.2) E := by
  rw [← Htab.within_range] at hI
  refine (henumBuckets_post hinv List.nodup_range hok hI).imp
    fun r ⟨hok', hframe, hrel, _, hI'⟩ => ⟨hok', hframe, hrel, ?_⟩
  rw [← Htab.within_range, hframe.realsize]
  simpa using hI'

/-! ## What stays the same -/

section Same

variable {ht ht' : Htab V}

theorem Htab.items_gentle (hsize : ht'.realsize = ht.realsize)
    (hrel : ∀ i, List.Forall₂ Gentle (ht.table i) (ht'.table i)) :
    List.Forall₂ Gentle ht.items ht'.items := by
  rw [items, items, hsize]
  induction List.range ht.realsize with
  | nil => exact .nil
  | cons i rest ih =>
      rw [List.flatMap_cons, List.flatMap_cons]
      exact List.rel_append (hrel i) ih

theorem itemBlocks_gentle {chain chain' : List (HItem V)}
    (hrel : List.Forall₂ Gentle chain chain') :
    itemBlocks (↑chain' : Multiset (HItem V)) =
      itemBlocks (↑chain : Multiset (HItem V)) := by
  induction hrel with
  | nil => rfl
  | cons hit _ ih => rw [itemBlocks_coe_cons, itemBlocks_coe_cons, hit.blocks, ih]

/-- Changes in place use the blocks the table had. -/
theorem Htab.blocks_gentle (hframe : SameFrame ht ht')
    (hrel : ∀ i, List.Forall₂ Gentle (ht.table i) (ht'.table i)) :
    ht'.blocks = ht.blocks := by
  rw [blocks, blocks, hframe.addr, hframe.tableAddr,
    itemBlocks_gentle (items_gentle hframe.realsize hrel)]

theorem Htab.allKeyed_gentle (hsize : ht'.realsize = ht.realsize)
    (hrel : ∀ i, List.Forall₂ Gentle (ht.table i) (ht'.table i))
    (hall : ht.AllKeyed) : ht'.AllKeyed := by
  intro it' hmem
  obtain ⟨it, hit, hgentle⟩ := exists_gentle (items_gentle hsize hrel) hmem
  exact hgentle.key ▸ hall it hit

end Same

end Lightcache.Hashtab
