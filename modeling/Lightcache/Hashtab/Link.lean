import Lightcache.Hashtab.Insert
import Mathlib.Tactic.Abel
import Mathlib.Algebra.Order.Group.Multiset

/-!
# The linking half of `hset`

`Linked` is what a successful `hset` achieves, with or without growth, and
`Refused` what an early allocation failure leaves: the same live entries over
blocks that are all in use.  Both are stated with a frame `F` of blocks that
belong to somebody else.
-/

namespace Lightcache.Hashtab

open Lightcache Lightcache.Foundation

variable {V σ : Type} {A : Allocator σ Addr}

structure Linked (A : Allocator σ Addr) (ht : Htab V) (name : Bytes) (val : V)
    (F : Multiset Addr) (ht' : Htab V) (m' : σ) : Prop where
  ok : TableOk ht'
  owns : A.Owns m' (ht'.blocks + F)
  live : ht'.live = (name, val) ::ₘ ht.live
  leftover : ht'.leftover ≤ ht.leftover
  keyed : ht.AllKeyed → ht'.AllKeyed
  hcount : hcount ht' = hcount ht + 1
  addr : ht'.addr = ht.addr
  size : ht.realsize ∣ ht'.realsize
  items_le : ht'.items.length ≤ ht.items.length + 1
  fresh : ∀ e ∈ ht.live, ¬ Clash ht.realsize e.1 name

structure Refused (A : Allocator σ Addr) (ht : Htab V) (F : Multiset Addr)
    (ht' : Htab V) (m' : σ) : Prop where
  ok : TableOk ht'
  owns : A.Owns m' (ht'.blocks + F)
  live : ht'.live = ht.live
  leftover : ht'.leftover = ht.leftover
  hcount : hcount ht' = hcount ht
  addr : ht'.addr = ht.addr
  size : ht'.realsize = ht.realsize

namespace Htab

variable {ht : Htab V} {it it' : HItem V} {rest : Multiset (HItem V)}

theorem blocks_of_items (h : (↑ht.items : Multiset (HItem V)) = it ::ₘ rest) :
    ht.blocks = it.blocks + ({ht.addr} + {ht.tableAddr} + itemBlocks rest) := by
  rw [blocks, h, itemBlocks_cons]
  abel

theorem live_of_items (h : (↑ht.items : Multiset (HItem V)) = it ::ₘ rest) :
    ht.live = (if it.free then 0 else {(it.name, it.val)}) + Hashtab.live rest := by
  rw [live, h, live_cons]

theorem leftover_of_items (h : (↑ht.items : Multiset (HItem V)) = it ::ₘ rest) :
    ht.leftover = (if it.free then {it.val} else 0) + Hashtab.leftover rest := by
  rw [leftover, h, leftover_cons]

theorem allKeyed_of_items (h : (↑ht.items : Multiset (HItem V)) = it ::ₘ rest) :
    ht.AllKeyed ↔ it.key ≠ none ∧ ∀ b ∈ rest, b.key ≠ none := by
  have hmem : ∀ b, b ∈ ht.items ↔ b = it ∨ b ∈ rest := fun b => by
    rw [← Multiset.mem_coe, h, Multiset.mem_cons]
  simp [AllKeyed, hmem]

end Htab

/-- The chain items once `name` is linked: a recyclable one of its bucket is used again. -/
def Htab.itemsWith (ht : Htab V) (name : Bytes) : Nat :=
  if (ht.table (slot ht.realsize name)).any HItem.free then ht.items.length
  else ht.items.length + 1

theorem TableOk.counters {ht : Htab V} (hok : TableOk ht) (count freecount : Int) :
    TableOk { ht with count := count, freecount := freecount } :=
  ⟨hok.size, hok.mask, hok.chains⟩

/-- A key cannot both be live and be rejected by every live item of its chain. -/
theorem not_clash_of_chain {ht : Htab V} (hok : TableOk ht) {name : Bytes}
    (hnone : ∀ it ∈ ht.table (slot ht.realsize name), it.free = false →
      it.cname ≠ some (cstr name)) :
    ∀ e ∈ ht.live, ¬ Clash ht.realsize e.1 name := by
  rintro e he ⟨hslot, hcstr⟩
  obtain ⟨it, hit, hfree, rfl⟩ := mem_live.mp he
  have hitem := Multiset.mem_coe.mp hit
  have hmem := (hok.placed hitem (hok.keyed hitem hfree)).2
  rw [hslot] at hmem
  refine hnone it hmem hfree ?_
  rw [(hok.chains _ (hok.slot_lt name)).cname_eq hmem hfree, hcstr]

section Link

variable {ht : Htab V} {m : σ} {F : Multiset Addr} {name rest : Bytes} {val : V}

/-- The key buffer after `memcpy` of the key and its NUL. -/
theorem memcpy_key {dst : Bytes} (h : name.length + 1 ≤ dst.length) :
    memcpy dst (some (name ++ 0 :: rest)) (name.length + 1) =
      .ok (name ++ 0 :: dst.drop (name.length + 1)) := by
  have := memcpy_prefix _ (name ++ [0]) rest
    (show (name ++ [0]).length ≤ dst.length by simpa using h)
  simpa using this

/-- A table with the new live item `it` beside the items `s` of the old one. -/
theorem Linked.of_items {ht' : Htab V} {m' : σ} {it : HItem V}
    {s : Multiset (HItem V)} {tail : Bytes} (hok' : TableOk ht')
    (hitems : (↑ht'.items : Multiset (HItem V)) = it ::ₘ s)
    (hptr : it.keyPtr = some (name ++ 0 :: tail))
    (hklen : it.klen = name.length) (hval : it.val = val)
    (hfree : it.free = false) (hlive : Hashtab.live s = ht.live)
    (hleft : Hashtab.leftover s ≤ ht.leftover)
    (hsub : s ≤ (↑ht.items : Multiset (HItem V)))
    (hcount : Hashtab.hcount ht' = Hashtab.hcount ht + 1)
    (haddr : ht'.addr = ht.addr) (hsize : ht'.realsize = ht.realsize)
    (hfresh : ∀ e ∈ ht.live, ¬ Clash ht.realsize e.1 name)
    (hown : A.Owns m'
      (it.blocks + ({ht'.addr} + {ht'.tableAddr} + itemBlocks s) + F)) :
    Linked A ht name val F ht' m' where
  ok := hok'
  owns := by rwa [Htab.blocks_of_items hitems]
  live := by
    rw [Htab.live_of_items hitems, hfree, hlive, hval,
      HItem.name_of_keyPtr hptr hklen]
    rfl
  leftover := by
    rw [Htab.leftover_of_items hitems, hfree]
    simpa using hleft
  keyed := fun hall => by
    rw [Htab.allKeyed_of_items hitems]
    exact ⟨fun h => by simp [HItem.keyPtr, h] at hptr, fun b hb =>
      hall b (Multiset.mem_coe.mp (Multiset.mem_of_le hsub hb))⟩
  hcount := hcount
  addr := haddr
  size := hsize ▸ dvd_rfl
  items_le := by
    have hcard := congrArg Multiset.card hitems
    rw [Multiset.coe_card, Multiset.card_cons] at hcard
    exact hcard ▸ Nat.succ_le_succ (Multiset.card_le_card hsub)
  fresh := hfresh

theorem addFront_post (hok : TableOk ht) (hown : A.Owns m (ht.blocks + F))
    (hlive : ∀ it ∈ ht.table (slot ht.realsize name), it.free = false)
    (hnone : ∀ it ∈ ht.table (slot ht.realsize name), it.free = false →
      it.cname ≠ some (cstr name)) :
    Post (addFront A ht (slot ht.realsize name) (some (name ++ 0 :: rest))
        name.length val m)
      (fun r => match r with
        | (.hsuccess, ht', m') => Linked A ht name val F ht' m' ∧
            ht'.realsize = ht.realsize ∧ ht'.items.length = ht.itemsWith name
        | (.herror, ht', m') => Refused A ht F ht' m'
        | (.hexists, _, _) => False)
      (fun _ => False) := by
  rw [addFront]
  rcases hitem : liMalloc A m sizeofHitem with ⟨_ | addr, m₁⟩
  · exact ⟨hok, Owns.liMalloc_none hown hitem, rfl, rfl, rfl, rfl, rfl⟩
  have hown₁ := Owns.liMalloc hown hitem
  dsimp only
  rcases hkey : liMalloc A m₁ (name.length + 1) with ⟨_ | a, m₂⟩
  · -- the item is given back
    have hown₂ : A.Owns m₂ (ptrBlocks (some addr) + (ht.blocks + F)) := by
      simpa using Owns.liMalloc_none hown₁ hkey
    obtain ⟨m₃, hfree, hown₃⟩ := Owns.liFree hown₂
    dsimp only
    rw [hfree]
    exact ⟨hok, hown₃, rfl, rfl, rfl, rfl, rfl⟩
  have hown₂ := Owns.liMalloc hown₁ hkey
  dsimp only
  rw [memcpy_key (by simp), ok_bind]
  generalize List.drop (name.length + 1)
    (List.replicate (name.length + 1) (0 : UInt8)) = tail
  obtain ⟨it, hit⟩ : ∃ it : HItem V,
      it = ⟨addr, some ⟨a, name ++ 0 :: tail⟩, name.length, val, false⟩ := ⟨_, rfl⟩
  have hptr : it.keyPtr = some (name ++ 0 :: tail) := by rw [hit]; rfl
  have hklen : it.klen = name.length := by rw [hit]
  have hname : it.name = name := HItem.name_of_keyPtr hptr hklen
  have hblocks : it.blocks = {a} + {addr} := by
    rw [hit]
    exact add_comm _ _
  have hitems := Htab.coe_items_addFront (hok.slot_lt name) it
  change Linked A ht name val F
    { ht.setChain (slot ht.realsize name) (⟨_, _, _, _, _⟩ :: _) with
      count := ht.count + 1 } m₂ ∧ ht.realsize = ht.realsize ∧
    (ht.setChain (slot ht.realsize name) (⟨_, _, _, _, _⟩ :: _)).items.length = _
  rw [← hit]
  refine ⟨Linked.of_items ?_ hitems hptr hklen (by rw [hit])
    (by rw [hit]) rfl le_rfl le_rfl ?_ rfl rfl
    (not_clash_of_chain hok hnone) ?_, rfl, ?_⟩
  · refine (TableOk.setChain hok fun hh => ?_).counters _ _
    refine (hok.chains _ hh).cons (HItem.keyed_of_keyPtr hptr hklen)
      (by rw [hname]) hlive fun b hb hbf => ?_
    rw [hname]
    exact hnone b hb hbf
  · change ht.count + 1 - ht.freecount = ht.count - ht.freecount + 1
    omega
  · refine hown₂.congr ?_
    simp only [hblocks, Htab.blocks, Htab.setChain]
    abel
  · have hnofree : (ht.table (slot ht.realsize name)).any HItem.free = false := by
      rw [List.any_eq_false]
      exact fun b hb => by simp [hlive b hb]
    rw [Htab.itemsWith, hnofree, if_neg (by simp), ← Multiset.coe_card, hitems,
      Multiset.card_cons, Multiset.coe_card]

/-- A free item that takes over a key no live item of its chain has. -/
theorem tableOk_recycle (hok : TableOk ht) {pre post : List (HItem V)}
    {it it' : HItem V} {tail : Bytes}
    (hchain : ht.table (slot ht.realsize name) = pre ++ it :: post)
    (hlast : ∀ b ∈ post, b.free = false)
    (hnone : ∀ it ∈ ht.table (slot ht.realsize name), it.free = false →
      it.cname ≠ some (cstr name))
    (hptr : it'.keyPtr = some (name ++ 0 :: tail))
    (hklen : it'.klen = name.length) :
    TableOk (ht.setChain (slot ht.realsize name) (pre ++ it' :: post)) := by
  have hname : it'.name = name := HItem.name_of_keyPtr hptr hklen
  refine hok.setChain fun hh => ?_
  refine ChainOk.replace (hchain ▸ hok.chains _ hh) (fun _ => ?_) (fun _ h => ?_)
    (fun b hb hbf _ => ?_) fun _ => hlast
  · exact ⟨HItem.keyed_of_keyPtr hptr hklen, by rw [hname]⟩
  · simp [HItem.keyPtr, h] at hptr
  · rw [hname]
    exact hnone b (hchain ▸ hb) hbf

theorem recycle_post (hok : TableOk ht) (hown : A.Owns m (ht.blocks + F))
    {pre post : List (HItem V)} {old : HItem V}
    (hchain : ht.table (slot ht.realsize name) = pre ++ old :: post)
    (hfree : old.free = true) (hkey : old.key ≠ none)
    (hlast : ∀ b ∈ post, b.free = false)
    (hnone : ∀ it ∈ ht.table (slot ht.realsize name), it.free = false →
      it.cname ≠ some (cstr name)) :
    Post (recycle A ht (slot ht.realsize name) (pre.length, old)
        (some (name ++ 0 :: rest)) name.length val m)
      (fun r => match r with
        | (.hsuccess, ht', m') => Linked A ht name val F ht' m' ∧
            ht'.realsize = ht.realsize ∧ ht'.items.length = ht.itemsWith name
        | (.herror, ht', m') => Refused A ht F ht' m'
        | (.hexists, _, _) => False)
      (fun _ => False) := by
  obtain ⟨s, hold, hnew⟩ := Htab.coe_items_replace (hok.slot_lt name) hchain
  have hlive : Hashtab.live s = ht.live := by simp [Htab.live_of_items hold, hfree]
  have hleft : Hashtab.leftover s ≤ ht.leftover := by
    rw [Htab.leftover_of_items hold]
    exact Multiset.le_add_left _ _
  have hsub : s ≤ (↑ht.items : Multiset (HItem V)) := by
    rw [hold]
    exact Multiset.le_cons_self s old
  have hmodify : ∀ f : HItem V → HItem V,
      ht.modify ⟨slot ht.realsize name, pre.length⟩ f =
        ht.setChain (slot ht.realsize name) (pre ++ f old :: post) := fun f => by
    rw [Htab.modify, hchain, modify_append_cons]
  rw [Htab.blocks_of_items hold] at hown
  have hlength : ∀ it, (ht.setChain (slot ht.realsize name)
      (pre ++ it :: post)).items.length = ht.itemsWith name := fun it => by
    rw [Htab.itemsWith, if_pos (by simp [hchain, hfree]), ← Multiset.coe_card, hnew it,
      ← Multiset.coe_card, hold, Multiset.card_cons, Multiset.card_cons]
  -- both ways to get a key buffer end in the same state
  have hlinked : ∀ (buf : KeyBuf) (tail : Bytes) (m' : σ),
      buf.bytes = name ++ 0 :: tail →
      A.Owns m' ({buf.addr} + {old.addr} +
        ({ht.addr} + {ht.tableAddr} + itemBlocks s) + F) →
      Linked A ht name val F
        { ht.modify ⟨slot ht.realsize name, pre.length⟩ (fun _ =>
            { old with
              key := some buf, klen := name.length, val := val, free := false })
          with freecount := ht.freecount - 1 } m' := by
    intro buf tail m' hbuf hown'
    rw [hmodify]
    obtain ⟨it, hit⟩ : ∃ it : HItem V, it =
        { old with
          key := some buf, klen := name.length, val := val, free := false } :=
      ⟨_, rfl⟩
    have hptr : it.keyPtr = some (name ++ 0 :: tail) := by
      rw [hit, ← hbuf]; rfl
    have hklen : it.klen = name.length := by rw [hit]
    rw [← hit]
    refine Linked.of_items ?_ (hnew it) hptr hklen (by rw [hit])
      (by rw [hit]) hlive hleft hsub ?_ rfl rfl (not_clash_of_chain hok hnone) ?_
    · exact (tableOk_recycle hok hchain hlast hnone hptr hklen).counters _ _
    · change ht.count - (ht.freecount - 1) = ht.count - ht.freecount + 1
      omega
    · have hblocks : it.blocks = {buf.addr} + {old.addr} := by
        rw [hit]
        exact add_comm _ _
      rw [hblocks]
      exact hown'
  rw [recycle]
  dsimp only
  by_cases hshort : old.klen < name.length + 1
  · rw [if_pos hshort]
    obtain ⟨m₁, hm₁, hown₁⟩ := Owns.liFree (A := A) (m := m) (p := old.keyAddr)
      (M := {old.addr} + ({ht.addr} + {ht.tableAddr} + itemBlocks s) + F)
      (hown.congr (by
        rw [HItem.blocks]; abel))
    rw [hm₁, ok_bind]
    rcases hmalloc : liMalloc A m₁ (name.length + 1) with ⟨_ | a, m₂⟩
    · -- the recyclable item has lost its key buffer
      dsimp only
      rw [hmodify]
      have hitems := hnew { old with key := none }
      refine ⟨?_, ?_, ?_, ?_, rfl, rfl, rfl⟩
      · refine hok.setChain fun hh => ?_
        exact ChainOk.replace (hchain ▸ hok.chains _ hh) (by simp)
          (by simp [hfree]) (by simp) (by simp [hfree])
      · rw [Htab.blocks_of_items hitems]
        refine (Owns.liMalloc_none hown₁ hmalloc).congr ?_
        rfl
      · rw [Htab.live_of_items hitems, hlive]
        simp [hfree]
      · rw [Htab.leftover_of_items hitems, Htab.leftover_of_items hold]
    · dsimp only
      rw [memcpy_key (by simp), ok_bind]
      refine ⟨hlinked _ _ m₂ rfl ?_, rfl, hmodify _ ▸ hlength _⟩
      refine (Owns.liMalloc hown₁ hmalloc).congr ?_
      abel
  · rw [if_neg hshort]
    obtain ⟨buf, hbuf⟩ := Option.ne_none_iff_exists'.mp hkey
    have hmem : old ∈ ht.table (slot ht.realsize name) := by simp [hchain]
    obtain ⟨tail, hptr, hlen⟩ :=
      ((hok.chains _ (hok.slot_lt name)).placed old hmem hkey).1
    have hcap : name.length + 1 ≤ buf.bytes.length := by
      have : buf.bytes = old.name ++ 0 :: tail := by
        simpa [HItem.keyPtr, hbuf] using hptr
      rw [this]
      simp
      omega
    simp only [hbuf]
    rw [memcpy_key hcap, ok_bind]
    refine ⟨hlinked _ _ m rfl ?_, rfl, hmodify _ ▸ hlength _⟩
    refine hown.congr ?_
    simp only [HItem.blocks, HItem.keyAddr, hbuf, Option.map_some, ptrBlocks_some]
    abel

/-- `hset` up to the load test. -/
theorem hsetLink_post (name : Bytes) (val : V) (rest : Bytes) (hok : TableOk ht)
    (hown : A.Owns m (ht.blocks + F)) :
    Post (hsetLink A ht (some (name ++ 0 :: rest)) name.length val m)
      (fun r => match r with
        | (.hsuccess, ht', m') => Linked A ht name val F ht' m' ∧
            ht'.realsize = ht.realsize ∧ ht'.items.length = ht.itemsWith name
        | (.herror, ht', m') => Refused A ht F ht' m'
        | (.hexists, ht', m') => ht' = ht ∧ m' = m ∧
            ∃ e ∈ ht.live, Clash ht.realsize e.1 name)
      (fun f => f = .nullItemKey ∧ ¬ ht.AllKeyed) := by
  have hslot := hok.slot_lt name
  have hchain := hok.chains _ hslot
  rw [hsetLink, hhash_eq hok, ok_bind]
  refine ((hsetScan_post (name ++ 0 :: rest) _ 0 none).mono (fun r hr => hr)
    fun f hf => ?_).bind fun r hr => ?_
  · obtain ⟨rfl, it, hit, hnone⟩ := hf
    exact ⟨rfl, fun hall => hall it (Htab.mem_items.mpr ⟨_, hslot, hit⟩) hnone⟩
  rw [cstr_append_nul] at hr
  cases r with
  | taken =>
      obtain ⟨it, hit, hfree, hname⟩ := hr
      have hitem := Htab.mem_items.mpr ⟨_, hslot, hit⟩
      refine ⟨rfl, rfl, _, mem_live.mpr ⟨it, hitem, hfree, rfl⟩, ?_, ?_⟩
      · exact (hchain.placed it hit (hchain.keyed it hit hfree)).2
      · rw [hchain.cname_eq hit hfree] at hname
        exact Option.some.inj hname
  | vacant new =>
      obtain ⟨hkeyed, hnone, ⟨rfl, hlive⟩ | ⟨pre, old, post, heq, hfree, hlast, rfl⟩⟩ := hr
      · exact (addFront_post hok hown hlive hnone).mono
          (fun r hr => by rcases r with ⟨_ | _ | _, _, _⟩ <;> first | exact hr | exact hr.elim)
          (fun _ => False.elim)
      · simp only [Nat.zero_add]
        exact (recycle_post hok hown heq hfree (hkeyed old (by simp [heq])) hlast
            hnone).mono
          (fun r hr => by rcases r with ⟨_ | _ | _, _, _⟩ <;> first | exact hr | exact hr.elim)
          (fun _ => False.elim)

end Link

end Lightcache.Hashtab
