import Lightcache.Hashtab.Refusal

/-!
# Growth

`hgrow` re-inserts every item of the old table, recyclable ones included, into
a fresh table of twice the size, and marks them free again there.  The order of
the chains makes every one of these insertions succeed: an item is never
clashing with one that went before it and is live.
-/

namespace Lightcache.Hashtab

open Lightcache Lightcache.Foundation

variable {V σ : Type} {A : Allocator σ Addr}

/-! ## Fresh tables -/

structure Fresh (logsize : Nat) (ht : Htab V) : Prop where
  ok : TableOk ht
  items : ht.items = []
  hcount : hcount ht = 0
  logsize : ht.logsize = logsize

theorem Fresh.live {n : Nat} {ht : Htab V} (h : Fresh n ht) : ht.live = 0 := by
  simp [Htab.live, h.items, Hashtab.live]

theorem Fresh.allKeyed {n : Nat} {ht : Htab V} (h : Fresh n ht) : ht.AllKeyed := by
  simp [Htab.AllKeyed, h.items]

theorem htcreate_post {m : σ} {F : Multiset Addr} (hown : A.Owns m F)
    (logsize : Nat) :
    Post (htcreate (V := V) A logsize m)
      (fun r => match r with
        | (some ht, m') => Fresh logsize ht ∧ A.Owns m' (ht.blocks + F)
        | (none, m') => A.Owns m' F)
      (fun _ => False) := by
  rw [htcreate]
  rcases hheader : liMalloc A m sizeofHtab with ⟨_ | addr, m₁⟩
  · exact Owns.liMalloc_none hown hheader
  have hown₁ := Owns.liMalloc hown hheader
  dsimp only
  rcases htable : liMalloc A m₁ (hsize logsize * sizeofPtr) with ⟨_ | tableAddr, m₂⟩
  · obtain ⟨m₃, hfree, hown₃⟩ :=
      Owns.liFree (p := some addr) (Owns.liMalloc_none hown₁ htable)
    dsimp only
    rw [hfree]
    exact hown₃
  · have hitems : ∀ n : Nat, (List.range n).flatMap
        (fun _ : Nat => ([] : List (HItem V))) = [] := fun n => by simp
    refine ⟨⟨⟨rfl, rfl, fun h _ => chainOk_nil _ h⟩, hitems _, rfl, rfl⟩, ?_⟩
    refine (Owns.liMalloc hown₁ htable).congr ?_
    simp only [Htab.blocks, Htab.items, hitems]
    change {addr} + {tableAddr} + itemBlocks 0 + F = _
    simp only [itemBlocks, Multiset.zero_bind]
    abel

/-! ## What the recursion relies on -/

def SetPost (A : Allocator σ Addr) (ht : Htab V) (name : Bytes) (val : V) (m : σ)
    (F : Multiset Addr) (refused : Prop) : HResult × Htab V × σ → Prop
  | (.hsuccess, ht', m') => Linked A ht name val F ht' m'
  | (.hexists, ht', m') =>
      ht' = ht ∧ m' = m ∧ ∃ e ∈ ht.live, Clash ht.realsize e.1 name
  | (.herror, _, _) => refused

/-- The one fault of an insertion: a key buffer that is missing. -/
def SetFault (ht : Htab V) (f : Fault) : Prop := f = .nullItemKey ∧ ¬ ht.AllKeyed

/--
`set` inserts as specified into every table with room for one more, and `fails` says
when it is refused memory: `P k ht` says that `ht` has room for `k` further insertions
at this recursion depth.
-/
structure SetFnOk (A : Allocator σ Addr) (set : SetFn σ V) (fails : FailFn σ V)
    (P : Nat → Htab V → Prop) : Prop where
  post : ∀ {k : Nat} {ht : Htab V} {m : σ} {F : Multiset Addr} (name : Bytes)
    (val : V) (rest : Bytes), P (k + 1) ht → TableOk ht →
    A.Owns m (ht.blocks + F) →
    Post (set ht (some (name ++ 0 :: rest)) name.length val m)
      (fun r => SetPost A ht name val m F
          (fails ht (some (name ++ 0 :: rest)) name.length val m = true) r ∧
        (r.1 = .hsuccess → P k r.2.1))
      (SetFault ht)
  null : ∀ {k : Nat} {ht : Htab V} {m : σ} {klen : Nat} {val : V},
    P (k + 1) ht →
    Post (set ht none klen val m)
      (fun r => r.1 = .herror ∧ fails ht none klen val m = true) (fun _ => True)
  modify : ∀ {k : Nat} {ht : Htab V} {ref : ItemRef} {it : HItem V}
    {f : HItem V → HItem V}, P k ht → ht.At ref it → P k (ht.modify ref f)

/-- The conditions under which a list of items can be re-inserted. -/
structure Movable (n : Nat) (L : List (HItem V)) : Prop where
  placed : ∀ p ∈ L, p.key ≠ none → p.Keyed
  ordered : L.Pairwise fun a b =>
    a.free = false → b.key ≠ none → ¬ Clash n a.name b.name

theorem TableOk.movable {ht : Htab V} (hok : TableOk ht) :
    Movable ht.realsize ht.items :=
  ⟨fun _ hp hkey => (hok.placed hp hkey).1, hok.items_ordered⟩

structure Moved (A : Allocator σ Addr) (L : List (HItem V)) (dummy : Htab V)
    (F : Multiset Addr) (d : Htab V) (m' : σ) : Prop where
  ok : TableOk d
  keyed : d.AllKeyed
  owns : A.Owns m' (d.blocks + F)
  live : d.live = dummy.live + Hashtab.live (↑L : Multiset (HItem V))
  leftover : d.leftover ≤
    dummy.leftover + Hashtab.leftover (↑L : Multiset (HItem V))
  hcount : hcount d = hcount dummy + L.length
  addr : d.addr = dummy.addr
  size : dummy.realsize ∣ d.realsize
  items_le : d.items.length ≤ dummy.items.length + L.length
  oldKeyed : ∀ p ∈ L, p.key ≠ none

/-- One round of the loop, once the item is in the new table. -/
theorem moved_step {p : HItem V} {dummy d₁ : Htab V} {m₁ : σ}
    {F : Multiset Addr} {rest : Bytes} (hkeyed : dummy.AllKeyed)
    (hptr : p.keyPtr = some (p.name ++ 0 :: rest))
    (hlen : p.name.length = p.klen)
    (hlinked : Linked A dummy p.name p.val (p.blocks + F) d₁ m₁) :
    ∃ ref it d₂ m₂, hget d₁ p.keyPtr p.klen = .ok (some ref) ∧ d₁.At ref it ∧
      d₂ = d₁.modify ref (fun it => { it with free := p.free }) ∧
      (∀ (set : SetFn σ V) (L : List (HItem V)), (do
        let m ← liFree A m₁ p.keyAddr
        let m ← liFree A m (some p.addr)
        moveItems A set L d₂ m) = moveItems A set L d₂ m₂) ∧
      Moved A [p] dummy F d₂ m₂ := by
  have hlive : (p.name, p.val) ∈ d₁.live := by
    rw [hlinked.live]
    exact Multiset.mem_cons_self _ _
  obtain ⟨ref, it, hget, hat, hfree, hname, hval⟩ :=
    hget_of_live hlinked.ok rest hlive
  obtain ⟨s, hold, hnew⟩ :=
    Htab.modify_items hat fun it => { it with free := p.free }
  have hlive_s : Hashtab.live s = dummy.live := by
    have := hlinked.live
    rw [Htab.live_of_items hold, hfree, hname, hval] at this
    exact (Multiset.cons_inj_right _).mp this
  have hblocks : (d₁.modify ref fun it => { it with free := p.free }).blocks =
      d₁.blocks := by
    rw [Htab.blocks_of_items hold, Htab.blocks_of_items hnew]
    rfl
  obtain ⟨m', hm', hown'⟩ := Owns.liFree (A := A) (m := m₁) (p := p.keyAddr)
    (M := {p.addr} + (d₁.blocks + F)) (hlinked.owns.congr (by
      rw [HItem.blocks]; abel))
  obtain ⟨m₂, hm₂, hown₂⟩ := Owns.liFree (p := some p.addr) hown'
  refine ⟨ref, it, _, m₂, ?_, hat, rfl,
    fun set L => by rw [hm', ok_bind, hm₂, ok_bind], ?_⟩
  · rw [hptr, ← hlen]
    exact hget
  refine ⟨hlinked.ok.modify hat rfl rfl fun _ => hfree, ?_, by rwa [hblocks], ?_, ?_,
    ?_, hlinked.addr, hlinked.size, ?_, ?_⟩
  · have hall := hlinked.keyed hkeyed
    rw [Htab.allKeyed_of_items hold] at hall
    rw [Htab.allKeyed_of_items hnew]
    exact hall
  · have hentry : (({ it with free := p.free } : HItem V).name, it.val) =
        (p.name, p.val) := Prod.ext hname hval
    rw [Htab.live_of_items hnew, hlive_s, hentry, live_coe_cons, live_nil, add_zero,
      add_comm]
  · have hle := hlinked.leftover
    rw [Htab.leftover_of_items hold, hfree] at hle
    rw [Htab.leftover_of_items hnew, hval, add_comm]
    refine add_le_add (by simpa using hle) (le_of_eq ?_)
    rw [leftover_coe_cons, leftover_nil, add_zero]
  · exact hlinked.hcount
  · have hcard : (d₁.modify ref fun it => { it with free := p.free }).items.length =
        d₁.items.length := by
      rw [← Multiset.coe_card, hnew, ← Multiset.coe_card, hold, Multiset.card_cons,
        Multiset.card_cons]
    exact hcard ▸ hlinked.items_le
  · intro q hq hnone
    rw [List.mem_singleton.mp hq] at hnone
    simp [HItem.keyPtr, hnone] at hptr

theorem Moved.trans {p : HItem V} {L : List (HItem V)} {dummy d d' : Htab V}
    {m m' : σ} {F : Multiset Addr}
    (hhead : Moved A [p] dummy (itemBlocks (↑L : Multiset (HItem V)) + F) d m)
    (htail : Moved A L d F d' m') : Moved A (p :: L) dummy F d' m' where
  ok := htail.ok
  keyed := htail.keyed
  owns := htail.owns
  live := by
    rw [htail.live, hhead.live, live_coe_cons, live_coe_cons, live_nil]
    abel
  leftover := by
    refine htail.leftover.trans ?_
    refine (add_le_add_left hhead.leftover _).trans (le_of_eq ?_)
    rw [leftover_coe_cons, leftover_coe_cons, leftover_nil]
    abel
  hcount := by
    rw [htail.hcount, hhead.hcount]
    simp
    omega
  addr := htail.addr.trans hhead.addr
  size := hhead.size.trans htail.size
  items_le := by
    refine htail.items_le.trans ((Nat.add_le_add_right hhead.items_le _).trans ?_)
    simp
    omega
  oldKeyed := by
    intro q hq
    rcases List.mem_cons.mp hq with rfl | hq
    · exact hhead.oldKeyed q (by simp)
    · exact htail.oldKeyed q hq

/-- The loop invariant of `hgrow`: `L` can be re-inserted into `dummy`. -/
structure Moving (A : Allocator σ Addr) (P : Nat → Htab V → Prop) (n : Nat)
    (L : List (HItem V)) (dummy : Htab V) (m : σ) (F : Multiset Addr) : Prop where
  movable : Movable n L
  room : P L.length dummy
  ok : TableOk dummy
  keyed : dummy.AllKeyed
  dvd : n ∣ dummy.realsize
  apart : ∀ e ∈ dummy.live, ∀ p ∈ L, p.key ≠ none → ¬ Clash n e.1 p.name
  owns : A.Owns m (dummy.blocks + (itemBlocks (↑L : Multiset (HItem V)) + F))

section Moving

variable {set : SetFn σ V} {fails : FailFn σ V} {P : Nat → Htab V → Prop} {n : Nat}
  {p : HItem V} {L : List (HItem V)} {dummy : Htab V} {m : σ} {F : Multiset Addr}

/-- One round, for any insertion that does the same with this item. -/
theorem Moving.round (h : Moving A P n (p :: L) dummy m F) (hset : SetFnOk A set fails P)
    (hkey : p.key ≠ none) :
    (∃ m', fails dummy p.keyPtr p.klen p.val m = true ∧ ∀ set' : SetFn σ V,
      set' dummy p.keyPtr p.klen p.val m = set dummy p.keyPtr p.klen p.val m →
        moveItems A set' (p :: L) dummy m = .ok (none, m')) ∨
    ∃ d m', Moving A P n L d m' F ∧
      Moved A [p] dummy (itemBlocks (↑L : Multiset (HItem V)) + F) d m' ∧
      ∀ (set' : SetFn σ V) (L' : List (HItem V)),
        set' dummy p.keyPtr p.klen p.val m = set dummy p.keyPtr p.klen p.val m →
          moveItems A set' (p :: L') dummy m = moveItems A set' L' d m' := by
  obtain ⟨rest, hptr, hlen⟩ := h.movable.placed p (by simp) hkey
  have hown : A.Owns m
      (dummy.blocks + (p.blocks + (itemBlocks (↑L : Multiset (HItem V)) + F))) := by
    have hown := h.owns
    rwa [itemBlocks_coe_cons, add_assoc] at hown
  have hpost := hset.post p.name p.val rest h.room h.ok hown
  rw [← hptr, hlen] at hpost
  rcases hrun : set dummy p.keyPtr p.klen p.val m with f | ⟨r, d₁, m₁⟩
  · rw [hrun] at hpost
    exact absurd h.keyed hpost.2
  rw [hrun] at hpost
  obtain ⟨hr, hP₁⟩ := hpost
  cases r with
  | herror =>
      refine .inl ⟨m₁, hr, fun set' heq => ?_⟩
      rw [moveItems, HItem.blame_keyed hkey, heq, ok_bind]
      rfl
  | hexists =>
      obtain ⟨-, -, e, he, hclash⟩ := hr
      exact absurd (hclash.of_dvd h.dvd) (h.apart e he p (by simp) hkey)
  | hsuccess =>
      obtain ⟨ref, it, d₂, m₂, hget, hat, hd₂, hfrees, hmoved⟩ :=
        moved_step h.keyed hptr hlen hr
      refine .inr ⟨d₂, m₂, ⟨⟨fun q hq => h.movable.placed q (List.mem_cons_of_mem _ hq),
        (List.pairwise_cons.mp h.movable.ordered).2⟩, hd₂ ▸ hset.modify (hP₁ rfl) hat,
        hmoved.ok, hmoved.keyed, h.dvd.trans hmoved.size, ?_, hmoved.owns⟩, hmoved,
        fun set' L' heq => ?_⟩
      · intro e he q hq hqk
        rw [hmoved.live, Multiset.mem_add] at he
        rcases he with he | he
        · exact h.apart e he q (List.mem_cons_of_mem _ hq) hqk
        · obtain ⟨it, hit, hfree, rfl⟩ := mem_live.mp he
          rw [Multiset.coe_singleton, Multiset.mem_singleton] at hit
          subst hit
          exact (List.pairwise_cons.mp h.movable.ordered).1 q hq hfree hqk
      · rw [moveItems, HItem.blame_keyed hkey, heq, ok_bind]
        dsimp only
        rw [if_pos rfl, hget, ok_bind]
        dsimp only
        rw [← hd₂, hfrees]

theorem moveItems_post (hset : SetFnOk A set fails P) (h : Moving A P n L dummy m F) :
    Post (moveItems A set L dummy m)
      (fun r => match r with
        | (some d, m') => Moved A L dummy F d m' ∧ P 0 d
        | (none, _) => moveFails A set fails L dummy m = true)
      (fun f => f = .nullItemKey ∧ ∃ p ∈ L, p.key = none) := by
  induction L generalizing dummy m with
  | nil =>
      refine ⟨⟨h.ok, h.keyed, h.owns.congr ?_, ?_, ?_, ?_, rfl, dvd_rfl, ?_, by simp⟩,
        h.room⟩
      · simp [itemBlocks]
      · simp [Hashtab.live]
      · simp [Hashtab.leftover]
      · simp
      · simp
  | cons p L ih =>
      rw [moveFails]
      by_cases hkey : p.key = none
      · rw [moveItems, HItem.keyPtr_eq_none.mpr hkey]
        refine ((HItem.blame_post hkey (hset.null h.room)).mono (fun _ hr => hr)
          fun f hf => ?_).bind fun x hr => ?_
        · exact ⟨hf, p, by simp, hkey⟩
        · obtain ⟨r, d, m'⟩ := x
          dsimp only at hr ⊢
          rw [if_neg (by simp [hr.1])]
          exact Bool.or_eq_true_iff.mpr (.inl hr.2)
      rcases h.round hset hkey with ⟨m', hfails, hrun⟩ | ⟨d, m', hnext, hmoved, hrun⟩
      · rw [hrun set rfl]
        exact Bool.or_eq_true_iff.mpr (.inl hfails)
      · rw [hrun set L rfl, hrun set [] rfl]
        refine (ih hnext).mono (fun r hr => ?_) ?_
        · rcases r with ⟨_ | d, m'⟩
          · exact Bool.or_eq_true_iff.mpr (.inr hr)
          · exact ⟨hmoved.trans hr.1, hr.2⟩
        · rintro f ⟨hf, q, hq, hnone⟩
          exact ⟨hf, q, List.mem_cons_of_mem _ hq, hnone⟩

/-- `set'` inserts as `set` does wherever `P` leaves room. -/
def AgreesOn (A : Allocator σ Addr) (P : Nat → Htab V → Prop) (set set' : SetFn σ V) :
    Prop :=
  ∀ {k : Nat} {ht : Htab V} {m : σ} {F : Multiset Addr} (name : Bytes) (val : V)
    (rest : Bytes), P (k + 1) ht → TableOk ht → ht.AllKeyed → A.Owns m (ht.blocks + F) →
      set' ht (some (name ++ 0 :: rest)) name.length val m =
        set ht (some (name ++ 0 :: rest)) name.length val m

theorem moveItems_congr {set' : SetFn σ V} (hset : SetFnOk A set fails P)
    (heq : AgreesOn A P set set')
    (h : Moving A P n L dummy m F) (hkeys : ∀ p ∈ L, p.key ≠ none) :
    moveItems A set' L dummy m = moveItems A set L dummy m := by
  induction L generalizing dummy m with
  | nil => rfl
  | cons p L ih =>
      have hkey := hkeys p (by simp)
      obtain ⟨rest, hptr, hlen⟩ := h.movable.placed p (by simp) hkey
      have hfirst : set' dummy p.keyPtr p.klen p.val m =
          set dummy p.keyPtr p.klen p.val m := by
        rw [hptr, ← hlen]
        exact heq _ _ _ h.room h.ok h.keyed h.owns
      rcases h.round hset hkey with ⟨m', -, hrun⟩ | ⟨d, m', hnext, -, hrun⟩
      · rw [hrun set' hfirst, hrun set rfl]
      · rw [hrun set' L hfirst, hrun set L rfl,
          ih hnext fun q hq => hkeys q (List.mem_cons_of_mem _ hq)]

end Moving

/-! ## `hgrow` and `hset` -/

structure Grown (A : Allocator σ Addr) (ht : Htab V) (F : Multiset Addr)
    (ht' : Htab V) (m' : σ) : Prop where
  ok : TableOk ht'
  keyed : ht'.AllKeyed
  owns : A.Owns m' (ht'.blocks + F)
  live : ht'.live = ht.live
  leftover : ht'.leftover ≤ ht.leftover
  hcount : hcount ht' = hcount ht
  addr : ht'.addr = ht.addr
  size : ht.realsize ∣ ht'.realsize
  items_le : ht'.items.length ≤ ht.items.length

theorem Fresh.moving {P : Nat → Htab V → Prop} {ht dummy : Htab V} {m : σ}
    {F : Multiset Addr} (hfresh : Fresh (ht.logsize + 1) dummy) (hok : TableOk ht)
    (hown : A.Owns m (dummy.blocks + (ht.blocks + F))) (hP : P ht.items.length dummy) :
    Moving A P ht.realsize ht.items dummy m ({ht.addr} + {ht.tableAddr} + F) where
  movable := hok.movable
  room := hP
  ok := hfresh.ok
  keyed := hfresh.allKeyed
  dvd := by
    rw [hok.size, hfresh.ok.size, hfresh.logsize, hsize, hsize, Nat.one_shiftLeft,
      Nat.one_shiftLeft]
    exact pow_dvd_pow 2 (Nat.le_succ _)
  apart := by simp [hfresh.live]
  owns := hown.congr (by
    simp only [Htab.blocks]
    abel)

theorem hgrow_post {set : SetFn σ V} {fails : FailFn σ V} {P : Nat → Htab V → Prop}
    (hset : SetFnOk A set fails P) {ht : Htab V} {m : σ} {F : Multiset Addr}
    (hP : ∀ dummy, Fresh (ht.logsize + 1) dummy → P ht.items.length dummy)
    (hok : TableOk ht) (hown : A.Owns m (ht.blocks + F)) :
    Post (hgrow A set ht m)
      (fun r => match r with
        | (true, ht', m') => Grown A ht F ht' m' ∧
            ∃ d, P 0 d ∧ ht'.realsize = d.realsize
        | (false, ht', _) => ht' = ht ∧ growFails A set fails ht m = true)
      (SetFault ht) := by
  have hcreate := htcreate_post (V := V) hown (ht.logsize + 1)
  have hnone := htcreate_none (V := V) (A := A) (m := m) (ht.logsize + 1)
  rw [hgrow, growFails]
  rcases hrun : htcreate (V := V) A (ht.logsize + 1) m with f | ⟨_ | dummy, m₁⟩
  · rw [hrun] at hcreate
    exact hcreate.elim
  · exact ⟨rfl, Bool.or_eq_true_iff.mpr (.inl ((hnone.of_ok hrun).mp rfl))⟩
  rw [hrun] at hcreate
  obtain ⟨hfresh, hown₁⟩ := hcreate
  rw [ok_bind]
  dsimp only
  have hmoving := hfresh.moving hok hown₁ (hP dummy hfresh)
  have hempty := hfresh.live
  have hnoleft : dummy.leftover = 0 := by
    simp [Htab.leftover, hfresh.items, Hashtab.leftover]
  refine ((moveItems_post hset hmoving).mono (fun _ hr => hr) ?_).bind fun r hr => ?_
  · rintro f ⟨hf, p, hp, hnone⟩
    exact ⟨hf, fun hall => hall p hp hnone⟩
  obtain ⟨_ | d, m₂⟩ := r
  · exact ⟨rfl, Bool.or_eq_true_iff.mpr (.inr hr)⟩
  obtain ⟨hmoved, hP₂⟩ : Moved A ht.items dummy ({ht.addr} + {ht.tableAddr} + F) d m₂ ∧
    P 0 d := hr
  obtain ⟨m₃, hm₃, hown₃⟩ := Owns.liFree (A := A) (m := m₂)
    (p := some ht.tableAddr)
    (M := {d.addr} + ({ht.addr} + {d.tableAddr} +
      itemBlocks (↑d.items : Multiset (HItem V)) + F))
    (hmoved.owns.congr (by
      simp only [Htab.blocks, ptrBlocks_some]; abel))
  obtain ⟨m₄, hm₄, hown₄⟩ := Owns.liFree (p := some d.addr) hown₃
  simp only
  rw [hm₃, ok_bind, hm₄, ok_bind]
  refine ⟨⟨⟨hmoved.ok.size, hmoved.ok.mask, hmoved.ok.chains⟩, hmoved.keyed, hown₄,
    ?_, ?_, rfl, rfl, hmoving.dvd.trans hmoved.size, ?_⟩, d, hP₂, rfl⟩
  · change d.live = _
    rw [hmoved.live, hempty, zero_add]
    rfl
  · change d.leftover ≤ _
    refine hmoved.leftover.trans (le_of_eq ?_)
    rw [hnoleft, zero_add]
    rfl
  · refine hmoved.items_le.trans (le_of_eq ?_)
    rw [hfresh.items, List.length_nil, Nat.zero_add]

theorem Linked.grown {ht ht₁ ht₂ : Htab V} {m₁ m₂ : σ} {F : Multiset Addr}
    {name : Bytes} {val : V} (hlinked : Linked A ht name val F ht₁ m₁)
    (hgrown : Grown A ht₁ F ht₂ m₂) : Linked A ht name val F ht₂ m₂ where
  ok := hgrown.ok
  owns := hgrown.owns
  live := hgrown.live.trans hlinked.live
  leftover := hgrown.leftover.trans hlinked.leftover
  keyed := fun _ => hgrown.keyed
  hcount := hgrown.hcount.trans hlinked.hcount
  addr := hgrown.addr.trans hlinked.addr
  size := hlinked.size.trans hgrown.size
  items_le := hgrown.items_le.trans hlinked.items_le
  fresh := hlinked.fresh

theorem hsetLink_null {ht : Htab V} {m : σ} {klen : Nat} {val : V} :
    Ensures (hsetLink A ht none klen val m) fun r => r.1 = .herror := by
  rw [hsetLink]
  cases klen with
  | succ klen => simp [hhash, readBytes]
  | zero =>
      simp only [hhash, readBytes, ok_bind]
      refine (hsetScan_none _ 0 none).bind fun r hr => ?_
      rw [hr.1]
      simp only [addFront]
      rcases liMalloc A m sizeofHitem with ⟨_ | addr, m₁⟩
      · exact rfl
      dsimp only
      rcases liMalloc A m₁ (0 + 1) with ⟨_ | a, m₂⟩
      · exact (ensures_true _).bind fun m₃ _ => rfl
      · simp [memcpy, readBytes]

/--
The recursion rule.  An insertion is sound when, whenever it grows the table,
the insertions it grows through have room for all items of the table.
-/
theorem hsetDepth_ok {depth : Nat} {P : Nat → Htab V → Prop}
    (hgrow : ∀ {k : Nat} {ht ht₁ : Htab V}, P (k + 1) ht → TableOk ht₁ →
      ht₁.realsize = ht.realsize → hcount ht₁ = hcount ht + 1 →
      ht₁.items.length ≤ ht.items.length + 1 → ht₁.overloaded = true →
      ∃ Q : Nat → Htab V → Prop, SetFnOk A (hsetDepth A depth) (hsetFails A depth) Q ∧
        (∀ dummy, Fresh (ht₁.logsize + 1) dummy → Q ht₁.items.length dummy) ∧
        ∀ d ht₂, Q 0 d → ht₂.realsize = d.realsize → hcount ht₂ = hcount ht₁ →
          ht₂.items.length ≤ ht₁.items.length → P k ht₂)
    (hnext : ∀ {k : Nat} {ht ht₁ : Htab V}, P (k + 1) ht →
      ht₁.realsize = ht.realsize → hcount ht₁ = hcount ht + 1 →
      ht₁.items.length ≤ ht.items.length + 1 → ht₁.overloaded = false → P k ht₁)
    (hmodify : ∀ {k : Nat} {ht : Htab V} {ref : ItemRef} {it : HItem V}
      {f : HItem V → HItem V}, P k ht → ht.At ref it → P k (ht.modify ref f)) :
    SetFnOk A (hsetDepth (V := V) A (depth + 1)) (hsetFails A (depth + 1)) P where
  post := by
    intro k ht m F name val rest hP hok hown
    rw [hsetDepth, hsetFails]
    have hlink := hsetLink_post name val rest hok hown
    rcases hrun : hsetLink A ht (some (name ++ 0 :: rest)) name.length val m with
      f | ⟨r, ht₁, m₁⟩
    · exact hlink.of_error hrun
    rw [hrun] at hlink
    rw [ok_bind]
    dsimp only
    cases r with
    | hexists =>
        rw [if_neg (by simp)]
        exact ⟨hlink, by simp⟩
    | herror =>
        rw [if_neg (by simp)]
        have hrefused := ((hsetLink_herror _ _ val).of_ok hrun).mp rfl
        exact ⟨Bool.or_eq_true_iff.mpr (.inl hrefused), by simp⟩
    | hsuccess =>
        obtain ⟨hlinked, hsize, -⟩ := hlink
        cases hover : ht₁.overloaded with
        | false =>
            rw [if_neg (by simp)]
            exact ⟨hlinked, fun _ =>
              hnext hP hsize hlinked.hcount hlinked.items_le hover⟩
        | true =>
            rw [if_pos ⟨rfl, rfl⟩]
            obtain ⟨Q, hset, hroom, hgrown⟩ :=
              hgrow hP hlinked.ok hsize hlinked.hcount hlinked.items_le hover
            refine ((hgrow_post hset hroom hlinked.ok hlinked.owns).mono
              (fun _ hr => hr) fun f hf => ?_).bind fun r hg => ?_
            · exact ⟨hf.1, fun hall => hf.2 (hlinked.keyed hall)⟩
            · obtain ⟨grown, ht₂, m₂⟩ := r
              cases grown with
              | false =>
                  refine ⟨Bool.or_eq_true_iff.mpr (.inr ?_), by simp⟩
                  dsimp only
                  rw [hover, hg.2]
                  rfl
              | true =>
                  obtain ⟨hg, d, hQ, hd⟩ := hg
                  exact ⟨hlinked.grown hg, fun _ =>
                    hgrown d ht₂ hQ hd hg.hcount hg.items_le⟩
  null := by
    intro k ht m klen val hP
    rw [hsetDepth, hsetFails]
    rcases hrun : hsetLink A ht none klen val m with f | ⟨r, ht₁, m₁⟩
    · trivial
    obtain rfl : r = .herror := hsetLink_null.of_ok hrun
    have hrefused := ((hsetLink_herror none klen val).of_ok hrun).mp rfl
    exact ⟨rfl, Bool.or_eq_true_iff.mpr (.inl hrefused)⟩
  modify := hmodify

end Lightcache.Hashtab
