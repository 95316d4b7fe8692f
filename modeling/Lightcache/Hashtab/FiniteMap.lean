import Lightcache.Foundation.Entries
import Lightcache.Hashtab.Depth
import Lightcache.Hashtab.Release

/-!
# The table as a finite map

A client of the table calls its functions in any order, and may keep the item
the last `hget` returned until the next `hset`, which may move or recycle it.
While allocation succeeds, the answers are those of a finite map.
-/

namespace Lightcache.Hashtab

open Lightcache Lightcache.Foundation

/-! ## Calls and answers -/

inductive Call (V : Type) where
  | hset (key : Bytes) (val : V)
  | hget (key : Bytes)
  /-- `hfree` of the item the last `hget` returned. -/
  | hfree
  /-- A write to `val` of the item the last `hget` returned. -/
  | write (val : V)
  /-- `henum` with a callback that releases the entries in `pick`. -/
  | henum (pick : Bytes → V → Bool) (enumFree : Bool)
  | hcount

/-- The keys of the calls are C strings. -/
def Call.NulFree {V : Type} : Call V → Prop
  | hset key _ => 0 ∉ key
  | hget key => 0 ∉ key
  | _ => True

/-- What the callback of `henum` sees of an item. -/
structure Visit (V : Type) where
  key : Bytes
  val : V
  free : Bool

inductive Answer (V : Type) where
  | result (r : HResult)
  | item (val : Option V)
  | done
  | visited (log : List (Visit V))
  | count (n : Int)

structure Client (σ V : Type) where
  ht : Htab V
  held : Option ItemRef
  m : σ

section Step

variable {σ V : Type} (A : Allocator σ Addr)

def freeWhere (pick : Bytes → V → Bool) : EnumFn V (List (Visit V)) :=
  fun it fc log => do
    let key ← readBytes it.keyPtr it.klen
    let log := log ++ [⟨key, it.val, it.free⟩]
    if pick key it.val then
      let (it, fc) := hfreeItem it fc
      return (it, fc, log, false)
    else return (it, fc, log, false)

def call (c : Client σ V) : Call V → Except Fault (Client σ V × Answer V)
  | .hset key val => do
      let (r, ht, m) ← hset A c.ht (some (key ++ [0])) key.length val c.m
      return (⟨ht, none, m⟩, .result r)
  | .hget key => do
      let ref ← hget c.ht (some (key ++ [0])) key.length
      return ({ c with held := ref },
        .item ((ref.bind c.ht.item?).map HItem.val))
  | .hfree =>
      match c.held with
      | none => .ok (c, .done)
      | some ref => .ok ({ c with ht := hfree c.ht ref }, .done)
  | .write val =>
      match c.held with
      | none => .ok (c, .done)
      | some ref =>
          .ok ({ c with ht := c.ht.modify ref fun it => { it with val := val } },
            .done)
  | .henum pick enumFree => do
      let (ht, log) ← henum c.ht (freeWhere pick) [] enumFree
      return ({ c with ht := ht }, .visited log)
  | .hcount => .ok (c, .count (hcount c.ht))

end Step

/-! ## The finite map -/

structure MapState (V : Type) where
  map : Bytes → Option V
  held : Option Bytes

variable {V σ : Type}

/-- The live entries of an enumeration, in the order of the visits. -/
def liveVisits (log : List (Visit V)) : List (Bytes × V) :=
  (log.filter fun e => !e.free).map fun e => (e.key, e.val)

inductive MapSpec : MapState V → Call V → Answer V → MapState V → Prop
  | hset_live {t key val old} (h : t.map key = some old) :
      MapSpec t (.hset key val) (.result .hexists) ⟨t.map, none⟩
  | hset_new {t key val} (h : t.map key = none) :
      MapSpec t (.hset key val) (.result .hsuccess)
        ⟨Function.update t.map key (some val), none⟩
  | hget {t key} :
      MapSpec t (.hget key) (.item (t.map key))
        ⟨t.map, (t.map key).map fun _ => key⟩
  | hfree_none {t} (h : t.held = none) : MapSpec t .hfree .done t
  | hfree {t key} (h : t.held = some key) :
      MapSpec t .hfree .done ⟨Function.update t.map key none, t.held⟩
  | write_none {t val} (h : t.held = none) : MapSpec t (.write val) .done t
  | write {t key val} (h : t.held = some key) :
      MapSpec t (.write val) .done
        ⟨Function.update t.map key ((t.map key).map fun _ => val), t.held⟩
  | henum {t pick enumFree log}
      (once : ((liveVisits log).map Prod.fst).Nodup)
      (every : ∀ key val, (key, val) ∈ liveVisits log ↔ t.map key = some val)
      (skip : enumFree = false → ∀ e ∈ log, e.free = false) :
      MapSpec t (.henum pick enumFree) (.visited log)
        ⟨fun key => (t.map key).filter fun val => !pick key val, t.held⟩
  | hcount {t} (keys : Finset Bytes)
      (h : ∀ key, key ∈ keys ↔ (t.map key).isSome) :
      MapSpec t .hcount (.count keys.card) t

/-! ## The simulation -/

/-- The held item carries its key, and is live whenever the key is. -/
def HeldOk (ht : Htab V) (map : Bytes → Option V) :
    Option ItemRef → Option Bytes → Prop
  | none, none => True
  | some ref, some key => ∃ it, ht.At ref it ∧ it.name = key ∧
      (it.free = true → map key = none)
  | _, _ => False

structure Simulates (A : Allocator σ Addr) (F : Multiset Addr) (c : Client σ V)
    (t : MapState V) : Prop where
  ok : TableOk c.ht
  keyed : c.ht.AllKeyed
  owns : A.Owns c.m (c.ht.blocks + F)
  entries : Represents c.ht.live t.map
  nulFree : ∀ e ∈ c.ht.live, 0 ∉ e.1
  hcount : hcount c.ht = c.ht.live.card
  held : HeldOk c.ht t.map c.held t.held

theorem HItem.Keyed.readBytes {it : HItem V} (h : it.Keyed) :
    readBytes it.keyPtr it.klen = .ok it.name := by
  obtain ⟨rest, hptr, hlen⟩ := h
  rw [hptr, ← hlen, readBytes_prefix]

section Simulation

variable {A : Allocator σ Addr} {F : Multiset Addr} {c : Client σ V} {t : MapState V}

/-- A free item under a key that no live item has. -/
theorem Simulates.at_unique (h : Simulates A F c t) {ref : ItemRef} {it : HItem V}
    (hat : c.ht.At ref it) (hfree : it.free = false) :
    t.map it.name = some it.val :=
  (h.entries.mem _ _).mp (hat.mem_live hfree)

theorem simulates_hset (hA : A.NeverFails) (h : Simulates A F c t) {key : Bytes}
    (hkey : 0 ∉ key) (val : V) :
    ∃ c' out t', call A c (.hset key val) = .ok (c', out) ∧
      MapSpec t (.hset key val) out t' ∧ Simulates A F c' t' := by
  have hpost := hset_post key val [] h.ok h.owns
  rw [call]
  cases hset : hset A c.ht (some (key ++ [0])) key.length val c.m with
  | error f =>
      rw [hset] at hpost
      exact absurd h.keyed hpost.2
  | ok r =>
      obtain ⟨r, ht', m'⟩ := r
      rw [hset] at hpost
      cases r with
      | herror => cases (hsetFails_of_neverFails hA 3 ..).symm.trans hpost
      | hexists =>
          obtain ⟨rfl, rfl, e, he, hclash⟩ := hpost
          have hname := hclash.eq (h.nulFree e he) hkey
          exact ⟨_, _, _, rfl, .hset_live ((h.entries.mem key e.2).mp (hname ▸ he)),
            ⟨h.ok, h.keyed, h.owns, h.entries, h.nulFree, h.hcount, trivial⟩⟩
      | hsuccess =>
          have hnew : t.map key = none := h.entries.eq_none fun e he heq =>
            hpost.fresh e he (by rw [heq]; exact ⟨rfl, rfl⟩)
          refine ⟨_, _, _, rfl, .hset_new hnew,
            ⟨hpost.ok, hpost.keyed h.keyed, hpost.owns, ?_, ?_, ?_, trivial⟩⟩
          · rw [hpost.live]
            exact h.entries.insert hnew
          · rw [hpost.live]
            intro e he
            rcases Multiset.mem_cons.mp he with rfl | he
            · exact hkey
            · exact h.nulFree e he
          · rw [hpost.hcount, h.hcount, hpost.live, Multiset.card_cons]
            push_cast
            rfl

theorem simulates_hget (h : Simulates A F c t) {key : Bytes} (hkey : 0 ∉ key) :
    ∃ c' out t', call A c (.hget key) = .ok (c', out) ∧
      MapSpec t (.hget key) out t' ∧ Simulates A F c' t' := by
  obtain ⟨r, hget, hpost⟩ := (hget_post h.ok key []).exists_ok
  rw [call, hget]
  cases r with
  | none =>
      have hnone : t.map key = none := h.entries.eq_none fun e he heq =>
        hpost e he (by rw [heq]; exact ⟨rfl, rfl⟩)
      refine ⟨_, .item none, ⟨t.map, none⟩, rfl, ?_,
        ⟨h.ok, h.keyed, h.owns, h.entries, h.nulFree, h.hcount, trivial⟩⟩
      have hspec : MapSpec t (.hget key) (.item (t.map key))
          ⟨t.map, (t.map key).map fun _ => key⟩ := .hget
      rwa [hnone] at hspec
  | some ref =>
      obtain ⟨it, hat, hfree, hmem, hclash⟩ := hpost
      have hname := hclash.eq (h.nulFree _ hmem) hkey
      have hval : t.map key = some it.val := hname ▸ h.at_unique hat hfree
      refine ⟨{ c with held := some ref }, .item (some it.val), ⟨t.map, some key⟩,
        ?_, ?_, ⟨h.ok, h.keyed, h.owns, h.entries, h.nulFree, h.hcount, ?_⟩⟩
      · rw [ok_bind, Option.bind_some, Htab.item?_eq hat]
        rfl
      · have hspec : MapSpec t (.hget key) (.item (t.map key))
            ⟨t.map, (t.map key).map fun _ => key⟩ := .hget
        rwa [hval] at hspec
      · exact ⟨it, hat, hname, fun hf => by simp [hf] at hfree⟩

theorem simulates_hfree (h : Simulates A F c t) :
    ∃ c' out t', call A c .hfree = .ok (c', out) ∧
      MapSpec t .hfree out t' ∧ Simulates A F c' t' := by
  obtain ⟨ht, held, m⟩ := c
  obtain ⟨map, key⟩ := t
  match held, key, h.held with
  | none, none, _ => exact ⟨_, .done, _, rfl, .hfree_none rfl, h⟩
  | some ref, some _, ⟨it, hat, rfl, hdead⟩ =>
      dsimp only at hat hdead
      refine ⟨_, .done, _, rfl, .hfree rfl, ?_⟩
      cases hfree : it.free with
      | true =>
          have hsame : Function.update map it.name none = map := by
            rw [← hdead hfree, Function.update_eq_self]
          rw [hfree_of_free hat hfree, hsame]
          exact h
      | false =>
          have hrel := hfree_post h.ok hat hfree
          have hentries := h.entries
          have hcard := congrArg Multiset.card hrel.live
          have hcount := h.hcount
          dsimp only at hentries hcount hcard hrel
          rw [hrel.live] at hentries
          rw [Multiset.card_cons] at hcard
          refine ⟨hrel.ok, hrel.keyed h.keyed, ?_, hentries.erase,
            fun e he => h.nulFree e ?_, ?_, ?_⟩
          · exact hrel.blocks ▸ h.owns
          · exact hrel.live ▸ Multiset.mem_cons_of_mem he
          · dsimp only
            rw [hrel.hcount]
            omega
          · obtain ⟨it', hat', hgentle⟩ :=
              hat.follow hrel.frame.realsize (hrel.rel ref.bucket)
            exact ⟨it', hat', hgentle.name, fun _ => Function.update_self ..⟩

theorem simulates_write (h : Simulates A F c t) (val : V) :
    ∃ c' out t', call A c (.write val) = .ok (c', out) ∧
      MapSpec t (.write val) out t' ∧ Simulates A F c' t' := by
  obtain ⟨ht, held, m⟩ := c
  obtain ⟨map, key⟩ := t
  match held, key, h.held with
  | none, none, _ => exact ⟨_, .done, _, rfl, .write_none rfl, h⟩
  | some ref, some _, ⟨it, hat, rfl, hdead⟩ =>
      dsimp only at hat hdead
      have hover := modify_val_post h.ok hat val
      obtain ⟨L, hold, hnew⟩ := hover.live
      have hat' := hat.modify fun b => { b with val := val }
      have hentries := h.entries
      have hcount := h.hcount
      dsimp only at hentries hcount
      refine ⟨_, .done, _, rfl, .write rfl, ⟨hover.ok, hover.keyed h.keyed, ?_, ?_, ?_,
        ?_, _, hat', rfl, fun hfree => ?_⟩⟩
      · exact hover.blocks ▸ h.owns
      · rw [hold] at hentries
        rw [hnew]
        cases hfree : it.free with
        | true =>
            have hsame : Function.update map it.name
                ((map it.name).map fun _ => val) = map := by
              rw [hdead hfree, Option.map_none, ← hdead hfree, Function.update_eq_self]
            rw [hsame]
            simpa [hfree] using hentries
        | false =>
            have hval := h.at_unique hat hfree
            dsimp only at hval ⊢
            rw [hval, Option.map_some]
            rw [hfree] at hentries
            exact hentries.replace val
      · intro e he
        rw [hnew] at he
        rcases Multiset.mem_add.mp he with he | he
        · cases hfree : it.free with
          | true => simp [hfree] at he
          | false =>
              rw [hfree] at he
              rw [Multiset.mem_singleton.mp he]
              exact h.nulFree (it.name, it.val) (hat.mem_live hfree)
        · exact h.nulFree e (hold ▸ Multiset.mem_add.mpr (.inr he))
      · rw [hover.hcount, hcount, hold, hnew, Multiset.card_add, Multiset.card_add]
        cases it.free <;> rfl
      · simp [hdead hfree]

/-! ### Enumeration -/

/-- The walk of `freeWhere`: the entries it has logged, released and kept. -/
structure FreeWhereInv (ht : Htab V) (pick : Bytes → V → Bool) (enumFree : Bool)
    (done todo : Multiset (HItem V)) (fc : Int) (log : List (Visit V)) : Prop where
  visits : ht.live = (↑(liveVisits log) : Multiset (Bytes × V)) + live todo
  kept : live done = (↑(liveVisits log) : Multiset (Bytes × V)).filter
    fun e => !pick e.1 e.2
  freed : fc = ht.freecount + ((↑(liveVisits log) : Multiset (Bytes × V)).filter
    fun e => pick e.1 e.2).card
  coming : ∀ it ∈ todo, it.Keyed
  passed : ∀ it ∈ done, it.key ≠ none
  blocks : itemBlocks done + itemBlocks todo =
    itemBlocks (↑ht.items : Multiset (HItem V))
  skip : enumFree = false → ∀ e ∈ log, e.free = false

theorem liveVisits_append (log : List (Visit V)) (e : Visit V) :
    liveVisits (log ++ [e]) =
      liveVisits log ++ if e.free then [] else [(e.key, e.val)] := by
  cases h : e.free <;> simp [liveVisits, h]

theorem HItem.Keyed.key_ne_none {it : HItem V} (h : it.Keyed) : it.key ≠ none := by
  obtain ⟨rest, hptr, -⟩ := h
  exact fun hnone => by simp [HItem.keyPtr, hnone] at hptr

/-- An item changes only by being released, and only when it is picked. -/
def Picked (pick : Bytes → V → Bool) (it it' : HItem V) : Prop :=
  Gentle it it' ∧ (it'.free = true → it.free = true ∨ pick it.name it.val = true)

theorem freeWhere_inv (ht : Htab V) (pick : Bytes → V → Bool) (enumFree : Bool) :
    EnumInv (freeWhere pick) enumFree (Picked pick)
      (FreeWhereInv ht pick enumFree) (fun _ => False) where
  gentle := fun h => h.1
  refl := fun p => ⟨.refl p, .inl⟩
  visit := by
    intro done p todo fc log h hvisit
    have hkeyed := h.coming p (Multiset.mem_cons_self _ _)
    have hvisits := h.visits
    have hblocks := h.blocks
    rw [live_cons] at hvisits
    rw [itemBlocks_cons] at hblocks
    have hskip : enumFree = false →
        ∀ e ∈ log ++ [⟨p.name, p.val, p.free⟩], e.free = false := by
      intro hef e he
      rcases List.mem_append.mp he with he | he
      · exact h.skip hef e he
      · rw [List.mem_singleton.mp he]
        simpa [hef] using hvisit
    -- the invariant after the visit, for every fate of the item
    have hnext : ∀ (p' : HItem V) (fc' : Int), Gentle p p' →
        live (p' ::ₘ done) = (if p.free || pick p.name p.val then 0
          else {(p.name, p.val)}) + live done →
        fc' = fc + (if !p.free && pick p.name p.val then 1 else 0) →
        FreeWhereInv ht pick enumFree (p' ::ₘ done) todo fc'
          (log ++ [⟨p.name, p.val, p.free⟩]) := by
      intro p' fc' hgentle hlive hfc
      refine ⟨?_, ?_, ?_, fun it hit => h.coming it (Multiset.mem_cons_of_mem hit), ?_,
        ?_, hskip⟩
      · rw [hvisits, liveVisits_append, ← Multiset.coe_add]
        cases p.free
        · rw [add_assoc]
          rfl
        · simp
      · rw [hlive, h.kept, liveVisits_append, ← Multiset.coe_add,
          Multiset.filter_add, add_comm]
        cases hfree : p.free <;> cases hpick : pick p.name p.val <;>
          simp [hpick]
      · rw [hfc, h.freed, liveVisits_append, ← Multiset.coe_add,
          Multiset.filter_add, Multiset.card_add]
        cases hfree : p.free <;> cases hpick : pick p.name p.val <;>
          simp [hpick, add_assoc, Multiset.filter_singleton]
      · intro it hit
        rcases Multiset.mem_cons.mp hit with rfl | hit
        · exact hgentle.key ▸ hkeyed.key_ne_none
        · exact h.passed it hit
      · rw [itemBlocks_cons, hgentle.blocks, ← hblocks]
        abel
    rw [freeWhere, hkeyed.readBytes, ok_bind]
    cases hpick : pick p.name p.val with
    | false =>
        rw [if_neg (by simp)]
        refine ⟨rfl, ⟨.refl p, .inl⟩, hnext p fc (.refl p) ?_ (by simp [hpick])⟩
        rw [live_cons]
        simp [hpick]
    | true =>
        rw [if_pos rfl]
        cases hfree : p.free with
        | true =>
            simp only [hfreeItem, hfree, if_true]
            rw [← hfree]
            refine ⟨rfl, ⟨.refl p, .inl⟩, hnext p fc (.refl p) ?_ (by simp [hfree])⟩
            rw [live_cons]
            simp [hfree]
        | false =>
            simp only [hfreeItem, hfree, Bool.false_eq_true, if_false]
            rw [← hfree]
            have hgentle : Gentle p { p with free := true } :=
              ⟨rfl, rfl, rfl, by simp⟩
            refine ⟨rfl, ⟨hgentle, fun _ => .inr hpick⟩,
              hnext { p with free := true } (fc + 1) hgentle ?_ (by simp [hfree, hpick])⟩
            rw [live_cons]
            simp [hpick]
  skip := by
    intro done p todo fc log h hvisit
    have hkeyed := h.coming p (Multiset.mem_cons_self _ _)
    have hfree : p.free = true := by
      simp only [Bool.or_eq_false_iff, Bool.not_eq_eq_eq_not, Bool.not_false] at hvisit
      exact hvisit.1
    have hvisits := h.visits
    have hblocks := h.blocks
    rw [live_cons, hfree] at hvisits
    rw [itemBlocks_cons] at hblocks
    refine ⟨by simpa using hvisits, ?_, h.freed,
      fun it hit => h.coming it (Multiset.mem_cons_of_mem hit), ?_, ?_, h.skip⟩
    · rw [live_cons, hfree]
      simpa using h.kept
    · intro it hit
      rcases Multiset.mem_cons.mp hit with rfl | hit
      · exact hkeyed.key_ne_none
      · exact h.passed it hit
    · rw [itemBlocks_cons, ← hblocks]
      abel

theorem simulates_henum (h : Simulates A F c t) (pick : Bytes → V → Bool)
    (enumFree : Bool) :
    ∃ c' out t', call A c (.henum pick enumFree) = .ok (c', out) ∧
      MapSpec t (.henum pick enumFree) out t' ∧ Simulates A F c' t' := by
  have hstart : FreeWhereInv c.ht pick enumFree 0
      (↑c.ht.items : Multiset (HItem V)) c.ht.freecount [] := by
    refine ⟨?_, ?_, ?_, fun it hit => ?_, by simp, by simp [itemBlocks], by simp⟩
    · simp [liveVisits, Htab.live]
    · simp [liveVisits, live]
    · simp [liveVisits]
    · exact (h.ok.placed hit (h.keyed it hit)).1
  obtain ⟨⟨ht', log⟩, hrun, hok', hframe, hrel, hend⟩ :=
    (henum_post (freeWhere_inv c.ht pick enumFree) h.ok hstart).exists_ok
  dsimp only at hok' hframe hrel hend
  have hvisits : c.ht.live = (↑(liveVisits log) : Multiset (Bytes × V)) := by
    simpa [live] using hend.visits
  have hlive : ht'.live = c.ht.live.filter fun e => !pick e.1 e.2 := by
    rw [hvisits]
    exact hend.kept
  have hmem : ∀ e ∈ ht'.live, e ∈ c.ht.live := fun e he => by
    rw [hlive] at he
    exact (Multiset.mem_filter.mp he).1
  rw [call, hrun]
  refine ⟨_, .visited log, _, rfl, .henum ?_ ?_ hend.skip,
    ⟨hok', hend.passed, ?_, ?_, fun e he => h.nulFree e (hmem e he), ?_, ?_⟩⟩
  · have := h.entries.nodup
    rw [hvisits] at this
    simpa using this
  · intro key val
    rw [← h.entries.mem, hvisits]
    rfl
  · have hblocks : ht'.blocks = c.ht.blocks := by
      have := hend.blocks
      rw [Htab.blocks, Htab.blocks, hframe.addr, hframe.tableAddr, ← this]
      simp [itemBlocks]
    change A.Owns c.m (ht'.blocks + F)
    rw [hblocks]
    exact h.owns
  · change Represents ht'.live _
    rw [hlive]
    exact h.entries.filter fun key val => !pick key val
  · have hload : c.ht.count - c.ht.freecount = (c.ht.live.card : Int) := h.hcount
    have hfreed := hend.freed
    have hsplit := congrArg Multiset.card
      (Multiset.filter_add_not (fun e : Bytes × V => pick e.1 e.2 = true) c.ht.live)
    rw [Multiset.card_add] at hsplit
    rw [← hvisits] at hfreed
    change ht'.count - ht'.freecount = (ht'.live.card : Int)
    simp only [hlive, Bool.not_eq_eq_eq_not, Bool.not_true, ← Bool.not_eq_true] at *
    rw [hframe.count, hfreed]
    omega
  · obtain ⟨ht, held, m⟩ := c
    obtain ⟨map, key⟩ := t
    have hheld := h.held
    cases held with
    | none =>
        cases key with
        | none => trivial
        | some key => exact hheld.elim
    | some ref =>
        cases key with
        | none => exact hheld.elim
        | some key => ?_
        obtain ⟨it, hat, rfl, hdead⟩ := hheld
        obtain ⟨it', hat', hgentle, hpicked⟩ :=
          hat.follow hframe.realsize (hrel ref.bucket)
        refine ⟨it', hat', hgentle.name, fun hfree' => ?_⟩
        cases hfree : it.free with
        | true =>
            have hnone : map it.name = none := hdead hfree
            simp [hnone]
        | false =>
            have hval : map it.name = some it.val := h.at_unique hat hfree
            rcases hpicked hfree' with hf | hpick
            · simp [hf] at hfree
            · simp [hval, hpick]

theorem simulates_hcount (h : Simulates A F c t) :
    ∃ c' out t', call A c .hcount = .ok (c', out) ∧
      MapSpec t .hcount out t' ∧ Simulates A F c' t' := by
  obtain ⟨keys, hkeys, hcard⟩ := h.entries.card_eq
  refine ⟨c, .count (hcount c.ht), t, rfl, ?_, h⟩
  rw [h.hcount, hcard]
  exact .hcount keys hkeys

/-- One call of the client is one step of the finite map. -/
theorem simulates_call (hA : A.NeverFails) (h : Simulates A F c t) (e : Call V)
    (he : e.NulFree) : ∃ c' out t', call A c e = .ok (c', out) ∧
      MapSpec t e out t' ∧ Simulates A F c' t' := by
  cases e with
  | hset key val => exact simulates_hset hA h he val
  | hget key => exact simulates_hget h he
  | hfree => exact simulates_hfree h
  | write val => exact simulates_write h val
  | henum pick enumFree => exact simulates_henum h pick enumFree
  | hcount => exact simulates_hcount h

end Simulation

/--
Whatever a client calls on a new table, no call fails and the answers are those
of a finite map that starts empty.
-/
theorem htab_refines_finite_map (A : Allocator σ Addr) (hA : A.NeverFails)
    (logsize : Nat) (m : σ) (calls : List (Call V))
    (hcalls : ∀ e ∈ calls, e.NulFree) :
    ∃ ht m', htcreate A logsize m = .ok (some ht, m') ∧
      ∃ c answers t, replies (call A) ⟨ht, none, m'⟩ calls = .ok (c, answers) ∧
        Allows MapSpec ⟨fun _ => none, none⟩ calls answers t := by
  obtain ⟨r, hcreate, hpost⟩ :=
    (htcreate_post (V := V) (A.owns_live m) logsize).exists_ok
  obtain ⟨_ | ht, m'⟩ := r
  · have hrefused := ((htcreate_none logsize).of_ok hcreate).mp rfl
    rw [createFails_of_neverFails hA] at hrefused
    cases hrefused
  obtain ⟨hfresh, hown⟩ := hpost
  have hempty : ht.live = 0 := by simp [Htab.live, hfresh.items, live]
  have hstart : Simulates A (A.live m).val ⟨ht, none, m'⟩ ⟨fun _ => none, none⟩ := by
    refine ⟨hfresh.ok, by simp [Htab.AllKeyed, hfresh.items], hown, ?_, ?_, ?_,
      trivial⟩
    · rw [hempty]
      exact represents_zero
    · simp [hempty]
    · rw [hfresh.hcount, hempty]
      rfl
  obtain ⟨c, answers, t, hrun, hallows, -⟩ :=
    replies_refine (fun c t e h => simulates_call hA h e) hstart hcalls
  exact ⟨ht, m', hcreate, c, answers, t, hrun, hallows⟩

/-- A table of one bucket that grows, releases a key and takes it again. -/
def rebindCalls : List (Call Nat) :=
  [.hset [97] 1, .hset [98] 2, .hget [97], .write 3, .hfree, .hset [97] 4,
    .henum (fun _ v => v == 2) false, .hcount]

theorem htab_refines_finite_map_rebind :
    ∃ ht m', htcreate (V := Nat) Allocator.unlimited 0 ∅ = .ok (some ht, m') ∧
      ∃ c answers t,
        replies (call Allocator.unlimited) ⟨ht, none, m'⟩ rebindCalls =
          .ok (c, answers) ∧
        Allows MapSpec ⟨fun _ => none, none⟩ rebindCalls answers t :=
  htab_refines_finite_map Allocator.unlimited Allocator.neverFails_unlimited 0 ∅
    rebindCalls (by simp [rebindCalls, Call.NulFree])

end Lightcache.Hashtab
