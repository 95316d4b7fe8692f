import Lightcache.Slab.Sequences

/-!
# Which list a slab is on

`home` says for every slab control which list it is on, if any.  The list
operations update this map at one slab.
-/

namespace Lightcache.Slab

open Lightcache Lightcache.Foundation

structure Listed (cm : CacheManager) (home : Nat → Option ListId) : Prop where
  bound : ∀ i, home i ≠ none → i < cm.slabctlCount
  threads : ∃ items : ListId → List Nat, ∀ li,
    Threads cm.link (cm.lists li) (items li) ∧ ∀ i, i ∈ items li ↔ home i = some li

namespace Listed

variable {cm : CacheManager} {home : Nat → Option ListId} {li src dest : ListId}
  {item : Nat}

theorem holds (h : Listed cm home) :
    ∃ q, Holds cm q ∧ ∀ li i, i ∈ q li ↔ home i = some li := by
  obtain ⟨q, hq⟩ := h.threads
  refine ⟨q, ⟨⟨fun li => (hq li).1, fun li li' hne i hi hi' => ?_⟩, fun li i hi => ?_⟩,
    fun li => (hq li).2⟩
  · rw [(hq li).2] at hi
    rw [(hq li').2, hi] at hi'
    exact hne (Option.some.inj hi')
  · exact h.bound i (by simp [((hq li).2 i).mp hi])

theorem of_holds {q : Sequences ListId Nat} (h : Holds cm q)
    (hhome : ∀ li i, i ∈ q li ↔ home i = some li) : Listed cm home where
  bound i hi := by
    obtain ⟨li, hli⟩ := Option.ne_none_iff_exists'.mp hi
    exact h.bound li i ((hhome li i).mpr hli)
  threads := ⟨q, fun li => ⟨h.woven.threads li, hhome li⟩⟩

theorem push (h : Listed cm home) (li : ListId) (item : Nat)
    (hhome : home item = none) (hitem : item < cm.slabctlCount) :
    Listed (cm.push li item) (Function.update home item (some li)) := by
  obtain ⟨q, hq, hmem⟩ := h.holds
  have hnew : ∀ li, item ∉ q li := fun li hi => by simp [(hmem li item).mp hi] at hhome
  refine of_holds (hq.push li hitem hnew) fun li' i => ?_
  rw [Sequences.mem_push, hmem]
  by_cases hii : i = item
  · subst hii
    simp [hhome, eq_comm]
  · simp [hii]

theorem onlyLists_push (cm : CacheManager) (li : ListId) (item : Nat) :
    OnlyLists cm (cm.push li item) := ⟨_, _, rfl⟩

theorem head_push (cm : CacheManager) (li : ListId) (item : Nat) :
    ((cm.push li item).lists li).head = some item := by
  simp only [CacheManager.push, Slab.push]
  cases (cm.lists li).head <;> simp

/-- Removing an item from its list. -/
theorem of_rem {q : Sequences ListId Nat} (hq : Holds cm q) {cm' : CacheManager}
    (hmem : ∀ li i, i ∈ q li ↔ home i = some li) (hhome : home item = some li)
    (h' : Holds cm' (q.rem li item)) : Listed cm' (Function.update home item none) := by
  refine of_holds h' fun li' i => ?_
  rw [Sequences.mem_rem (hq.woven.threads li).nodup, hmem]
  by_cases hii : i = item
  · subst hii
    simp [hhome, eq_comm]
  · simp [hii]

theorem pop (h : Listed cm home) (li : ListId) :
    OnlyLists cm (cm.pop li).2 ∧ (cm.pop li).1 = (cm.lists li).head ∧
      match (cm.lists li).head with
      | none => (cm.pop li).2 = cm
      | some item => home item = some li ∧
          Listed (cm.pop li).2 (Function.update home item none) := by
  obtain ⟨q, hq, hmem⟩ := h.holds
  obtain ⟨hres, hpop⟩ := hq.pop li
  refine ⟨⟨_, _, rfl⟩, by rw [hres, (hq.woven.threads li).head], ?_⟩
  rw [(hq.woven.threads li).head]
  cases hli : q li with
  | nil => exact congrArg Prod.snd (hq.pop_of_nil hli)
  | cons item rest =>
      have hhome := (hmem li item).mp (by simp [hli])
      rw [Sequences.pop_of_cons hli] at hpop
      exact ⟨hhome, of_rem hq hmem hhome hpop⟩

theorem popAndPush (h : Listed cm home) (dest : ListId)
    (hhead : (cm.lists src).head = some item) :
    OnlyLists cm (cm.popAndPush src dest).2 ∧
      Listed (cm.popAndPush src dest).2 (Function.update home item (some dest)) := by
  have hpop := h.pop src
  rw [hhead] at hpop
  obtain ⟨hframe, hres, hhome, hlisted⟩ := hpop
  rw [CacheManager.popAndPush]
  rcases hp : cm.pop src with ⟨res, cm₁⟩
  rw [hp] at hframe hres hlisted
  dsimp only at hframe hres hlisted
  subst hres
  have hbound : item < cm₁.slabctlCount := by
    obtain ⟨_, _, rfl⟩ := hframe
    exact h.bound item (by simp [hhome])
  refine ⟨hframe.trans (onlyLists_push _ _ _), ?_⟩
  have := hlisted.push dest item (by simp) hbound
  rwa [Function.update_idem] at this

theorem rem (h : Listed cm home) (li : ListId) (item : Nat) :
    ∃ cm', cm.rem li item = .ok (decide (home item = some li), cm') ∧
      OnlyLists cm cm' ∧
      Listed cm' (if home item = some li then Function.update home item none else home) := by
  obtain ⟨q, hq, hmem⟩ := h.holds
  obtain ⟨cm', hrem, hframe, hholds, hsame⟩ := hq.rem li item
  refine ⟨cm', by simp only [hrem, hmem], hframe, ?_⟩
  by_cases hhome : home item = some li
  · rw [if_pos hhome]
    exact of_rem hq hmem hhome hholds
  · rw [if_neg hhome, hsame (by rwa [hmem])]
    exact h

theorem remAndPush (h : Listed cm home) (src dest : ListId) (item : Nat) :
    ∃ cm', cm.remAndPush src dest item = .ok (decide (home item = some src), cm') ∧
      OnlyLists cm cm' ∧
      Listed cm' (if home item = some src then Function.update home item (some dest)
        else home) := by
  obtain ⟨cm₁, hrem, hframe, hlisted⟩ := h.rem src item
  rw [CacheManager.remAndPush, hrem, ok_bind]
  by_cases hhome : home item = some src
  · rw [if_pos hhome] at hlisted ⊢
    have hbound : item < cm₁.slabctlCount := by
      obtain ⟨_, _, rfl⟩ := hframe
      exact h.bound item (by simp [hhome])
    refine ⟨cm₁.push dest item, by simp [hhome]; rfl, hframe.trans (onlyLists_push _ _ _), ?_⟩
    have := hlisted.push dest item (by simp) hbound
    rwa [Function.update_idem] at this
  · rw [if_neg hhome] at hlisted ⊢
    exact ⟨cm₁, by simp [hhome]; rfl, hframe, hlisted⟩

end Listed

end Lightcache.Slab
