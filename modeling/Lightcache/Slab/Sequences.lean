import Lightcache.Foundation.Execution
import Lightcache.Foundation.Sequences
import Lightcache.Slab.Manager

/-!
# The slab lists as sequences

The lists of the manager share one map of links.  As long as no item is pushed
that is still on a list, they behave as sequences.
-/

namespace Lightcache.Slab

open Lightcache Lightcache.Foundation

/-- The list operations write to the links and the list ends only. -/
def OnlyLists (cm cm' : CacheManager) : Prop :=
  ∃ link lists, cm' = { cm with link := link, lists := lists }

theorem OnlyLists.refl (cm : CacheManager) : OnlyLists cm cm := ⟨_, _, rfl⟩

theorem OnlyLists.trans {cm cm₁ cm₂ : CacheManager} (h₁ : OnlyLists cm cm₁)
    (h₂ : OnlyLists cm₁ cm₂) : OnlyLists cm cm₂ := by
  obtain ⟨_, _, rfl⟩ := h₁
  obtain ⟨link, lists, rfl⟩ := h₂
  exact ⟨link, lists, rfl⟩

/-- The lists of `cm` hold the sequences `q` of slab controls. -/
structure Holds (cm : CacheManager) (q : Sequences ListId Nat) : Prop where
  woven : Woven cm.link cm.lists q
  bound : ∀ li, ∀ i ∈ q li, i < cm.slabctlCount

namespace Holds

variable {cm : CacheManager} {q : Sequences ListId Nat} {li src dest : ListId}
  {item : Nat}

/--
One list gets new items.  Its links change only at `touched`, and of these no
other list has any.
-/
theorem relink (h : Holds cm q) {r : (Nat → Link Nat) × Ends Nat}
    {touched after : List Nat} (hr : Relinked cm.link r touched after)
    (htouched : ∀ i ∈ touched, ∀ li', li' ≠ li → i ∉ q li')
    (hafter : ∀ i ∈ after, i < cm.slabctlCount ∧ ∀ li', li' ≠ li → i ∉ q li') :
    Holds { cm with link := r.1, lists := Function.update cm.lists li r.2 }
      (Function.update q li after) := by
  refine ⟨⟨fun li' => ?_, fun li₁ li₂ hne i hi => ?_⟩, fun li' i hi => ?_⟩
  · by_cases hli : li' = li
    · subst hli
      simp only [Function.update_self]
      exact hr.threads
    · simp only [Function.update_of_ne hli]
      exact (h.woven.threads li').congr fun a ha => hr.same a fun hat =>
        htouched a hat li' hli ha
  · by_cases h₁ : li₁ = li
    · subst h₁
      rw [Function.update_self] at hi
      rw [Function.update_of_ne hne.symm]
      exact (hafter i hi).2 li₂ hne.symm
    · rw [Function.update_of_ne h₁] at hi
      by_cases h₂ : li₂ = li
      · subst h₂
        rw [Function.update_self]
        exact fun hmem => (hafter i hmem).2 li₁ h₁ hi
      · rw [Function.update_of_ne h₂]
        exact h.woven.disjoint li₁ li₂ hne i hi
  · by_cases hli : li' = li
    · subst hli
      rw [Function.update_self] at hi
      exact (hafter i hi).1
    · rw [Function.update_of_ne hli] at hi
      exact h.bound li' i hi

theorem push (h : Holds cm q) (li : ListId) (hitem : item < cm.slabctlCount)
    (hnew : ∀ li, item ∉ q li) : Holds (cm.push li item) (q.push li item) := by
  refine h.relink (push_post (h.woven.threads li) (hnew li))
    (fun i hi li' hli => ?_) (fun i hi => ?_)
  · rcases List.mem_cons.mp hi with rfl | hi
    · exact hnew li'
    · exact h.woven.disjoint li li' hli.symm i hi
  · rcases List.mem_cons.mp hi with rfl | hi
    · exact ⟨hitem, fun li' _ => hnew li'⟩
    · exact ⟨h.bound li i hi, fun li' hli => h.woven.disjoint li li' hli.symm i hi⟩

theorem pop_of_nil (h : Holds cm q) (hli : q li = []) : cm.pop li = (none, cm) := by
  have hthreads := h.woven.threads li
  rw [hli] at hthreads
  have hends : cm.lists li = ⟨none, none⟩ := by
    have hhead := hthreads.head
    have htail := hthreads.tail
    cases hl : cm.lists li
    simp_all
  rw [CacheManager.pop, pop_nil hthreads, ← hends]
  dsimp only
  rw [Function.update_eq_self]

theorem pop (h : Holds cm q) (li : ListId) :
    (cm.pop li).1 = (q li).head? ∧ Holds (cm.pop li).2 (q.pop li) := by
  have hthreads := h.woven.threads li
  cases hli : q li with
  | nil =>
      rw [h.pop_of_nil hli, Sequences.pop_of_nil hli]
      exact ⟨rfl, h⟩
  | cons a rest =>
      rw [hli] at hthreads
      obtain ⟨hres, hpop⟩ := pop_post hthreads
      rw [Sequences.pop, hli]
      refine ⟨by simp [CacheManager.pop, hres], h.relink hpop (fun i hi li' hne => ?_)
        fun i hi => ?_⟩
      · rw [List.mem_singleton.mp hi]
        exact h.woven.disjoint li li' hne.symm a (by simp [hli])
      · have hmem : i ∈ q li := by
          rw [hli]
          exact List.mem_cons_of_mem _ hi
        exact ⟨h.bound li i hmem, fun li' hne => h.woven.disjoint li li' hne.symm i hmem⟩

theorem rem (h : Holds cm q) (li : ListId) (item : Nat) :
    ∃ cm', cm.rem li item = .ok (decide (item ∈ q li), cm') ∧ OnlyLists cm cm' ∧
      Holds cm' (q.rem li item) ∧ (item ∉ q li → cm' = cm) := by
  have hthreads := h.woven.threads li
  have hlen : (q li).length ≤ cm.slabctlCount := by
    have hsub : q li ⊆ List.range cm.slabctlCount := fun i hi =>
      List.mem_range.mpr (h.bound li i hi)
    simpa using (List.subperm_of_subset hthreads.nodup hsub).length_le
  obtain ⟨r, hr, hpost, hsame⟩ := rem_post hthreads item hlen
  refine ⟨{ cm with link := r.1, lists := Function.update cm.lists li r.2 }, ?_,
    ⟨_, _, rfl⟩, h.relink hpost (fun i hi li' hne => ?_) (fun i hi => ?_), fun hnot => ?_⟩
  · rw [CacheManager.rem, hr]
    rfl
  · exact h.woven.disjoint li li' hne.symm i hi
  · have hmem := List.mem_of_mem_erase hi
    exact ⟨h.bound li i hmem, fun li' hne => h.woven.disjoint li li' hne.symm i hmem⟩
  · rw [hsame hnot]
    dsimp only
    rw [Function.update_eq_self]

/-- An item that left its list is on no list. -/
theorem notMem_rem (h : Holds cm q) (hitem : item ∈ q src) :
    ∀ li, item ∉ q.rem src item li := by
  intro li hmem
  obtain ⟨hli, hne⟩ := (Sequences.mem_rem (h.woven.threads src).nodup).mp hmem
  have hlisrc : li ≠ src := fun heq => hne ⟨heq, rfl⟩
  exact h.woven.disjoint src li hlisrc.symm item hitem hli

theorem remAndPush (h : Holds cm q) (src dest : ListId) (item : Nat) :
    ∃ cm', cm.remAndPush src dest item = .ok (decide (item ∈ q src), cm') ∧
      OnlyLists cm cm' ∧
      Holds cm' (if item ∈ q src then (q.rem src item).push dest item else q) ∧
      (item ∉ q src → cm' = cm) := by
  obtain ⟨cm₁, hrem, hframe, hholds, hsame⟩ := h.rem src item
  rw [CacheManager.remAndPush, hrem, ok_bind]
  by_cases hmem : item ∈ q src
  · rw [if_pos hmem, decide_eq_true hmem]
    have hbound : item < cm₁.slabctlCount := by
      obtain ⟨_, _, rfl⟩ := hframe
      exact h.bound src item hmem
    exact ⟨cm₁.push dest item, rfl, hframe.trans ⟨_, _, rfl⟩,
      hholds.push dest hbound (h.notMem_rem hmem), fun hnot => absurd hmem hnot⟩
  · rw [if_neg hmem, decide_eq_false hmem]
    rw [Sequences.rem_of_notMem hmem] at hholds
    exact ⟨cm₁, rfl, hframe, hholds, hsame⟩

theorem popAndPush (h : Holds cm q) (src dest : ListId) :
    ∃ cm', cm.popAndPush src dest = (decide (q src ≠ []), cm') ∧ OnlyLists cm cm' ∧
      Holds cm' (match (q src).head? with
        | some item => (q.pop src).push dest item
        | none => q) := by
  obtain ⟨hres, hholds⟩ := h.pop src
  have hframe : OnlyLists cm (cm.pop src).2 := ⟨_, _, rfl⟩
  rw [CacheManager.popAndPush]
  rcases hp : cm.pop src with ⟨res, cm₁⟩
  rw [hp] at hres hholds hframe
  dsimp only at hres hholds hframe
  subst hres
  cases hsrc : q src with
  | nil =>
      rw [Sequences.pop_of_nil hsrc] at hholds
      exact ⟨cm₁, rfl, hframe, hholds⟩
  | cons item rest =>
      have hmem : item ∈ q src := by simp [hsrc]
      have hbound : item < cm₁.slabctlCount := by
        obtain ⟨_, _, rfl⟩ := hframe
        exact h.bound src item hmem
      have hnew : ∀ li, item ∉ q.pop src li := by
        rw [Sequences.pop_of_cons hsrc]
        exact h.notMem_rem hmem
      refine ⟨cm₁.push dest item, rfl, hframe.trans ⟨_, _, rfl⟩,
        hholds.push dest hbound hnew⟩

end Holds

/-! ## The initial state -/

theorem seg_initialised (sizes : List Nat) {n : Nat} :
    ∀ k first, first + k = n →
      Seg (initialised sizes n).link none (List.range' first k) := by
  intro k
  induction k with
  | zero => exact fun _ _ => trivial
  | succ k ih =>
      intro first hsum
      have htail := ih (first + 1) (by omega)
      cases k with
      | zero =>
          have hlast : first = n - 1 := by omega
          simp [List.range', Seg, initialised, hlast]
      | succ k =>
          have hnext : first ≠ n - 1 := by omega
          rw [List.range'_succ] at htail ⊢
          rw [List.range'_succ]
          refine ⟨?_, ?_, htail⟩
          · simp [initialised, hnext]
          · simp [initialised]

/-- Initially every slab is on the free list, in the order of the array. -/
def initialQueues (n : Nat) : Sequences ListId Nat
  | .slabsFree => List.range n
  | _ => []

theorem mem_initialQueues {n : Nat} {li : ListId} {i : Nat} :
    i ∈ initialQueues n li ↔ i < n ∧ li = .slabsFree := by
  cases li <;> simp [initialQueues]

theorem holds_initialised (sizes : List Nat) {n : Nat} (hn : 0 < n) :
    Holds (initialised sizes n) (initialQueues n) := by
  refine ⟨⟨fun li => ?_, fun li li' hne i hi hi' => ?_⟩, fun li i hi => ?_⟩
  · cases li with
    | slabsFree =>
        refine ⟨?_, ?_, ?_, List.nodup_range⟩
        · simp [initialised, initialQueues, List.head?_range, hn.ne']
        · simp [initialised, initialQueues, List.getLast?_range, hn.ne']
        · rw [initialQueues, List.range_eq_range']
          exact seg_initialised sizes n 0 (Nat.zero_add n)
    | slabsFull c => exact threads_nil
    | slabsPartial c => exact threads_nil
  · rw [mem_initialQueues] at hi hi'
    exact hne (hi.2.trans hi'.2.symm)
  · exact (mem_initialQueues.mp hi).1

/-! ## Runs of list operations -/

namespace CacheManager

def listOp (cm : CacheManager) :
    ListOp ListId Nat → Except Fault (CacheManager × ListResult Nat)
  | .push li item => .ok (cm.push li item, .done)
  | .pop li =>
      let (item, cm) := cm.pop li
      .ok (cm, .popped item)
  | .rem li item => do
      let (res, cm) ← cm.rem li item
      return (cm, .found res)
  | .remAndPush src dest item => do
      let (res, cm) ← cm.remAndPush src dest item
      return (cm, .found res)
  | .popAndPush src dest =>
      let (res, cm) := cm.popAndPush src dest
      .ok (cm, .found res)

end CacheManager

variable {cm : CacheManager} {q : Sequences ListId Nat}

theorem listOp_post (h : Holds cm q) (op : ListOp ListId Nat)
    (hop : q.Enters (· < cm.slabctlCount) op) :
    ∃ cm', cm.listOp op = .ok (cm', (q.apply op).2) ∧ OnlyLists cm cm' ∧
      Holds cm' (q.apply op).1 := by
  cases op with
  | push li item =>
      exact ⟨cm.push li item, rfl, ⟨_, _, rfl⟩, h.push li hop.1 hop.2⟩
  | pop li =>
      obtain ⟨hres, hholds⟩ := h.pop li
      refine ⟨(cm.pop li).2, ?_, ⟨_, _, rfl⟩, hholds⟩
      rw [CacheManager.listOp, Sequences.apply, ← hres]
  | rem li item =>
      obtain ⟨cm', hrem, hframe, hholds, -⟩ := h.rem li item
      refine ⟨cm', ?_, hframe, hholds⟩
      rw [CacheManager.listOp, hrem]
      rfl
  | remAndPush src dest item =>
      obtain ⟨cm', hmove, hframe, hholds, -⟩ := h.remAndPush src dest item
      rw [CacheManager.listOp, hmove, ok_bind, Sequences.apply]
      by_cases hmem : item ∈ q src
      · rw [if_pos hmem] at hholds ⊢
        exact ⟨cm', by rw [decide_eq_true hmem]; rfl, hframe, hholds⟩
      · rw [if_neg hmem] at hholds ⊢
        exact ⟨cm', by rw [decide_eq_false hmem]; rfl, hframe, hholds⟩
  | popAndPush src dest =>
      obtain ⟨cm', hmove, hframe, hholds⟩ := h.popAndPush src dest
      rw [CacheManager.listOp, hmove, Sequences.apply]
      cases hsrc : q src with
      | nil =>
          rw [hsrc] at hholds
          exact ⟨cm', rfl, hframe, hholds⟩
      | cons item rest =>
          rw [hsrc] at hholds
          exact ⟨cm', rfl, hframe, hholds⟩

/-- What a list of the manager looks like when its sequence is `items`. -/
structure Visits (cm : CacheManager) (li : ListId) (items : List Nat) : Prop where
  follow : ∀ n, items.length ≤ n → follow cm.link n (cm.lists li).head = items
  nodup : items.Nodup
  tail : (cm.lists li).tail = items.getLast?
  prev : ∀ k a b, items[k]? = some a → items[k + 1]? = some b →
    (cm.link b).prev = some a

theorem Holds.visits (h : Holds cm q) (li : ListId) : Visits cm li (q li) := by
  have ht := h.woven.threads li
  refine ⟨fun n hn => ?_, ht.nodup, ht.tail, fun k a b ha hb => ht.seg.prev ha hb⟩
  rw [ht.head]
  exact ht.seg.follow hn

theorem lists_are_sequences (h : Holds cm q) (ops : List (ListOp ListId Nat))
    (hops : Along Sequences.apply (Sequences.Enters (· < cm.slabctlCount)) q ops) :
    ∃ cm' q', q' = (outcomes Sequences.apply q ops).1 ∧
      replies CacheManager.listOp cm ops =
        .ok (cm', (outcomes Sequences.apply q ops).2) ∧
      OnlyLists cm cm' ∧ Holds cm' q' ∧ (∀ li, Visits cm' li (q' li)) ∧
      ∀ li item, item ∉ q' li → cm'.rem li item = .ok (false, cm') := by
  have hcount : ∀ {cm'}, OnlyLists cm cm' → cm'.slabctlCount = cm.slabctlCount := by
    rintro _ ⟨_, _, rfl⟩
    rfl
  obtain ⟨cm', hrun, hframe, hholds⟩ := replies_outcomes
    (R := fun cm' q' => OnlyLists cm cm' ∧ Holds cm' q')
    (fun cm₁ q₁ op h₁ hop => by
      obtain ⟨cm₂, hop₂, hframe₂, hholds₂⟩ := listOp_post h₁.2 op (by rwa [hcount h₁.1])
      exact ⟨cm₂, hop₂, h₁.1.trans hframe₂, hholds₂⟩)
    ⟨.refl cm, h⟩ hops
  refine ⟨cm', _, rfl, hrun, hframe, hholds, hholds.visits, fun li item hnot => ?_⟩
  obtain ⟨cm'', hrem, -, -, hsame⟩ := hholds.rem li item
  rw [hrem, hsame hnot, decide_eq_false hnot]

theorem lists_are_sequences_initialised :
    ∃ cm' q', q' = (outcomes Sequences.apply (initialQueues 3)
        [.pop .slabsFree, .push (.slabsPartial 0) 0,
          .remAndPush .slabsFree (.slabsPartial 0) 2, .rem (.slabsPartial 0) 1]).1 ∧
      replies CacheManager.listOp (initialised [24] 3)
        [.pop .slabsFree, .push (.slabsPartial 0) 0,
          .remAndPush .slabsFree (.slabsPartial 0) 2, .rem (.slabsPartial 0) 1] =
        .ok (cm', [.popped (some 0), .done, .found true, .found false]) ∧
      OnlyLists (initialised [24] 3) cm' ∧ Holds cm' q' ∧
      (∀ li, Visits cm' li (q' li)) ∧
      ∀ li item, item ∉ q' li → cm'.rem li item = .ok (false, cm') := by
  refine lists_are_sequences (holds_initialised [24] (by decide)) _
    ⟨trivial, ⟨by decide, fun li => ?_⟩, trivial, trivial, trivial⟩
  have hpop : Sequences.pop (initialQueues 3) .slabsFree =
      Sequences.rem (initialQueues 3) .slabsFree 0 := Sequences.pop_of_cons rfl
  change 0 ∉ Sequences.pop (initialQueues 3) .slabsFree li
  rw [hpop]
  exact (holds_initialised [24] (by decide : 0 < 3)).notMem_rem (by decide) li

end Lightcache.Slab
