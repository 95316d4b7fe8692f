import Lightcache.CRuntime
import Lightcache.Foundation.LinkedList
import Mathlib.Data.List.Perm.Basic

/-!
# `slab.c`: the lists of slabs

The list operations work on the `next` and `prev` fields of all `slab_ctl_t`,
kept in one map, and on the ends of one `list_t`.
-/

namespace Lightcache.Slab

open Lightcache Lightcache.Foundation

variable {α : Type} [DecidableEq α]

def peek (li : Ends α) : Option α := li.head

def push (link : α → Link α) (li : Ends α) (item : α) : (α → Link α) × Ends α :=
  let link := Function.update link item ⟨li.head, none⟩
  match li.head with
  | some head =>
      (Function.update link head { link head with prev := some item },
        { li with head := some item })
  | none => (link, ⟨some item, some item⟩)

/-- The new head keeps its `prev` pointer to the popped item. -/
def pop (link : α → Link α) (li : Ends α) : Option α × (α → Link α) × Ends α :=
  match li.head with
  | none => (none, link, { li with tail := none })
  | some head =>
      let link := Function.update link head { link head with prev := none }
      let next := (link head).next
      (some head, link, ⟨next, if next = none then none else li.tail⟩)

/-- The body of the loop in `rem`, once `cit` is the item to remove. -/
def unlink (link : α → Link α) (li : Ends α) (cit : α) :
    Except Fault ((α → Link α) × Ends α) :=
  if li.head = some cit then
    let (_, link, li) := pop link li
    .ok (link, li)
  else if li.tail = some cit then
    match (link cit).prev with
    | none => .error .assertion
    | some prev =>
        let link := Function.update link prev { link prev with next := none }
        .ok (link, { li with tail := (link cit).prev })
  else
    match (link cit).prev with
    | none => .error .nullDeref
    | some prev =>
        let link :=
          Function.update link prev { link prev with next := (link cit).next }
        match (link cit).next with
        | none => .error .nullDeref
        | some next =>
            .ok (Function.update link next { link next with prev := (link cit).prev },
              li)

/-- The loop of `rem` from `cit` on, over at most `fuel` items. -/
def remFrom (link : α → Link α) (li : Ends α) (item : α) :
    Nat → Option α → Except Fault (Bool × (α → Link α) × Ends α)
  | _, none => .ok (false, link, li)
  | 0, some _ => .error .outOfFuel
  | fuel + 1, some cit =>
      if cit = item then do
        let (link, li) ← unlink link li cit
        return (true, link, li)
      else remFrom link li item fuel (link cit).next

def rem (fuel : Nat) (link : α → Link α) (li : Ends α) (item : α) :
    Except Fault (Bool × (α → Link α) × Ends α) :=
  remFrom link li item fuel li.head

/-! ## What the operations do to the items of a list -/

variable {link : α → Link α} {li : Ends α} {items : List α} {item : α}

/-- The result of a list operation: the items after it, and the links it keeps. -/
structure Relinked (link : α → Link α) (r : (α → Link α) × Ends α)
    (touched items : List α) : Prop where
  threads : Threads r.1 r.2 items
  same : ∀ a ∉ touched, r.1 a = link a

theorem push_post (h : Threads link li items) (hitem : item ∉ items) :
    Relinked link (push link li item) (item :: items) (item :: items) := by
  cases items with
  | nil =>
      have hhead : li.head = none := h.head
      have hcons := h.cons (Function.update link item ⟨none, none⟩) hitem
        (by simp) (by simp) (by simp)
      refine ⟨by simpa [push, hhead] using hcons, fun a ha => ?_⟩
      have hne : a ≠ item := fun h => ha (by simp [h])
      simp [push, hhead, hne]
  | cons b rest =>
      have hhead : li.head = some b := h.head
      have hbi : b ≠ item := fun h => hitem (by simp [h])
      have hrest : ∀ c ∈ rest, c ≠ item ∧ c ≠ b := fun c hc =>
        ⟨fun h => hitem (by simp [← h, hc]),
          fun hcb => (List.nodup_cons.mp h.nodup).1 (hcb ▸ hc)⟩
      refine ⟨?_, fun a ha => ?_⟩
      · have hcons := h.cons (push link li item).1 hitem ?_ ?_ ?_
        · simpa [push, hhead] using hcons
        · simp [push, hhead, hbi.symm]
        · simp [push, hhead]
        · intro c hc
          rcases List.mem_cons.mp hc with rfl | hc
          · refine ⟨by simp [push, hhead, hbi], fun htail => ?_⟩
            exact absurd htail (List.nodup_cons.mp h.nodup).1
          · simp [push, hhead, (hrest c hc).1, (hrest c hc).2]
      · have hne : a ≠ item ∧ a ≠ b := ⟨fun h => ha (by simp [h]), fun h => ha (by simp [h])⟩
        simp [push, hhead, hne.1, hne.2]

theorem pop_nil (h : Threads link li ([] : List α)) :
    pop link li = (none, link, ⟨none, none⟩) := by
  have hhead : li.head = none := h.head
  simp [pop, hhead]

theorem pop_post {a : α} (h : Threads link li (a :: items)) :
    (pop link li).1 = some a ∧ Relinked link (pop link li).2 [a] items := by
  have hhead : li.head = some a := h.head
  have hnext := h.seg.next_head
  have hsame : ∀ b, b ≠ a → (pop link li).2.1 b = link b := fun b hb => by
    simp [pop, hhead, hb]
  have hends : (pop link li).2.2 =
      ⟨items.head?, if items = [] then none else li.tail⟩ := by
    simp [pop, hhead, hnext]
  refine ⟨by simp [pop, hhead], ?_, fun b hb => hsame b (by simpa using hb)⟩
  rw [hends]
  exact h.drop_head fun b hb =>
    hsame b fun hba => (List.nodup_cons.mp h.nodup).1 (hba ▸ hb)

theorem unlink_post (h : Threads link li items) (hitem : item ∈ items) :
    ∃ r, unlink link li item = .ok r ∧ Relinked link r items (items.erase item) := by
  obtain ⟨pre, post, rfl⟩ := List.append_of_mem hitem
  have hnd := h.nodup
  have hnotpre : item ∉ pre := fun hmem => by
    rw [List.nodup_append] at hnd
    exact hnd.2.2 item hmem item (by simp) rfl
  have herase : (pre ++ item :: post).erase item = pre ++ post := by
    rw [List.erase_append_right _ hnotpre, List.erase_cons_head]
  rw [herase]
  rcases List.eq_nil_or_concat pre with rfl | ⟨pre, p, rfl⟩
  · -- the head goes
    have hhead : li.head = some item := h.head
    obtain ⟨-, hpop⟩ := pop_post h
    refine ⟨(pop link li).2, by simp [unlink, hhead], ?_⟩
    exact ⟨hpop.threads, fun b hb => hpop.same b fun hbi => hb (by
      simp [List.mem_singleton.mp hbi])⟩
  simp only [List.concat_eq_append, List.append_assoc, List.cons_append,
    List.nil_append] at h hnd ⊢
  have hitemp : item ≠ p := fun heq => by
    rw [List.nodup_append] at hnd
    exact (List.nodup_cons.mp hnd.2.1).1 (by simp [heq])
  have hhead : li.head ≠ some item := by
    rw [h.head]
    intro heq
    cases pre with
    | nil => exact hitemp (Option.some.inj heq).symm
    | cons c pre =>
        have hc : c = item := Option.some.inj heq
        exact (List.nodup_cons.mp hnd).1 (by simp [hc])
  obtain ⟨-, -, hseg⟩ := seg_append_cons.mp h.seg
  have hprev : (link item).prev = some p := hseg.2.1
  have hnext := hseg.tail.next_head
  cases post with
  | nil =>
      -- the tail goes
      have htail : li.tail = some item := by
        rw [h.tail]
        simp
      refine ⟨(Function.update link p { link p with next := none },
        ⟨li.head, some p⟩), ?_, ?_, fun b hb => ?_⟩
      · simp [unlink, hhead, htail, hprev, hitemp]
      · have hby := h.bypass
          (Function.update link p { link p with next := none })
          (by simp) (by simp) fun b _ hbp _ => by simp [hbp]
        simpa using hby
      · have hbp : b ≠ p := fun hbp => hb (by simp [hbp])
        simp [hbp]
  | cons q post =>
      have htail : li.tail ≠ some item := by
        rw [h.tail]
        intro heq
        have hlast : (q :: post).getLast? = some item := by
          rwa [List.append_cons, List.append_cons, List.getLast?_append_of_ne_nil _
            (List.cons_ne_nil q post)] at heq
        rw [List.nodup_append] at hnd
        have := (List.nodup_cons.mp (List.nodup_cons.mp hnd.2.1).2).1
        exact this (List.mem_of_getLast? hlast)
      have hpq : q ≠ p := fun heq => by
        rw [List.nodup_append] at hnd
        exact (List.nodup_cons.mp hnd.2.1).1 (by simp [heq])
      have hitemq : item ≠ q := fun heq => by
        rw [List.nodup_append] at hnd
        exact (List.nodup_cons.mp (List.nodup_cons.mp hnd.2.1).2).1 (by simp [heq])
      have hnextq : (link item).next = some q := hnext
      refine ⟨(Function.update (Function.update link p { link p with next := some q }) q
        { link q with prev := some p }, li), ?_, ?_, fun b hb => ?_⟩
      · simp [unlink, hhead, htail, hprev, hnextq, hitemp, hpq]
      · have hby := h.bypass
          (Function.update
            (Function.update link p { link p with next := some q }) q
            { link q with prev := some p })
          (by simp [hpq.symm]) (by simp) fun b _ hbp hbq => by
            have : b ≠ q := fun hq => hbq (by simp [hq])
            simp [hbp, this]
        simpa using hby
      · have hbp : b ≠ p := fun hbp => hb (by simp [hbp])
        have hbq : b ≠ q := fun hbq => hb (by simp [hbq])
        simp [hbp, hbq]

theorem remFrom_post {rest pre : List α} (h : Threads link li items)
    (hitems : items = pre ++ rest) (hpre : item ∉ pre) {fuel : Nat}
    (hfuel : rest.length ≤ fuel) :
    ∃ r, remFrom link li item fuel rest.head? = .ok (decide (item ∈ items), r) ∧
      Relinked link r items (items.erase item) ∧
      (item ∉ items → r = (link, li)) := by
  induction rest generalizing pre fuel with
  | nil =>
      rw [List.append_nil] at hitems
      subst hitems
      refine ⟨(link, li), ?_, ⟨?_, fun _ _ => rfl⟩, fun _ => rfl⟩
      · simp [remFrom, hpre]
      · rwa [List.erase_of_not_mem hpre]
  | cons cit rest ih =>
      obtain ⟨fuel, rfl⟩ : ∃ n, fuel = n + 1 :=
        ⟨fuel - 1, by simp at hfuel; omega⟩
      rw [List.head?_cons, remFrom]
      by_cases hcit : cit = item
      · have hmem : item ∈ items := by simp [hitems, hcit]
        obtain ⟨r, hr, hpost⟩ := unlink_post h hmem
        exact ⟨r, by rw [if_pos hcit, hcit, hr]; simp [hmem], hpost,
          fun hnot => absurd hmem hnot⟩
      · have hseg : Seg link none (cit :: rest) :=
          (seg_append_cons.mp (hitems ▸ h.seg)).2.2
        rw [if_neg hcit, hseg.next_head]
        exact ih (show items = (pre ++ [cit]) ++ rest by simp [hitems])
          (by simp [hpre, Ne.symm hcit]) (by simp at hfuel; omega)

/-- `rem` removes the item and says whether it was there. -/
theorem rem_post (h : Threads link li items) (item : α) {fuel : Nat}
    (hfuel : items.length ≤ fuel) :
    ∃ r, rem fuel link li item = .ok (decide (item ∈ items), r) ∧
      Relinked link r items (items.erase item) ∧
      (item ∉ items → r = (link, li)) := by
  rw [rem, h.head]
  exact remFrom_post h (List.nil_append _).symm (by simp) hfuel

end Lightcache.Slab
