import Lightcache.Foundation.LinkedList

/-!
# Collections of sequences

Several lists share one map of nodes.  Their contents are a sequence for each
list, and the list operations are operations on these sequences.
-/

namespace Lightcache.Foundation

variable {κ α : Type} [DecidableEq κ]

inductive ListOp (κ α : Type) where
  | push (li : κ) (item : α)
  | pop (li : κ)
  | rem (li : κ) (item : α)
  | remAndPush (src dest : κ) (item : α)
  | popAndPush (src dest : κ)
  deriving DecidableEq, Repr

inductive ListResult (α : Type) where
  | done
  | popped (item : Option α)
  | found (b : Bool)
  deriving DecidableEq, Repr

abbrev Sequences (κ α : Type) := κ → List α

namespace Sequences

def push (q : Sequences κ α) (li : κ) (item : α) : Sequences κ α :=
  Function.update q li (item :: q li)

def pop (q : Sequences κ α) (li : κ) : Sequences κ α :=
  Function.update q li (q li).tail

def rem [DecidableEq α] (q : Sequences κ α) (li : κ) (item : α) : Sequences κ α :=
  Function.update q li ((q li).erase item)

def apply [DecidableEq α] (q : Sequences κ α) : ListOp κ α → Sequences κ α × ListResult α
  | .push li item => (q.push li item, .done)
  | .pop li => (q.pop li, .popped (q li).head?)
  | .rem li item => (q.rem li item, .found (decide (item ∈ q li)))
  | .remAndPush src dest item =>
      if item ∈ q src then ((q.rem src item).push dest item, .found true)
      else (q, .found false)
  | .popAndPush src dest =>
      match (q src).head? with
      | some item => ((q.pop src).push dest item, .found true)
      | none => (q, .found false)

/-- An item that is pushed is on no list yet. -/
def Enters (nodes : α → Prop) (q : Sequences κ α) : ListOp κ α → Prop
  | .push _ item => nodes item ∧ ∀ li, item ∉ q li
  | _ => True

theorem mem_push {q : Sequences κ α} {li li' : κ} {item a : α} :
    a ∈ q.push li item li' ↔ (li' = li ∧ a = item) ∨ a ∈ q li' := by
  by_cases hli : li' = li
  · subst hli
    simp [push]
  · simp [push, hli]

theorem mem_rem [DecidableEq α] {q : Sequences κ α} {li li' : κ} {item a : α}
    (hnd : (q li).Nodup) :
    a ∈ q.rem li item li' ↔ a ∈ q li' ∧ ¬ (li' = li ∧ a = item) := by
  by_cases hli : li' = li
  · subst hli
    simp [rem, hnd.mem_erase_iff, and_comm]
  · simp [rem, hli]

/-- The first item is popped. -/
theorem pop_of_cons [DecidableEq α] {q : Sequences κ α} {li : κ} {item : α}
    {rest : List α} (h : q li = item :: rest) : q.pop li = q.rem li item := by
  rw [pop, rem, h, List.erase_cons_head, List.tail_cons]

theorem rem_of_notMem [DecidableEq α] {q : Sequences κ α} {li : κ} {item : α} (h : item ∉ q li) :
    q.rem li item = q := by
  rw [rem, List.erase_of_not_mem h, Function.update_eq_self]

theorem pop_of_nil {q : Sequences κ α} {li : κ} (h : q li = []) : q.pop li = q := by
  rw [pop, h, List.tail_nil, ← h, Function.update_eq_self]

end Sequences

/-- Every list visits its sequence, and no two lists share an item. -/
structure Woven (link : α → Link α) (ends : κ → Ends α) (q : Sequences κ α) : Prop where
  threads : ∀ li, Threads link (ends li) (q li)
  disjoint : ∀ li li', li ≠ li' → ∀ a ∈ q li, a ∉ q li'

/-! ## Following `next` -/

/-- The items met from `start` on, at most `n` of them. -/
def follow (link : α → Link α) : Nat → Option α → List α
  | 0, _ => []
  | _ + 1, none => []
  | n + 1, some a => a :: follow link n (link a).next

variable {link : α → Link α} {ends : Ends α} {items : List α}

theorem Seg.follow (h : Seg link none items) {n : Nat} (hn : items.length ≤ n) :
    follow link n items.head? = items := by
  induction items generalizing n with
  | nil => cases n <;> rfl
  | cons a rest ih =>
      obtain ⟨n, rfl⟩ : ∃ k, n = k + 1 := ⟨n - 1, by simp at hn; omega⟩
      rw [List.head?_cons, Foundation.follow, h.next_head, ih h.tail (by simpa using hn)]

theorem Seg.prev (h : Seg link none items) {k : Nat} {a b : α}
    (ha : items[k]? = some a) (hb : items[k + 1]? = some b) :
    (link b).prev = some a := by
  induction items generalizing k with
  | nil => simp at ha
  | cons c rest ih =>
      cases k with
      | zero =>
          cases rest with
          | nil => simp at hb
          | cons d rest =>
              rw [List.getElem?_cons_zero, Option.some.injEq] at ha
              rw [List.getElem?_cons_succ, List.getElem?_cons_zero,
                Option.some.injEq] at hb
              subst ha hb
              exact h.2.1
      | succ k => exact ih h.tail (by simpa using ha) (by simpa using hb)

end Lightcache.Foundation
