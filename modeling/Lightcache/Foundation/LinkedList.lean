import Mathlib.Data.List.Nodup
import Mathlib.Logic.Function.Basic

/-!
# Doubly linked lists over a map of nodes

A node carries a `next` and a `prev` pointer and sits in at most one list.
`Threads link ends items` says that the list between `ends` visits exactly
`items`.  Nothing is said about `prev` of the first item: a list that is only
entered at its head never reads it.
-/

namespace Lightcache.Foundation

structure Link (α : Type) where
  next : Option α
  prev : Option α
  deriving DecidableEq, Repr

structure Ends (α : Type) where
  head : Option α
  tail : Option α
  deriving DecidableEq, Repr

variable {α : Type}

/-- The items follow each other; the last one points to `stop`. -/
def Seg (link : α → Link α) (stop : Option α) : List α → Prop
  | [] => True
  | [a] => (link a).next = stop
  | a :: b :: rest =>
      (link a).next = some b ∧ (link b).prev = some a ∧ Seg link stop (b :: rest)

structure Threads (link : α → Link α) (ends : Ends α) (items : List α) : Prop where
  head : ends.head = items.head?
  tail : ends.tail = items.getLast?
  seg : Seg link none items
  nodup : items.Nodup

variable {link link' : α → Link α} {ends : Ends α} {items pre post : List α}
  {stop : Option α} {a b p : α}

theorem threads_nil : Threads link ⟨none, none⟩ [] := ⟨rfl, rfl, trivial, .nil⟩

/-- A segment depends on the `next` pointers and all `prev` pointers but one. -/
theorem Seg.congr (h : Seg link stop items)
    (hnext : ∀ a ∈ items, (link' a).next = (link a).next)
    (hprev : ∀ a ∈ items.tail, (link' a).prev = (link a).prev) :
    Seg link' stop items := by
  induction items with
  | nil => trivial
  | cons a rest ih =>
      cases rest with
      | nil => exact (hnext a (by simp)).trans h
      | cons b rest =>
          obtain ⟨hab, hba, hrest⟩ := h
          refine ⟨(hnext a (by simp)).trans hab, (hprev b (by simp)).trans hba,
            ih hrest (fun c hc => hnext c (List.mem_cons_of_mem _ hc))
              fun c hc => hprev c ?_⟩
          exact List.mem_of_mem_tail hc

theorem seg_append_cons :
    Seg link stop (pre ++ a :: post) ↔
      Seg link (some a) pre ∧ (∀ p ∈ pre.getLast?, (link a).prev = some p) ∧
        Seg link stop (a :: post) := by
  induction pre with
  | nil => simp [Seg]
  | cons c pre ih =>
      cases pre with
      | nil => simp [Seg]
      | cons d pre =>
          rw [List.cons_append, List.cons_append, Seg, ← List.cons_append, ih, Seg,
            List.getLast?_cons_cons]
          tauto

theorem Seg.tail (h : Seg link stop (a :: post)) : Seg link stop post := by
  cases post with
  | nil => trivial
  | cons b post => exact h.2.2

theorem Seg.next_head (h : Seg link none (a :: post)) :
    (link a).next = post.head? := by
  cases post with
  | nil => exact h
  | cons b post => exact h.1

theorem Threads.congr (h : Threads link ends items)
    (hlink : ∀ a ∈ items, link' a = link a) : Threads link' ends items where
  head := h.head
  tail := h.tail
  seg := h.seg.congr (fun a ha => by rw [hlink a ha])
    fun a ha => by rw [hlink a (List.mem_of_mem_tail ha)]
  nodup := h.nodup

/-- A new first item: it points to the old one, and the old one back to it. -/
theorem Threads.cons (h : Threads link ends items) (link' : α → Link α)
    (ha : a ∉ items)
    (hnext : (link' a).next = items.head?)
    (hprev : ∀ b ∈ items.head?, (link' b).prev = some a)
    (hsame : ∀ b ∈ items, (link' b).next = (link b).next ∧
      (b ∈ items.tail → (link' b).prev = (link b).prev)) :
    Threads link' ⟨some a, if items = [] then some a else ends.tail⟩ (a :: items) where
  head := rfl
  tail := by
    cases items with
    | nil => rfl
    | cons b rest =>
        rw [if_neg (by simp), h.tail, List.getLast?_cons_cons]
  seg := by
    have hseg := h.seg.congr (fun b hb => (hsame b hb).1)
      fun b hb => (hsame b (List.mem_of_mem_tail hb)).2 hb
    cases items with
    | nil => exact hnext
    | cons b rest => exact ⟨hnext, hprev b rfl, hseg⟩
  nodup := List.nodup_cons.mpr ⟨ha, h.nodup⟩

/-- Dropping the first item. -/
theorem Threads.drop_head (h : Threads link ends (a :: items))
    (hsame : ∀ b ∈ items, link' b = link b) :
    Threads link' ⟨items.head?, if items = [] then none else ends.tail⟩ items where
  head := rfl
  tail := by
    cases items with
    | nil => rfl
    | cons b rest =>
        rw [if_neg (by simp), h.tail, List.getLast?_cons_cons]
  seg := h.seg.tail.congr (fun b hb => by rw [hsame b hb])
    fun b hb => by rw [hsame b (List.mem_of_mem_tail hb)]
  nodup := (List.nodup_cons.mp h.nodup).2

/-- Bypassing an item that is not the first: `p` is the one before it. -/
theorem Threads.bypass (h : Threads link ends (pre ++ p :: a :: post))
    (link' : α → Link α)
    (hp : (link' p).next = post.head? ∧ (link' p).prev = (link p).prev)
    (hpost : ∀ b ∈ post.head?, (link' b).prev = some p ∧
      (link' b).next = (link b).next)
    (hsame : ∀ b ∈ pre ++ p :: a :: post, b ≠ p → b ∉ post.head? →
      link' b = link b) :
    Threads link' ⟨ends.head, if post = [] then some p else ends.tail⟩
      (pre ++ p :: post) where
  head := by
    rw [h.head]
    cases pre <;> rfl
  tail := by
    cases post with
    | nil => simp
    | cons b post =>
        rw [if_neg (by simp), h.tail]
        simp [List.getLast?_append]
  seg := by
    obtain ⟨hpre, hlast, hrest⟩ := seg_append_cons.mp h.seg
    obtain ⟨-, -, hrest⟩ := hrest
    have hnd := h.nodup
    rw [List.nodup_append] at hnd
    obtain ⟨-, hnd, hdisj⟩ := hnd
    have hsamePre : ∀ b ∈ pre, link' b = link b := fun b hb =>
      hsame b (by simp [hb]) (fun hbp => hdisj b hb p (by simp) hbp) fun hbh =>
        hdisj b hb b (by
          have := List.mem_of_mem_head? hbh
          simp [this]) rfl
    refine seg_append_cons.mpr ⟨hpre.congr (fun b hb => by rw [hsamePre b hb])
      fun b hb => by rw [hsamePre b (List.mem_of_mem_tail hb)], ?_, ?_⟩
    · intro c hc
      rw [hp.2]
      exact hlast c hc
    · cases post with
      | nil => exact hp.1
      | cons b post =>
          have hb := hpost b rfl
          refine ⟨hp.1, hb.1, ?_⟩
          have hseg : Seg link none (b :: post) := hrest.tail
          simp only [List.nodup_cons, List.mem_cons, not_or] at hnd
          have hsamePost : ∀ c ∈ post, link' c = link c := fun c hc =>
            hsame c (by simp [hc]) (fun hcp => hnd.1.2.2 (hcp ▸ hc))
              fun hcb => hnd.2.2.1 (by
                rw [List.head?_cons, Option.mem_some_iff] at hcb
                exact hcb ▸ hc)
          refine hseg.congr (fun c hc => ?_) fun c hc => by rw [hsamePost c hc]
          rcases List.mem_cons.mp hc with rfl | hc
          · exact hb.2
          · rw [hsamePost c hc]
  nodup := h.nodup.sublist (by
    refine List.Sublist.append_left ?_ pre
    exact List.Sublist.cons_cons p (List.sublist_cons_self a post))

end Lightcache.Foundation
