import Mathlib.Data.List.Forall2

/-!
# Streams of messages

Messages are written one after another into a stream, and a decoder takes them
out again from the front.  What has been written ends between two messages or
inside the last one.
-/

namespace Lightcache.Foundation

universe u v

variable {α : Type u} {β : Type v}

/-- `w` is the messages `ms`, of which the last may be incomplete. -/
def Written (ms : List (List β)) (w : List β) : Prop :=
  w <+: ms.flatten ∧ ms.dropLast.flatten <+: w

theorem Written.all (ms : List (List β)) : Written ms ms.flatten := by
  refine ⟨List.prefix_refl _, ?_⟩
  rcases List.eq_nil_or_concat ms with rfl | ⟨init, m, rfl⟩
  · exact List.prefix_refl _
  · rw [List.concat_eq_append, List.dropLast_concat, List.flatten_append]
    exact List.prefix_append ..

theorem Written.part (ms : List (List β)) {m w : List β} (h : w <+: m) :
    Written (ms ++ [m]) (ms.flatten ++ w) := by
  rw [Written, List.flatten_append, List.flatten_singleton, List.dropLast_concat]
  exact ⟨(List.prefix_append_right_inj _).mpr h, List.prefix_append ..⟩

/-- Where the stream ends, if it does not end between two messages. -/
theorem Written.cases {ms : List (List β)} {w : List β} (h : Written ms w)
    (hw : w ≠ ms.flatten) :
    ∃ init m v, ms = init ++ [m] ∧ w = init.flatten ++ v ∧ v <+: m ∧ v ≠ m := by
  rcases List.eq_nil_or_concat ms with rfl | ⟨init, m, rfl⟩
  · exact absurd (List.prefix_nil.mp h.1) hw
  · obtain ⟨hall, hinit⟩ := h
    rw [List.concat_eq_append] at *
    rw [List.dropLast_concat] at hinit
    obtain ⟨v, rfl⟩ := hinit
    rw [List.flatten_append, List.flatten_singleton] at hall hw
    exact ⟨init, m, v, rfl, rfl, (List.prefix_append_right_inj _).mp hall,
      fun hv => hw (congrArg _ hv)⟩

/-! ## Decoding -/

variable {dec : List β → Option (α × List β)}

/-- All that can be decoded from the front of a stream, and what is left. -/
def drain (dec : List β → Option (α × List β)) : Nat → List β → List α × List β
  | 0, w => ([], w)
  | n + 1, w =>
      match dec w with
      | none => ([], w)
      | some (x, rest) => (x :: (drain dec n rest).1, (drain dec n rest).2)

/-- The decoder takes `m` for `x` wherever it comes, and waits while it is incomplete. -/
structure Frames (dec : List β → Option (α × List β)) (x : α) (m : List β) : Prop where
  whole : ∀ rest, dec (m ++ rest) = some (x, rest)
  part : ∀ w, w <+: m → w ≠ m → dec w = none

theorem Frames.ne_nil {x : α} {m : List β} (h : Frames dec x m) (hnil : dec [] = none) :
    m ≠ [] := by
  rintro rfl
  have hwhole := h.whole []
  rw [List.append_nil, hnil] at hwhole
  cases hwhole

theorem drain_frames {xs : List α} {ms : List (List β)} (h : List.Forall₂ (Frames dec) xs ms)
    {w : List β} (hw : dec w = none) {n : Nat} (hn : xs.length ≤ n) :
    drain dec n (ms.flatten ++ w) = (xs, w) := by
  induction h generalizing n with
  | nil =>
      cases n with
      | zero => rfl
      | succ n => simp [drain, hw]
  | @cons x m xs ms hx hrest ih =>
      cases n with
      | zero => cases hn
      | succ n =>
          rw [List.flatten_cons, List.append_assoc, drain, hx.whole]
          dsimp only
          rw [ih (Nat.le_of_succ_le_succ hn)]

/-- Enough fuel for a stream is its length. -/
theorem length_le_flatten {xs : List α} {ms : List (List β)}
    (h : List.Forall₂ (Frames dec) xs ms) (hnil : dec [] = none) :
    xs.length ≤ ms.flatten.length := by
  induction h with
  | nil => exact Nat.le_refl _
  | @cons x m xs ms hx hrest ih =>
      have hpos := List.length_pos_of_ne_nil (hx.ne_nil hnil)
      rw [List.length_cons, List.flatten_cons, List.length_append]
      omega

/-- The decoder finds all messages of a stream that is complete. -/
theorem drain_flatten {xs : List α} {ms : List (List β)} (h : List.Forall₂ (Frames dec) xs ms)
    (hnil : dec [] = none) : (drain dec ms.flatten.length ms.flatten).1 = xs := by
  have hdrain := drain_frames h hnil (length_le_flatten h hnil)
  rw [List.append_nil] at hdrain
  rw [hdrain]

/-- The decoder finds all messages but an incomplete last one. -/
theorem Written.drain {xs : List α} {ms : List (List β)} {w : List β} (hw : Written ms w)
    (h : List.Forall₂ (Frames dec) xs ms) (hnil : dec [] = none) (hne : w ≠ ms.flatten) :
    (drain dec w.length w).1 = xs.dropLast := by
  obtain ⟨init, m, v, rfl, rfl, hv, hpart⟩ := hw.cases hne
  have hinit := List.forall₂_take_append xs init [m] h
  have hlast := List.forall₂_drop_append xs init [m] h
  have hlength := h.length_eq
  rw [List.length_append, List.length_singleton] at hlength
  obtain ⟨x, hx⟩ := List.length_eq_one_iff.mp
    (show (xs.drop init.length).length = 1 by rw [List.length_drop]; omega)
  rw [hx, List.forall₂_cons] at hlast
  have hdrain := drain_frames hinit (hlast.1.part v hv hpart) (n := (init.flatten ++ v).length)
    (Nat.le_trans (length_le_flatten hinit hnil) (by rw [List.length_append]; omega))
  rw [hdrain, List.dropLast_eq_take, hlength, Nat.add_sub_cancel]

end Lightcache.Foundation
