import Mathlib.Data.List.Induction
import Mathlib.Logic.Function.Basic

/-!
# Maps whose entries expire

Every entry is dead from some time on.  A map may forget a dead entry at once
(`eagerly`), when its key is looked up (`lazily`), or never (`recorded`).  As
long as the dead stay dead, the three show the same living entries.
-/

namespace Lightcache.Foundation

universe u v w

/-- What a command does to a map. -/
inductive MapOp (K : Type u) (V : Type v) where
  | put (k : K) (v : V)
  | drop (k : K)
  | clear
  | look (k : K)
  | skip

variable {K : Type u} {V : Type v} {T : Type w}

/-- The entries that are not dead. -/
def living (dead : V → Prop) [DecidablePred dead] (m : K → Option V) : K → Option V :=
  fun k => (m k).filter fun v => ¬ dead v

namespace MapOp

variable [DecidableEq K]

/-- Nothing is forgotten. -/
def record (m : K → Option V) : MapOp K V → K → Option V
  | put k v => Function.update m k (some v)
  | drop k => Function.update m k none
  | clear => fun _ => none
  | look _ => m
  | skip => m

/-- A dead entry is forgotten when it is looked up. -/
def lazy (dead : V → Prop) [DecidablePred dead] (m : K → Option V) :
    MapOp K V → K → Option V
  | look k => Function.update m k (living dead m k)
  | op => op.record m

/-- All dead entries are forgotten first. -/
def eager (dead : V → Prop) [DecidablePred dead] (m : K → Option V) (op : MapOp K V) :
    K → Option V :=
  op.record (living dead m)

end MapOp

section Living

variable {dead early : V → Prop} [DecidablePred dead] [DecidablePred early]
  {m m' : K → Option V} {k : K} {v : V} {op : MapOp K V}

theorem living_eq_some : living dead m k = some v ↔ m k = some v ∧ ¬ dead v := by
  simp [living, Option.filter_eq_some_iff]

theorem living_of_iff (h : ∀ v, m k = some v → (early v ↔ dead v)) :
    living early m k = living dead m k := by
  cases hv : m k with
  | none => simp [living, hv]
  | some v => simp [living, hv, Option.filter_some, h v hv]

/-- Whoever was dead early is dead now. -/
theorem living_living (h : ∀ v, m k = some v → early v → dead v) :
    living dead (living early m) k = living dead m k := by
  cases hv : m k with
  | none => simp [living, hv]
  | some v =>
      by_cases hearly : early v
      · simp [living, hv, hearly, h v hv hearly, Option.filter_some]
      · simp [living, hv, hearly, Option.filter_some]

variable [DecidableEq K]

/-- Maps with the same living entries have them after any change. -/
theorem living_record (h : living dead m = living dead m') (op : MapOp K V) :
    living dead (op.record m) = living dead (op.record m') := by
  have hupdate : ∀ k₀ (o : Option V), living dead (Function.update m k₀ o) =
      living dead (Function.update m' k₀ o) := fun k₀ o => funext fun k => by
    by_cases hk : k = k₀
    · simp [living, hk]
    · simpa [living, hk] using congrFun h k
  cases op with
  | put k v => exact hupdate k _
  | drop k => exact hupdate k _
  | clear => rfl
  | look k => exact h
  | skip => exact h

theorem living_lazy (h : ∀ k v, m k = some v → early v → dead v) (op : MapOp K V) :
    living dead (op.lazy early m) = living dead (op.record m) := by
  cases op with
  | look k₀ =>
      funext k
      by_cases hk : k = k₀
      · subst hk
        have hsame := living_living (h k)
        simpa [MapOp.lazy, MapOp.record, living] using hsame
      · simp [MapOp.lazy, MapOp.record, living, hk]
  | _ => rfl

theorem living_eager (h : ∀ k v, m k = some v → early v → dead v) (op : MapOp K V) :
    living dead (op.eager early m) = living dead (op.record m) :=
  living_record (funext fun k => living_living (h k)) op

end Living

/-! ## Histories -/

section Histories

/-- Who was dead when an operation came after it was put is dead at `t`. -/
def Ages (dead : T → V → Prop) (t : T) (ops : List (T × MapOp K V)) : Prop :=
  ops.Pairwise fun x y => ∀ k v, x.2 = .put k v → dead y.1 v → dead t v

/-- Every entry of the map has been put by an operation. -/
def Put (ops : List (T × MapOp K V)) (m : K → Option V) : Prop :=
  ∀ k v, m k = some v → ∃ x ∈ ops, x.2 = .put k v

section Ages

variable {dead : T → V → Prop} {ops : List (T × MapOp K V)} {x : T × MapOp K V} {t : T}

theorem Ages.init (h : Ages dead t (ops ++ [x])) : Ages dead t ops :=
  (List.pairwise_append.mp h).1

theorem Ages.last (h : Ages dead t (ops ++ [x])) {m : K → Option V} (hm : Put ops m) :
    ∀ k v, m k = some v → dead x.1 v → dead t v := fun k v hv hdead =>
  let ⟨y, hy, hput⟩ := hm k v hv
  (List.pairwise_append.mp h).2.2 y hy x (List.mem_singleton_self x) k v hput hdead

end Ages

variable [DecidableEq K] (dead : T → V → Prop) [∀ t, DecidablePred (dead t)]

/-- The map after a history of which nothing has been forgotten. -/
def recorded (ops : List (T × MapOp K V)) : K → Option V :=
  ops.foldl (fun m x => x.2.record m) fun _ => none

def lazily (ops : List (T × MapOp K V)) : K → Option V :=
  ops.foldl (fun m x => x.2.lazy (dead x.1) m) fun _ => none

def eagerly (ops : List (T × MapOp K V)) : K → Option V :=
  ops.foldl (fun m x => x.2.eager (dead x.1) m) fun _ => none

variable {dead} {ops : List (T × MapOp K V)} {x : T × MapOp K V} {k : K} {v : V} {t : T}

@[simp] theorem recorded_concat :
    recorded (ops ++ [x]) = x.2.record (recorded ops) := by
  simp [recorded]

@[simp] theorem lazily_concat :
    lazily dead (ops ++ [x]) = x.2.lazy (dead x.1) (lazily dead ops) := by
  simp [lazily]

@[simp] theorem eagerly_concat :
    eagerly dead (ops ++ [x]) = x.2.eager (dead x.1) (eagerly dead ops) := by
  simp [eagerly]

theorem Put.record {m : K → Option V} (h : Put ops m) (m' : K → Option V)
    (hm : ∀ k v, m' k = some v → m k = some v) : Put (ops ++ [x]) (x.2.record m') := by
  have hold : ∀ k v, m' k = some v → ∃ y ∈ ops ++ [x], y.2 = .put k v := fun k v hv =>
    let ⟨y, hy, hput⟩ := h k v (hm k v hv)
    ⟨y, List.mem_append_left _ hy, hput⟩
  intro k v hv
  cases hop : x.2 with
  | put k₀ v₀ =>
      rw [hop, MapOp.record, Function.update_apply] at hv
      split at hv
      · subst k₀
        obtain rfl := Option.some.inj hv
        exact ⟨x, by simp, hop⟩
      · exact hold k v hv
  | drop k₀ =>
      rw [hop, MapOp.record, Function.update_apply] at hv
      split at hv
      · cases hv
      · exact hold k v hv
  | clear =>
      rw [hop] at hv
      cases hv
  | look k₀ =>
      rw [hop] at hv
      exact hold k v hv
  | skip =>
      rw [hop] at hv
      exact hold k v hv

theorem put_lazily : Put ops (lazily dead ops) := by
  induction ops using List.reverseRecOn with
  | nil => intro k v hv; cases hv
  | append_singleton ops x ih =>
      rw [lazily_concat]
      cases hop : x.2 with
      | look k₀ =>
          have hrec := ih.record (x := x) (x.2.lazy (dead x.1) (lazily dead ops))
            fun k v hv => by
              rw [hop, MapOp.lazy, Function.update_apply] at hv
              split at hv
              · subst k₀
                exact (living_eq_some.mp hv).1
              · exact hv
          rw [hop] at hrec
          exact hrec
      | _ =>
          have hrec := ih.record (x := x) (lazily dead ops) fun _ _ hv => hv
          rw [hop] at hrec
          exact hrec

theorem put_eagerly : Put ops (eagerly dead ops) := by
  induction ops using List.reverseRecOn with
  | nil => intro k v hv; cases hv
  | append_singleton ops x ih =>
      rw [eagerly_concat]
      exact ih.record _ fun k v hv => (living_eq_some.mp hv).1

/-- Forgetting the dead on look-up does not show. -/
theorem living_lazily (h : Ages dead t ops) :
    living (dead t) (lazily dead ops) = living (dead t) (recorded ops) := by
  induction ops using List.reverseRecOn with
  | nil => rfl
  | append_singleton ops x ih =>
      rw [lazily_concat, recorded_concat, living_lazy (h.last put_lazily)]
      exact living_record (ih h.init) x.2

/-- Nor does forgetting them at once. -/
theorem living_eagerly (h : Ages dead t ops) :
    living (dead t) (eagerly dead ops) = living (dead t) (recorded ops) := by
  induction ops using List.reverseRecOn with
  | nil => rfl
  | append_singleton ops x ih =>
      rw [eagerly_concat, recorded_concat, living_eager (h.last put_eagerly)]
      exact living_record (ih h.init) x.2

end Histories

/-! ## The last put -/

namespace MapOp

/-- The operation decides what the map has at `k`. -/
def Settles (k : K) : MapOp K V → Prop
  | put k' _ => k' = k
  | drop k' => k' = k
  | clear => True
  | look _ => False
  | skip => False

theorem record_of_not_settles [DecidableEq K] {m : K → Option V} {k : K} {op : MapOp K V}
    (h : ¬ op.Settles k) : op.record m k = m k := by
  cases op with
  | put k' v => exact Function.update_of_ne (Ne.symm h) ..
  | drop k' => exact Function.update_of_ne (Ne.symm h) ..
  | clear => exact absurd trivial h
  | look k' => rfl
  | skip => rfl

theorem record_of_settles [DecidableEq K] {m : K → Option V} {k : K} {v : V} {op : MapOp K V}
    (h : op.Settles k) : op.record m k = some v ↔ op = .put k v := by
  cases op with
  | put k' w =>
      obtain rfl : k' = k := h
      simp [record]
  | drop k' =>
      obtain rfl : k' = k := h
      simp [record]
  | clear => simp [record]
  | look k' => exact h.elim
  | skip => exact h.elim

end MapOp

/-- The value `v` was put at `k`, and nothing has settled the key since. -/
def LastPut (k : K) (v : V) (ops : List (T × MapOp K V)) : Prop :=
  ∃ before t after, ops = before ++ (t, .put k v) :: after ∧ ∀ x ∈ after, ¬ x.2.Settles k

section LastPut

variable {ops : List (T × MapOp K V)} {x : T × MapOp K V} {k : K} {v : V}

theorem not_lastPut_nil : ¬ LastPut k v ([] : List (T × MapOp K V)) := by
  rintro ⟨before, t, after, h, -⟩
  simp at h

theorem lastPut_concat_of_settles (hx : x.2.Settles k) :
    LastPut k v (ops ++ [x]) ↔ x.2 = .put k v := by
  constructor
  · rintro ⟨before, t, after, heq, hafter⟩
    rcases List.eq_nil_or_concat after with rfl | ⟨after', y, rfl⟩
    · obtain ⟨-, hxy⟩ := List.append_inj' heq rfl
      rw [List.singleton_inj.mp hxy]
    · rw [List.concat_eq_append, ← List.cons_append, ← List.append_assoc] at heq
      obtain ⟨-, hxy⟩ := List.append_inj' heq rfl
      obtain rfl := List.singleton_inj.mp hxy
      exact absurd hx (hafter x (by simp))
  · intro hop
    exact ⟨ops, x.1, [], by rw [← hop], fun y hy => by cases hy⟩

theorem lastPut_concat_of_not_settles (hx : ¬ x.2.Settles k) :
    LastPut k v (ops ++ [x]) ↔ LastPut k v ops := by
  constructor
  · rintro ⟨before, t, after, heq, hafter⟩
    rcases List.eq_nil_or_concat after with rfl | ⟨after', y, rfl⟩
    · obtain ⟨-, hxy⟩ := List.append_inj' heq rfl
      rw [List.singleton_inj.mp hxy] at hx
      exact absurd rfl hx
    · rw [List.concat_eq_append, ← List.cons_append, ← List.append_assoc] at heq
      obtain ⟨hops, -⟩ := List.append_inj' heq rfl
      exact ⟨before, t, after', hops, fun z hz => hafter z (by simp [hz])⟩
  · rintro ⟨before, t, after, rfl, hafter⟩
    refine ⟨before, t, after ++ [x], by simp, fun z hz => ?_⟩
    rcases List.mem_append.mp hz with hz | hz
    · exact hafter z hz
    · rwa [List.mem_singleton.mp hz]

/-- A history records the value that was put last. -/
theorem recorded_eq_some [DecidableEq K] : recorded ops k = some v ↔ LastPut k v ops := by
  induction ops using List.reverseRecOn with
  | nil =>
      refine iff_of_false ?_ not_lastPut_nil
      exact fun h => by cases h
  | append_singleton ops x ih =>
      rw [recorded_concat]
      by_cases hx : x.2.Settles k
      · rw [MapOp.record_of_settles hx, lastPut_concat_of_settles hx]
      · rw [MapOp.record_of_not_settles hx, lastPut_concat_of_not_settles hx, ih]

end LastPut

/-! ## One key at a time -/

namespace MapOp

/-- The operation can change what the map has at `k`. -/
def Concerns (k : K) : MapOp K V → Prop
  | put k' _ => k' = k
  | drop k' => k' = k
  | clear => True
  | look k' => k' = k
  | skip => False

variable [DecidableEq K]

instance (k : K) : ∀ op : MapOp K V, Decidable (op.Concerns k)
  | put k' _ => inferInstanceAs (Decidable (k' = k))
  | drop k' => inferInstanceAs (Decidable (k' = k))
  | clear => inferInstanceAs (Decidable True)
  | look k' => inferInstanceAs (Decidable (k' = k))
  | skip => inferInstanceAs (Decidable False)

theorem lazy_of_not_concerns {dead : V → Prop} [DecidablePred dead] {m : K → Option V}
    {k : K} {op : MapOp K V} (h : ¬ op.Concerns k) : op.lazy dead m k = m k := by
  cases op with
  | put k' v => exact Function.update_of_ne (Ne.symm h) ..
  | drop k' => exact Function.update_of_ne (Ne.symm h) ..
  | clear => exact absurd trivial h
  | look k' => exact Function.update_of_ne (Ne.symm h) ..
  | skip => rfl

/-- Only the entry that is looked up is asked whether it is dead. -/
theorem lazy_of_iff {dead early : V → Prop} [DecidablePred dead] [DecidablePred early]
    {m : K → Option V} {op : MapOp K V}
    (h : ∀ k v, op = .look k → m k = some v → (early v ↔ dead v)) :
    op.lazy early m = op.lazy dead m := by
  cases op with
  | look k => rw [lazy, lazy, living_of_iff fun v hv => h k v rfl hv]
  | _ => rfl

theorem lazy_congr {dead : V → Prop} [DecidablePred dead] {m m' : K → Option V} {k : K}
    (h : m k = m' k) (op : MapOp K V) : op.lazy dead m k = op.lazy dead m' k := by
  cases op with
  | clear => rfl
  | skip => exact h
  | _ => simp only [lazy, record, living, Function.update_apply]; split <;> simp_all

end MapOp

/-- What a map has at a key is decided by the operations on this key. -/
theorem lazily_filter [DecidableEq K] (dead : T → V → Prop) [∀ t, DecidablePred (dead t)]
    (ops : List (T × MapOp K V)) (k : K) :
    lazily dead (ops.filter fun x => x.2.Concerns k) k = lazily dead ops k := by
  induction ops using List.reverseRecOn with
  | nil => rfl
  | append_singleton ops x ih =>
      rw [List.filter_append, lazily_concat]
      by_cases hx : x.2.Concerns k
      · rw [List.filter_cons_of_pos (by simpa using hx), List.filter_nil, lazily_concat]
        exact MapOp.lazy_congr ih x.2
      · rw [List.filter_cons_of_neg (by simpa using hx), List.filter_nil, List.append_nil,
          ih, MapOp.lazy_of_not_concerns hx]

/-- A value stays until an operation on its key replaces it or finds it dead. -/
theorem lazily_kept [DecidableEq K] {dead : T → V → Prop} [∀ t, DecidablePred (dead t)]
    {before after : List (T × MapOp K V)} {t : T} {k : K} {v : V}
    (h : ∀ x ∈ after, x.2.Concerns k → x.2 = .look k ∧ ¬ dead x.1 v) :
    lazily dead (before ++ (t, .put k v) :: after) k = some v := by
  induction after using List.reverseRecOn with
  | nil =>
      rw [lazily_concat]
      exact Function.update_self ..
  | append_singleton after x ih =>
      have hkept := ih fun y hy => h y (List.mem_append_left _ hy)
      rw [← List.cons_append, ← List.append_assoc, lazily_concat]
      by_cases hx : x.2.Concerns k
      · obtain ⟨hlook, halive⟩ := h x (by simp) hx
        rw [hlook, MapOp.lazy, Function.update_self]
        exact living_eq_some.mpr ⟨hkept, halive⟩
      · rw [MapOp.lazy_of_not_concerns hx, hkept]

/-! ## What every element owes to its past -/

/-- `P past x` holds of every element `x` of the history. -/
def Justified {α : Type u} (P : List α → α → Prop) (log : List α) : Prop :=
  ∀ past x rest, log = past ++ x :: rest → P past x

theorem justified_nil {α : Type u} {P : List α → α → Prop} : Justified P [] :=
  fun past x rest h => by cases past <;> cases h

theorem Justified.concat {α : Type u} {P : List α → α → Prop} {log : List α} {x : α}
    (h : Justified P log) (hx : P log x) : Justified P (log ++ [x]) := by
  intro past y rest heq
  rcases List.eq_nil_or_concat rest with rfl | ⟨rest, z, rfl⟩
  · obtain ⟨rfl, hxy⟩ := List.append_inj' heq rfl
    obtain rfl := (List.cons.inj hxy).1
    exact hx
  · rw [List.concat_eq_append, ← List.cons_append, ← List.append_assoc] at heq
    exact h past y rest (List.append_inj' heq rfl).1

end Lightcache.Foundation
