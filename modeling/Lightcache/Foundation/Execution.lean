import Mathlib.Data.List.Basic

/-!
# Fallible computations and their runs

A computation either returns a value or stops with a fault.  `Post` is its
weakest precondition: the postcondition `Q` on every value and `E` on every
fault.  A program that reacts to events is a fallible step; `run` folds it over
a list of events, and the rules below carry an invariant or a simulation from
one step to a whole run.
-/

namespace Lightcache.Foundation

universe u v w

section Post

variable {ε : Type u} {α β : Type v}

/-- `x` returns only values in `Q` and stops only with faults in `E`. -/
def Post (x : Except ε α) (Q : α → Prop) (E : ε → Prop) : Prop :=
  match x with
  | .ok a => Q a
  | .error e => E e

@[simp] theorem post_ok {a : α} {Q : α → Prop} {E : ε → Prop} :
    Post (.ok a) Q E ↔ Q a := Iff.rfl

@[simp] theorem post_error {e : ε} {Q : α → Prop} {E : ε → Prop} :
    Post (.error e) Q E ↔ E e := Iff.rfl

@[simp] theorem post_pure {a : α} {Q : α → Prop} {E : ε → Prop} :
    Post (pure a) Q E ↔ Q a := Iff.rfl

theorem post_bind {x : Except ε α} {f : α → Except ε β} {Q : β → Prop}
    {E : ε → Prop} :
    Post (x >>= f) Q E ↔ Post x (fun a => Post (f a) Q E) E := by
  cases x <;> exact Iff.rfl

theorem Post.bind {x : Except ε α} {f : α → Except ε β} {P : α → Prop}
    {Q : β → Prop} {E : ε → Prop} (hx : Post x P E)
    (hf : ∀ a, P a → Post (f a) Q E) : Post (x >>= f) Q E := by
  cases x with
  | ok a => exact hf a hx
  | error e => exact hx

theorem Post.mono {x : Except ε α} {P Q : α → Prop} {E F : ε → Prop}
    (hx : Post x P E) (hQ : ∀ a, P a → Q a) (hF : ∀ e, E e → F e) :
    Post x Q F := by
  cases x with
  | ok a => exact hQ a hx
  | error e => exact hF e hx

theorem Post.imp {x : Except ε α} {P Q : α → Prop} {E : ε → Prop}
    (hx : Post x P E) (hQ : ∀ a, P a → Q a) : Post x Q E :=
  hx.mono hQ fun _ => id

theorem Post.and {x : Except ε α} {P Q : α → Prop} {E F : ε → Prop}
    (hP : Post x P E) (hQ : Post x Q F) :
    Post x (fun a => P a ∧ Q a) (fun e => E e ∧ F e) := by
  cases x with
  | ok a => exact ⟨hP, hQ⟩
  | error e => exact ⟨hP, hQ⟩

theorem Post.of_ok {x : Except ε α} {Q : α → Prop} {E : ε → Prop} {a : α}
    (hx : Post x Q E) (h : x = .ok a) : Q a := by
  subst h
  exact hx

theorem Post.of_error {x : Except ε α} {Q : α → Prop} {E : ε → Prop} {e : ε}
    (hx : Post x Q E) (h : x = .error e) : E e := by
  subst h
  exact hx

/-- A computation that cannot stop with a fault returns. -/
theorem Post.exists_ok {x : Except ε α} {Q : α → Prop}
    (hx : Post x Q fun _ => False) : ∃ a, x = .ok a ∧ Q a := by
  cases x with
  | ok a => exact ⟨a, rfl, hx⟩
  | error e => exact hx.elim

theorem ok_of_bind_eq_ok {x : Except ε α} {f : α → Except ε β} {b : β}
    (h : (x >>= f) = .ok b) : ∃ a, x = .ok a ∧ f a = .ok b := by
  cases x with
  | ok a => exact ⟨a, rfl, h⟩
  | error e => cases h

@[simp] theorem ok_bind {a : α} {f : α → Except ε β} :
    ((.ok a : Except ε α) >>= f) = f a := rfl

@[simp] theorem error_bind {e : ε} {f : α → Except ε β} :
    ((.error e : Except ε α) >>= f) = .error e := rfl

/-- Partial correctness: whatever `x` returns is in `Q`. -/
def Ensures (x : Except ε α) (Q : α → Prop) : Prop := Post x Q fun _ => True

@[simp] theorem ensures_ok {a : α} {Q : α → Prop} :
    Ensures (.ok a : Except ε α) Q ↔ Q a := Iff.rfl

@[simp] theorem ensures_error {e : ε} {Q : α → Prop} :
    Ensures (.error e : Except ε α) Q ↔ True := Iff.rfl

theorem Ensures.pure {a : α} {Q : α → Prop} (h : Q a) :
    Ensures (pure a : Except ε α) Q := h

theorem ensures_true (x : Except ε α) : Ensures x fun _ => True := by
  cases x <;> trivial

theorem Ensures.bind {x : Except ε α} {f : α → Except ε β} {P : α → Prop}
    {Q : β → Prop} (hx : Ensures x P) (hf : ∀ a, P a → Ensures (f a) Q) :
    Ensures (x >>= f) Q := Post.bind hx hf

theorem Ensures.imp {x : Except ε α} {P Q : α → Prop} (hx : Ensures x P)
    (hQ : ∀ a, P a → Q a) : Ensures x Q := Post.imp hx hQ

theorem Ensures.and {x : Except ε α} {P Q : α → Prop} (hP : Ensures x P)
    (hQ : Ensures x Q) : Ensures x fun a => P a ∧ Q a :=
  (Post.and hP hQ).mono (fun _ => id) fun _ => And.left

theorem Ensures.of_ok {x : Except ε α} {Q : α → Prop} {a : α} (hx : Ensures x Q)
    (h : x = .ok a) : Q a := Post.of_ok hx h

theorem Post.and_ensures {x : Except ε α} {P Q : α → Prop} {E : ε → Prop}
    (hP : Post x P E) (hQ : Ensures x Q) : Post x (fun a => P a ∧ Q a) E :=
  (hP.and hQ).mono (fun _ => id) fun _ => And.left

/-- Whether `x` returns, and what it returns passes the test `p`. -/
def returns (x : Except ε α) (p : α → Bool) : Bool :=
  match x with
  | .ok a => p a
  | .error _ => false

theorem exists_of_returns {x : Except ε α} {p : α → Bool} (h : returns x p = true) :
    ∃ a, x = .ok a ∧ p a = true := by
  cases x with
  | ok a => exact ⟨a, rfl, h⟩
  | error e => cases h

/-- Whether `x` stops with the fault `e`. -/
def stops [DecidableEq ε] (x : Except ε α) (e : ε) : Bool :=
  match x with
  | .ok _ => false
  | .error f => f = e

theorem eq_error_of_stops [DecidableEq ε] {x : Except ε α} {e : ε}
    (h : stops x e = true) : x = .error e := by
  cases x with
  | ok a => cases h
  | error f => exact congrArg _ (of_decide_eq_true h)

theorem ensures_of_ok {x : Except ε α} {Q : α → Prop} (h : ∀ a, x = .ok a → Q a) :
    Ensures x Q := by
  cases x with
  | ok a => exact h a rfl
  | error e => trivial

end Post

section Run

variable {S : Type v} {Ev : Type w} {ε : Type u}

/-- Process the events in order and stop at the first fault. -/
def run (step : S → Ev → Except ε S) : S → List Ev → Except ε S
  | s, [] => .ok s
  | s, e :: es => step s e >>= fun s' => run step s' es

/-- Every step the run takes starts from a state and event in `C`. -/
def Meets (step : S → Ev → Except ε S) (C : S → Ev → Prop) :
    S → List Ev → Prop
  | _, [] => True
  | s, e :: es => C s e ∧ ∀ s', step s e = .ok s' → Meets step C s' es

variable {step : S → Ev → Except ε S} {C : S → Ev → Prop}

@[simp] theorem run_nil (s : S) : run step s [] = .ok s := rfl

@[simp] theorem run_cons (s : S) (e : Ev) (es : List Ev) :
    run step s (e :: es) = step s e >>= fun s' => run step s' es := rfl

theorem run_append (s : S) (es fs : List Ev) :
    run step s (es ++ fs) = run step s es >>= fun s' => run step s' fs := by
  induction es generalizing s with
  | nil => rfl
  | cons e es ih =>
      cases h : step s e with
      | ok s' => simp [h, ih]
      | error f => simp [h]

/-- A run that fails does so in one of its steps. -/
theorem run_error {s : S} {es : List Ev} {f : ε} (h : run step s es = .error f) :
    ∃ before e after s', es = before ++ e :: after ∧ run step s before = .ok s' ∧
      step s' e = .error f := by
  induction es generalizing s with
  | nil => cases h
  | cons e es ih =>
      cases hs' : step s e with
      | error g =>
          rw [run_cons, hs', error_bind] at h
          exact ⟨[], e, es, s, rfl, rfl, hs'.trans h⟩
      | ok s' =>
          rw [run_cons, hs', ok_bind] at h
          obtain ⟨before, e', after, s'', rfl, hbefore, hfail⟩ := ih h
          exact ⟨e :: before, e', after, s'', rfl, by rw [run_cons, hs', ok_bind, hbefore], hfail⟩

/-- Invariant rule: a condition on the steps is carried to the whole run. -/
theorem run_post {I : S → Prop} {E : ε → Prop}
    (hstep : ∀ s e, I s → C s e → Post (step s e) I E) {s : S} {es : List Ev}
    (hs : I s) (hC : Meets step C s es) : Post (run step s es) I E := by
  induction es generalizing s with
  | nil => exact hs
  | cons e es ih =>
      have hhead := hstep s e hs hC.1
      rw [run_cons]
      cases h : step s e with
      | ok s' =>
          rw [h] at hhead
          exact ih hhead (hC.2 s' h)
      | error f =>
          rw [h] at hhead
          exact hhead

/-- As `run_post`, whatever the faults are. -/
theorem run_ensures {I : S → Prop} (hstep : ∀ s e, I s → Ensures (step s e) I) {s : S}
    (hs : I s) (es : List Ev) : Ensures (run step s es) I := by
  induction es generalizing s with
  | nil => exact hs
  | cons e es ih => exact (hstep s e hs).bind fun s' hs' => ih hs'

theorem meets_append {s : S} {es fs : List Ev} : Meets step C s (es ++ fs) ↔
    Meets step C s es ∧ ∀ s', run step s es = .ok s' → Meets step C s' fs := by
  induction es generalizing s with
  | nil => simp [Meets]
  | cons e es ih =>
      rw [List.cons_append, Meets, Meets, and_assoc]
      refine and_congr_right fun _ => ⟨fun h => ⟨fun s' hs' => ((ih).mp (h s' hs')).1,
        fun s'' hrun => ?_⟩, fun h s' hs' => ih.mpr ⟨h.1 s' hs', fun s'' hrun => ?_⟩⟩
      · obtain ⟨s', hs', hrun⟩ := ok_of_bind_eq_ok hrun
        exact (ih.mp (h s' hs')).2 s'' hrun
      · exact h.2 s'' (by rw [run_cons, hs', ok_bind, hrun])

/-- Whether every step that the run takes passes the test `p`. -/
def meetsTest (step : S → Ev → Except ε S) (p : S → Ev → Bool) : S → List Ev → Bool
  | _, [] => true
  | s, e :: es => p s e && match step s e with
      | .ok s' => meetsTest step p s' es
      | .error _ => true

theorem meets_of_test {p : S → Ev → Bool} {s : S} {es : List Ev}
    (h : meetsTest step p s es = true) (hC : ∀ s, ∀ e ∈ es, p s e = true → C s e) :
    Meets step C s es := by
  induction es generalizing s with
  | nil => trivial
  | cons e es ih =>
      rw [meetsTest, Bool.and_eq_true] at h
      refine ⟨hC s e (by simp) h.1, fun s' hs' => ih ?_ fun s e he =>
        hC s e (List.mem_cons_of_mem _ he)⟩
      have hrest := h.2
      rwa [hs'] at hrest

theorem Meets.and {D : S → Ev → Prop} {s : S} {es : List Ev} (hC : Meets step C s es)
    (hD : Meets step D s es) : Meets step (fun s e => C s e ∧ D s e) s es := by
  induction es generalizing s with
  | nil => trivial
  | cons e es ih => exact ⟨⟨hC.1, hD.1⟩, fun s' hs' => ih (hC.2 s' hs') (hD.2 s' hs')⟩

theorem Meets.imp {D : S → Ev → Prop} {s : S} {es : List Ev} (hC : Meets step C s es)
    (h : ∀ s e, C s e → D s e) : Meets step D s es := by
  induction es generalizing s with
  | nil => trivial
  | cons e es ih => exact ⟨h _ _ hC.1, fun s' hs' => ih (hC.2 s' hs')⟩

/-- What the states of the run and their steps meet, if an invariant holds. -/
theorem Meets.of_post {I : S → Prop} {E : ε → Prop} {D : S → Ev → Prop}
    (hstep : ∀ s e, I s → C s e → Post (step s e) I E) (hD : ∀ s e, I s → C s e → D s e)
    {s : S} {es : List Ev} (hs : I s) (hC : Meets step C s es) : Meets step D s es := by
  induction es generalizing s with
  | nil => trivial
  | cons e es ih =>
      exact ⟨hD s e hs hC.1, fun s' hs' => ih ((hstep s e hs hC.1).of_ok hs') (hC.2 s' hs')⟩

/-- Every step that the run takes is in `P`. -/
def Throughout (step : S → Ev → Except ε S) (P : S → Ev → S → Prop) : S → List Ev → Prop
  | _, [] => True
  | s, e :: es => ∀ s', step s e = .ok s' → P s e s' ∧ Throughout step P s' es

theorem throughout_of_step {P : S → Ev → S → Prop}
    (h : ∀ s e, Ensures (step s e) (P s e)) (s : S) (es : List Ev) :
    Throughout step P s es := by
  induction es generalizing s with
  | nil => trivial
  | cons e es ih => exact fun s' hs' => ⟨(h s e).of_ok hs', ih s'⟩

theorem Meets.throughout {P : S → Ev → S → Prop} {I : S → Prop}
    (hstep : ∀ s e, I s → C s e → Ensures (step s e) fun s' => I s' ∧ P s e s') {s : S}
    {es : List Ev} (hs : I s) (hC : Meets step C s es) : Throughout step P s es := by
  induction es generalizing s with
  | nil => trivial
  | cons e es ih =>
      intro s' hs'
      obtain ⟨hI, hP⟩ := (hstep s e hs hC.1).of_ok hs'
      exact ⟨hP, ih hI (hC.2 s' hs')⟩

/-- What every step of the run keeps, the whole run keeps. -/
theorem Throughout.keeps {P : S → Ev → S → Prop} {I : S → Prop}
    (hstep : ∀ s e s', P s e s' → step s e = .ok s' → I s → I s') {s : S} {es : List Ev}
    (h : Throughout step P s es) (hs : I s) : Ensures (run step s es) I := by
  induction es generalizing s with
  | nil => exact hs
  | cons e es ih =>
      refine ensures_of_ok fun s'' hrun => ?_
      obtain ⟨s', hs', hrest⟩ := ok_of_bind_eq_ok hrun
      obtain ⟨hP, hthrough⟩ := h s' hs'
      exact (ih hthrough (hstep s e s' hP hs' hs)).of_ok hrest

theorem meets_of_forall {s : S} {es : List Ev} (h : ∀ s, ∀ e ∈ es, C s e) :
    Meets step C s es := by
  induction es generalizing s with
  | nil => trivial
  | cons e es ih =>
      exact ⟨h s e (List.mem_cons_self ..), fun s' _ =>
        ih fun s e he => h s e (List.mem_cons_of_mem _ he)⟩

end Run

section Ghosts

variable {S T : Type v} {Ev : Type w} {ε : Type u} {step : S → Ev → Except ε S}
  {ghost : T → Ev → Except ε T} {π : T → S}

/-- A step that keeps more state, such as a history, runs as the step does. -/
theorem run_map (hπ : ∀ t e, (ghost t e).map π = step (π t) e) (t : T) (es : List Ev) :
    (run ghost t es).map π = run step (π t) es := by
  induction es generalizing t with
  | nil => rfl
  | cons e es ih =>
      rw [run_cons, run_cons, ← hπ t e]
      cases ghost t e with
      | ok t' => exact ih t'
      | error f => rfl

theorem post_run_map (hπ : ∀ t e, (ghost t e).map π = step (π t) e) {P : S → Prop} {E : ε → Prop}
    {t : T} {es : List Ev} :
    Post (run ghost t es) (fun t' => P (π t')) E ↔ Post (run step (π t) es) P E := by
  rw [← run_map hπ]
  cases run ghost t es <;> exact Iff.rfl

theorem meets_map (hπ : ∀ t e, (ghost t e).map π = step (π t) e) {C : S → Ev → Prop} {t : T}
    {es : List Ev} (h : Meets step C (π t) es) : Meets ghost (fun t e => C (π t) e) t es := by
  induction es generalizing t with
  | nil => trivial
  | cons e es ih =>
      refine ⟨h.1, fun t' ht' => ih (h.2 (π t') ?_)⟩
      rw [← hπ, ht']
      rfl

end Ghosts

section Simulation

variable {S : Type v} {Ev : Type w} {ε : Type u} {Out : Type v} {T : Type*}

/-- As `run`, for a step that also answers every event. -/
def replies (step : S → Ev → Except ε (S × Out)) :
    S → List Ev → Except ε (S × List Out)
  | s, [] => .ok (s, [])
  | s, e :: es => do
      let (s, out) ← step s e
      let (s, outs) ← replies step s es
      return (s, out :: outs)

/-- What is done to every answer is done to the list of them. -/
theorem replies_map {Out' : Type v} {step : S → Ev → Except ε (S × Out)} (f : Out → Out')
    {s s' : S} {es : List Ev} {outs : List Out} (h : replies step s es = .ok (s', outs)) :
    replies (fun s e => (step s e).map (Prod.map id f)) s es = .ok (s', outs.map f) := by
  induction es generalizing s outs with
  | nil =>
      cases h
      rfl
  | cons e es ih =>
      obtain ⟨⟨s₁, out⟩, hone, hrest⟩ := ok_of_bind_eq_ok h
      obtain ⟨⟨s₂, outs'⟩, hmany, hlast⟩ := ok_of_bind_eq_ok hrest
      cases hlast
      rw [replies, hone]
      change (replies (fun s e => (step s e).map (Prod.map id f)) s₁ es >>= _) = _
      rw [ih hmany]
      rfl

/-- The answers `outs` are the ones a specification allows from `t` on. -/
inductive Allows (spec : T → Ev → Out → T → Prop) :
    T → List Ev → List Out → T → Prop
  | nil (t : T) : Allows spec t [] [] t
  | cons {t t' t'' : T} {e : Ev} {es : List Ev} {out : Out} {outs : List Out}
      (head : spec t e out t') (tail : Allows spec t' es outs t'') :
      Allows spec t (e :: es) (out :: outs) t''

theorem Allows.concat {spec : T → Ev → Out → T → Prop} {t t' t'' : T} {es : List Ev}
    {outs : List Out} {e : Ev} {out : Out} (h : Allows spec t es outs t')
    (hlast : spec t' e out t'') : Allows spec t (es ++ [e]) (outs ++ [out]) t'' := by
  induction h with
  | nil t => exact .cons hlast (.nil t'')
  | cons head tail ih => exact .cons head (ih hlast)

/-- Forward simulation, from one event to every list of events. -/
theorem replies_refine {step : S → Ev → Except ε (S × Out)}
    {spec : T → Ev → Out → T → Prop} {R : S → T → Prop} {P : Ev → Prop}
    (hstep : ∀ s t e, R s t → P e →
      ∃ s' out t', step s e = .ok (s', out) ∧ spec t e out t' ∧ R s' t')
    {s : S} {t : T} {es : List Ev} (hR : R s t) (hP : ∀ e ∈ es, P e) :
    ∃ s' outs t', replies step s es = .ok (s', outs) ∧
      Allows spec t es outs t' ∧ R s' t' := by
  induction es generalizing s t with
  | nil => exact ⟨s, [], t, rfl, .nil t, hR⟩
  | cons e es ih =>
      obtain ⟨s₁, out, t₁, hone, hspec, hR₁⟩ := hstep s t e hR (hP e (by simp))
      obtain ⟨s₂, outs, t₂, hrest, hallows, hR₂⟩ :=
        ih hR₁ fun e he => hP e (List.mem_cons_of_mem _ he)
      refine ⟨s₂, out :: outs, t₂, ?_, .cons hspec hallows, hR₂⟩
      simp only [replies, hone, hrest, ok_bind]
      rfl

/-- What a specification that is a function answers. -/
def outcomes (spec : T → Ev → T × Out) : T → List Ev → T × List Out
  | t, [] => (t, [])
  | t, e :: es =>
      let (t, out) := spec t e
      let (t, outs) := outcomes spec t es
      (t, out :: outs)

/-- Every event of the specification's run is in `C` where it happens. -/
def Along (spec : T → Ev → T × Out) (C : T → Ev → Prop) : T → List Ev → Prop
  | _, [] => True
  | t, e :: es => C t e ∧ Along spec C (spec t e).1 es

/-- Forward simulation of a function, under a condition on its own states. -/
theorem replies_outcomes {step : S → Ev → Except ε (S × Out)}
    {spec : T → Ev → T × Out} {R : S → T → Prop} {C : T → Ev → Prop}
    (hstep : ∀ s t e, R s t → C t e →
      ∃ s', step s e = .ok (s', (spec t e).2) ∧ R s' (spec t e).1)
    {s : S} {t : T} {es : List Ev} (hR : R s t) (hC : Along spec C t es) :
    ∃ s', replies step s es = .ok (s', (outcomes spec t es).2) ∧
      R s' (outcomes spec t es).1 := by
  induction es generalizing s t with
  | nil => exact ⟨s, rfl, hR⟩
  | cons e es ih =>
      obtain ⟨s₁, hone, hR₁⟩ := hstep s t e hR hC.1
      obtain ⟨s₂, hrest, hR₂⟩ := ih hR₁ hC.2
      refine ⟨s₂, ?_, hR₂⟩
      simp only [replies, hone, hrest, ok_bind]
      rfl

end Simulation

end Lightcache.Foundation
