import Lightcache.Foundation.Execution

/-!
# Two computations side by side

`Twins R x y` compares two fallible computations: both return, with results
related by `R`, or both stop with the same fault.  A relation that every step
keeps is kept by the runs over the same events.
-/

namespace Lightcache.Foundation

universe u v w

variable {ε : Type u} {α β γ δ : Type v}

def Twins (R : α → β → Prop) (x : Except ε α) (y : Except ε β) : Prop :=
  match x, y with
  | .ok a, .ok b => R a b
  | .error e, .error f => e = f
  | _, _ => False

variable {R : α → β → Prop} {S : γ → δ → Prop} {x : Except ε α} {y : Except ε β}

@[simp] theorem twins_ok {a : α} {b : β} :
    Twins R (.ok a : Except ε α) (.ok b) ↔ R a b := Iff.rfl

theorem Twins.bind {f : α → Except ε γ} {g : β → Except ε δ} (hxy : Twins R x y)
    (hfg : ∀ a b, R a b → Twins S (f a) (g b)) : Twins S (x >>= f) (y >>= g) := by
  cases x with
  | ok a =>
      cases y with
      | ok b => exact hfg a b hxy
      | error e => exact hxy.elim
  | error e =>
      cases y with
      | ok b => exact hxy.elim
      | error f => exact hxy

theorem Twins.imp {R' : α → β → Prop} (hxy : Twins R x y) (h : ∀ a b, R a b → R' a b) :
    Twins R' x y := by
  cases x with
  | ok a =>
      cases y with
      | ok b => exact h a b hxy
      | error e => exact hxy
  | error e =>
      cases y with
      | ok b => exact hxy
      | error f => exact hxy

theorem Twins.and_ensures {P : α → Prop} (hxy : Twins R x y) (hx : Ensures x P) :
    Twins (fun a b => R a b ∧ P a) x y := by
  cases x with
  | ok a =>
      cases y with
      | ok b => exact ⟨hxy, hx⟩
      | error e => exact hxy
  | error e =>
      cases y with
      | ok b => exact hxy
      | error f => exact hxy

/-- The two computations are the same. -/
theorem twins_eq {y : Except ε α} (hxy : Twins Eq x y) : y = x := by
  cases x with
  | ok a =>
      cases y with
      | ok b => exact congrArg _ (Eq.symm hxy)
      | error e => exact hxy.elim
  | error e =>
      cases y with
      | ok b => exact hxy.elim
      | error f => exact congrArg _ (Eq.symm hxy)

theorem twins_refl {R : α → α → Prop} (h : ∀ a, R a a) (x : Except ε α) :
    Twins R x x := by
  cases x with
  | ok a => exact h a
  | error e => rfl

theorem twins_of_eq {y : Except ε α} (hxy : y = x) : Twins Eq x y :=
  hxy ▸ twins_refl (fun _ => rfl) x

/-- The same computation goes on in two ways. -/
theorem twins_bind (x : Except ε α) {f : α → Except ε γ} {g : α → Except ε δ}
    (h : ∀ a, Twins S (f a) (g a)) : Twins S (x >>= f) (x >>= g) := by
  cases x with
  | ok a => exact h a
  | error e => rfl

section Run

variable {T : Type v} {Ev : Type w} {step : T → Ev → Except ε T} {R : T → T → Prop}

/-- Simulation rule, for two runs over the same events. -/
theorem run_twins (hstep : ∀ s t e, R s t → Twins R (step s e) (step t e)) {s t : T}
    (hst : R s t) (es : List Ev) : Twins R (run step s es) (run step t es) := by
  induction es generalizing s t with
  | nil => exact hst
  | cons e es ih => exact (hstep s t e hst).bind fun _ _ h => ih h

end Run

end Lightcache.Foundation
