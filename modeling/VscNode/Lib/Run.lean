import Mathlib.Logic.Relation

/-!
# Runs of a step relation

A run of a step relation is a reflexive transitive chain of steps. What every
step preserves, every run preserves; `Run.preserves` is that induction, stated
once.

Where steps are events applied to a state, `StepBy` is the relation of the events
that meet a condition, and a list of events that meet it one after another is a
run.
-/

namespace Run

open Relation

variable {σ : Type*} {step : σ → σ → Prop}

/-- A property kept by every step holds at the end of a run that starts in it. -/
theorem preserves {P : σ → Prop} (hstep : ∀ s t, step s t → P s → P t) {s t : σ}
    (h : ReflTransGen step s t) (hs : P s) : P t := by
  induction h with
  | refl => exact hs
  | tail _ hst ih => exact hstep _ _ hst ih

section Events

variable {ε : Type*} (apply : σ → ε → σ) (ok : σ → ε → Prop)

/-- A step by an event that meets a condition in the state it is applied to. -/
def StepBy (s s' : σ) : Prop := ∃ e, ok s e ∧ s' = apply s e

/-- Every event of a list meets the condition when its turn comes. -/
def AllAlong (s : σ) : List ε → Prop
  | [] => True
  | e :: es => ok s e ∧ AllAlong (apply s e) es

instance decidableAllAlong [∀ s e, Decidable (ok s e)] :
    (s : σ) → (es : List ε) → Decidable (AllAlong apply ok s es)
  | _, [] => isTrue trivial
  | s, e :: es =>
    have := decidableAllAlong (apply s e) es
    inferInstanceAs (Decidable (_ ∧ _))

variable {apply ok}

theorem allAlong_concat_iff {s : σ} {es : List ε} {e : ε} :
    AllAlong apply ok s (es ++ [e]) ↔ AllAlong apply ok s es ∧ ok (es.foldl apply s) e := by
  induction es generalizing s with
  | nil => simp [AllAlong]
  | cons e' es ih => simp [AllAlong, ih, and_assoc]

theorem foldl {s : σ} {es : List ε} (h : AllAlong apply ok s es) :
    ReflTransGen (StepBy apply ok) s (es.foldl apply s) := by
  induction es generalizing s with
  | nil => exact .refl
  | cons e es ih => exact .head ⟨e, h.1, rfl⟩ (ih h.2)

end Events

end Run
