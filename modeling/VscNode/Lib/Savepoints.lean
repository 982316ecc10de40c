import Mathlib.Data.List.Basic
import Mathlib.Logic.Relation

/-!
# Nested copies of a state

A machine works on a state and on a stack of frames. A frame may hold a copy of the state
as it was when the frame was pushed. A trap takes the frame nearest to the top that holds a
copy, puts the copy back, and drops the frame with all above it.

A copy need not hold the whole state, as long as it gives the state back once the state has
only grown (`Copying`). Then a trap that ends a frame gives back the very state in which the
frame was pushed, whatever ran above it (`caught`).
-/

namespace Savepoints

open List Relation

structure Copying (σ γ : Type*) where
  Grows : σ → σ → Prop
  save : σ → γ
  restore : σ → γ → σ
  refl : ∀ s, Grows s s
  trans : ∀ {s t u}, Grows s t → Grows t u → Grows s u
  restore_save : ∀ {s t}, Grows s t → restore t (save s) = s

variable {σ γ φ : Type*} (C : Copying σ γ) (copy : φ → Option γ)

/-- The copy nearest to the top, and the frames below the one that holds it. -/
def unwind : List φ → Option (γ × List φ)
  | [] => none
  | f :: fs =>
    match copy f with
    | some c => some (c, fs)
    | none => unwind fs

inductive Step : σ × List φ → σ × List φ → Prop
  | ret (h : C.Grows s t) : Step (s, f :: fs) (t, fs)
  | work (h : C.Grows s t) (hcopy : copy g = copy f) : Step (s, f :: fs) (t, g :: fs)
  | push (hcopy : copy f = none ∨ copy f = some (C.save s)) : Step (s, fs) (s, f :: fs)
  | trap (h : unwind copy fs = some (c, rest)) : Step (s, fs) (C.restore s c, rest)

/-- The copies that frames hold are of states that have only grown since, from `base` on. -/
def Nested (base : σ) : List φ → σ → Prop
  | [], s => C.Grows base s
  | f :: fs, s =>
    match copy f with
    | none => Nested base fs s
    | some c => ∃ s₀, c = C.save s₀ ∧ C.Grows s₀ s ∧ Nested base fs s₀

variable {C copy} {base s t : σ} {above below rest : List φ} {f g : φ} {c : γ}

namespace Nested

theorem grows (h : Nested C copy base above s) (hst : C.Grows s t) :
    Nested C copy base above t := by
  induction above with
  | nil => exact C.trans h hst
  | cons f above ih =>
    rw [Nested] at h ⊢
    split at h
    · exact ih h
    · obtain ⟨s₀, hc, hs₀, hrest⟩ := h
      exact ⟨s₀, hc, C.trans hs₀ hst, hrest⟩

theorem tail (h : Nested C copy base (f :: above) s) : Nested C copy base above s := by
  rw [Nested] at h
  split at h
  · exact h
  · obtain ⟨s₀, -, hs₀, hrest⟩ := h
    exact hrest.grows hs₀

theorem grows_base (h : Nested C copy base above s) : C.Grows base s := by
  induction above with
  | nil => exact h
  | cons f above ih => exact ih h.tail

/-- A trap ends in one of the frames above, with the state it was pushed in, or goes through
to a frame that holds a copy of `base`. -/
theorem unwind_cases (h : Nested C copy base above s) (hf : copy f = some (C.save base)) :
    ∃ c rest, unwind copy (above ++ f :: below) = some (c, rest) ∧
      (c = C.save base ∧ rest = below ∨ ∃ s₀ above', c = C.save s₀ ∧
        rest = above' ++ f :: below ∧ C.Grows s₀ s ∧ Nested C copy base above' s₀) := by
  induction above with
  | nil => exact ⟨_, _, by simp only [nil_append, unwind, hf], .inl ⟨rfl, rfl⟩⟩
  | cons g above ih =>
    rw [Nested] at h
    rw [cons_append, unwind]
    split at h
    · rename_i hg
      rw [hg]
      exact ih h
    · rename_i c hg
      obtain ⟨s₀, rfl, hs₀, hrest⟩ := h
      rw [hg]
      exact ⟨_, _, rfl, .inr ⟨s₀, above, rfl, rfl, hs₀, hrest⟩⟩

end Nested

variable (C copy) in
/-- A frame that was pushed above `below` in the state `base` is still there. -/
def Open (base : σ) (below : List φ) (m : σ × List φ) : Prop :=
  ∃ above f, m.2 = above ++ f :: below ∧ copy f = some (C.save base) ∧ Nested C copy base above m.1

theorem Open.step {m m' : σ × List φ} (hstep : Step C copy m m')
    (habove : below.length < m'.2.length) (h : Open C copy base below m) :
    Open C copy base below m' := by
  obtain ⟨above, f, hfs, hf, hnested⟩ := h
  cases hstep with
  | ret hst =>
    cases above with
    | nil =>
      -- the frame itself would be the one that returns
      obtain ⟨-, rfl⟩ := cons.inj hfs
      exact absurd habove (Nat.lt_irrefl _)
    | cons g above =>
      obtain ⟨-, rfl⟩ := cons.inj hfs
      exact ⟨above, f, rfl, hf, (hnested.grows hst).tail⟩
  | @work s t g f' fs hst hcopy =>
    have hnested := hnested.grows hst
    cases above with
    | nil =>
      obtain ⟨rfl, rfl⟩ := cons.inj hfs
      exact ⟨[], g, rfl, hcopy.trans hf, hnested⟩
    | cons f₁ above =>
      obtain ⟨rfl, rfl⟩ := cons.inj hfs
      refine ⟨g :: above, f, rfl, hf, ?_⟩
      rw [Nested] at hnested ⊢
      rwa [hcopy]
  | @push g s fs hcopy =>
    refine ⟨g :: above, f, congrArg (g :: ·) hfs, hf, ?_⟩
    rw [Nested]
    rcases hcopy with hcopy | hcopy
    · rw [hcopy]
      exact hnested
    · rw [hcopy]
      exact ⟨s, rfl, C.refl s, hnested⟩
  | trap hunwind =>
    dsimp only at hfs
    obtain ⟨c, rest, hrest, hcases⟩ := hnested.unwind_cases hf
    rw [hfs, hrest, Option.some.injEq, Prod.mk.injEq] at hunwind
    obtain ⟨rfl, rfl⟩ := hunwind
    rcases hcases with ⟨-, rfl⟩ | ⟨s₀, above', rfl, rfl, hs₀, hnested'⟩
    · exact absurd habove (Nat.lt_irrefl _)
    · refine ⟨above', f, rfl, hf, ?_⟩
      rwa [C.restore_save hs₀]

/-- As long as the stack stays above `below`, a trap that goes back to `below` gives back the
state in which the frame above it was pushed. -/
theorem caught {m : σ × List φ} (hf : copy f = some (C.save base))
    (hrun : ReflTransGen (fun m m' => Step C copy m m' ∧ below.length < m'.2.length)
      (base, f :: below) m)
    (hback : ∀ c rest, unwind copy m.2 = some (c, rest) → rest.length ≤ below.length) :
    ∃ c, unwind copy m.2 = some (c, below) ∧ C.restore m.1 c = base := by
  have hopen : Open C copy base below m := by
    clear hback
    induction hrun with
    | refl => exact ⟨[], f, rfl, hf, C.refl base⟩
    | tail _ hstep ih => exact ih.step hstep.1 hstep.2
  obtain ⟨above, g, hfs, hg, hnested⟩ := hopen
  obtain ⟨c, rest, hunwind, hcases⟩ := hnested.unwind_cases hg
  rw [← hfs] at hunwind
  rcases hcases with ⟨rfl, rfl⟩ | ⟨s₀, above', -, rfl, -⟩
  · exact ⟨_, hunwind, C.restore_save hnested.grows_base⟩
  · have hlength := hback _ _ hunwind
    simp only [length_append, length_cons] at hlength
    omega

end Savepoints
