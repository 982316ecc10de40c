import Mathlib.Data.List.Sort

/-!
# Sorted lists without their ends

Where few elements of a sorted list satisfy a test that passes from an element to
those before it, none is left after so many have been dropped from the front
(`not_of_mem_drop`). Sorting keeps an order between lists entry by entry
(`forall₂_insertionSort`).
-/

namespace Trimmed

open List

theorem not_of_mem_drop {α : Type*} {r : α → α → Prop} {l : List α} (hl : l.Pairwise r)
    {p : α → Bool} (hp : ∀ x y, r x y → p y = true → p x = true) {t : ℕ} (ht : l.countP p ≤ t)
    {x : α} (hx : x ∈ l.drop t) : p x = false := by
  by_contra hpx
  have hlt : t < l.length := by
    by_contra hle
    rw [drop_eq_nil_of_le (not_lt.1 hle)] at hx
    cases hx
  rw [← take_append_drop t l, pairwise_append] at hl
  have hfront : (l.take t).countP p = (l.take t).length :=
    countP_eq_length.2 fun y hy => hp y x (hl.2.2 y hy x hx) (by simpa using hpx)
  have hback : 0 < (l.drop t).countP p := countP_pos_iff.2 ⟨x, hx, by simpa using hpx⟩
  have hcount : l.countP p = (l.take t).countP p + (l.drop t).countP p := by
    rw [← countP_append, take_append_drop]
  rw [length_take] at hfront
  omega

section

variable {α : Type*} [LinearOrder α] {l l' : List α} {a b : α}

theorem orderedInsert_of_forall_le (h : ∀ x ∈ l, a ≤ x) : l.orderedInsert (· ≤ ·) a = a :: l := by
  cases l with
  | nil => rfl
  | cons x l => exact orderedInsert_cons_of_le _ l (h x mem_cons_self)

theorem forall₂_orderedInsert (h : List.Forall₂ (· ≤ ·) l l') (hl : l.Pairwise (· ≤ ·))
    (hl' : l'.Pairwise (· ≤ ·)) (hab : a ≤ b) :
    List.Forall₂ (· ≤ ·) (l.orderedInsert (· ≤ ·) a) (l'.orderedInsert (· ≤ ·) b) := by
  induction h generalizing a b with
  | nil => exact .cons hab .nil
  | @cons x y l l' hxy h ih =>
    rw [pairwise_cons] at hl hl'
    by_cases hax : a ≤ x
    · rw [orderedInsert_cons_of_le _ _ hax]
      by_cases hby : b ≤ y
      · rw [orderedInsert_cons_of_le _ _ hby]
        exact .cons hab (.cons hxy h)
      -- The entries move up by one on the right.
      rw [orderedInsert_of_not_le _ _ hby, ← orderedInsert_of_forall_le hl.1]
      exact .cons (hax.trans hxy) (ih hl.2 hl'.2 (hxy.trans (not_le.1 hby).le))
    rw [orderedInsert_of_not_le _ _ hax]
    by_cases hby : b ≤ y
    · rw [orderedInsert_cons_of_le _ _ hby, ← orderedInsert_of_forall_le hl'.1]
      exact .cons ((not_le.1 hax).le.trans hab) (ih hl.2 hl'.2 (hab.trans hby))
    · rw [orderedInsert_of_not_le _ _ hby]
      exact .cons hxy (ih hl.2 hl'.2 hab)

theorem forall₂_insertionSort (h : List.Forall₂ (· ≤ ·) l l') :
    List.Forall₂ (· ≤ ·) (l.insertionSort (· ≤ ·)) (l'.insertionSort (· ≤ ·)) := by
  induction h with
  | nil => exact .nil
  | cons hab h ih =>
    exact forall₂_orderedInsert ih (pairwise_insertionSort ..) (pairwise_insertionSort ..) hab

end

end Trimmed
