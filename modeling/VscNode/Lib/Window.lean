import Mathlib.Data.List.DropRight
import Mathlib.Data.List.Sort

/-!
# Rolling windows

A window keeps the last `n` items of what is pushed into it. What it holds after a
run depends only on the last `n` items, so two windows that were given the same `n`
items agree, whatever they held before.
-/

namespace Window

open List

variable {α : Type*}

variable (n : ℕ) (l m : List α)

/-- Append an item and drop the oldest if there are more than `n`. -/
def push (w : List α) (x : α) : List α := (w ++ [x]).rtake n

theorem rtake_append : (l ++ m).rtake n = l.rtake (n - m.length) ++ m.rtake n := by
  simp only [rtake_eq_reverse_take_reverse, reverse_append, take_append,
    length_reverse]

theorem rtake_rtake_append : (l.rtake n ++ m).rtake n = (l ++ m).rtake n := by
  simp only [rtake_eq_reverse_take_reverse, reverse_append, reverse_reverse,
    take_append, take_take]
  congr 3
  omega

theorem foldl_push {w : List α} (hw : w.length ≤ n) (xs : List α) :
    xs.foldl (push n) w = (w ++ xs).rtake n := by
  induction xs generalizing w with
  | nil => simp [rtake, Nat.sub_eq_zero_of_le hw]
  | cons x xs ih =>
    have hlen : (push n w x).length ≤ n := by
      rw [push, rtake_eq_reverse_take_reverse, length_reverse, length_take]
      omega
    rw [foldl_cons, ih hlen, push, rtake_rtake_append, append_assoc,
      singleton_append]

theorem rtake_append_of_le {n : ℕ} {l m : List α} (h : n ≤ m.length) :
    (l ++ m).rtake n = m.rtake n := by
  rw [rtake_append, Nat.sub_eq_zero_of_le h, rtake_zero, nil_append]

end Window
