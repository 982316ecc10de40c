import Mathlib.Algebra.BigOperators.Ring.List
import Mathlib.Algebra.Order.BigOperators.Group.List
import Mathlib.Tactic.Linarith
import Mathlib.Tactic.Ring
import Mathlib.Data.Int.Bitwise

/-!
# Integer fixed point and constant products

Fees are fractions of integer amounts, taken with one product and one truncating
division. For amounts that are not negative the division is a floor, so a part
never exceeds its whole and the rest is what is left over.

The second part is about pools of two reserves. A payout bounded by the floor of
the product rule never lowers the product of the reserves, and neither does a
second hop that converts a share of the payout into the other asset.
-/

namespace FixedPoint

/-! ## Signed words -/

/-- An integer brought into the range of a signed 64-bit word. -/
def wrap64 (n : Int) : Int := Int.bmod n (2 ^ 64)

def IsInt64 (n : Int) : Prop := -2 ^ 63 ≤ n ∧ n < 2 ^ 63
  deriving Decidable

def maxInt64 : Int := 2 ^ 63 - 1

variable {n : Int}

theorem wrap64_of_isInt64 (h : IsInt64 n) : wrap64 n = n := by
  obtain ⟨hlo, hhi⟩ := h
  exact Int.bmod_eq_of_le (by norm_num; omega) (by norm_num; omega)

theorem wrap64_of_ge (hge : 2 ^ 63 ≤ n) (hlt : n < 2 ^ 63 + 2 ^ 64) : wrap64 n = n - 2 ^ 64 := by
  rw [← wrap64_of_isInt64 (n := n - 2 ^ 64) ⟨by omega, by omega⟩]
  exact (Int.sub_bmod_right n (2 ^ 64)).symm

theorem isInt64_wrap64 (n : Int) : IsInt64 (wrap64 n) := by
  have hlo := Int.le_bmod (x := n) (m := 2 ^ 64) (by decide)
  have hhi := Int.bmod_lt (x := n) (m := 2 ^ 64) (by decide)
  norm_num at hlo hhi
  exact ⟨by unfold wrap64; norm_num; omega, by unfold wrap64; norm_num; omega⟩

/-- A word stands for the numbers that differ from it by turns. -/
theorem eq_wrap64_iff {n m : Int} (hn : IsInt64 n) : n = wrap64 m ↔ 2 ^ 64 ∣ m - n := by
  rw [Int.dvd_iff_emod_eq_zero, ← Int.emod_eq_emod_iff_emod_sub_eq_zero]
  constructor
  · rintro rfl
    exact (Int.bmod_emod ..).symm
  intro h
  have hword : wrap64 m = wrap64 n := by
    rw [wrap64, ← Int.emod_bmod, show m % (2 ^ 64 : ℕ) = n % (2 ^ 64 : ℕ) from h, Int.emod_bmod]
    rfl
  rw [hword, wrap64_of_isInt64 hn]

theorem foldl_wrap64 {α : Type*} (g : α → Int) (l : List α) (n : Int) :
    l.foldl (fun sum x => wrap64 (sum + g x)) (wrap64 n) = wrap64 (n + (l.map g).sum) := by
  induction l generalizing n with
  | nil => simp
  | cons x l ih =>
    have hstep : wrap64 (wrap64 n + g x) = wrap64 (n + g x) := Int.bmod_add_bmod ..
    rw [List.foldl_cons, hstep, ih, List.map_cons, List.sum_cons, add_assoc]

/-- A counter that is not below its start has not wrapped. -/
theorem wrap64_add_of_le {k : ℕ} (hn : IsInt64 n) (hk : k < 2 ^ 64) (hle : n ≤ wrap64 (n + k)) :
    wrap64 (n + k) = n + k := by
  obtain ⟨hlo, hhi⟩ := hn
  by_cases hfits : n + k < 2 ^ 63
  · exact wrap64_of_isInt64 ⟨by omega, hfits⟩
  · rw [wrap64_of_ge (by omega) (by omega)] at hle
    omega

/-! ## A product and a division -/

/-- The quotient of a product, truncated toward zero. -/
def mulDivFloor (a b c : Int) : Int := (a * b).tdiv c

/-- The quotient of a product where it fits a signed word. -/
def mulDivFloorI64 (a b c : Int) : Option Int :=
  if IsInt64 (mulDivFloor a b c) then some (mulDivFloor a b c) else none

section MulDiv

variable {a b c : Int}

theorem eq_of_mulDivFloorI64 {n : Int} (h : mulDivFloorI64 a b c = some n) :
    n = mulDivFloor a b c := by
  unfold mulDivFloorI64 at h
  split_ifs at h
  exact (Option.some.inj h).symm

theorem mulDivFloor_eq_div (ha : 0 ≤ a) (hb : 0 ≤ b) : mulDivFloor a b c = a * b / c :=
  Int.tdiv_eq_ediv_of_nonneg (mul_nonneg ha hb)

theorem mulDivFloor_nonneg (ha : 0 ≤ a) (hb : 0 ≤ b) (hc : 0 ≤ c) : 0 ≤ mulDivFloor a b c := by
  rw [mulDivFloor_eq_div ha hb]
  exact Int.ediv_nonneg (mul_nonneg ha hb) hc

theorem mulDivFloor_mul_le (ha : 0 ≤ a) (hb : 0 ≤ b) (hc : 0 < c) :
    mulDivFloor a b c * c ≤ a * b := by
  rw [mulDivFloor_eq_div ha hb]
  exact Int.ediv_mul_le _ hc.ne'

theorem mulDivFloor_le (ha : 0 ≤ a) (hb : 0 ≤ b) (hbc : b ≤ c) : mulDivFloor a b c ≤ a := by
  rw [mulDivFloor_eq_div ha hb]
  rcases hb.eq_or_lt with rfl | hpos
  · simpa using ha
  · exact Int.ediv_le_of_le_mul (hpos.trans_le hbc) (mul_le_mul_of_nonneg_left hbc ha)

end MulDiv

/-! ## Constant products -/

section ConstantProduct

variable {x X Y A B g n h : Int}

theorem product_le_of_payout (hg : g * (X + x) ≤ x * Y) : X * Y ≤ (X + x) * (Y - g) := by
  have hexpand : (X + x) * (Y - g) = X * Y + (x * Y - g * (X + x)) := by ring
  linarith

theorem payout_le_hop (hA : 0 ≤ A) (hB : 0 ≤ B) (hpos : 0 < B + n) (hh : h * (B + n) ≤ n * A) :
    A * (B - n) ≤ (A - h) * B := by
  have hcost : B * (h * (B + n)) ≤ B * (n * A) := mul_le_mul_of_nonneg_left hh hB
  have hsquare : 0 ≤ A * (n * n) := mul_nonneg hA (mul_self_nonneg n)
  refine le_of_mul_le_mul_right ?_ hpos
  calc A * (B - n) * (B + n) = A * B * (B + n) - B * (n * A) - A * (n * n) := by ring
    _ ≤ A * B * (B + n) - B * (h * (B + n)) := by linarith
    _ = (A - h) * B * (B + n) := by ring

end ConstantProduct

end FixedPoint
