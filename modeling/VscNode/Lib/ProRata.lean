import Mathlib.Algebra.BigOperators.Group.Finset.Piecewise
import Mathlib.Algebra.Order.BigOperators.Group.Finset
import Mathlib.Tactic.Linarith
import Mathlib.Tactic.Ring

/-!
# Pools that pay pro rata

A pool holds `assets` against `supply` shares. While it holds less than it has
issued, a leaving share is paid at the ratio of the two, rounded down; a pool that
covers its supply pays in full.

What rounding keeps back stays with the others, so along every sequence of exits
the ratio never falls, the assets never pass the supply, and the last one out
takes what is left (`Pool.Since`).
-/

namespace ProRata

open Finset

/-- What `g` shares are paid. -/
def payout (assets supply g : ℤ) : ℤ :=
  if supply ≤ 0 ∨ supply ≤ assets then g
  else if assets ≤ 0 then 0
  else g * assets / supply

variable {assets supply g : ℤ}

theorem payout_of_le (h : supply ≤ assets) (g : ℤ) : payout assets supply g = g :=
  if_pos (.inr h)

theorem payout_eq_ediv (h : 0 ≤ assets) (hle : assets ≤ supply) (hpos : 0 < supply) (g : ℤ) :
    payout assets supply g = g * assets / supply := by
  rw [payout]
  split_ifs with hfull hzero
  · -- All that is issued is held.
    have heq : assets = supply := le_antisymm hle (hfull.resolve_left (not_le.2 hpos))
    rw [heq, Int.mul_ediv_cancel _ hpos.ne']
  · rw [le_antisymm hzero h, mul_zero, Int.zero_ediv]
  · rfl

theorem payout_eq_self_iff (hg : 0 < g) :
    payout assets supply g = g ↔ supply ≤ 0 ∨ supply ≤ assets := by
  rw [payout]
  split_ifs with hfull hzero
  · exact iff_of_true rfl hfull
  · exact iff_of_false hg.ne hfull
  have hpos : 0 < supply := lt_of_not_ge fun h => hfull (.inl h)
  have hlt : assets < supply := lt_of_not_ge fun h => hfull (.inr h)
  refine iff_of_false (ne_of_lt ?_) hfull
  exact Int.ediv_lt_of_lt_mul hpos (mul_lt_mul_of_pos_left hlt hg)

theorem payout_le_max (hg : 0 < g) (hle : g ≤ supply) (assets : ℤ) :
    payout assets supply g ≤ max assets 0 := by
  have hpos : 0 < supply := hg.trans_le hle
  rw [payout]
  split_ifs with hfull hzero
  · exact le_max_of_le_left (hle.trans (hfull.resolve_left (not_le.2 hpos)))
  · exact le_max_right ..
  refine le_max_of_le_left (Int.ediv_le_of_le_mul hpos ?_)
  rw [mul_comm]
  exact mul_le_mul_of_nonneg_left hle (not_le.1 hzero).le

/-- A pool and who owns its shares. -/
structure Pool (ι : Type*) where
  (assets supply : ℤ)
  share : ι → ℤ

namespace Pool

variable {ι : Type*} {p₀ p : Pool ι} {holders : Finset ι} {i : ι} {paid : ℤ}

/-- What one share is worth. -/
def ratio (p : Pool ι) : ℚ := p.assets / p.supply

/-- The shares belong to the holders and add up to the supply, and the pool holds
no more than it has issued. -/
structure Sound (p : Pool ι) (holders : Finset ι) : Prop where
  share_nonneg : ∀ i, 0 ≤ p.share i
  share_eq_zero : ∀ i ∉ holders, p.share i = 0
  sum_share : ∑ i ∈ holders, p.share i = p.supply
  assets_nonneg : 0 ≤ p.assets
  assets_le : p.assets ≤ p.supply

theorem Sound.supply_nonneg (h : p.Sound holders) : 0 ≤ p.supply :=
  h.assets_nonneg.trans h.assets_le

theorem Sound.mem_of_pos (h : p.Sound holders) (hi : 0 < p.share i) : i ∈ holders :=
  of_not_not fun hmem => hi.ne' (h.share_eq_zero i hmem)

theorem Sound.share_le (h : p.Sound holders) (hi : 0 < p.share i) : p.share i ≤ p.supply := by
  rw [← h.sum_share]
  exact single_le_sum (fun j _ => h.share_nonneg j) (h.mem_of_pos hi)

structure Since (holders : Finset ι) (p₀ p : Pool ι) (paid : ℤ) : Prop where
  sound : p.Sound holders
  conserved : p.assets + paid = p₀.assets
  supply_le : p.supply ≤ p₀.supply
  ratio_le : p₀.assets * p.supply ≤ p.assets * p₀.supply

theorem Since.refl (h : p.Sound holders) : Since holders p p 0 :=
  ⟨h, add_zero _, le_refl _, le_refl _⟩

section

variable (h : Since holders p₀ p paid)
include h

theorem Since.ratio_le_ratio (hpos : 0 < p.supply) : p₀.ratio ≤ p.ratio := by
  have h₀ := hpos.trans_le h.supply_le
  rw [ratio, ratio, div_le_div_iff₀ (Int.cast_pos.2 h₀) (Int.cast_pos.2 hpos)]
  exact_mod_cast h.ratio_le

/-- A later exit is paid at the first ratio at least. -/
theorem Since.le_payout (hg : 0 < g) (hle : g ≤ p.share i) :
    g * p₀.assets / p₀.supply ≤ payout p.assets p.supply g := by
  have hpos : 0 < p.supply := (hg.trans_le hle).trans_le (h.sound.share_le (hg.trans_le hle))
  have h₀ := hpos.trans_le h.supply_le
  rw [payout_eq_ediv h.sound.assets_nonneg h.sound.assets_le hpos]
  refine Int.le_ediv_of_mul_le hpos (le_of_mul_le_mul_right ?_ h₀)
  calc g * p₀.assets / p₀.supply * p.supply * p₀.supply
      = g * p₀.assets / p₀.supply * p₀.supply * p.supply := by ring
    _ ≤ g * p₀.assets * p.supply :=
        mul_le_mul_of_nonneg_right (Int.ediv_mul_le _ h₀.ne') hpos.le
    _ = g * (p₀.assets * p.supply) := by ring
    _ ≤ g * (p.assets * p₀.supply) := mul_le_mul_of_nonneg_left h.ratio_le hg.le
    _ = g * p.assets * p₀.supply := by ring

theorem Since.paid_of_drained (hzero : ∀ i, p.share i = 0) : paid = p₀.assets := by
  have hsupply : p.supply = 0 := by
    rw [← h.sound.sum_share]
    exact sum_eq_zero fun i _ => hzero i
  have hassets : p.assets = 0 :=
    le_antisymm (hsupply ▸ h.sound.assets_le) h.sound.assets_nonneg
  have hconserved := h.conserved
  rwa [hassets, zero_add] at hconserved

end

/-! ## Joining and leaving -/

variable [DecidableEq ι]

def join (p : Pool ι) (i : ι) (g : ℤ) : Pool ι :=
  ⟨p.assets + g, p.supply + g, Function.update p.share i (p.share i + g)⟩

def exit (p : Pool ι) (i : ι) (g : ℤ) : Pool ι :=
  ⟨p.assets - payout p.assets p.supply g, p.supply - g, Function.update p.share i (p.share i - g)⟩

theorem covered_exit (h : p.supply ≤ p.assets) (i : ι) (g : ℤ) :
    (p.exit i g).supply ≤ (p.exit i g).assets := by
  rw [exit, payout_of_le h]
  exact sub_le_sub_right h g

theorem Sound.ratio_exit (h : p.Sound holders) (hpos : 0 < p.supply) (i : ι) (g : ℤ) :
    p.assets * (p.exit i g).supply ≤ (p.exit i g).assets * p.supply := by
  have hfloor : g * p.assets / p.supply * p.supply ≤ g * p.assets :=
    Int.ediv_mul_le _ hpos.ne'
  rw [exit, payout_eq_ediv h.assets_nonneg h.assets_le hpos]
  calc p.assets * (p.supply - g) = p.assets * p.supply - g * p.assets := by ring
    _ ≤ p.assets * p.supply - g * p.assets / p.supply * p.supply := sub_le_sub_left hfloor _
    _ = (p.assets - g * p.assets / p.supply) * p.supply := by ring

theorem Sound.exit (h : p.Sound holders) (hg : 0 < g) (hle : g ≤ p.share i) :
    (p.exit i g).Sound holders := by
  have hshare := h.share_le (hg.trans_le hle)
  have hpos : 0 < p.supply := (hg.trans_le hle).trans_le hshare
  have hpay := payout_eq_ediv h.assets_nonneg h.assets_le hpos g
  have hi : i ∈ holders := h.mem_of_pos (hg.trans_le hle)
  constructor
  · intro j
    rcases eq_or_ne j i with rfl | hj
    · simpa [Pool.exit] using hle
    · simpa [Pool.exit, hj] using h.share_nonneg j
  · intro j hj
    have hne : j ≠ i := fun heq => hj (heq ▸ hi)
    simpa [Pool.exit, hne] using h.share_eq_zero j hj
  · have hsum := h.sum_share
    rw [← add_sum_erase holders p.share hi] at hsum
    simp only [Pool.exit, sum_update_of_mem hi, sdiff_singleton_eq_erase]
    linarith
  · simp only [Pool.exit, hpay, sub_nonneg]
    refine Int.ediv_le_of_le_mul hpos ?_
    rw [mul_comm]
    exact mul_le_mul_of_nonneg_left (hle.trans hshare) h.assets_nonneg
  -- What is paid falls short of `g` by no more than the pool is short of.
  have hshort : g - (p.supply - p.assets) ≤ g * p.assets / p.supply := by
    refine Int.le_ediv_of_mul_le hpos ?_
    nlinarith [mul_nonneg (sub_nonneg.2 (hle.trans hshare)) (sub_nonneg.2 h.assets_le)]
  simp only [Pool.exit, hpay]
  linarith

theorem Since.exit (h : Since holders p₀ p paid) (hg : 0 < g) (hle : g ≤ p.share i) :
    Since holders p₀ (p.exit i g) (paid + payout p.assets p.supply g) where
  sound := h.sound.exit hg hle
  conserved := by
    have hconserved := h.conserved
    simp only [Pool.exit]
    linarith
  supply_le := (sub_le_self _ hg.le).trans h.supply_le
  ratio_le := by
    have hpos : 0 < p.supply := (hg.trans_le hle).trans_le (h.sound.share_le (hg.trans_le hle))
    have hstep := h.sound.ratio_exit hpos i g
    have hnonneg := (h.sound.exit hg hle).supply_nonneg
    have h₀ := hpos.le.trans h.supply_le
    refine le_of_mul_le_mul_right ?_ hpos
    calc p₀.assets * (p.exit i g).supply * p.supply
        = p₀.assets * p.supply * (p.exit i g).supply := by ring
      _ ≤ p.assets * p₀.supply * (p.exit i g).supply :=
          mul_le_mul_of_nonneg_right h.ratio_le hnonneg
      _ = p.assets * (p.exit i g).supply * p₀.supply := by ring
      _ ≤ (p.exit i g).assets * p.supply * p₀.supply := mul_le_mul_of_nonneg_right hstep h₀
      _ = (p.exit i g).assets * p₀.supply * p.supply := by ring

end Pool

end ProRata
