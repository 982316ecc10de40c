import VscNode.Lib.FixedPoint
import VscNode.Lib.Text

/-!
# The pendulum: geometry, stabilizer and node fractions

The pendulum weighs the liquidity `V` of the pools against the stake `E` that
secures them. Every curve is integer arithmetic in basis points. The geometry is
read off pool depths and committee bonds; the stabilizer multiplier grows with
the distance from the target ratio and with the size of the trade; the fraction
of a fee that goes to nodes grows with `V` up to a cliff.
-/

namespace VscNode.Pendulum

open FixedPoint

/-- The basis-point denominator. -/
def bpsScale : Int := 10000

def protocolFeeRateBps : Int := 8

/-- The equilibrium ratio of liquidity to effective stake. -/
def targetSBps : Int := bpsScale

def deriveCliffSBps (targetSBps : Int) : Int :=
  (targetSBps * targetSBps * 2).tdiv bpsScale + targetSBps

/-- The ratio from which the vault is under-secured. -/
def cliffSBps : Int := deriveCliffSBps targetSBps

/-- The ratio at which nodes and liquidity providers earn in proportion `ratioBps`. -/
def sEdgeForRatio (ratioBps cliffSBps : Int) : Int :=
  ((Nat.sqrt (ratioBps * ratioBps + ratioBps * cliffSBps * 8).toNat : Int) - ratioBps).tdiv 4

def safeRatioLoBps : Int := 2571

def safeRatioHiBps : Int := 32667

def redirectLoBps : Int := sEdgeForRatio safeRatioLoBps cliffSBps

def redirectHiBps : Int := sEdgeForRatio safeRatioHiBps cliffSBps

def cliffTimesE (e : Int) : Int := mulDivFloor e cliffSBps bpsScale

/-! ## Band edges -/

/-- The ratio at which nodes and liquidity providers earn; 0 outside the rewarded region. -/
def yieldRatioBps (sBps : Int) : Int :=
  if sBps ≤ 0 ∨ cliffSBps ≤ sBps then 0 else (sBps * sBps * 2).tdiv (cliffSBps - sBps)

section Edge

variable {ratio cliff : Int} (hr : 0 < ratio) (hc : 0 < cliff)
include hr hc

theorem le_sEdgeForRatio_iff {s : Int} (hs : 0 ≤ s) :
    s ≤ sEdgeForRatio ratio cliff ↔ 2 * s * s + ratio * s ≤ ratio * cliff := by
  lift ratio to ℕ using hr.le
  lift cliff to ℕ using hc.le
  lift s to ℕ using hs
  -- the quadratic, completed to a square
  have hroot : 4 * s + ratio ≤ Nat.sqrt (ratio * ratio + ratio * cliff * 8) ↔
      2 * s * s + ratio * s ≤ ratio * cliff := by
    rw [Nat.le_sqrt]
    constructor <;> intro h <;> linarith
  have hge : ratio ≤ Nat.sqrt (ratio * ratio + ratio * cliff * 8) :=
    Nat.le_sqrt.2 (Nat.le_add_right ..)
  have hnat : sEdgeForRatio ratio cliff =
      ((Nat.sqrt (ratio * ratio + ratio * cliff * 8) - ratio : ℕ) : Int).tdiv 4 := by
    rw [sEdgeForRatio, Nat.cast_sub hge]
    rfl
  rw [hnat, Int.tdiv_eq_ediv_of_nonneg (Nat.cast_nonneg _)]
  norm_cast
  rw [← hroot]
  omega

theorem sEdgeForRatio_nonneg : 0 ≤ sEdgeForRatio ratio cliff :=
  (le_sEdgeForRatio_iff hr hc le_rfl).2 (by simpa using (mul_pos hr hc).le)

theorem sEdgeForRatio_spec :
    2 * sEdgeForRatio ratio cliff * sEdgeForRatio ratio cliff +
      ratio * sEdgeForRatio ratio cliff ≤ ratio * cliff :=
  (le_sEdgeForRatio_iff hr hc (sEdgeForRatio_nonneg hr hc)).1 le_rfl

theorem sEdgeForRatio_lt : sEdgeForRatio ratio cliff < cliff := by
  have hspec := (le_sEdgeForRatio_iff hr hc hc.le).not.2 (by nlinarith)
  exact not_le.1 hspec

end Edge

/-- The edges invert the yield curve. -/
theorem sEdgeForRatio_inverts {ratio cliff : Int} (hr : 0 < ratio) (hc : 0 < cliff) :
    IsGreatest {s : Int | 2 * s * s + ratio * s ≤ ratio * cliff} (sEdgeForRatio ratio cliff) ∧
    0 ≤ sEdgeForRatio ratio cliff ∧ sEdgeForRatio ratio cliff < cliff ∧
    (∀ ratio' cliff', ratio ≤ ratio' → cliff ≤ cliff' →
      sEdgeForRatio ratio cliff ≤ sEdgeForRatio ratio' cliff') ∧
    (0 < sEdgeForRatio ratio cliffSBps → sEdgeForRatio ratio cliffSBps + 1 < cliffSBps →
      yieldRatioBps (sEdgeForRatio ratio cliffSBps) ≤ ratio ∧
      ratio ≤ yieldRatioBps (sEdgeForRatio ratio cliffSBps + 1)) := by
  have hzero := sEdgeForRatio_nonneg hr hc
  have hlt := sEdgeForRatio_lt hr hc
  have hspec := sEdgeForRatio_spec hr hc
  refine ⟨⟨hspec, fun s hs => ?_⟩, hzero, hlt, fun ratio' cliff' hratio hcliff => ?_,
    fun hpos hin => ?_⟩
  · rcases le_total s 0 with hneg | hs0
    · exact hneg.trans hzero
    · exact (le_sEdgeForRatio_iff hr hc hs0).2 hs
  · rw [le_sEdgeForRatio_iff (hr.trans_le hratio) (hc.trans_le hcliff) hzero]
    nlinarith
  · have hcl : (0 : Int) < cliffSBps := by decide
    have hspec := sEdgeForRatio_spec hr hcl
    have hnext := (le_sEdgeForRatio_iff hr hcl (Int.add_nonneg hpos.le Int.one_nonneg)).not.1
      (by omega)
    generalize sEdgeForRatio ratio cliffSBps = edge at *
    rw [yieldRatioBps, yieldRatioBps, if_neg (by omega), if_neg (by omega),
      Int.tdiv_eq_ediv_of_nonneg (by positivity), Int.tdiv_eq_ediv_of_nonneg (by positivity)]
    exact ⟨Int.le_of_lt_add_one ((Int.ediv_lt_iff_lt_mul (by omega)).2 (by nlinarith)),
      (Int.le_ediv_iff_mul_le (by omega)).2 (by nlinarith)⟩

theorem sEdgeForRatio_inverts_safe : sEdgeForRatio safeRatioLoBps cliffSBps < cliffSBps :=
  (sEdgeForRatio_inverts (by decide) (by decide)).2.2.1

/-! ## Geometry -/

/-- The geometry a swap is priced with. Pool depths are sums of positive
balances, so neither of the two liquidity figures is negative. -/
structure Geometry where
  (v p e t sBps : Int)
  v_nonneg : 0 ≤ v
  p_nonneg : 0 ≤ p

/-! ## The stabilizer -/

structure StabilizerParams where
  (kBps r0Bps capBps pushBps : Int)
  deriving DecidableEq

def defaultStabilizerParams : StabilizerParams :=
  { kBps := bpsScale, r0Bps := bpsScale / 100, capBps := bpsScale * 2, pushBps := bpsScale }

/-- The multiplier on the protocol fee, capped; `none` where a term overflows. -/
def stabilizerMultiplierBps (sBps rBps : Int) (p : StabilizerParams) : Option Int := do
  let r0 := if p.r0Bps ≤ 0 then 1 else p.r0Bps
  let offset := wrap64 (sBps - targetSBps)
  let diff := if offset < 0 then wrap64 (-offset) else offset
  let rOverR0 ← mulDivFloorI64 rBps bpsScale r0
  if maxInt64 - bpsScale < rOverR0 then none
  else
    let inner := bpsScale + rOverR0
    let tail ← mulDivFloorI64 p.kBps diff bpsScale
    let tail ← mulDivFloorI64 tail inner bpsScale
    let tail ← mulDivFloorI64 tail p.pushBps bpsScale
    if maxInt64 - bpsScale < tail then none
    else
      let m := bpsScale + tail
      if 0 < p.capBps ∧ p.capBps < m then some p.capBps else some m

def applyMultiplierBps (fee mBps : Int) : Int :=
  if fee = 0 ∨ mBps = 0 then 0 else mulDivFloor fee mBps bpsScale

theorem applyMultiplierBps_nonneg {fee mBps : Int} (hfee : 0 ≤ fee) (hm : 0 ≤ mBps) :
    0 ≤ applyMultiplierBps fee mBps := by
  unfold applyMultiplierBps
  split_ifs
  · exact le_rfl
  · exact mulDivFloor_nonneg hfee hm (by decide)

/-- Whether a trade moves the ratio away from the target. -/
def exacerbatesFromSnapshot (sBps : Int) (hbdIn : Bool) : Bool :=
  if sBps = targetSBps then true
  else if sBps < targetSBps then !hbdIn
  else hbdIn

/-! ## Node fractions -/

/-- The largest node fraction that leaves providers their minimum. -/
def maxNodeShareBps (minFractionBps : Int) : Int :=
  if minFractionBps ≤ 0 then bpsScale else bpsScale - min minFractionBps bpsScale

/-- A fraction in basis points. -/
def IsFraction (f : Int) : Prop := 0 ≤ f ∧ f ≤ bpsScale

theorem isFraction_maxNodeShareBps (minFractionBps : Int) :
    IsFraction (maxNodeShareBps minFractionBps) := by
  unfold maxNodeShareBps IsFraction bpsScale
  split_ifs <;> omega

/-- The node fractions of the CLP pot and of the protocol pot. The second is
redirected where the ratio leaves the safe band. -/
def splitFractionsBps (t v e p sBps maxNodeBps : Int) : Int × Int :=
  let cE := cliffTimesE e
  if cE ≤ v then (maxNodeBps, maxNodeBps)
  else
    let tvSquared := v * v * t
    let denom := tvSquared + p * e * (cE - v)
    if denom = 0 then (maxNodeBps, maxNodeBps)
    else
      let fNodeBig := mulDivFloor tvSquared bpsScale denom
      if IsInt64 fNodeBig then
        let fNode := min fNodeBig maxNodeBps
        (fNode,
          if sBps < redirectLoBps then 0
          else if redirectHiBps < sBps then maxNodeBps
          else fNode)
      else (maxNodeBps, maxNodeBps)

theorem isFraction_splitFractionsBps {t e p maxNodeBps : Int} (ht : 0 < t) (he : 0 < e)
    (hp : 0 ≤ p) (hmax : IsFraction maxNodeBps) (v sBps : Int) :
    IsFraction (splitFractionsBps t v e p sBps maxNodeBps).1 ∧
      IsFraction (splitFractionsBps t v e p sBps maxNodeBps).2 := by
  simp only [splitFractionsBps]
  split_ifs with hcliff hdenom hfits hlo hhi
  · exact ⟨hmax, hmax⟩
  · exact ⟨hmax, hmax⟩
  all_goals
    have htv : 0 ≤ v * v * t := mul_nonneg (mul_self_nonneg v) ht.le
    have hpe : 0 ≤ p * e * (cliffTimesE e - v) :=
      mul_nonneg (mul_nonneg hp he.le) (by omega)
    have hf := mulDivFloor_nonneg htv (show (0 : Int) ≤ bpsScale by decide) (add_nonneg htv hpe)
    have hnode : IsFraction (min (mulDivFloor (v * v * t) bpsScale
        (v * v * t + p * e * (cliffTimesE e - v))) maxNodeBps) :=
      ⟨le_min hf hmax.1, (min_le_right _ _).trans hmax.2⟩
  · exact ⟨hnode, le_rfl, show (0 : Int) ≤ bpsScale by decide⟩
  · exact ⟨hnode, hmax⟩
  · exact ⟨hnode, hnode⟩
  · exact ⟨hmax, hmax⟩

end VscNode.Pendulum
