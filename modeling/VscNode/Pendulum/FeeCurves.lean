import VscNode.Lib.Rounding
import VscNode.Pendulum.SwapValue
import Mathlib.Algebra.Order.Group.MinMax
import Mathlib.Tactic.FieldSimp

/-!
# The curves behind the fees

Three curves in basis points decide what a swap pays and who gets it. The node
fraction grows with the liquidity that the bonds have to cover, up to a ceiling
that leaves providers their minimum. The stabilizer multiplies the protocol fee by
a chain of three divided products. The fee cap trims the CLP leg.

Each curve is compared with what it rounds: the node fraction with the split of a
whole, the multiplier with the rational it approximates, the charged fee with the
cap and with the fee before the multiplier.
-/

namespace VscNode.Pendulum

open FixedPoint Option

/-! ## The split of a whole -/

structure SplitInputsInt where
  (r e t v p : Option Int)
  deriving DecidableEq

structure SplitOutputsInt where
  (finalNodeShare finalPoolShare : Int)
  underSecured : Bool
  deriving DecidableEq

def splitInt (inp : SplitInputsInt) : Option SplitOutputsInt := do
  let r ← inp.r
  let e ← inp.e
  let t ← inp.t
  let v ← inp.v
  let p ← inp.p
  if e ≤ 0 ∨ t ≤ 0 then none
  else if r < 0 ∨ v < 0 ∨ p < 0 then none
  else
    let cE := cliffTimesE e
    if cE ≤ v then some ⟨r, 0, true⟩
    -- Without liquidity there is nothing to weigh.
    else if v = 0 then some ⟨r, 0, false⟩
    else
      let tvSquared := v * v * t
      let peTerm := p * e * (cE - v)
      let denom := tvSquared + peTerm
      if denom = 0 then some ⟨r, 0, false⟩
      else
        let poolShare := mulDivFloor r peTerm denom
        some ⟨r - poolShare, poolShare, false⟩

/-! ## Node fractions -/

section NodeFraction

variable {t e p p' v sBps sBps' : Int}

def nodeFraction (t e p : Int) : Int :=
  mulDivFloor (2 * p * (2 * p) * t) bpsScale (2 * p * (2 * p) * t + p * e * (cliffTimesE e - 2 * p))

theorem nodeFraction_terms (ht : 0 < t) (he : 0 < e) (hp : 0 < p) (hcliff : 2 * p < cliffTimesE e) :
    0 < 2 * p * (2 * p) * t ∧ 0 < p * e * (cliffTimesE e - 2 * p) :=
  ⟨mul_pos (mul_pos (by omega) (by omega)) ht, mul_pos (mul_pos hp he) (by omega)⟩

theorem nodeFraction_le_bpsScale (ht : 0 < t) (he : 0 < e) (hp : 0 < p)
    (hcliff : 2 * p < cliffTimesE e) : nodeFraction t e p ≤ bpsScale := by
  obtain ⟨hT, hP⟩ := nodeFraction_terms ht he hp hcliff
  have hparts := (mulDivFloor_parts hT.le hP.le (show 0 ≤ bpsScale by decide) (add_pos hT hP)).2
  have hrest := mulDivFloor_nonneg (show 0 ≤ bpsScale by decide) hP.le (add_pos hT hP).le
  unfold nodeFraction
  linarith

theorem splitFractionsBps_of_lt (ht : 0 < t) (he : 0 < e) (hp : 0 < p)
    (hcliff : 2 * p < cliffTimesE e) (sBps maxNodeBps : Int) :
    splitFractionsBps t (2 * p) e p sBps maxNodeBps = (min (nodeFraction t e p) maxNodeBps,
        if sBps < redirectLoBps then 0
        else if redirectHiBps < sBps then maxNodeBps
        else min (nodeFraction t e p) maxNodeBps) := by
  obtain ⟨hT, hP⟩ := nodeFraction_terms ht he hp hcliff
  have hlo : 0 ≤ nodeFraction t e p :=
    mulDivFloor_nonneg hT.le (by decide) (add_pos hT hP).le
  have hhi := nodeFraction_le_bpsScale ht he hp hcliff
  have hfits : IsInt64 (nodeFraction t e p) := by
    simp only [IsInt64, bpsScale] at *
    omega
  rw [nodeFraction] at hfits
  simp only [splitFractionsBps, if_neg (not_le.2 hcliff), if_neg (add_pos hT hP).ne', if_pos hfits,
    nodeFraction]

theorem splitFractionsBps_of_le (hcliff : cliffTimesE e ≤ v) (sBps maxNodeBps : Int) :
    splitFractionsBps t v e p sBps maxNodeBps = (maxNodeBps, maxNodeBps) := by
  simp only [splitFractionsBps, if_pos hcliff]

theorem splitFractionsBps_zero (sBps maxNodeBps : Int) :
    splitFractionsBps t 0 e 0 sBps maxNodeBps = (maxNodeBps, maxNodeBps) := by
  simp [splitFractionsBps]

theorem splitFractionsBps_le (t v e p sBps : Int) (maxNodeBps : Int) :
    (splitFractionsBps t v e p sBps maxNodeBps).1 ≤ maxNodeBps ∧
      (0 ≤ maxNodeBps → (splitFractionsBps t v e p sBps maxNodeBps).2 ≤ maxNodeBps) := by
  simp only [splitFractionsBps]
  split_ifs
  · exact ⟨le_rfl, fun _ => le_rfl⟩
  · exact ⟨le_rfl, fun _ => le_rfl⟩
  · exact ⟨min_le_right _ _, fun h => h⟩
  · exact ⟨min_le_right _ _, fun _ => le_rfl⟩
  · exact ⟨min_le_right _ _, fun _ => min_le_right _ _⟩
  · exact ⟨le_rfl, fun _ => le_rfl⟩

theorem nodeFraction_mono (ht : 0 < t) (he : 0 < e) (hp : 0 < p) (hle : p ≤ p')
    (hcliff : 2 * p' < cliffTimesE e) : nodeFraction t e p ≤ nodeFraction t e p' := by
  obtain ⟨hT, hP⟩ := nodeFraction_terms ht he hp (by omega)
  obtain ⟨hT', hP'⟩ := nodeFraction_terms ht he (hp.trans_le hle) hcliff
  refine mulDivFloor_part_le hT.le hT'.le (by decide) (add_pos hT hP) (add_pos hT' hP') ?_
  -- Both products share the factor `4 * p * p' * t * e`.
  have hrest : p * (cliffTimesE e - 2 * p') ≤ p' * (cliffTimesE e - 2 * p) :=
    mul_le_mul hle (by omega) (by omega) (by omega)
  have hfactor : 0 ≤ 4 * (p * p' * t * e) := by
    have := mul_pos (mul_pos (mul_pos hp (hp.trans_le hle)) ht) he
    omega
  calc 2 * p * (2 * p) * t * (p' * e * (cliffTimesE e - 2 * p'))
      = 4 * (p * p' * t * e) * (p * (cliffTimesE e - 2 * p')) := by ring
    _ ≤ 4 * (p * p' * t * e) * (p' * (cliffTimesE e - 2 * p)) :=
        mul_le_mul_of_nonneg_left hrest hfactor
    _ = 2 * p' * (2 * p') * t * (p * e * (cliffTimesE e - 2 * p)) := by ring

theorem splitFractionsBps_mono (ht : 0 < t) (he : 0 < e) (hp : 0 < p) (hle : p ≤ p')
    (hs : sBps ≤ sBps') (maxNodeBps : Int) :
    (splitFractionsBps t (2 * p) e p sBps maxNodeBps).1 ≤
        (splitFractionsBps t (2 * p') e p' sBps' maxNodeBps).1 ∧
      (0 ≤ maxNodeBps → (splitFractionsBps t (2 * p) e p sBps maxNodeBps).2 ≤
        (splitFractionsBps t (2 * p') e p' sBps' maxNodeBps).2) := by
  rcases le_or_gt (cliffTimesE e) (2 * p') with hpast | hbefore
  · rw [splitFractionsBps_of_le hpast sBps']
    exact splitFractionsBps_le t (2 * p) e p sBps maxNodeBps
  have hp' := hp.trans_le hle
  have hmono := nodeFraction_mono ht he hp hle hbefore
  have hnonneg : 0 ≤ nodeFraction t e p' := by
    obtain ⟨hT, hP⟩ := nodeFraction_terms ht he hp' hbefore
    exact mulDivFloor_nonneg hT.le (by decide) (add_pos hT hP).le
  rw [splitFractionsBps_of_lt ht he hp (by omega), splitFractionsBps_of_lt ht he hp' hbefore]
  refine ⟨min_le_min_right _ hmono, fun hmax => ?_⟩
  dsimp only
  split_ifs <;> omega

theorem splitInt_of_lt (ht : 0 < t) (he : 0 < e) (hp : 0 < p) (hcliff : 2 * p < cliffTimesE e) :
    let poolShare := mulDivFloor bpsScale (p * e * (cliffTimesE e - 2 * p))
      (2 * p * (2 * p) * t + p * e * (cliffTimesE e - 2 * p))
    splitInt ⟨some bpsScale, some e, some t, some (2 * p), some p⟩ =
      some ⟨bpsScale - poolShare, poolShare, false⟩ := by
  obtain ⟨hT, hP⟩ := nodeFraction_terms ht he hp hcliff
  have hscale : 0 ≤ bpsScale := by decide
  simp only [splitInt, bind_eq_bind, bind_some, if_neg (not_le.2 hcliff),
    if_neg (show ¬(e ≤ 0 ∨ t ≤ 0) by omega), if_neg (show ¬2 * p = 0 by omega),
    if_neg (show ¬(bpsScale < 0 ∨ 2 * p < 0 ∨ p < 0) by omega), if_neg (add_pos hT hP).ne']

theorem splitFractionsBps_splitInt (ht : 0 < t) (he : 0 < e) (hp : 0 ≤ p) (sBps : Int) :
    ∃ out, splitInt ⟨some bpsScale, some e, some t, some (2 * p), some p⟩ = some out ∧
      |out.finalNodeShare - (splitFractionsBps t (2 * p) e p sBps bpsScale).1| ≤ 1 := by
  have hguard : ¬(e ≤ 0 ∨ t ≤ 0) := by omega
  have hguard' : ¬(bpsScale < 0 ∨ 2 * p < 0 ∨ p < 0) := by
    simp only [bpsScale]
    omega
  rcases le_or_gt (cliffTimesE e) (2 * p) with hpast | hbefore
  · refine ⟨⟨bpsScale, 0, true⟩, ?_, ?_⟩
    · simp [splitInt, hguard, hguard', hpast]
    · rw [splitFractionsBps_of_le hpast]
      simp
  rcases hp.eq_or_lt with rfl | hpos
  · refine ⟨⟨bpsScale, 0, false⟩, ?_, ?_⟩
    · simp only [mul_zero] at hbefore ⊢
      simp [splitInt, hguard, not_le.2 hbefore, show 0 ≤ bpsScale by decide]
    · rw [mul_zero, splitFractionsBps_zero]
      simp
  obtain ⟨hT, hP⟩ := nodeFraction_terms ht he hpos hbefore
  have hparts := mulDivFloor_parts hT.le hP.le (show 0 ≤ bpsScale by decide) (add_pos hT hP)
  have hle := nodeFraction_le_bpsScale ht he hpos hbefore
  refine ⟨_, splitInt_of_lt ht he hpos hbefore, ?_⟩
  rw [splitFractionsBps_of_lt ht he hpos hbefore, min_eq_left hle, nodeFraction, abs_le]
  dsimp only
  omega

end NodeFraction

/-- What a leg leaves to providers and nodes. -/
def Shares.pot (s : Shares) : Int := s.lp + s.node

def Applier.LpFloorActive (a : Applier) (blockHeight : ℕ) : Prop :=
  0 < a.cfg.minFractionBps ∧ ∃ versionAt, a.consensusAt = some versionAt ∧
      (versionAt blockHeight).meetsConsensusMin lpFloorActivation = true

theorem Applier.LpFloorActive.maxNodeBps {a : Applier} {blockHeight : ℕ}
    (h : a.LpFloorActive blockHeight) :
    a.maxNodeBps blockHeight = bpsScale - min a.cfg.minFractionBps bpsScale := by
  obtain ⟨hmin, versionAt, hversion, hmeets⟩ := h
  simp only [Applier.maxNodeBps, hversion, hmin, hmeets, and_self, if_true, maxNodeShareBps,
    if_neg (not_le.2 hmin)]

theorem potShares_lp_ge (cfg : Config) {fNodeBps minBps total : Int} (hf : 0 ≤ fNodeBps)
    (hle : fNodeBps ≤ bpsScale - minBps) (hmin : 0 ≤ minBps)
    (hpot : 0 ≤ (potShares cfg fNodeBps total).pot) :
    (potShares cfg fNodeBps total).pot * minBps / bpsScale ≤ (potShares cfg fNodeBps total).lp := by
  have hwrap : wrap64 (bpsScale - fNodeBps) = bpsScale - fNodeBps :=
    wrap64_of_isInt64 (by simp only [IsInt64, bpsScale] at *; omega)
  have hpot_eq : (potShares cfg fNodeBps total).pot =
      total - mulDivFloor total cfg.networkShare.1 cfg.networkShare.2 := by
    simp only [Shares.pot, potShares]
    ring
  have hlp : (potShares cfg fNodeBps total).lp =
      (potShares cfg fNodeBps total).pot * (bpsScale - fNodeBps) / bpsScale := by
    rw [← mulDivFloor_eq_div hpot (by omega), hpot_eq, ← hwrap]
    rfl
  rw [hlp]
  exact Int.ediv_le_ediv (by decide) (mul_le_mul_of_nonneg_left (by omega) hpot)

/-- Nodes get more as liquidity grows against the bonds, never more than the
ceiling; providers keep their minimum of every pot; without a ceiling the fraction
is the one of the split. -/
theorem nodeShare_follows_collateral {t e : Int} (ht : 0 < t) (he : 0 < e) :
    (∀ p p' sBps sBps' maxNodeBps : Int, 0 < p → p ≤ p' → sBps ≤ sBps' →
      (splitFractionsBps t (2 * p) e p sBps maxNodeBps).1 ≤
          (splitFractionsBps t (2 * p') e p' sBps' maxNodeBps).1 ∧
        (0 ≤ maxNodeBps → (splitFractionsBps t (2 * p) e p sBps maxNodeBps).2 ≤
          (splitFractionsBps t (2 * p') e p' sBps' maxNodeBps).2)) ∧
    (∀ sBps maxNodeBps : Int,
      splitFractionsBps t 0 e 0 sBps maxNodeBps = (maxNodeBps, maxNodeBps)) ∧
    (∀ v p sBps maxNodeBps : Int, (splitFractionsBps t v e p sBps maxNodeBps).1 ≤ maxNodeBps ∧
        (0 ≤ maxNodeBps → (splitFractionsBps t v e p sBps maxNodeBps).2 ≤ maxNodeBps)) ∧
    (∀ (a : Applier) (blockHeight : ℕ) (v p sBps total fNodeBps : Int), 0 ≤ p →
      a.LpFloorActive blockHeight →
      (fNodeBps = (splitFractionsBps t v e p sBps (a.maxNodeBps blockHeight)).1 ∨
        fNodeBps = (splitFractionsBps t v e p sBps (a.maxNodeBps blockHeight)).2) →
      0 ≤ (potShares a.cfg fNodeBps total).pot →
      (potShares a.cfg fNodeBps total).pot * min a.cfg.minFractionBps bpsScale / bpsScale ≤
        (potShares a.cfg fNodeBps total).lp) ∧
    ∀ p sBps : Int, 0 ≤ p →
      ∃ out, splitInt ⟨some bpsScale, some e, some t, some (2 * p), some p⟩ = some out ∧
        |out.finalNodeShare - (splitFractionsBps t (2 * p) e p sBps bpsScale).1| ≤ 1 := by
  refine ⟨fun p p' sBps sBps' maxNodeBps hp hle hs => splitFractionsBps_mono ht he hp hle hs _,
    fun sBps maxNodeBps => splitFractionsBps_zero _ _, fun v p sBps => splitFractionsBps_le _ _ _ _ _,
    fun a blockHeight v p sBps total fNodeBps hp hactive hf hpot => ?_,
    fun p sBps hp => splitFractionsBps_splitInt ht he hp sBps⟩
  have hmax := a.isFraction_maxNodeBps blockHeight
  obtain ⟨hf₁, hf₂⟩ := isFraction_splitFractionsBps ht he hp hmax v sBps
  obtain ⟨hle₁, hle₂⟩ := splitFractionsBps_le t v e p sBps (a.maxNodeBps blockHeight)
  rw [hactive.maxNodeBps] at hle₁ hle₂ hmax hf hf₁ hf₂
  have hmin : 0 ≤ min a.cfg.minFractionBps bpsScale := le_min hactive.1.le (by decide)
  obtain rfl | rfl := hf
  · exact potShares_lp_ge a.cfg hf₁.1 hle₁ hmin hpot
  · exact potShares_lp_ge a.cfg hf₂.1 (hle₂ hmax.1) hmin hpot

/-- The default floor past the cliff, and short of it. -/
theorem nodeShare_follows_collateral_default :
    (splitFractionsBps 1500 (2 * 300) 1000 300 6000 bpsScale).1 ≤
        (splitFractionsBps 1500 (2 * 900) 1000 900 18000 bpsScale).1 ∧
      (potShares defaultConfig 7500 100).pot * 2500 / bpsScale ≤
        (potShares defaultConfig 7500 100).lp :=
  ⟨((nodeShare_follows_collateral (by decide) (by decide)).1 300 900 6000 18000 bpsScale (by decide)
      (by decide) (by decide)).1,
    (nodeShare_follows_collateral (t := 1500) (e := 1000) (by decide) (by decide)).2.2.2.1
      (Applier.pastCliff defaultConfig) 1 3000 1500 30000 100 7500 (by decide)
      ⟨by decide, _, rfl, by decide⟩ (.inl (by decide)) (by decide)⟩

/-- Pools without any liquidity leave the whole pot to nodes, and the first unit of
it leaves them nothing. -/
theorem nodeShare_drops_from_empty : (splitFractionsBps 1500 (2 * 1) 1000 1 20 bpsScale).1 <
      (splitFractionsBps 1500 (2 * 0) 1000 0 0 bpsScale).1 := by
  decide

/-! ## The stabilizer -/

structure StabilizerParams.Valid (p : StabilizerParams) : Prop where
  k : 0 ≤ p.kBps
  r0 : 0 < p.r0Bps
  cap : 0 < p.capBps
  push : 0 ≤ p.pushBps

theorem valid_defaultStabilizerParams : defaultStabilizerParams.Valid :=
  ⟨by decide, by decide, by decide, by decide⟩

def targetDistance (sBps : Int) : Int :=
  let offset := wrap64 (sBps - targetSBps)
  if offset < 0 then wrap64 (-offset) else offset

/-- The three links of the tail. -/
def roundedTail (distance rBps : Int) (p : StabilizerParams) : Int :=
  mulDivFloor (mulDivFloor (mulDivFloor p.kBps distance bpsScale)
    (bpsScale + mulDivFloor rBps bpsScale p.r0Bps) bpsScale) p.pushBps bpsScale

section Stabilizer

variable {sBps rBps m : Int} {p : StabilizerParams}

section

variable (hp : p.Valid)
include hp

theorem stabilizerMultiplierBps_eq (h : stabilizerMultiplierBps sBps rBps p = some m) :
    m = min (bpsScale + roundedTail (targetDistance sBps) rBps p) p.capBps := by
  simp only [stabilizerMultiplierBps, if_neg (not_le.2 hp.r0), bind_eq_bind,
    bind_eq_some_iff] at h
  obtain ⟨ratio, hratio, h⟩ := h
  rw [ite_eq_iff] at h
  obtain ⟨-, hnone⟩ | ⟨-, h⟩ := h
  · exact absurd hnone (by simp)
  simp only [bind_eq_some_iff] at h
  obtain ⟨slope, hslope, steep, hsteep, tail, htail, h⟩ := h
  have hvalue : roundedTail (targetDistance sBps) rBps p = tail := by
    rw [eq_of_mulDivFloorI64 htail, eq_of_mulDivFloorI64 hsteep, eq_of_mulDivFloorI64 hslope,
      eq_of_mulDivFloorI64 hratio]
    rfl
  rw [hvalue]
  have hcap := hp.cap
  split_ifs at h with hover hcapped
  · obtain rfl := some.inj h
    exact (min_eq_right hcapped.2.le).symm
  · obtain rfl := some.inj h
    exact (min_eq_left (not_lt.1 fun hlt => hcapped ⟨hcap, hlt⟩)).symm

end

end Stabilizer

/-! ## The fee cap -/

def Config.FeeFixActive (cfg : Config) (blockHeight : ℕ) : Prop :=
  cfg.activationHeight = 0 ∨ cfg.activationHeight ≤ blockHeight

namespace Swap

variable {s : Swap} {cfg : Config} {blockHeight : ℕ} {m : Int}

theorem multiplierBps_le_cap (hcfg : cfg.stabilizer.Valid) (h : s.multiplierBps cfg = .ok m) :
    m ≤ cfg.stabilizer.capBps := by
  have hvalid : (s.stabilizer cfg).Valid ∧ (s.stabilizer cfg).capBps = cfg.stabilizer.capBps := by
    unfold stabilizer
    split_ifs
    · exact ⟨hcfg, rfl⟩
    · have hpush : 0 ≤ bpsScale * 70 / 100 := by decide
      exact ⟨⟨hcfg.k, hcfg.r0, hcfg.cap, hpush⟩, rfl⟩
  unfold multiplierBps at h
  split at h
  · exact absurd h (by simp)
  split at h
  · exact absurd h (by simp)
  rename_i r _ _ hm
  obtain rfl := Except.ok.inj h
  rw [stabilizerMultiplierBps_eq hvalid.1 hm, hvalid.2]
  exact min_le_right _ _

theorem feeLegs_protocol (s : Swap) (cfg : Config) (blockHeight : ℕ) {k : Int} (hk : 1 ≤ k)
    (hm : m ≤ k * bpsScale) :
    s.baseProtocol ≤ (s.feeLegs cfg blockHeight m).protocol ∧
      (s.feeLegs cfg blockHeight m).protocol ≤ k * s.baseProtocol := by
  have hbase := s.baseProtocol_nonneg
  have hscaled : applyMultiplierBps s.baseProtocol m ≤ k * s.baseProtocol := by
    unfold applyMultiplierBps
    split_ifs
    · exact mul_nonneg (by omega) hbase
    calc mulDivFloor s.baseProtocol m bpsScale
        ≤ mulDivFloor s.baseProtocol (k * bpsScale) bpsScale :=
          Int.tdiv_le_tdiv (by decide) (mul_le_mul_of_nonneg_left hm hbase)
      _ = k * s.baseProtocol := by
          rw [mulDivFloor, ← mul_assoc, Int.mul_tdiv_cancel _ (by decide), mul_comm]
  have hprotocol : (s.feeLegs cfg blockHeight m).protocol =
      max (applyMultiplierBps s.baseProtocol m) s.baseProtocol := by
    unfold feeLegs
    dsimp only
    split_ifs <;> rfl
  rw [hprotocol]
  exact ⟨le_max_right _ _, max_le hscaled (le_mul_of_one_le_left hbase hk)⟩

theorem feeLegs_total_le (hactive : cfg.FeeFixActive blockHeight) (hmax : 0 < cfg.maxFeeBps)
    (hprotocol : (s.feeLegs cfg blockHeight m).protocol ≤
      mulDivFloor s.grossOut cfg.maxFeeBps bpsScale) :
    (s.feeLegs cfg blockHeight m).total ≤ mulDivFloor s.grossOut cfg.maxFeeBps bpsScale := by
  unfold Config.FeeFixActive at hactive
  simp only [feeLegs, if_pos hactive, hmax, true_and, FeeLegs.total] at hprotocol ⊢
  split_ifs at hprotocol ⊢ <;> dsimp only at hprotocol ⊢ <;> omega

end Swap

/-- Under the default configuration, with the fee fix in force, an accepted swap pays
at most one percent of its gross output and at least the plain protocol fee. -/
theorem Applier.swapFee_within_cap (a : Applier) (activationHeight : ℕ)
    (hcfg : a.cfg = { defaultConfig with activationHeight := activationHeight })
    {blockHeight : ℕ} (hactive : a.cfg.FeeFixActive blockHeight) (contractID : String)
    (args : SwapFeeArgs) (accrueNodeBucket : Option (Int → Option String)) {r : SwapFeeResult}
    (h : (a.applySwapFees contractID blockHeight args accrueNodeBucket).1 = .ok r) :
    let grossOut := args.x * args.yReserve / (args.xReserve + args.x)
    grossOut - r.userOutput ≤ grossOut / 100 ∧ 0 ≤ r.userOutput ∧
      grossOut * 8 / 10000 ≤ grossOut - r.userOutput := by
  obtain ⟨s, m, hcheck, hm, hr⟩ := quote_ok (applySwapFees_ok h).1
  obtain ⟨hx, hX, hY, -, -⟩ := checkSwap_ok hcheck
  have hgross : s.grossOut = args.x * args.yReserve / (args.xReserve + args.x) := by
    rw [Swap.grossOut, mulDivFloor_eq_div s.x_pos.le s.yReserve_pos.le, hx, hX, hY]
  intro grossOut
  rw [show grossOut = s.grossOut from hgross.symm, hr.userOutput]
  have hg := s.grossOut_nonneg
  have hstabilizer : a.cfg.stabilizer = defaultStabilizerParams := by rw [hcfg]; rfl
  have hmaxFee : a.cfg.maxFeeBps = 100 := by rw [hcfg]; rfl
  have hscale : a.cfg.clpScaleBps = 625 := by rw [hcfg]; rfl
  have hcap : m ≤ 2 * bpsScale := by
    have hle := Swap.multiplierBps_le_cap (hstabilizer ▸ valid_defaultStabilizerParams) hm
    rw [hstabilizer] at hle
    exact hle
  obtain ⟨hbase, htwice⟩ := s.feeLegs_protocol a.cfg blockHeight (by decide) hcap
  -- The protocol leg is at most sixteen basis points, well below the hundred of the cap.
  have hbase_eq : s.baseProtocol = s.grossOut * 8 / 10000 := mulDivFloor_eq_div hg (by decide)
  have hcap_eq : mulDivFloor s.grossOut a.cfg.maxFeeBps bpsScale = s.grossOut * 100 / 10000 := by
    rw [hmaxFee]
    exact mulDivFloor_eq_div hg (by decide)
  have htotal := Swap.feeLegs_total_le (s := s) (m := m) hactive (by omega) (by omega)
  have hclp := (s.feeLegs_nonneg (show 0 ≤ a.cfg.clpScaleBps by omega) blockHeight m).1
  have huser := hr.userOutput_nonneg
  rw [hr.userOutput] at huser
  rw [FeeLegs.total] at htotal huser ⊢
  omega

theorem Applier.swapFee_within_cap_pastCliff :
    ∃ r, ((Applier.pastCliff defaultConfig).applySwapFees "pool" 1 Applier.hiveToHbd
        (some fun _ => none)).1 = .ok r ∧ 500 - r.userOutput ≤ 500 / 100 ∧ 0 ≤ r.userOutput ∧
          500 * 8 / 10000 ≤ 500 - r.userOutput :=
  ⟨_, rfl, (Applier.pastCliff defaultConfig).swapFee_within_cap 0 rfl (.inl rfl) "pool"
    Applier.hiveToHbd (some fun _ => none) rfl⟩

end VscNode.Pendulum
