import VscNode.Pendulum.Params

/-!
# Swap fees

A pool contract asks for the fees of a swap of `x` against reserves `X` and `Y`.
Both fee legs live in the output asset: the CLP leg is scaled, the protocol leg
carries the stabilizer multiplier. Each leg is cut into a network part and a
pot, and each pot into what providers keep and what nodes get. The node share
leaves the pool as HBD, directly where the output is HBD and through a second
hop where it is not. The applier quotes the swap first and moves the node share
last, through the callback it is given.
-/

namespace VscNode.Pendulum

open FixedPoint

structure Version where
  (major consensus nonConsensus : ℕ)
  deriving DecidableEq

def Version.meetsConsensusMin (v min : Version) : Bool :=
  decide (min.major ≤ v.major ∧ min.consensus ≤ v.consensus)

/-- The version from which providers keep their minimum. -/
def lpFloorActivation : Version := ⟨0, 2, 0⟩

structure Config where
  stabilizer : StabilizerParams
  (networkShareNum networkShareDen minFractionBps clpScaleBps maxFeeBps : Int)
  activationHeight : ℕ
  deriving DecidableEq

def defaultLPFloorBps : Int := 2500

def defaultConfig : Config :=
  { stabilizer := defaultStabilizerParams, networkShareNum := 1, networkShareDen := 4
    minFractionBps := defaultLPFloorBps, clpScaleBps := 625, maxFeeBps := 100
    activationHeight := 0 }

structure Applier where
  geometry : Option (ℕ → Option Geometry)
  whitelist : Option (ℕ → List String)
  consensusAt : Option (ℕ → Version)
  cfg : Config

inductive SwapError
  | notConfigured | notWhitelisted | snapshotUnavailable | invalidArgument | insufficientReserves
  | accrualFailed (message : String)
  | arithmeticOverflow | stabilizerOverflow
  deriving DecidableEq

structure SwapFeeArgs where
  (assetIn assetOut : String)
  (x xReserve yReserve : Int)
  deriving DecidableEq

structure SwapFeeResult where
  (userOutput newXReserve newYReserve networkCreditOutput nodeBucketCreditedHBD lpShareOutput : Int)
  (nodeShareOutput multiplierBps sAfterBps : Int)
  deriving DecidableEq

/-! ## Checks -/

def contractWhitelisted (contractID : String) (whitelist : List String) : Bool :=
  contractID ≠ "" && whitelist.contains contractID

/-- The asset name in lower case; only ASCII letters change. -/
def normalizeAsset (a : String) : String := String.ofList (a.toList.map Char.toLower)

structure Swap where
  (x xReserve yReserve : Int)
  (hbdIn hbdOut : Bool)
  geo : Geometry
  x_pos : 0 < x
  xReserve_pos : 0 < xReserve
  yReserve_pos : 0 < yReserve
  e_pos : 0 < geo.e
  t_pos : 0 < geo.t

namespace Applier

def checkSwap (a : Applier) (contractID : String) (blockHeight : ℕ) (args : SwapFeeArgs) :
    Except SwapError Swap :=
  match a.geometry, a.whitelist with
  | some geometryAt, some whitelist =>
    if !contractWhitelisted contractID (whitelist blockHeight) then .error .notWhitelisted
    else if hpos : 0 < args.x ∧ 0 < args.xReserve ∧ 0 < args.yReserve then
      let assetIn := normalizeAsset args.assetIn
      let assetOut := normalizeAsset args.assetOut
      if assetIn = "" ∨ assetOut = "" ∨ assetIn = assetOut then .error .invalidArgument
      else if assetIn ≠ "hbd" ∧ assetOut ≠ "hbd" then .error .invalidArgument
      else
        match geometryAt blockHeight with
        | none => .error .snapshotUnavailable
        | some geo =>
          if hgeo : 0 < geo.e ∧ 0 < geo.t then
            .ok { x := args.x, xReserve := args.xReserve, yReserve := args.yReserve
                  hbdIn := assetIn = "hbd", hbdOut := assetOut = "hbd", geo := geo
                  x_pos := hpos.1, xReserve_pos := hpos.2.1, yReserve_pos := hpos.2.2
                  e_pos := hgeo.1, t_pos := hgeo.2 }
          else .error .snapshotUnavailable
    else .error .invalidArgument
  | _, _ => .error .notConfigured

theorem checkSwap_ok {a : Applier} {contractID : String} {blockHeight : ℕ} {args : SwapFeeArgs}
    {s : Swap} (h : a.checkSwap contractID blockHeight args = .ok s) :
    s.x = args.x ∧ s.xReserve = args.xReserve ∧ s.yReserve = args.yReserve ∧
      s.hbdOut = decide (normalizeAsset args.assetOut = "hbd") ∧
      (s.hbdOut = true ↔ normalizeAsset args.assetIn ≠ "hbd") := by
  unfold checkSwap at h
  split at h
  · dsimp only at h
    split_ifs at h with hwl hpos hempty hpair
    split at h
    · exact absurd h (by simp)
    split_ifs at h with hgeo
    obtain rfl := Except.ok.inj h
    refine ⟨rfl, rfl, rfl, rfl, ?_⟩
    simp only [decide_eq_true_eq]
    constructor
    · intro hout hin
      exact hempty (.inr (.inr (hin.trans hout.symm)))
    intro hin
    by_contra hout
    exact hpair ⟨hin, hout⟩
  · exact absurd h (by simp)

end Applier

/-! ## Fee legs -/

def tradeRatioBps (x xReserve : Int) : Option Int :=
  if xReserve ≤ 0 then some 0 else mulDivFloorI64 x bpsScale xReserve

structure FeeLegs where
  (clp protocol : Int)
  deriving DecidableEq

def FeeLegs.total (l : FeeLegs) : Int := l.clp + l.protocol

variable (cfg : Config)

namespace Swap

variable (s : Swap)

def grossOut : Int := mulDivFloor s.x s.yReserve (s.xReserve + s.x)

def baseCLP : Int :=
  mulDivFloor (s.x * s.x) s.yReserve ((s.xReserve + s.x) * (s.xReserve + s.x))

def baseProtocol : Int := mulDivFloor s.grossOut protocolFeeRateBps bpsScale

/-- A trade toward the target is pushed at seven tenths. -/
def stabilizer (cfg : Config) : StabilizerParams :=
  if exacerbatesFromSnapshot s.geo.sBps s.hbdIn then cfg.stabilizer
  else { cfg.stabilizer with pushBps := bpsScale * 70 / 100 }

def multiplierBps (cfg : Config) : Except SwapError Int :=
  match tradeRatioBps s.x s.xReserve with
  | none => .error .arithmeticOverflow
  | some r =>
    match stabilizerMultiplierBps s.geo.sBps r (s.stabilizer cfg) with
    | none => .error .stabilizerOverflow
    | some m => .ok m

def feeLegs (cfg : Config) (blockHeight : ℕ) (m : Int) : FeeLegs :=
  let protocol := max (applyMultiplierBps s.baseProtocol m) s.baseProtocol
  if cfg.activationHeight = 0 ∨ cfg.activationHeight ≤ blockHeight then
    let clp := applyMultiplierBps s.baseCLP cfg.clpScaleBps
    let feeCap := mulDivFloor s.grossOut cfg.maxFeeBps bpsScale
    if 0 < cfg.maxFeeBps ∧ feeCap < clp + protocol then ⟨max (feeCap - protocol) 0, protocol⟩
    else ⟨clp, protocol⟩
  else ⟨max (applyMultiplierBps s.baseCLP m) s.baseCLP, protocol⟩

theorem grossOut_nonneg : 0 ≤ s.grossOut :=
  mulDivFloor_nonneg s.x_pos.le s.yReserve_pos.le (add_pos s.xReserve_pos s.x_pos).le

theorem baseCLP_nonneg : 0 ≤ s.baseCLP :=
  mulDivFloor_nonneg (mul_self_nonneg _) s.yReserve_pos.le (mul_self_nonneg _)

theorem baseProtocol_nonneg : 0 ≤ s.baseProtocol :=
  mulDivFloor_nonneg s.grossOut_nonneg (by decide) (by decide)

theorem feeLegs_nonneg {cfg : Config} (hscale : 0 ≤ cfg.clpScaleBps) (blockHeight : ℕ) (m : Int) :
    0 ≤ (s.feeLegs cfg blockHeight m).clp ∧ 0 ≤ (s.feeLegs cfg blockHeight m).protocol := by
  have hprotocol := s.baseProtocol_nonneg
  have hclp := s.baseCLP_nonneg
  have hscaled := applyMultiplierBps_nonneg hclp hscale
  unfold feeLegs
  dsimp only
  split_ifs
  · exact ⟨le_max_right _ _, le_max_of_le_right hprotocol⟩
  · exact ⟨hscaled, le_max_of_le_right hprotocol⟩
  · exact ⟨le_max_of_le_right hclp, le_max_of_le_right hprotocol⟩

end Swap

/-! ## Shares -/

/-- What becomes of the fees, in the output asset. -/
structure Shares where
  (network lp node : Int)
  deriving DecidableEq

namespace Shares

def total (s : Shares) : Int := s.network + s.lp + s.node

def add (s t : Shares) : Shares := ⟨s.network + t.network, s.lp + t.lp, s.node + t.node⟩

theorem total_add (s t : Shares) : (s.add t).total = s.total + t.total := by
  simp only [total, add]
  ring

/-- No part is negative. -/
structure Nonneg (s : Shares) : Prop where
  network : 0 ≤ s.network
  lp : 0 ≤ s.lp
  node : 0 ≤ s.node

theorem Nonneg.add {s t : Shares} (hs : s.Nonneg) (ht : t.Nonneg) : (s.add t).Nonneg :=
  ⟨add_nonneg hs.network ht.network, add_nonneg hs.lp ht.lp, add_nonneg hs.node ht.node⟩

end Shares

/-- The network's fraction; a denominator that is not positive stands for a quarter. -/
def Config.networkShare : Int × Int :=
  if cfg.networkShareDen ≤ 0 then (1, 4) else (cfg.networkShareNum, cfg.networkShareDen)

def Config.SharesWhole : Prop :=
  0 ≤ cfg.networkShareNum ∧ cfg.networkShareNum ≤ cfg.networkShareDen
  deriving Decidable

theorem Config.SharesWhole.networkShare {cfg : Config} (h : cfg.SharesWhole) :
    0 ≤ cfg.networkShare.1 ∧ cfg.networkShare.1 ≤ cfg.networkShare.2 := by
  unfold Config.networkShare
  split_ifs
  · decide
  · exact h

/-- One leg cut into its parts. Providers get the floor and nodes the rest. -/
def potShares (fNodeBps total : Int) : Shares :=
  let network := mulDivFloor total cfg.networkShare.1 cfg.networkShare.2
  let pot := total - network
  let lp := mulDivFloor pot (wrap64 (bpsScale - fNodeBps)) bpsScale
  ⟨network, lp, pot - lp⟩

theorem potShares_total (fNodeBps total : Int) : (potShares cfg fNodeBps total).total = total := by
  simp only [potShares, Shares.total]
  ring

theorem potShares_nonneg {cfg : Config} (hcfg : cfg.SharesWhole) {fNodeBps total : Int}
    (hf : IsFraction fNodeBps) (htotal : 0 ≤ total) : (potShares cfg fNodeBps total).Nonneg := by
  obtain ⟨hnum, hle⟩ := hcfg.networkShare
  obtain ⟨hf0, hf1⟩ := hf
  have hnetwork := mulDivFloor_le htotal hnum hle
  have hwrap : wrap64 (bpsScale - fNodeBps) = bpsScale - fNodeBps :=
    wrap64_of_isInt64 (by simp only [IsInt64, bpsScale] at *; omega)
  have hpot : 0 ≤ total - mulDivFloor total cfg.networkShare.1 cfg.networkShare.2 := by omega
  unfold potShares
  rw [hwrap]
  have hkept := mulDivFloor_le hpot (show 0 ≤ bpsScale - fNodeBps by omega)
    (show bpsScale - fNodeBps ≤ bpsScale by omega)
  exact {
    network := mulDivFloor_nonneg htotal hnum (hnum.trans hle)
    lp := mulDivFloor_nonneg hpot (by omega) (by decide)
    node := sub_nonneg.2 hkept }

/-! ## The quote -/

namespace Swap

def drain (s : Swap) (userOutput node : Int) : Option (Int × Int × Int) :=
  let newX := s.xReserve + s.x
  let newY := s.yReserve - userOutput
  if s.hbdOut then
    if newY < node then none else some (newX, newY - node, node)
  else
    let denom := newY + node
    if denom ≤ 0 then none
    else
      let hbdOut := mulDivFloor node newX denom
      if newX < hbdOut then none else some (newX - hbdOut, newY, hbdOut)

end Swap

/-- Every field that is handed back fits a signed word. -/
def SwapFeeResult.Fits (r : SwapFeeResult) : Prop :=
  IsInt64 r.newXReserve ∧ IsInt64 r.newYReserve ∧ IsInt64 r.userOutput ∧
    IsInt64 r.nodeBucketCreditedHBD ∧ IsInt64 r.networkCreditOutput ∧
    IsInt64 r.lpShareOutput ∧ IsInt64 r.nodeShareOutput
  deriving Decidable

namespace Applier

variable (a : Applier) (contractID : String) (blockHeight : ℕ) (args : SwapFeeArgs)

def maxNodeBps : Int :=
  match a.consensusAt with
  | some versionAt =>
    if 0 < a.cfg.minFractionBps ∧ (versionAt blockHeight).meetsConsensusMin lpFloorActivation then
      maxNodeShareBps a.cfg.minFractionBps
    else bpsScale
  | none => bpsScale

theorem isFraction_maxNodeBps : IsFraction (a.maxNodeBps blockHeight) := by
  have hone : IsFraction bpsScale := ⟨by decide, le_rfl⟩
  unfold maxNodeBps
  cases a.consensusAt with
  | none => exact hone
  | some versionAt =>
    dsimp only
    split_ifs
    · exact isFraction_maxNodeShareBps _
    · exact hone

variable (s : Swap) (accrue : Int → Option String) (accrueNodeBucket : Option (Int → Option String))
  (r : SwapFeeResult)

/-- The parts of the two legs of a swap. -/
def shares (legs : FeeLegs) : Shares :=
  let f := splitFractionsBps s.geo.t s.geo.v s.geo.e s.geo.p s.geo.sBps (a.maxNodeBps blockHeight)
  (potShares a.cfg f.1 legs.clp).add (potShares a.cfg f.2 legs.protocol)

def settle (m : Int) : Except SwapError SwapFeeResult :=
  let legs := s.feeLegs a.cfg blockHeight m
  let userOutput := s.grossOut - legs.total
  if userOutput < 0 then .error .insufficientReserves
  else
    let parts := a.shares blockHeight s legs
    match s.drain userOutput parts.node with
    | none => .error .insufficientReserves
    | some (newX, newY, nodeBucketHBD) =>
      let out : SwapFeeResult :=
        { userOutput := userOutput, newXReserve := newX, newYReserve := newY
          networkCreditOutput := parts.network, nodeBucketCreditedHBD := nodeBucketHBD
          lpShareOutput := parts.lp, nodeShareOutput := parts.node
          multiplierBps := m, sAfterBps := s.geo.sBps }
      if newX < 0 ∨ newY < 0 then .error .insufficientReserves
      else if out.Fits then .ok out
      else .error .insufficientReserves

/-- The whole computation, before anything moves. -/
def quote : Except SwapError SwapFeeResult :=
  match a.checkSwap contractID blockHeight args with
  | .error e => .error e
  | .ok s =>
    if s.grossOut ≤ 0 ∨ s.yReserve < s.grossOut then .error .insufficientReserves
    else
      match s.multiplierBps a.cfg with
      | .error e => .error e
      | .ok m => a.settle blockHeight s m

/-- Move the node share of a quoted swap. `accrue` answers with its error, if any;
the second component lists the calls made to it. -/
def creditNodeBucket : Except SwapError SwapFeeResult × List Int :=
  if 0 < r.nodeBucketCreditedHBD then
    match accrue r.nodeBucketCreditedHBD with
    | some message => (.error (.accrualFailed message), [r.nodeBucketCreditedHBD])
    | none => (.ok r, [r.nodeBucketCreditedHBD])
  else (.ok r, [])

/-- Fees applied to a swap, with the calls made to move HBD from the pool to the
nodes. -/
def applySwapFees : Except SwapError SwapFeeResult × List Int :=
  match accrueNodeBucket with
  | none => (.error .notConfigured, [])
  | some accrue =>
    match a.quote contractID blockHeight args with
    | .error e => (.error e, [])
    | .ok r => creditNodeBucket accrue r

theorem creditNodeBucket_cases :
    (creditNodeBucket accrue r =
        (.ok r, if 0 < r.nodeBucketCreditedHBD then [r.nodeBucketCreditedHBD] else [])) ∨
      ∃ message, accrue r.nodeBucketCreditedHBD = some message ∧ creditNodeBucket accrue r =
          (.error (.accrualFailed message), [r.nodeBucketCreditedHBD]) := by
  unfold creditNodeBucket
  split_ifs with hpos
  · cases hacc : accrue r.nodeBucketCreditedHBD with
    | none => exact .inl rfl
    | some message => exact .inr ⟨message, rfl, rfl⟩
  · exact .inl rfl

theorem applySwapFees_cases :
    (∃ e, a.applySwapFees contractID blockHeight args accrueNodeBucket = (.error e, [])) ∨
      ∃ accrue r, accrueNodeBucket = some accrue ∧ a.quote contractID blockHeight args = .ok r ∧
        a.applySwapFees contractID blockHeight args accrueNodeBucket =
          creditNodeBucket accrue r := by
  unfold applySwapFees
  cases accrueNodeBucket with
  | none => exact .inl ⟨_, rfl⟩
  | some accrue =>
    cases hquote : a.quote contractID blockHeight args with
    | error e => exact .inl ⟨e, rfl⟩
    | ok r => exact .inr ⟨accrue, r, rfl, rfl, rfl⟩

end Applier

end VscNode.Pendulum
