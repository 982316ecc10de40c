import VscNode.Pendulum.Applier

/-!
# What a swap does to value

The parts of an accepted swap add up to its gross output, and the reserves lose
exactly what the user and the node bucket gain. The product of the reserves never
falls: the user and the nodes together take at most the gross output, and where
the node share is converted through a second hop, the pool is left no worse than
if the share had been paid out directly.
-/

namespace VscNode.Pendulum

open FixedPoint Swap

namespace Swap

variable {s : Swap} {userOutput node newX newY bucket : Int}

theorem drain_hbdOut (hout : s.hbdOut = true)
    (h : s.drain userOutput node = some (newX, newY, bucket)) :
    newX = s.xReserve + s.x ∧ newY = s.yReserve - userOutput - node ∧ bucket = node := by
  simp only [drain, hout, if_true] at h
  split_ifs at h
  simp only [Option.some.injEq, Prod.mk.injEq] at h
  exact ⟨h.1.symm, h.2.1.symm, h.2.2.symm⟩

theorem drain_hbdIn (hout : s.hbdOut = false)
    (h : s.drain userOutput node = some (newX, newY, bucket)) :
    0 < s.yReserve - userOutput + node ∧
      bucket = mulDivFloor node (s.xReserve + s.x) (s.yReserve - userOutput + node) ∧
      newX = s.xReserve + s.x - bucket ∧ newY = s.yReserve - userOutput := by
  simp only [drain, hout, Bool.false_eq_true, if_false] at h
  split_ifs at h with hdenom
  simp only [Option.some.injEq, Prod.mk.injEq] at h
  obtain ⟨rfl, rfl, rfl⟩ := h
  exact ⟨not_le.1 hdenom, rfl, rfl, rfl⟩

theorem grossOut_mul_le (s : Swap) : s.grossOut * (s.xReserve + s.x) ≤ s.x * s.yReserve :=
  mulDivFloor_mul_le s.x_pos.le s.yReserve_pos.le (add_pos s.xReserve_pos s.x_pos)

end Swap

namespace Applier

variable {a : Applier} {contractID : String} {blockHeight : ℕ} {args : SwapFeeArgs}
  {s : Swap} {m : Int} {r : SwapFeeResult}

/-- What an accepted swap hands back. -/
structure Settled (a : Applier) (blockHeight : ℕ) (s : Swap) (legs : FeeLegs) (r : SwapFeeResult) :
    Prop where
  userOutput : r.userOutput = s.grossOut - legs.total
  userOutput_nonneg : 0 ≤ r.userOutput
  network : r.networkCreditOutput = (a.shares blockHeight s legs).network
  lp : r.lpShareOutput = (a.shares blockHeight s legs).lp
  node : r.nodeShareOutput = (a.shares blockHeight s legs).node
  drained : s.drain r.userOutput r.nodeShareOutput =
    some (r.newXReserve, r.newYReserve, r.nodeBucketCreditedHBD)
  newX_nonneg : 0 ≤ r.newXReserve
  newY_nonneg : 0 ≤ r.newYReserve

theorem settle_ok (h : a.settle blockHeight s m = .ok r) :
    a.Settled blockHeight s (s.feeLegs a.cfg blockHeight m) r := by
  simp only [settle] at h
  split_ifs at h with huser
  split at h
  · exact absurd h (by simp)
  rename_i newX newY bucket hdrain
  split_ifs at h with hneg hfits
  obtain rfl := Except.ok.inj h
  exact {
    userOutput := rfl
    userOutput_nonneg := not_lt.1 huser
    network := rfl
    lp := rfl
    node := rfl
    drained := hdrain
    newX_nonneg := not_lt.1 fun h => hneg (.inl h)
    newY_nonneg := not_lt.1 fun h => hneg (.inr h) }

theorem quote_ok (h : a.quote contractID blockHeight args = .ok r) :
    ∃ s m, a.checkSwap contractID blockHeight args = .ok s ∧ s.multiplierBps a.cfg = .ok m ∧
      a.Settled blockHeight s (s.feeLegs a.cfg blockHeight m) r := by
  unfold quote at h
  split at h
  · exact absurd h (by simp)
  rename_i s hs
  split_ifs at h
  split at h
  · exact absurd h (by simp)
  · rename_i m hm
    exact ⟨s, m, hs, hm, settle_ok h⟩

theorem shares_total (a : Applier) (blockHeight : ℕ) (s : Swap) (legs : FeeLegs) :
    (a.shares blockHeight s legs).total = legs.total := by
  simp only [shares, Shares.total_add, potShares_total, FeeLegs.total]

theorem shares_nonneg (hcfg : a.cfg.SharesWhole) (hscale : 0 ≤ a.cfg.clpScaleBps) :
    (a.shares blockHeight s (s.feeLegs a.cfg blockHeight m)).Nonneg := by
  obtain ⟨hclp, hprotocol⟩ := s.feeLegs_nonneg hscale blockHeight m
  obtain ⟨hf, hfp⟩ := isFraction_splitFractionsBps s.t_pos s.e_pos s.geo.p_nonneg
    (a.isFraction_maxNodeBps blockHeight) s.geo.v s.geo.sBps
  exact (potShares_nonneg hcfg hf hclp).add (potShares_nonneg hcfg hfp hprotocol)

theorem applySwapFees_ok {accrue : Option (Int → Option String)}
    (h : (a.applySwapFees contractID blockHeight args accrue).1 = .ok r) :
    a.quote contractID blockHeight args = .ok r ∧
      (a.applySwapFees contractID blockHeight args accrue).2 =
        if 0 < r.nodeBucketCreditedHBD then [r.nodeBucketCreditedHBD] else [] := by
  obtain ⟨e, he⟩ | ⟨f, q, -, hquote, happly⟩ :=
    a.applySwapFees_cases contractID blockHeight args accrue
  · simp [he] at h
  rw [happly] at h ⊢
  obtain hok | ⟨message, -, herr⟩ := creditNodeBucket_cases f q
  · rw [hok] at h ⊢
    obtain rfl := Except.ok.inj h
    exact ⟨hquote, rfl⟩
  · simp [herr] at h

end Applier

/-! ## Conservation -/

structure SwapFeeResult.Conserves (args : SwapFeeArgs) (r : SwapFeeResult) : Prop where
  userOutput_nonneg : 0 ≤ r.userOutput
  lp_nonneg : 0 ≤ r.lpShareOutput
  node_nonneg : 0 ≤ r.nodeShareOutput
  network_nonneg : 0 ≤ r.networkCreditOutput
  bucket_nonneg : 0 ≤ r.nodeBucketCreditedHBD
  parts : r.userOutput + r.lpShareOutput + r.nodeShareOutput + r.networkCreditOutput =
    args.x * args.yReserve / (args.xReserve + args.x)
  hbdOut : normalizeAsset args.assetOut = "hbd" → r.newXReserve = args.xReserve + args.x ∧
    r.newYReserve + r.userOutput + r.nodeBucketCreditedHBD = args.yReserve
  hbdIn : normalizeAsset args.assetIn = "hbd" →
    r.newXReserve + r.nodeBucketCreditedHBD = args.xReserve + args.x ∧
      r.newYReserve + r.userOutput = args.yReserve

namespace Applier

variable {a : Applier} {contractID : String} {blockHeight : ℕ} {args : SwapFeeArgs}
  {r : SwapFeeResult}

theorem quote_conserves (hcfg : a.cfg.SharesWhole) (hscale : 0 ≤ a.cfg.clpScaleBps)
    (h : a.quote contractID blockHeight args = .ok r) : r.Conserves args := by
  obtain ⟨s, m, hcheck, -, hr⟩ := quote_ok h
  obtain ⟨hx, hX, hY, hout, hiff⟩ := checkSwap_ok hcheck
  obtain ⟨hnetwork, hlp, hnode⟩ := shares_nonneg (s := s) (m := m) hcfg hscale
  have htotal := shares_total a blockHeight s (s.feeLegs a.cfg blockHeight m)
  have hgross : s.grossOut = args.x * args.yReserve / (args.xReserve + args.x) := by
    rw [Swap.grossOut, mulDivFloor_eq_div s.x_pos.le s.yReserve_pos.le, hx, hX, hY]
  rw [← hr.network] at hnetwork
  rw [← hr.lp] at hlp
  rw [← hr.node] at hnode
  rw [Shares.total, ← hr.network, ← hr.lp, ← hr.node] at htotal
  -- The bucket is the node share itself, or what the second hop pays for it.
  have hbucket : 0 ≤ r.nodeBucketCreditedHBD := by
    cases hside : s.hbdOut with
    | true =>
      rw [(drain_hbdOut hside hr.drained).2.2]
      exact hnode
    | false =>
      obtain ⟨hdenom, hb, -, -⟩ := drain_hbdIn hside hr.drained
      rw [hb]
      exact mulDivFloor_nonneg hnode (add_pos s.xReserve_pos s.x_pos).le hdenom.le
  exact {
    userOutput_nonneg := hr.userOutput_nonneg
    lp_nonneg := hlp
    node_nonneg := hnode
    network_nonneg := hnetwork
    bucket_nonneg := hbucket
    parts := by
      rw [← hgross]
      linarith [hr.userOutput]
    hbdOut := by
      intro hasset
      obtain ⟨hnx, hny, hb⟩ := drain_hbdOut (hout.trans (decide_eq_true hasset)) hr.drained
      exact ⟨by rw [hnx, hX, hx], by linarith⟩
    hbdIn := by
      intro hasset
      have hside : s.hbdOut = false := Bool.eq_false_iff.2 fun h => hiff.1 h hasset
      obtain ⟨-, -, hnx, hny⟩ := drain_hbdIn hside hr.drained
      exact ⟨by linarith, by linarith⟩ }

/-- Value is conserved by every accepted swap, and the nodes are credited once,
with the amount the result names. -/
theorem applySwapFees_conserves (a : Applier) (hcfg : a.cfg.SharesWhole)
    (hscale : 0 ≤ a.cfg.clpScaleBps) (contractID : String) (blockHeight : ℕ) (args : SwapFeeArgs)
    (accrueNodeBucket : Option (Int → Option String)) :
    let out := a.applySwapFees contractID blockHeight args accrueNodeBucket
    (∀ r, out.1 = .ok r → r.Conserves args ∧
      out.2 = if 0 < r.nodeBucketCreditedHBD then [r.nodeBucketCreditedHBD] else []) ∧
    out.2.length ≤ 1 ∧
    (out.2 ≠ [] → (∃ r, out.1 = .ok r) ∨
      ∃ accrue amount message, accrueNodeBucket = some accrue ∧ out.2 = [amount] ∧
        accrue amount = some message ∧ out.1 = .error (.accrualFailed message)) := by
  intro out
  refine ⟨fun r hr => ?_, ?_⟩
  · obtain ⟨hquote, hcalls⟩ := applySwapFees_ok hr
    exact ⟨quote_conserves hcfg hscale hquote, hcalls⟩
  obtain ⟨e, he⟩ | ⟨accrue, q, haccrue, -, happly⟩ :=
    a.applySwapFees_cases contractID blockHeight args accrueNodeBucket
  · have hout : out = (.error e, []) := he
    simp [hout]
  obtain hok | ⟨message, hmessage, herr⟩ := creditNodeBucket_cases accrue q
  · have hout := happly.trans hok
    refine ⟨?_, fun _ => .inl ⟨q, congrArg Prod.fst hout⟩⟩
    rw [show out = _ from hout]
    dsimp only
    split_ifs <;> simp
  have hout : out = _ := happly.trans herr
  rw [hout]
  exact ⟨le_rfl, fun _ => .inr ⟨accrue, _, message, haccrue, rfl, hmessage, rfl⟩⟩

def pastCliff (cfg : Config) : Applier where
  geometry := some fun _ => some
    { v := 3000, p := 1500, e := 1000, t := 1500, sBps := 30000
      v_nonneg := by decide, p_nonneg := by decide }
  whitelist := some fun _ => ["pool"]
  consensusAt := some fun _ => lpFloorActivation
  cfg := cfg

def hbdToHive : SwapFeeArgs :=
  { assetIn := "HBD", assetOut := "hive", x := 10000, xReserve := 1000000, yReserve := 2000000 }

def hiveToHbd : SwapFeeArgs :=
  { assetIn := "hive", assetOut := "hbd", x := 1000, xReserve := 1000, yReserve := 1000 }

/-- Under the default configuration a swap is accepted on either side. -/
theorem applySwapFees_conserves_pastCliff :
    ∃ r r', ((pastCliff defaultConfig).applySwapFees "pool" 1 hbdToHive (some fun _ => none)).1 =
        .ok r ∧ r.Conserves hbdToHive ∧
      ((pastCliff defaultConfig).applySwapFees "pool" 1 hiveToHbd (some fun _ => none)).1 =
        .ok r' ∧ r'.Conserves hiveToHbd :=
  ⟨_, _, rfl, ((applySwapFees_conserves (pastCliff defaultConfig) (by decide) (by decide) "pool" 1
      hbdToHive (some fun _ => none)).1 _ rfl).1,
    rfl, ((applySwapFees_conserves (pastCliff defaultConfig) (by decide) (by decide) "pool" 1
      hiveToHbd (some fun _ => none)).1 _ rfl).1⟩

/-- A negative CLP scale turns the leg into a subsidy: the user gets more than
the gross output and the shares of network and nodes are negative. -/
theorem applySwapFees_negativeScale :
    let cfg := { defaultConfig with clpScaleBps := -10000 }
    (0 ≤ cfg.networkShareNum ∧ cfg.networkShareNum ≤ cfg.networkShareDen) ∧
    0 ≤ cfg.minFractionBps ∧
    (0 ≤ cfg.stabilizer.kBps ∧ 0 ≤ cfg.stabilizer.r0Bps ∧ 0 ≤ cfg.stabilizer.capBps ∧
      0 ≤ cfg.stabilizer.pushBps) ∧
    ∃ r, (pastCliff cfg).applySwapFees "pool" 1 hiveToHbd (some fun _ => none) = (.ok r, []) ∧
      r.nodeShareOutput < 0 ∧ r.networkCreditOutput < 0 ∧
      hiveToHbd.x * hiveToHbd.yReserve / (hiveToHbd.xReserve + hiveToHbd.x) < r.userOutput :=
  ⟨by decide, by decide, by decide, _, rfl, by decide, by decide, by decide⟩

/-! ## The product of the reserves -/

theorem quote_payout_le {s : Swap} {m : Int} (hcfg : a.cfg.SharesWhole)
    (hscale : 0 ≤ a.cfg.clpScaleBps)
    (hr : a.Settled blockHeight s (s.feeLegs a.cfg blockHeight m) r) :
    0 ≤ r.nodeShareOutput ∧ r.userOutput + r.nodeShareOutput ≤ s.grossOut := by
  obtain ⟨hnetwork, hlp, hnode⟩ := shares_nonneg (s := s) (m := m) hcfg hscale
  have htotal := shares_total a blockHeight s (s.feeLegs a.cfg blockHeight m)
  rw [Shares.total] at htotal
  rw [hr.node, hr.userOutput]
  exact ⟨hnode, by linarith⟩

/-- An accepted swap never lowers the product of the reserves. -/
theorem applySwapFees_product (a : Applier) (hcfg : a.cfg.SharesWhole)
    (hscale : 0 ≤ a.cfg.clpScaleBps) (contractID : String) (blockHeight : ℕ) (args : SwapFeeArgs)
    (accrueNodeBucket : Option (Int → Option String)) (r : SwapFeeResult)
    (h : (a.applySwapFees contractID blockHeight args accrueNodeBucket).1 = .ok r) :
    args.xReserve * args.yReserve ≤ r.newXReserve * r.newYReserve := by
  obtain ⟨s, m, hcheck, -, hr⟩ := quote_ok (applySwapFees_ok h).1
  obtain ⟨-, hX, hY, -, -⟩ := checkSwap_ok hcheck
  obtain ⟨hnode, hpayout⟩ := quote_payout_le hcfg hscale hr
  have hA : 0 < s.xReserve + s.x := add_pos s.xReserve_pos s.x_pos
  rw [← hX, ← hY]
  -- Paying the user and the nodes directly keeps the product.
  have hdirect : s.xReserve * s.yReserve ≤
      (s.xReserve + s.x) * (s.yReserve - (r.userOutput + r.nodeShareOutput)) :=
    product_le_of_payout ((mul_le_mul_of_nonneg_right hpayout hA.le).trans s.grossOut_mul_le)
  cases hside : s.hbdOut with
  | true =>
    obtain ⟨hnx, hny, -⟩ := drain_hbdOut hside hr.drained
    rw [hnx, hny, sub_sub]
    exact hdirect
  | false =>
    -- The share stays in the output reserve and leaves as HBD at the new price.
    obtain ⟨hdenom, hb, hnx, hny⟩ := drain_hbdIn hside hr.drained
    have hcost := mulDivFloor_mul_le hnode hA.le hdenom
    rw [← hb, ← hny] at hcost
    rw [← hny] at hdenom
    rw [hnx]
    refine hdirect.trans ?_
    rw [← sub_sub, ← hny]
    exact payout_le_hop hA.le hr.newY_nonneg hdenom hcost

/-- A swap into HIVE whose node share leaves as HBD through the second hop. -/
theorem applySwapFees_product_pastCliff :
    ∃ r, ((pastCliff defaultConfig).applySwapFees "pool" 1 hbdToHive (some fun _ => none)).1 =
        .ok r ∧ 0 < r.nodeBucketCreditedHBD ∧
      hbdToHive.xReserve * hbdToHive.yReserve ≤ r.newXReserve * r.newYReserve :=
  ⟨_, rfl, by decide, applySwapFees_product (pastCliff defaultConfig) (by decide) (by decide) "pool" 1
    hbdToHive (some fun _ => none) _ rfl⟩

end Applier

end VscNode.Pendulum
