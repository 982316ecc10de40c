import VscNode.Ledger.SessionView

/-!
# The delegations of a node as a pool

Delegated stake to a node shows in three balances: the node's bond, the gross total
delegated to it, and one edge for each delegator. A slash takes from the bond alone.
Together they are a pro-rata pool: a delegated stake joins it, a delegated unstake
leaves it, and what the session stamps into the event as `released` is the payout.
-/

namespace VscNode

open LedgerSession List ProRata Text

theorem delegationEdgeKey_inj {d d' node : String} :
    delegationEdgeKey d node = delegationEdgeKey d' node ↔ d = d' := by
  refine ⟨fun h => ?_, fun h => h ▸ rfl⟩
  exact append_right_cancel_iff.1 (append_right_cancel_iff.1 h)

structure ConsensusParams.Delegates (u : ConsensusParams) (H : Set ℕ) (node : String) : Prop where
  delegated : u.delegated = true
  to_ : u.to_ = node
  height : u.blockHeight ∈ H

namespace LedgerSession

def pool (se : LedgerSession) (node : String) (h : ℕ) : Pool String where
  assets := se.shown (node, .hiveConsensus) h
  supply := se.shown (node, .delegationTotal) h
  share d := se.shown (delegationEdgeKey d node, .delegation) h

structure ShowsPool (se : LedgerSession) (H : Set ℕ) (node : String) (p : Pool String) :
    Prop where
  bond : se.Steady H (node, .hiveConsensus) p.assets
  total : se.Steady H (node, .delegationTotal) p.supply
  edge : ∀ d, se.Steady H (delegationEdgeKey d node, .delegation) (p.share d)

variable {se : LedgerSession} {H : Set ℕ} {node : String} {p : Pool String} {u : ConsensusParams}
  {h : ℕ}

theorem ShowsPool.pool_eq (hs : se.ShowsPool H node p) (hh : h ∈ H) : se.pool node h = p := by
  obtain ⟨assets, supply, share⟩ := p
  simp only [pool, hs.bond.shown h hh, hs.total.shown h hh, fun d => (hs.edge d).shown h hh]

theorem showsPool_singleton (st : LedgerState) (node : String) (h : ℕ) :
    ShowsPool { state := st } {h} node (({ state := st } : LedgerSession).pool node h) where
  bond := steady_singleton ..
  total := steady_singleton ..
  edge := fun _ => steady_singleton ..

theorem ShowsPool.handOver (hs : se.ShowsPool H node p) : se.done.ShowsPool H node p :=
  ⟨hs.bond.handOver, hs.total.handOver, fun d => (hs.edge d).handOver⟩

theorem ShowsPool.getBalance (hs : se.ShowsPool H node p) (account : String) (hh : h ∈ H)
    (asset : Asset) : (se.getBalance account h asset).2.ShowsPool H node p :=
  ⟨hs.bond.getBalance account hh asset, hs.total.getBalance account hh asset,
    fun d => (hs.edge d).getBalance account hh asset⟩

theorem ShowsPool.appendOplog {q : Pool String} (hs : se.ShowsPool H node p) {event : OpLogEvent}
    (hh : event.blockHeight ∈ H)
    (hbond : q.assets =
      p.assets + netOf (opLedgerRecords event event.blockHeight) node .hiveConsensus)
    (htotal : q.supply =
      p.supply + netOf (opLedgerRecords event event.blockHeight) node .delegationTotal)
    (hedge : ∀ d, q.share d = p.share d +
      netOf (opLedgerRecords event event.blockHeight) (delegationEdgeKey d node) .delegation) :
    (se.appendOplog event).ShowsPool H node q where
  bond := hbond ▸ hs.bond.appendOplog hh
  total := htotal ▸ hs.total.appendOplog hh
  edge := fun d => hedge d ▸ (hs.edge d).appendOplog hh

/-! ## One delegated operation -/

theorem ShowsPool.slashAdjustedRelease (hs : se.ShowsPool H node p) (hh : h ∈ H) {g : Int}
    (hg : 0 < g) :
    (se.slashAdjustedRelease g node h).1 = payout p.assets p.supply g ∧
      (se.slashAdjustedRelease g node h).2.ShowsPool H node p := by
  rw [slashAdjustedRelease_eq se hg, hs.bond.shown h hh, hs.total.shown h hh]
  exact ⟨rfl, (hs.getBalance node hh .delegationTotal).getBalance node hh .hiveConsensus⟩

inductive Joins (H : Set ℕ) (node : String) (p : Pool String) (u : ConsensusParams) :
    LedgerSession × LedgerResult → Prop
  | refused {se' : LedgerSession} (msg : String) (hshows : se'.ShowsPool H node p) :
      Joins H node p u (se', ⟨false, msg⟩)
  | joined {se' : LedgerSession} (hpos : 0 < u.amount)
      (hshows : se'.ShowsPool H node (p.join u.from_ u.amount)) :
      Joins H node p u (se', ⟨true, "success"⟩)

/-- A delegated unstake is refused and changes nothing, or leaves the pool. It is
refused just when it asks for more than the edge holds. -/
inductive Leaves (se : LedgerSession) (H : Set ℕ) (node : String) (p : Pool String)
    (u : ConsensusParams) : LedgerSession × LedgerResult → Prop
  | refused {se' : LedgerSession} (msg : String) (hno : ¬(0 < u.amount ∧ u.amount ≤ p.share u.from_))
      (hshows : se'.ShowsPool H node p) (hoplog : se'.oplog = se.oplog) :
      Leaves se H node p u (se', ⟨false, msg⟩)
  | paid {se' : LedgerSession} (event : OpLogEvent) (hpos : 0 < u.amount)
      (hle : u.amount ≤ p.share u.from_) (hshows : se'.ShowsPool H node (p.exit u.from_ u.amount))
      (hoplog : se'.oplog = se.oplog ++ [event]) (hamount : event.amount = u.amount)
      (hreleased : opReleased event = payout p.assets p.supply u.amount) :
      Leaves se H node p u (se', ⟨true, "success"⟩)

theorem ShowsPool.consensusStake (hs : se.ShowsPool H node p) (hu : u.Delegates H node) :
    Joins H node p u (se.consensusStake u) := by
  have hs' := hs.getBalance u.from_ hu.height .hive
  obtain ⟨hdelegated, rfl, hheight⟩ := hu
  rw [consensusStake]
  split_ifs with hpos
  · exact .refused _ hs
  dsimp only
  split_ifs
  · exact .refused _ hs'
  refine .joined (not_le.1 hpos) (hs'.appendOplog hheight ?_ ?_ fun d => ?_)
  · simp [Pool.join, netOf, opLedgerRecords, hdelegated]
  · simp [Pool.join, netOf, opLedgerRecords, hdelegated]
  rcases eq_or_ne d u.from_ with rfl | hne
  · simp [Pool.join, netOf, opLedgerRecords, hdelegated]
  · simp [Pool.join, netOf, opLedgerRecords, hdelegated, hne, hne.symm, delegationEdgeKey_inj]

theorem ShowsPool.consensusUnstake (hs : se.ShowsPool H node p) (hu : u.Delegates H node) :
    Leaves se H node p u (se.consensusUnstake u) := by
  obtain ⟨hdelegated, rfl, hheight⟩ := hu
  have hedge : (se.getBalance (delegationEdgeKey u.from_ u.to_) u.blockHeight .delegation).1 =
      p.share u.from_ := (hs.edge u.from_).shown _ hheight
  have hreads := reads_getBalance se (delegationEdgeKey u.from_ u.to_) u.blockHeight .delegation
  have hs' := hs.getBalance (delegationEdgeKey u.from_ u.to_) hheight .delegation
  rw [consensusUnstake, if_pos hdelegated]
  split_ifs with hpos
  · exact .refused _ (fun h => hpos.not_gt h.1) hs rfl
  simp only [hedge]
  split_ifs with hle
  · exact .refused _ (fun h => hle.not_ge h.2) hs' hreads.oplog
  have hpos' := not_le.1 hpos
  obtain ⟨hreleased, hs''⟩ := hs'.slashAdjustedRelease hheight hpos'
  have hreads' := hreads.trans (reads_slashAdjustedRelease _ u.amount u.to_ u.blockHeight)
  refine .paid _ hpos' (not_lt.1 hle) (hs''.appendOplog hheight ?_ ?_ fun d => ?_)
    ((appended_appendOplog hreads'.toSameLog _).oplog) rfl hreleased
  · simp [Pool.exit, netOf, opLedgerRecords, opReleased, hreleased, sub_eq_add_neg]
  · simp [Pool.exit, netOf, opLedgerRecords, sub_eq_add_neg]
  rcases eq_or_ne d u.from_ with rfl | hne
  · simp [Pool.exit, netOf, opLedgerRecords, sub_eq_add_neg]
  · simp [Pool.exit, netOf, opLedgerRecords, hne, hne.symm, delegationEdgeKey_inj]

end LedgerSession

/-! ## Runs of delegated operations -/

/-- What moves the delegations of a node: delegated stakes and unstakes, with the
ends of the transactions they stand in. -/
inductive PoolStep
  | stake (u : ConsensusParams)
  | unstake (u : ConsensusParams)
  | done
  deriving DecidableEq

namespace PoolStep

variable (se : LedgerSession)

def apply : PoolStep → LedgerSession
  | stake u => (se.consensusStake u).1
  | unstake u => (se.consensusUnstake u).1
  | done => se.done

def events : PoolStep → List OpLogEvent
  | stake u => (se.consensusStake u).1.oplog.drop se.oplog.length
  | unstake u => (se.consensusUnstake u).1.oplog.drop se.oplog.length
  | done => []

def log : LedgerSession → List PoolStep → List OpLogEvent
  | _, [] => []
  | se, step :: steps => step.events se ++ log (step.apply se) steps

def after (steps : List PoolStep) : LedgerSession := steps.foldl apply se

def Exits (H : Set ℕ) (node : String) : PoolStep → Prop
  | stake _ => False
  | unstake u => u.Delegates H node
  | done => True

variable {se : LedgerSession} {H : Set ℕ} {node : String} {p₀ p : Pool String}
  {holders : Finset String} {paid : Int}

/-- What is known of the delegations along a run of exits that began with the
pool `p₀`. -/
structure Drains (H : Set ℕ) (node : String) (holders : Finset String) (p₀ : Pool String)
    (se : LedgerSession) (released : Int) (p : Pool String) : Prop where
  shows : se.ShowsPool H node p
  since : Pool.Since holders p₀ p released

theorem Drains.step (hd : Drains H node holders p₀ se paid p) {step : PoolStep}
    (hstep : step.Exits H node) :
    (∃ q, Drains H node holders p₀ (step.apply se) (paid + ((step.events se).map opReleased).sum) q) ∧
      ∀ v ∈ step.events se, v.amount * p₀.assets / p₀.supply ≤ opReleased v := by
  cases step with
  | stake u => exact hstep.elim
  | done =>
    refine ⟨⟨p, hd.shows.handOver, ?_⟩, by simp [events]⟩
    simpa [events] using hd.since
  | unstake u =>
    have hleaves := hd.shows.consensusUnstake hstep
    simp only [apply, events]
    generalize se.consensusUnstake u = result at hleaves ⊢
    cases hleaves with
    | refused msg hno hshows hoplog =>
      refine ⟨⟨p, hshows, ?_⟩, by simp [hoplog]⟩
      simpa [hoplog] using hd.since
    | paid event hpos hle hshows hoplog hamount hreleased =>
      refine ⟨⟨_, hshows, ?_⟩, ?_⟩
      · simpa [hoplog, hreleased] using hd.since.exit hpos hle
      · simpa [hoplog, hreleased, hamount] using hd.since.le_payout hpos hle

theorem Drains.run {steps : List PoolStep} (hsteps : ∀ step ∈ steps, step.Exits H node)
    (hd : Drains H node holders p₀ se paid p) :
    (∃ q, Drains H node holders p₀ (after se steps)
        (paid + ((log se steps).map opReleased).sum) q) ∧
      ∀ v ∈ log se steps, v.amount * p₀.assets / p₀.supply ≤ opReleased v := by
  induction steps generalizing se paid p with
  | nil => exact ⟨⟨p, by simpa [log, after] using hd⟩, by simp [log]⟩
  | cons step steps ih =>
    obtain ⟨hhead, htail⟩ := forall_mem_cons.1 hsteps
    obtain ⟨⟨q, hq⟩, hpay⟩ := hd.step hhead
    obtain ⟨hrun, hpays⟩ := ih htail hq
    rw [add_assoc, ← sum_append, ← map_append] at hrun
    exact ⟨hrun, forall_mem_append.2 ⟨hpay, hpays⟩⟩

end PoolStep

/-! ## A slash is shared -/

structure SlashedNode (se : LedgerSession) (H : Set ℕ) (node : String) (p : Pool String)
    (delegators : Finset String) : Prop where
  shows : se.ShowsPool H node p
  bond_nonneg : 0 ≤ p.assets
  bond_lt : p.assets < p.supply
  edge_nonneg : ∀ d, 0 ≤ p.share d
  edge_eq_zero : ∀ d ∉ delegators, p.share d = 0
  sum_edge : ∑ d ∈ delegators, p.share d = p.supply

theorem SlashedNode.sound {se : LedgerSession} {H : Set ℕ} {node : String} {p : Pool String}
    {delegators : Finset String} (hn : SlashedNode se H node p delegators) :
    p.Sound delegators :=
  ⟨hn.edge_nonneg, hn.edge_eq_zero, hn.sum_edge, hn.bond_nonneg, hn.bond_lt.le⟩

/-- Delegated unstakes share a slash: whatever is unstaked in whatever order, the
edges stay the parts of the gross total and the bond stays non-negative, the ratio
of the two does not fall, every unstake releases at least its part at the first
ratio, and when all edges are drained the first bond has been released. -/
theorem delegated_unstakes_share_slash {se : LedgerSession} {H : Set ℕ} {node : String}
    {p : Pool String} {delegators : Finset String} (hn : SlashedNode se H node p delegators)
    (steps : List PoolStep) (hsteps : ∀ step ∈ steps, step.Exits H node) (h : ℕ) (hh : h ∈ H) :
    let q := (PoolStep.after se steps).pool node h
    ((∀ d, 0 ≤ q.share d) ∧ (∀ d ∉ delegators, q.share d = 0) ∧ 0 ≤ q.supply ∧
        ∑ d ∈ delegators, q.share d = q.supply ∧ 0 ≤ q.assets) ∧
      (∀ earlier later, steps = earlier ++ later → 0 < q.supply →
        ((PoolStep.after se earlier).pool node h).ratio ≤ q.ratio) ∧
      (∀ v ∈ PoolStep.log se steps, v.amount * p.assets / p.supply ≤ opReleased v) ∧
      ((∀ d, q.share d = 0) → ((PoolStep.log se steps).map opReleased).sum = p.assets) := by
  intro q
  have hstart : PoolStep.Drains H node delegators p se 0 p := ⟨hn.shows, .refl hn.sound⟩
  obtain ⟨⟨q', hq'⟩, hpays⟩ := hstart.run hsteps
  have hq : q = q' := hq'.shows.pool_eq hh
  have hsound : q.Sound delegators := hq ▸ hq'.since.sound
  refine ⟨⟨hsound.share_nonneg, hsound.share_eq_zero, hsound.supply_nonneg, hsound.sum_share,
    hsound.assets_nonneg⟩, ?_, hpays, ?_⟩
  · rintro earlier later rfl hpos
    -- The rest of the run is a run from the pool in the middle.
    obtain ⟨hearlier, hlater⟩ := forall_mem_append.1 hsteps
    obtain ⟨⟨r, hr⟩, -⟩ := hstart.run hearlier
    have hmid : PoolStep.Drains H node delegators r (PoolStep.after se earlier) 0 r :=
      ⟨hr.shows, .refl hr.since.sound⟩
    obtain ⟨⟨r', hr'⟩, -⟩ := hmid.run hlater
    have hqr : q = r' := by
      rw [← hr'.shows.pool_eq hh, PoolStep.after, PoolStep.after, ← foldl_append]
      rfl
    rw [hr.shows.pool_eq hh]
    rw [hqr] at hpos ⊢
    exact hr'.since.ratio_le_ratio hpos
  intro hzero
  have hpaid := hq'.since.paid_of_drained (hq ▸ hzero)
  rwa [zero_add] at hpaid

def slashedRows : List LedgerRecord :=
  [{ id := "a#out", amount := 10, blockHeight := 1, owner := "hive:node", type := .consensusStake
     asset := .hiveConsensus },
   { id := "a#edge", amount := 10, blockHeight := 1, owner := "hive:a::hive:node"
     type := .consensusStake, asset := .delegation },
   { id := "a#total", amount := 10, blockHeight := 1, owner := "hive:node"
     type := .consensusStake, asset := .delegationTotal },
   { id := "c#out", amount := 11, blockHeight := 1, owner := "hive:node", type := .consensusStake
     asset := .hiveConsensus },
   { id := "c#edge", amount := 11, blockHeight := 1, owner := "hive:c::hive:node"
     type := .consensusStake, asset := .delegation },
   { id := "c#total", amount := 11, blockHeight := 1, owner := "hive:node"
     type := .consensusStake, asset := .delegationTotal },
   { id := "slash", amount := -11, blockHeight := 2, owner := "hive:node"
     type := .safetySlashConsensus, asset := .hiveConsensus },
   { id := "deposit", amount := 21, blockHeight := 3, owner := "hive:late", type := .deposit
     asset := .hive }]

def slashedSession : LedgerSession :=
  { state := { dbs := { ledger := Collection.empty.putAll slashedRows } } }

theorem edge_slashedSession (d : String) : (slashedSession.pool "hive:node" 10).share d =
      if d = "hive:a" then 10 else if d = "hive:c" then 11 else 0 := by
  have hkey : ∀ c : String,
      delegationEdgeKey c "hive:node" = delegationEdgeKey d "hive:node" ↔ d = c :=
    fun c => delegationEdgeKey_inj.trans eq_comm
  have hdocs : slashedSession.state.dbs.ledger.docs = slashedRows := by decide
  have hsum : (slashedSession.pool "hive:node" 10).share d =
      ((slashedSession.state.dbs.ledger.getLedgerRange (delegationEdgeKey d "hive:node") 0 10
        (some .delegation) [.consensusStake, .consensusUnstake]).map (·.amount)).sum := add_zero _
  have ha : "hive:a::hive:node" = delegationEdgeKey "hive:a" "hive:node" := by decide
  have hc : "hive:c::hive:node" = delegationEdgeKey "hive:c" "hive:node" := by decide
  rw [hsum, LedgerDb.sum_getLedgerRange, Collection.sum, hdocs]
  rcases eq_or_ne d "hive:a" with rfl | hda
  · decide
  rcases eq_or_ne d "hive:c" with rfl | hdc
  · decide
  · simp [slashedRows, ha, hc, hkey, hda, hdc]

theorem slashedNode_slashedSession :
    SlashedNode slashedSession {10} "hive:node" (slashedSession.pool "hive:node" 10)
      {"hive:a", "hive:c"} where
  shows := showsPool_singleton ..
  bond_nonneg := by decide
  bond_lt := by decide
  edge_nonneg := by
    intro d
    rw [edge_slashedSession]
    split_ifs <;> decide
  edge_eq_zero := by
    intro d hd
    simp only [Finset.mem_insert, Finset.mem_singleton, not_or] at hd
    rw [edge_slashedSession, if_neg hd.1, if_neg hd.2]
  sum_edge := by
    simp only [edge_slashedSession]
    decide

/-- The first delegator leaves with 4 of 10, the second with 6 of 11. -/
def bothUnstake : List PoolStep :=
  [.unstake ⟨"u-a", "hive:a", "hive:node", 10, 10, 1, true⟩, .done,
    .unstake ⟨"u-c", "hive:c", "hive:node", 11, 10, 1, true⟩]

theorem delegated_unstakes_share_slash_bothUnstake :
    0 ≤ ((PoolStep.after slashedSession bothUnstake).pool "hive:node" 10).assets ∧
      (PoolStep.log slashedSession bothUnstake).map opReleased = [4, 6] ∧
      ∀ v ∈ PoolStep.log slashedSession bothUnstake, v.amount * 10 / 21 ≤ opReleased v := by
  have hsteps : ∀ step ∈ bothUnstake, step.Exits {10} "hive:node" := by
    simp only [bothUnstake, forall_mem_cons, PoolStep.Exits]
    exact ⟨⟨rfl, rfl, rfl⟩, trivial, ⟨rfl, rfl, rfl⟩, by simp⟩
  obtain ⟨⟨-, -, -, -, hbond⟩, -, hpays, -⟩ :=
    delegated_unstakes_share_slash slashedNode_slashedSession bothUnstake hsteps 10 rfl
  exact ⟨hbond, by decide, hpays⟩

/-! ## Stake that arrives after a slash -/

namespace PoolStep

def ByOthers (H : Set ℕ) (node d : String) : PoolStep → Prop
  | stake u => u.Delegates H node ∧ u.from_ ≠ d
  | unstake u => u.Delegates H node ∧ u.from_ ≠ d
  | done => True

variable {se : LedgerSession} {H : Set ℕ} {node d : String} {p : Pool String}

/-- While the bond covers the gross total it stays so, and nobody moves the edge of
another. -/
theorem covered_step (hs : se.ShowsPool H node p) (hcov : p.supply ≤ p.assets) {step : PoolStep}
    (hstep : step.ByOthers H node d) :
    ∃ q : Pool String, (step.apply se).ShowsPool H node q ∧ q.supply ≤ q.assets ∧
      q.share d = p.share d := by
  cases step with
  | done => exact ⟨p, hs.handOver, hcov, rfl⟩
  | stake u =>
    have hjoins := hs.consensusStake hstep.1
    simp only [apply]
    generalize se.consensusStake u = result at hjoins ⊢
    cases hjoins with
    | refused msg hshows => exact ⟨p, hshows, hcov, rfl⟩
    | joined hpos hshows =>
      exact ⟨_, hshows, Int.add_le_add_right hcov _, Function.update_of_ne hstep.2.symm ..⟩
  | unstake u =>
    have hleaves := hs.consensusUnstake hstep.1
    simp only [apply]
    generalize se.consensusUnstake u = result at hleaves ⊢
    cases hleaves with
    | refused msg hno hshows => exact ⟨p, hshows, hcov, rfl⟩
    | paid event hpos hle hshows =>
      exact ⟨_, hshows, Pool.covered_exit hcov _ _, Function.update_of_ne hstep.2.symm ..⟩

theorem covered_run {steps : List PoolStep} (hsteps : ∀ step ∈ steps, step.ByOthers H node d)
    (hs : se.ShowsPool H node p) (hcov : p.supply ≤ p.assets) :
    ∃ q : Pool String, (after se steps).ShowsPool H node q ∧ q.supply ≤ q.assets ∧
      q.share d = p.share d := by
  induction steps generalizing se p with
  | nil => exact ⟨p, hs, hcov, rfl⟩
  | cons step steps ih =>
    obtain ⟨hhead, htail⟩ := forall_mem_cons.1 hsteps
    obtain ⟨q, hshows, hq, hshare⟩ := covered_step hs hcov hhead
    obtain ⟨r, hshows', hr, hshare'⟩ := ih htail hshows hq
    exact ⟨r, hshows', hr, hshare'.trans hshare⟩

end PoolStep

structure LateStake where
  session : LedgerSession
  heights : Set ℕ
  node : String
  pool : Pool String
  shows : session.ShowsPool heights node pool
  stake : ConsensusParams
  delegates : stake.Delegates heights node
  accepted : (session.consensusStake stake).2.ok = true
  edge_nonneg : 0 ≤ pool.share stake.from_

namespace LateStake

def after (s : LateStake) (others : List PoolStep) : LedgerSession :=
  PoolStep.after (s.session.consensusStake s.stake).1 others

variable (s : LateStake)

def without (others : List PoolStep) : LedgerSession :=
  PoolStep.after s.session others

def ComesBack : Prop :=
  ∀ others : List PoolStep, (∀ step ∈ others, step.ByOthers s.heights s.node s.stake.from_) →
    ∀ u : ConsensusParams, u.Delegates s.heights s.node → u.from_ = s.stake.from_ →
      u.amount = s.stake.amount →
      ((s.after others).consensusUnstake u).2.ok = true ∧
        ((PoolStep.unstake u).events (s.after others)).map opReleased = [s.stake.amount]

def LiftsNobody : Prop :=
  ∀ others : List PoolStep, (∀ step ∈ others, step.ByOthers s.heights s.node s.stake.from_) →
    ∀ h ∈ s.heights, ∀ amount : Int, ((s.after others).slashAdjustedRelease amount s.node h).1 ≤
        ((s.without others).slashAdjustedRelease amount s.node h).1

theorem joined : 0 < s.stake.amount ∧
    (s.after []).ShowsPool s.heights s.node (s.pool.join s.stake.from_ s.stake.amount) := by
  have hjoins := s.shows.consensusStake s.delegates
  have haccepted := s.accepted
  change _ ∧ (s.session.consensusStake s.stake).1.ShowsPool _ _ _
  generalize s.session.consensusStake s.stake = result at hjoins haccepted ⊢
  cases hjoins with
  | refused => cases haccepted
  | joined hpos hshows => exact ⟨hpos, hshows⟩

variable {s : LateStake}

theorem comesBack_of_covered (hcov : s.pool.supply ≤ s.pool.assets) : s.ComesBack := by
  intro others hothers u hu hfrom hamount
  obtain ⟨hpos, hshows⟩ := s.joined
  obtain ⟨q, hshows', hq, hshare⟩ :=
    PoolStep.covered_run hothers hshows (Int.add_le_add_right hcov s.stake.amount)
  have hedge : q.share u.from_ = s.pool.share s.stake.from_ + s.stake.amount := by
    rw [hfrom, hshare]
    exact Function.update_self ..
  have hleaves : LedgerSession.Leaves (s.after others) s.heights s.node q u
      ((s.after others).consensusUnstake u) := hshows'.consensusUnstake hu
  simp only [PoolStep.events]
  generalize (s.after others).consensusUnstake u = result at hleaves ⊢
  have hedge_nonneg := s.edge_nonneg
  cases hleaves with
  | refused msg hno => exact absurd ⟨by omega, by omega⟩ hno
  | paid event hpos' hle hshows'' hoplog hamount' hreleased =>
    rw [payout_of_le hq, hamount] at hreleased
    exact ⟨rfl, by simp [hoplog, hreleased]⟩

theorem release_of_covered {se : LedgerSession} {H : Set ℕ} {node : String} {p : Pool String}
    (hs : se.ShowsPool H node p) (hcov : p.supply ≤ p.assets) {h : ℕ} (hh : h ∈ H) (amount : Int) :
    (se.slashAdjustedRelease amount node h).1 = max amount 0 := by
  rcases le_or_gt amount 0 with hle | hpos
  · rw [slashAdjustedRelease, if_pos hle, max_eq_right hle]
  · rw [(hs.slashAdjustedRelease hh hpos).1, payout_of_le hcov, max_eq_left hpos.le]

theorem liftsNobody_of_covered (hcov : s.pool.supply ≤ s.pool.assets) : s.LiftsNobody := by
  intro others hothers h hh amount
  obtain ⟨q, hshows, hq, -⟩ :=
    PoolStep.covered_run hothers s.joined.2 (Int.add_le_add_right hcov s.stake.amount)
  obtain ⟨q', hshows', hq', -⟩ := PoolStep.covered_run hothers s.shows hcov
  have hafter : ((s.after others).slashAdjustedRelease amount s.node h).1 = max amount 0 :=
    release_of_covered hshows hq hh amount
  rw [hafter, without, release_of_covered hshows' hq' hh]

/-- A stake to a node whose bond covers its gross total comes back whole and lifts
nobody. To a node whose bond does not, it does not come back even at once, as long
as the gross total it joins is positive. -/
theorem whole_iff_covered (s : LateStake) :
    (s.pool.supply ≤ s.pool.assets → s.ComesBack ∧ s.LiftsNobody) ∧ (s.ComesBack →
        s.pool.supply ≤ s.pool.assets ∨ s.pool.supply + s.stake.amount ≤ 0) := by
  refine ⟨fun hcov => ⟨comesBack_of_covered hcov, liftsNobody_of_covered hcov⟩, fun hback => ?_⟩
  obtain ⟨hpos, hshows⟩ := s.joined
  obtain ⟨-, hreleased⟩ := hback [] (by simp) s.stake s.delegates rfl rfl
  have hleaves := hshows.consensusUnstake s.delegates
  simp only [PoolStep.events] at hreleased
  generalize (s.after []).consensusUnstake s.stake = result at hleaves hreleased
  cases hleaves with
  | refused msg hno hshows' hoplog => simp [hoplog] at hreleased
  | paid event hpos' hle hshows' hoplog hamount hevent =>
    simp only [hoplog, drop_left, map_cons, map_nil, cons.injEq, and_true,
      hevent] at hreleased
    rcases (payout_eq_self_iff hpos).1 hreleased with htotal | hcov
    · exact .inr htotal
    · exact .inl (Int.le_of_add_le_add_right hcov)

def afterSlash : LateStake where
  session := slashedSession
  heights := {10}
  node := "hive:node"
  pool := slashedSession.pool "hive:node" 10
  shows := LedgerSession.showsPool_singleton ..
  stake := ⟨"late", "hive:late", "hive:node", 21, 10, 1, true⟩
  delegates := ⟨rfl, rfl, rfl⟩
  accepted := by decide
  edge_nonneg := by decide

/-- Unstaked at once, the 21 release 15, and the 11 of an earlier delegator release
8 in place of 5. -/
theorem late_stake_pays_for_slash : ¬afterSlash.ComesBack ∧ ¬afterSlash.LiftsNobody := by
  constructor
  · intro h
    exact absurd (h [] (by simp) afterSlash.stake ⟨rfl, rfl, rfl⟩ rfl rfl).2 (by decide)
  · intro h
    exact absurd (h [] (by simp) 10 rfl 11) (by decide)

end LateStake

end VscNode
