import VscNode.Common.Amount
import VscNode.Ledger.SafetySlash
import VscNode.Lib.FixedPoint

/-!
# Settlements

The record that closes an epoch pays the committee out of the node bucket. Each
distribution debits the bucket and credits the account, under ids made of the
epoch and the account, so that a second application of the record upserts the
same rows. The epoch's marker is saved last and only where no distribution
failed: an application that broke off is to be completed by applying the record
again.

A distribution is refused where the bucket does not cover it, and the bucket an
application reads the second time has already paid what landed the first time.
`Interrupted.completes_iff` says when the second application goes through:
exactly where the bucket, less the debits that landed, still covers each
distribution again.
-/

namespace VscNode.Pendulum

open Collection FixedPoint Text List

/-! ## The record -/

structure DistributionEntry where
  account : String
  hbdAmt : Int
  deriving DecidableEq

structure RewardReductionEntry where
  account : String
  bps : ℕ
  deriving DecidableEq

structure SettlementRecord where
  (epoch prevEpoch snapshotRangeFrom snapshotRangeTo : ℕ)
  (bucketBalanceHBD totalDistributedHBD residualHBD : Int)
  rewardReductions : List RewardReductionEntry
  distributions : List DistributionEntry
  deriving DecidableEq

structure SettlementMarker where
  (epoch blockHeight snapshotRangeFrom snapshotRangeTo : ℕ)
  (totalDistributedHBD residualHBD : Int)
  deriving DecidableEq

structure SettlementStore where
  ledger : LedgerDb
  markers : Collection SettlementMarker.epoch

def SettlementStore.getLatestSettledEpoch (s : SettlementStore) : ℕ :=
  (s.markers.docs.map SettlementMarker.epoch).foldr max 0

/-- What the application of a record finds outside of the two collections. -/
structure SettlementEnv where
  onTestnet : Bool
  /-- The accounts of the election at a height, where it can be read. -/
  getElectionByHeight : ℕ → Option (List String)
  /-- The delegators of the share-mode nodes among some members at a height. -/
  shareDelegators : List String → ℕ → List String
  /-- The record composed from the bonds, evidence and delegations at the snapshot heights
  of a record and from a bucket balance, where those can be read. -/
  composeRecord : SettlementRecord → Int → Option SettlementRecord

variable (acct : String) (env : SettlementEnv) (db : LedgerDb) (record : SettlementRecord)
  (blockHeight : ℕ)

def hiveAccount : String :=
  if hasPrefix acct "hive:" then acct else "hive:" ++ acct

theorem hasPrefix_hiveAccount : hasPrefix (hiveAccount acct) "hive:" = true := by
  rw [hiveAccount]
  split
  · assumption
  · exact hasPrefix_append _ _

/-! ## Checks -/

/-- The structural checks on a record: arithmetic first, then membership. Sums are taken
in signed words. -/
def validatePendulumSettlement : Except String Unit :=
  let sum := record.distributions.foldl (fun sum d => wrap64 (sum + d.hbdAmt)) 0
  if record.bucketBalanceHBD < 0 then
    .error ("negative BucketBalanceHBD " ++ formatInt record.bucketBalanceHBD)
  else if record.totalDistributedHBD < 0 then
    .error ("negative TotalDistributedHBD " ++ formatInt record.totalDistributedHBD)
  else if record.bucketBalanceHBD < record.totalDistributedHBD then
    .error ("TotalDistributedHBD " ++ formatInt record.totalDistributedHBD ++
      " exceeds BucketBalanceHBD " ++ formatInt record.bucketBalanceHBD)
  else if record.residualHBD < 0 then
    .error ("negative ResidualHBD " ++ formatInt record.residualHBD)
  else if wrap64 (record.totalDistributedHBD + record.residualHBD) ≠ record.bucketBalanceHBD then
    .error ("conservation broken: distributed " ++ formatInt record.totalDistributedHBD ++
      " + residual " ++ formatInt record.residualHBD ++ " != bucket " ++
      formatInt record.bucketBalanceHBD)
  else match record.distributions.find? fun d => d.hbdAmt < 0 with
  | some d =>
    .error ("negative distribution amount " ++ formatInt d.hbdAmt ++ " for " ++ d.account)
  | none =>
  if sum ≠ record.totalDistributedHBD then
    .error ("sum(distributions)=" ++ formatInt sum ++ " != TotalDistributedHBD=" ++
      formatInt record.totalDistributedHBD)
  else match env.getElectionByHeight record.snapshotRangeTo with
  | none => .ok ()
  | some [] =>
    .error ("election at snapshot_to=" ++ formatUint record.snapshotRangeTo ++ " has no members")
  | some election =>
    let members := election.map hiveAccount
    let allowedDelegators := env.shareDelegators members record.snapshotRangeTo
    match record.distributions.find? fun d =>
      hiveAccount d.account ∉ members ∧ hiveAccount d.account ∉ allowedDelegators with
    | some d =>
      .error ("distribution to non-committee account " ++ d.account ++ " at epoch=" ++
        formatUint record.epoch)
    | none =>
    match record.rewardReductions.find? fun r => hiveAccount r.account ∉ members with
    | some r =>
      .error ("reward reduction for non-committee account " ++ r.account ++ " at epoch=" ++
        formatUint record.epoch)
    | none => .ok ()

theorem nonneg_of_validate {env : SettlementEnv} {record : SettlementRecord}
    (h : validatePendulumSettlement env record = .ok ()) :
    ∀ d ∈ record.distributions, 0 ≤ d.hbdAmt := by
  cases hneg : record.distributions.find? fun d => d.hbdAmt < 0 with
  | none => simpa using find?_eq_none.1 hneg
  | some d =>
    simp only [validatePendulumSettlement, hneg] at h
    split_ifs at h

def pendulumNodesHBDBucket : String := "pendulum:nodes"

def pendulumBucketBalance (bucket : String) (blockHeight : ℕ) : Int :=
  if trimSpace bucket = "" then 0
  else ((db.getLedgerRange bucket 0 blockHeight (some .hbd) []).map LedgerRecord.amount).sum

def rederivePendulumSettlement : Option Bool :=
  match env.getElectionByHeight record.snapshotRangeTo with
  | none => none
  | some [] => none
  | some _ =>
    let bucket := pendulumBucketBalance db pendulumNodesHBDBucket record.snapshotRangeTo
    if bucket < 0 then none
    else (env.composeRecord record bucket).map fun expected => decide (expected = record)

/-- Testnet history below this height is applied without composing the record again. -/
def testnetReplayNoRederiveBelowHeight : ℕ := 4769770

/-- The second check refuses a record that the node would not have composed. -/
def mismatches : Bool :=
  if env.onTestnet ∧ blockHeight < testnetReplayNoRederiveBelowHeight then false
  else rederivePendulumSettlement env db record = some false

/-! ## Distribution -/

def pendulumSettlementTxID (epoch : ℕ) : String := "pendulum:settlement:" ++ formatUint epoch

section

variable (toAccount : String) (amount : Int) (txID : String) (blockHeight : ℕ)

def distributeRows : List LedgerRecord :=
  [{ id := txID ++ "#distribute_debit#" ++ toAccount, txId := txID, blockHeight
     amount := -amount, asset := .hbd, owner := pendulumNodesHBDBucket
     type := .other "pendulum_distribute" },
   { id := txID ++ "#distribute_credit#" ++ toAccount, txId := txID, blockHeight, amount
     asset := .hbd, owner := toAccount, type := .other "pendulum_distribute" }]

def pendulumDistribute : LedgerDb × LedgerResult :=
  if trimSpace toAccount = "" then (db, ⟨false, "invalid destination"⟩)
  else if amount ≤ 0 then (db, ⟨false, "invalid amount"⟩)
  else if txID = "" then (db, ⟨false, "missing tx id"⟩)
  else if pendulumBucketBalance db pendulumNodesHBDBucket blockHeight < amount then
    (db, ⟨false, "insufficient pendulum nodes bucket balance"⟩)
  else (db.putAll (distributeRows toAccount amount txID blockHeight), ⟨true, "success"⟩)

end

/-- One turn of the distribution loop; `distributeFailed` is the second component. -/
def distributeEntry (acc : LedgerDb × Bool) (d : DistributionEntry) : LedgerDb × Bool :=
  if d.hbdAmt ≤ 0 then acc
  else
    let acct := hiveAccount d.account
    let txKey := pendulumSettlementTxID record.epoch ++ "#" ++ acct
    let (db, res) := pendulumDistribute acc.1 acct d.hbdAmt txKey blockHeight
    (db, acc.2 || !res.ok)

def SettlementRecord.marker : SettlementMarker :=
  { epoch := record.epoch, blockHeight
    snapshotRangeFrom := record.snapshotRangeFrom, snapshotRangeTo := record.snapshotRangeTo
    totalDistributedHBD := record.totalDistributedHBD, residualHBD := record.residualHBD }

def applyPendulumSettlement (s : SettlementStore) (record : SettlementRecord) (blockHeight : ℕ) :
    SettlementStore :=
  let latest := s.getLatestSettledEpoch
  if record.epoch ≤ latest then s
  else if record.prevEpoch ≠ latest then s
  else match validatePendulumSettlement env record with
  | .error _ => s
  | .ok () =>
  if mismatches env s.ledger record blockHeight then s
  else
    let (ledger, distributeFailed) :=
      record.distributions.foldl (distributeEntry record blockHeight) (s.ledger, false)
    if distributeFailed then { s with ledger }
    else ⟨ledger, s.markers.put (record.marker blockHeight)⟩

/-! ## What one application writes -/

/-- The bucket's row weight. -/
def bucketAmount (r : LedgerRecord) : Int :=
  if r.owner = pendulumNodesHBDBucket ∧ r.blockHeight ≤ blockHeight ∧ r.asset = .hbd then r.amount
  else 0

def bucketBalance : Int := db.sum (bucketAmount blockHeight)

theorem pendulumBucketBalance_eq :
    pendulumBucketBalance db pendulumNodesHBDBucket blockHeight = bucketBalance db blockHeight := by
  rw [pendulumBucketBalance, if_neg (by decide), LedgerDb.sum_getLedgerRange]
  exact sum_congr fun r _ => by simp [bucketAmount]

/-- The distributions that pay something. -/
def SettlementRecord.payouts : List DistributionEntry :=
  record.distributions.filter fun d => 0 < d.hbdAmt

def SettlementRecord.rowsOf (d : DistributionEntry) : List LedgerRecord :=
  distributeRows (hiveAccount d.account) d.hbdAmt
    (pendulumSettlementTxID record.epoch ++ "#" ++ hiveAccount d.account) blockHeight

/-- The rows of an application without a failure, in the order they are stored. -/
def SettlementRecord.rows : List LedgerRecord :=
  record.payouts.flatMap (record.rowsOf blockHeight)

theorem distributeEntry_eq (db : LedgerDb) (failed : Bool) {d : DistributionEntry}
    (hpays : 0 < d.hbdAmt) :
    distributeEntry record blockHeight (db, failed) d =
      if d.hbdAmt ≤ bucketBalance db blockHeight then
        (db.putAll (record.rowsOf blockHeight d), failed)
      else (db, true) := by
  have hacct := trimSpace_ne_empty (by rfl) (by decide) (hasPrefix_hiveAccount d.account)
  have hid : pendulumSettlementTxID record.epoch ++ "#" ++ hiveAccount d.account ≠ "" := by
    intro h
    have hlength := congrArg String.length h
    simp [String.length_append] at hlength
  rw [distributeEntry, if_neg (not_le.2 hpays)]
  simp only [pendulumDistribute, if_neg hacct, if_neg (not_le.2 hpays), if_neg hid,
    pendulumBucketBalance_eq]
  by_cases hcovered : d.hbdAmt ≤ bucketBalance db blockHeight
  · rw [if_neg (not_lt.2 hcovered), if_pos hcovered]
    simp [SettlementRecord.rowsOf]
  · rw [if_pos (not_le.1 hcovered), if_neg hcovered]
    simp

/-- Each of some payments is covered when its turn comes. -/
def Covered (record : SettlementRecord) (blockHeight : ℕ) : LedgerDb → List DistributionEntry → Prop
  | _, [] => True
  | db, d :: ds =>
    d.hbdAmt ≤ bucketBalance db blockHeight ∧
      Covered record blockHeight (db.putAll (record.rowsOf blockHeight d)) ds

section Loop

variable {record : SettlementRecord} {blockHeight : ℕ}

variable (ds : List DistributionEntry)

theorem snd_foldl_distributeEntry (db : LedgerDb) :
    (ds.foldl (distributeEntry record blockHeight) (db, true)).2 = true := by
  induction ds generalizing db with
  | nil => rfl
  | cons d ds ih =>
    by_cases hpays : 0 < d.hbdAmt
    · rw [foldl_cons, distributeEntry_eq _ _ _ _ hpays]
      split <;> exact ih _
    · rw [foldl_cons, distributeEntry, if_pos (not_lt.1 hpays)]
      exact ih db

theorem foldl_distributeEntry (db : LedgerDb) :
    (Covered record blockHeight db (ds.filter fun d => 0 < d.hbdAmt) →
      ds.foldl (distributeEntry record blockHeight) (db, false) =
        (db.putAll ((ds.filter fun d => 0 < d.hbdAmt).flatMap (record.rowsOf blockHeight)), false)) ∧
    (¬ Covered record blockHeight db (ds.filter fun d => 0 < d.hbdAmt) →
      (ds.foldl (distributeEntry record blockHeight) (db, false)).2 = true) := by
  induction ds generalizing db with
  | nil => exact ⟨fun _ => rfl, fun h => absurd trivial h⟩
  | cons d ds ih =>
    by_cases hpays : 0 < d.hbdAmt
    · rw [filter_cons_of_pos (by simpa using hpays), foldl_cons,
        distributeEntry_eq _ _ _ _ hpays, flatMap_cons, putAll_append, Covered]
      by_cases hcovered : d.hbdAmt ≤ bucketBalance db blockHeight
      · rw [if_pos hcovered]
        obtain ⟨hall, hfail⟩ := ih (db.putAll (record.rowsOf blockHeight d))
        exact ⟨fun h => hall h.2, fun h => hfail fun hrest => h ⟨hcovered, hrest⟩⟩
      · rw [if_neg hcovered]
        exact ⟨fun h => absurd h.1 hcovered, fun _ => snd_foldl_distributeEntry ds db⟩
    rw [filter_cons_of_neg (by simpa using hpays), foldl_cons, distributeEntry,
      if_pos (not_lt.1 hpays)]
    exact ih db

variable {db : LedgerDb} {d : DistributionEntry}

theorem covered_iff {ds : List DistributionEntry} : Covered record blockHeight db ds ↔
      ∀ paid d rest, ds = paid ++ d :: rest →
        d.hbdAmt ≤ bucketBalance (db.putAll (paid.flatMap (record.rowsOf blockHeight)))
          blockHeight := by
  induction ds generalizing db with
  | nil => simp [Covered]
  | cons x ds ih =>
    rw [Covered, ih]
    constructor
    · rintro ⟨hx, hrest⟩ paid d rest hsplit
      cases paid with
      | nil =>
        obtain ⟨rfl, -⟩ := cons.inj hsplit
        exact hx
      | cons y paid =>
        obtain ⟨rfl, hds⟩ := cons.inj hsplit
        rw [flatMap_cons, putAll_append]
        exact hrest paid d rest hds
    intro h
    refine ⟨h [] x ds rfl, fun paid d rest hds => ?_⟩
    have := h (x :: paid) d rest (by rw [hds, cons_append])
    rwa [flatMap_cons, putAll_append] at this

theorem bucketBalance_putAll_ge {rows : List LedgerRecord}
    (hrows : ∀ r ∈ rows, bucketAmount blockHeight r ≤ 0)
    (hold : ∀ r ∈ rows, db.valueAt (bucketAmount blockHeight) r.id ≤ 0) :
    bucketBalance db blockHeight + (rows.map (bucketAmount blockHeight)).sum ≤
      bucketBalance (db.putAll rows) blockHeight := by
  induction rows generalizing db with
  | nil => simp
  | cons r rows ih =>
    have hput : bucketBalance (db.put r) blockHeight = bucketBalance db blockHeight +
        bucketAmount blockHeight r - db.valueAt (bucketAmount blockHeight) r.id := sum_put ..
    have hr := hold r mem_cons_self
    have hreplaced : ∀ x ∈ rows, (db.put r).valueAt (bucketAmount blockHeight) x.id ≤ 0 := by
      intro x hx
      rw [valueAt_put]
      split
      · exact hrows r mem_cons_self
      · exact hold x (mem_cons_of_mem _ hx)
    have hrest := ih (fun x hx => hrows x (mem_cons_of_mem _ hx)) hreplaced
    rw [putAll_cons, map_cons, sum_cons]
    omega

theorem hiveAccount_ne_bucket : hiveAccount acct ≠ pendulumNodesHBDBucket := by
  intro h
  have := hasPrefix_hiveAccount acct
  rw [h] at this
  exact absurd this (by decide)

theorem map_bucketAmount_rowsOf (d : DistributionEntry) :
    (record.rowsOf blockHeight d).map (bucketAmount blockHeight) = [-d.hbdAmt, 0] := by
  simp [SettlementRecord.rowsOf, distributeRows, bucketAmount, hiveAccount_ne_bucket]

theorem sum_bucketAmount_rowsOf :
    ((ds.flatMap (record.rowsOf blockHeight)).map (bucketAmount blockHeight)).sum =
      -(ds.map DistributionEntry.hbdAmt).sum := by
  induction ds with
  | nil => rfl
  | cons d ds ih =>
    rw [flatMap_cons, map_append, sum_append, ih, map_bucketAmount_rowsOf,
      map_cons]
    simp only [sum_cons, sum_nil]
    omega

theorem hbdAmt_pos_of_mem_payouts (h : d ∈ record.payouts) : 0 < d.hbdAmt := by
  simpa using (mem_filter.1 h).2

theorem bucketAmount_nonpos {r : LedgerRecord} (h : r ∈ record.rows blockHeight) :
    bucketAmount blockHeight r ≤ 0 := by
  obtain ⟨d, hd, hr⟩ := mem_flatMap.1 h
  have hmem := mem_map_of_mem (f := bucketAmount blockHeight) hr
  have hpays := hbdAmt_pos_of_mem_payouts hd
  rw [map_bucketAmount_rowsOf] at hmem
  simp only [mem_cons, not_mem_nil, or_false] at hmem
  omega

theorem sum_payouts (hnonneg : ∀ d ∈ record.distributions, 0 ≤ d.hbdAmt) :
    (record.payouts.map DistributionEntry.hbdAmt).sum =
      (record.distributions.map DistributionEntry.hbdAmt).sum := by
  rw [SettlementRecord.payouts]
  generalize record.distributions = ds at hnonneg ⊢
  induction ds with
  | nil => rfl
  | cons d ds ih =>
    have ih := ih fun e he => hnonneg e (mem_cons_of_mem _ he)
    by_cases hpays : 0 < d.hbdAmt
    · rw [filter_cons_of_pos (by simpa using hpays), map_cons, sum_cons, ih,
        map_cons, sum_cons]
    have hzero : d.hbdAmt = 0 := le_antisymm (not_lt.1 hpays) (hnonneg d mem_cons_self)
    rw [filter_cons_of_neg (by simpa using hpays), ih, map_cons, sum_cons,
      hzero, zero_add]

/-- Payments that fit together leave enough for the next one behind the first. -/
theorem le_sub_of_split {paid rest : List DistributionEntry} {b : Int}
    (hfits : (record.payouts.map DistributionEntry.hbdAmt).sum ≤ b)
    (hsplit : record.payouts = paid ++ d :: rest) :
    d.hbdAmt ≤ b - (paid.map DistributionEntry.hbdAmt).sum := by
  have hrest : 0 ≤ (rest.map DistributionEntry.hbdAmt).sum := by
    refine sum_nonneg fun x hx => ?_
    obtain ⟨e, he, rfl⟩ := mem_map.1 hx
    have hmem : e ∈ record.payouts := by simp [hsplit, he]
    exact (hbdAmt_pos_of_mem_payouts hmem).le
  rw [hsplit, map_append, sum_append, map_cons, sum_cons] at hfits
  omega

theorem covered_of_fits (hfresh : ∀ r ∈ record.rows blockHeight, db.get? r.id = none)
    (hfits : (record.payouts.map DistributionEntry.hbdAmt).sum ≤ bucketBalance db blockHeight) :
    Covered record blockHeight db record.payouts := by
  refine covered_iff.2 fun paid d rest hsplit => ?_
  have hmem : ∀ r ∈ paid.flatMap (record.rowsOf blockHeight), r ∈ record.rows blockHeight := by
    intro r hr
    rw [SettlementRecord.rows, hsplit, flatMap_append]
    exact mem_append_left _ hr
  have hold : ∀ r ∈ paid.flatMap (record.rowsOf blockHeight),
      db.valueAt (bucketAmount blockHeight) r.id ≤ 0 :=
    fun r hr => (valueAt_of_get?_eq_none (hfresh r (hmem r hr)) _).le
  have hge := bucketBalance_putAll_ge (fun r hr => bucketAmount_nonpos (hmem r hr)) hold
  rw [sum_bucketAmount_rowsOf, ← sub_eq_add_neg] at hge
  exact (le_sub_of_split hfits hsplit).trans hge

end Loop

/-! ## The rows of a record -/

section Rows

variable {record : SettlementRecord} {blockHeight : ℕ}

theorem account_of_distribute_id {t tag a b : String}
    (h : t ++ a ++ tag ++ a = t ++ b ++ tag ++ b) : a = b := by
  have hlength := congrArg String.length h
  simp only [String.length_append] at hlength
  have hlist := congrArg String.toList h
  rw [String.toList_append, @String.toList_append (t ++ b ++ tag)] at hlist
  refine String.toList_inj.1 (append_inj' hlist ?_).2
  rw [String.length_toList, String.length_toList]
  omega

/-- The account stands twice in an id, and the lengths of the two tags differ by one. -/
theorem distribute_debit_ne_credit (t a b : String) :
    t ++ a ++ "#distribute_debit#" ++ a ≠ t ++ b ++ "#distribute_credit#" ++ b := by
  intro h
  have hlength := congrArg String.length h
  have hdebit : "#distribute_debit#".length = 18 := by decide
  have hcredit : "#distribute_credit#".length = 19 := by decide
  simp only [String.length_append] at hlength
  omega

theorem nodup_rows (blockHeight : ℕ)
    (hdistinct : (record.payouts.map fun d => hiveAccount d.account).Nodup) :
    ((record.rows blockHeight).map LedgerRecord.id).Nodup := by
  rw [SettlementRecord.rows, map_flatMap, nodup_flatMap]
  refine ⟨fun d _ => ?_, (pairwise_map.1 hdistinct).imp fun {d e} hne => ?_⟩
  · exact nodup_cons.2 ⟨fun h => distribute_debit_ne_credit _ _ _ (mem_singleton.1 h),
      nodup_singleton _⟩
  intro id hd he
  simp only [SettlementRecord.rowsOf, distributeRows, map_cons, map_nil,
    mem_cons, not_mem_nil, or_false] at hd he
  rcases hd with rfl | rfl <;> rcases he with he | he
  · exact hne (account_of_distribute_id he)
  · exact distribute_debit_ne_credit _ _ _ he
  · exact distribute_debit_ne_credit _ _ _ he.symm
  · exact hne (account_of_distribute_id he)

theorem rows_take (n : ℕ) : (record.rows blockHeight).take (2 * n) =
      (record.payouts.take n).flatMap (record.rowsOf blockHeight) := by
  rw [SettlementRecord.rows]
  induction record.payouts generalizing n with
  | nil => simp
  | cons d ds ih =>
    cases n with
    | zero => rfl
    | succ n =>
      obtain ⟨x, y, hrows⟩ : ∃ x y, record.rowsOf blockHeight d = [x, y] := ⟨_, _, rfl⟩
      rw [flatMap_cons, take_succ_cons, flatMap_cons, ← ih, hrows, mul_add]
      rfl

theorem sum_bucketAmount_take (n : ℕ) :
    (((record.rows blockHeight).take n).map (bucketAmount blockHeight)).sum =
      -((record.payouts.take ((n + 1) / 2)).map DistributionEntry.hbdAmt).sum := by
  rw [SettlementRecord.rows]
  induction record.payouts generalizing n with
  | nil => simp
  | cons d ds ih =>
    obtain ⟨x, y, hrows⟩ : ∃ x y, record.rowsOf blockHeight d = [x, y] := ⟨_, _, rfl⟩
    have hxy : (record.rowsOf blockHeight d).map (bucketAmount blockHeight) = [-d.hbdAmt, 0] :=
      map_bucketAmount_rowsOf d
    rw [hrows, map_cons, map_singleton, cons.injEq, singleton_inj] at hxy
    rw [flatMap_cons, hrows, cons_append, cons_append, nil_append]
    match n with
    | 0 => rfl
    | 1 => simp [hxy.1]
    | n + 2 =>
      have hhalf : (n + 2 + 1) / 2 = (n + 1) / 2 + 1 := by omega
      rw [hhalf, take_succ_cons, take_succ_cons, take_succ_cons, map_cons,
        map_cons, map_cons, sum_cons, sum_cons, sum_cons, hxy.1, hxy.2,
        ih]
      omega

end Rows

/-! ## An application that broke off -/

structure Interrupted where
  env : SettlementEnv
  before : SettlementStore
  record : SettlementRecord
  blockHeight : ℕ
  next : before.getLatestSettledEpoch < record.epoch
  continues : record.prevEpoch = before.getLatestSettledEpoch
  valid : validatePendulumSettlement env record = .ok ()
  derived : mismatches env before.ledger record blockHeight = false
  fresh : ∀ r ∈ record.rows blockHeight, before.ledger.get? r.id = none
  fits : (record.distributions.map DistributionEntry.hbdAmt).sum ≤
    bucketBalance before.ledger blockHeight
  landed : ℕ

namespace Interrupted

variable (w : Interrupted)

/-- The uninterrupted application. -/
def once : SettlementStore := applyPendulumSettlement w.env w.before w.record w.blockHeight

/-- What the interrupted application leaves: some first rows and no marker. -/
def left : SettlementStore :=
  { w.before with ledger := w.before.ledger.putAll ((w.record.rows w.blockHeight).take w.landed) }

def again : SettlementStore := applyPendulumSettlement w.env w.left w.record w.blockHeight

/-- The second application settles the epoch and leaves the ledger of a single one. -/
def Completes : Prop :=
  w.again.markers.get? w.record.epoch = some (w.record.marker w.blockHeight) ∧
    ∀ id, w.again.ledger.get? id = w.once.ledger.get? id

theorem apply_eq (ledger : LedgerDb) :
    applyPendulumSettlement w.env ⟨ledger, w.before.markers⟩ w.record w.blockHeight =
      if mismatches w.env ledger w.record w.blockHeight then ⟨ledger, w.before.markers⟩
      else
        let (ledger, distributeFailed) :=
          w.record.distributions.foldl (distributeEntry w.record w.blockHeight) (ledger, false)
        if distributeFailed then ⟨ledger, w.before.markers⟩
        else ⟨ledger, w.before.markers.put (w.record.marker w.blockHeight)⟩ := by
  have hlatest : (⟨ledger, w.before.markers⟩ : SettlementStore).getLatestSettledEpoch =
      w.before.getLatestSettledEpoch := rfl
  rw [applyPendulumSettlement]
  simp only [hlatest, if_neg (not_le.2 w.next), w.continues, w.valid, ne_eq,
    not_true_eq_false, if_false]

variable {ledger : LedgerDb}

theorem apply_of_covered (hderived : mismatches w.env ledger w.record w.blockHeight = false)
    (hcovered : Covered w.record w.blockHeight ledger w.record.payouts) :
    applyPendulumSettlement w.env ⟨ledger, w.before.markers⟩ w.record w.blockHeight =
      ⟨ledger.putAll (w.record.rows w.blockHeight),
        w.before.markers.put (w.record.marker w.blockHeight)⟩ := by
  rw [apply_eq, hderived, (foldl_distributeEntry _ _).1 hcovered]
  rfl

theorem markers_apply
    (hrefused : ¬ (mismatches w.env ledger w.record w.blockHeight = false ∧
      Covered w.record w.blockHeight ledger w.record.payouts)) :
    (applyPendulumSettlement w.env ⟨ledger, w.before.markers⟩ w.record w.blockHeight).markers =
      w.before.markers := by
  rw [apply_eq]
  cases hderived : mismatches w.env ledger w.record w.blockHeight with
  | true => rfl
  | false =>
    have hfailed := (foldl_distributeEntry _ _).2 fun hcovered => hrefused ⟨hderived, hcovered⟩
    rw [if_neg Bool.false_ne_true]
    dsimp only
    rw [if_pos hfailed]

theorem sum_payouts_le : (w.record.payouts.map DistributionEntry.hbdAmt).sum ≤
    bucketBalance w.before.ledger w.blockHeight :=
  sum_payouts (nonneg_of_validate w.valid) ▸ w.fits

theorem once_eq : w.once = ⟨w.before.ledger.putAll (w.record.rows w.blockHeight),
    w.before.markers.put (w.record.marker w.blockHeight)⟩ :=
  w.apply_of_covered w.derived (covered_of_fits w.fresh w.sum_payouts_le)

theorem get?_epoch_before : w.before.markers.get? w.record.epoch = none := by
  refine get?_eq_none_iff.2 fun m hm hepoch => absurd w.next (not_lt.2 ?_)
  exact hepoch ▸ le_max_of_le' 0 (mem_map_of_mem hm) le_rfl

theorem get?_putAll_landed (id : String) :
    (w.left.ledger.putAll (w.record.rows w.blockHeight)).get? id =
      (w.before.ledger.putAll (w.record.rows w.blockHeight)).get? id := by
  refine get?_putAll_congr (fun k hk => ?_) id
  refine get?_putAll_of_not_mem fun r hr => hk r (mem_of_mem_take hr)

/-- **The second application of an interrupted settlement completes it** exactly where the
node still composes the same record and the bucket covers each payment once more behind the
debits that landed. -/
theorem completes_iff : w.Completes ↔
    mismatches w.env w.left.ledger w.record w.blockHeight = false ∧
      Covered w.record w.blockHeight w.left.ledger w.record.payouts := by
  constructor
  · rintro ⟨hmarker, -⟩
    by_contra hrefused
    have hmarkers : w.again.markers = w.before.markers := w.markers_apply hrefused
    rw [hmarkers, get?_epoch_before] at hmarker
    cases hmarker
  rintro ⟨hderived, hcovered⟩
  have hagain : w.again = _ := w.apply_of_covered hderived hcovered
  rw [Completes, hagain, once_eq]
  exact ⟨get?_put_self _ _, w.get?_putAll_landed⟩

def debits : ℕ := (w.landed + 1) / 2

/-- What the bucket held before the first application, less the debits that landed. -/
def remaining : Int :=
  bucketBalance w.before.ledger w.blockHeight -
    ((w.record.payouts.take w.debits).map DistributionEntry.hbdAmt).sum

section Distinct

variable {w}
variable (hdistinct : (w.record.payouts.map fun d => hiveAccount d.account).Nodup)

include hdistinct

theorem bucketBalance_putAll_take (n : ℕ) :
    bucketBalance (w.before.ledger.putAll ((w.record.rows w.blockHeight).take n)) w.blockHeight =
      bucketBalance w.before.ledger w.blockHeight -
        ((w.record.payouts.take ((n + 1) / 2)).map DistributionEntry.hbdAmt).sum := by
  have hnodup := nodup_rows w.blockHeight hdistinct
  rw [bucketBalance, sum_putAll ((take_sublist n _).map _ |>.nodup hnodup), sub_eq_add_neg,
    ← sum_bucketAmount_take]
  refine congrArg _ (congrArg List.sum (map_congr_left fun r hr => ?_))
  rw [valueAt_of_get?_eq_none (w.fresh r (mem_of_mem_take hr)), sub_zero]

/-- What the second application finds in the bucket behind its first payments. -/
theorem bucketBalance_left {paid rest : List DistributionEntry} {d : DistributionEntry}
    (hsplit : w.record.payouts = paid ++ d :: rest) :
    bucketBalance (w.left.ledger.putAll (paid.flatMap (w.record.rowsOf w.blockHeight)))
        w.blockHeight =
      bucketBalance w.before.ledger w.blockHeight -
        ((w.record.payouts.take (max w.debits paid.length)).map DistributionEntry.hbdAmt).sum := by
  have hpaid : paid.flatMap (w.record.rowsOf w.blockHeight) =
      (w.record.rows w.blockHeight).take (2 * paid.length) := by
    rw [rows_take, hsplit, take_left]
  have hnodup := nodup_rows w.blockHeight hdistinct
  rw [hpaid]
  rcases le_or_gt (2 * paid.length) w.landed with hle | hlt
  · -- what is stored again is all there
    have hsame : w.left.ledger.putAll ((w.record.rows w.blockHeight).take (2 * paid.length)) =
        w.left.ledger := by
      refine putAll_of_mem fun r hr => mem_putAll_of_nodup ?_ ?_
      · exact (take_sublist _ _).map _ |>.nodup hnodup
      · exact (take_subset_take_left _ hle) hr
    rw [hsame, left, bucketBalance_putAll_take hdistinct, debits, max_eq_left (by omega)]
  have hsame : (w.left.ledger.putAll
      ((w.record.rows w.blockHeight).take (2 * paid.length))).docs.Perm
        (w.before.ledger.putAll ((w.record.rows w.blockHeight).take (2 * paid.length))).docs := by
    refine perm_docs (get?_putAll_congr fun id hid => get?_putAll_of_not_mem fun r hr => ?_)
    exact hid r ((take_subset_take_left _ hlt.le) hr)
  have hlength : (2 * paid.length + 1) / 2 = max w.debits paid.length := by
    rw [debits]
    omega
  rw [← hlength, ← bucketBalance_putAll_take hdistinct]
  exact (hsame.map _).sum_eq

theorem covered_left_iff : Covered w.record w.blockHeight w.left.ledger w.record.payouts ↔
      ∀ d ∈ w.record.payouts.take w.debits, d.hbdAmt ≤ w.remaining := by
  rw [covered_iff]
  constructor
  · intro h d hd
    obtain ⟨paid, rest, htake⟩ := append_of_mem hd
    have hsplit : w.record.payouts = paid ++ d :: (rest ++ w.record.payouts.drop w.debits) := by
      conv_lhs => rw [← take_append_drop w.debits w.record.payouts, htake]
      simp
    have hlength : paid.length ≤ w.debits := by
      have := congrArg length htake
      simp only [length_take, length_append, length_cons] at this
      omega
    have hcovered := h paid d _ hsplit
    rwa [bucketBalance_left hdistinct hsplit, max_eq_left hlength] at hcovered
  intro h paid d rest hsplit
  rw [bucketBalance_left hdistinct hsplit]
  rcases lt_or_ge paid.length w.debits with hlt | hge
  · rw [max_eq_left hlt.le]
    obtain ⟨k, hk⟩ := Nat.exists_eq_add_of_lt hlt
    refine h d ?_
    rw [hsplit, hk, add_assoc, take_length_add_append, take_succ_cons]
    exact mem_append_right _ mem_cons_self
  · rw [max_eq_right hge, hsplit, take_left]
    exact le_sub_of_split w.sum_payouts_le hsplit

end Distinct

def sixtyOfHundred : Interrupted where
  env := ⟨false, fun _ => some ["alice"], fun _ _ => [], fun record _ => some record⟩
  before :=
    { ledger := Collection.empty.put
        { id := "swap", amount := 100, blockHeight := 5, owner := pendulumNodesHBDBucket
          type := .transfer, asset := .hbd }
      markers := .empty }
  record :=
    { epoch := 1, prevEpoch := 0, snapshotRangeFrom := 0, snapshotRangeTo := 9
      bucketBalanceHBD := 100, totalDistributedHBD := 60, residualHBD := 40
      rewardReductions := [], distributions := [⟨"alice", 60⟩] }
  blockHeight := 10
  next := by decide
  continues := by decide
  valid := by decide
  derived := by decide
  fresh := by decide
  fits := by decide
  landed := 1

/-- With the debit of sixty landed the bucket holds forty: each further application is
refused, the credit is never written and the epoch never settled. -/
theorem debit_without_credit : ¬ sixtyOfHundred.Completes ∧
      sixtyOfHundred.again.ledger.docs = sixtyOfHundred.left.ledger.docs ∧
      sixtyOfHundred.again.markers.docs = [] ∧
      sixtyOfHundred.once.markers.docs.map SettlementMarker.epoch = [1] := by
  have hagain : sixtyOfHundred.again.markers.get? 1 = none := by decide
  refine ⟨fun h => ?_, by decide, by decide, by decide⟩
  exact absurd (h.1.symm.trans hagain) (by simp)

end Interrupted

end VscNode.Pendulum
