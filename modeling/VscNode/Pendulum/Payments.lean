import VscNode.Pendulum.Settlement

/-!
# What a settlement pays

A record is checked by the sum of the amounts it lists, and applied by rows that are
named after the accounts it lists. An account that is listed twice, or once with and
once without its prefix, has one name, so its later entry replaces what its earlier
one has paid.

`Applied.pays_what_it_says_iff` says when a settled epoch has paid what its record
says: exactly where the replaced amounts do not count in a sum of signed words. The
bucket always pays what the accounts get, and never more than it holds.
-/

namespace VscNode.Pendulum

open List hiding sum_eq_zero
open Collection FixedPoint Text

/-! ## Later entries -/

def lastEntries : List DistributionEntry → List DistributionEntry
  | [] => []
  | d :: ds =>
    if hiveAccount d.account ∈ ds.map (fun e => hiveAccount e.account) then lastEntries ds
    else d :: lastEntries ds

def listed (ds : List DistributionEntry) : Int := (ds.map DistributionEntry.hbdAmt).sum

theorem listed_cons (d : DistributionEntry) (ds : List DistributionEntry) :
    listed (d :: ds) = d.hbdAmt + listed ds := sum_cons

def replaced (ds : List DistributionEntry) : Int := listed ds - listed (lastEntries ds)

variable {ds : List DistributionEntry}

theorem mem_of_mem_lastEntries {d : DistributionEntry} (h : d ∈ lastEntries ds) : d ∈ ds := by
  induction ds with
  | nil => exact h
  | cons e ds ih =>
    rw [lastEntries] at h
    split at h
    · exact mem_cons_of_mem _ (ih h)
    obtain rfl | h := mem_cons.1 h
    · exact mem_cons_self
    · exact mem_cons_of_mem _ (ih h)

theorem nodup_lastEntries (ds : List DistributionEntry) :
    ((lastEntries ds).map fun d => hiveAccount d.account).Nodup := by
  induction ds with
  | nil => exact nodup_nil
  | cons d ds ih =>
    rw [lastEntries]
    split
    · exact ih
    rename_i hnot
    refine nodup_cons.2 ⟨fun hmem => hnot ?_, ih⟩
    obtain ⟨e, he, heq⟩ := mem_map.1 hmem
    exact mem_map.2 ⟨e, mem_of_mem_lastEntries he, heq⟩

theorem total_of_validate {env : SettlementEnv} {record : SettlementRecord}
    (h : validatePendulumSettlement env record = .ok ()) :
    record.totalDistributedHBD = wrap64 (listed record.payouts) := by
  have hlisted : listed record.payouts = listed record.distributions :=
    sum_payouts (nonneg_of_validate h)
  have hnone : (record.distributions.find? fun d => d.hbdAmt < 0) = none :=
    find?_eq_none.2 (by simpa using nonneg_of_validate h)
  have hsum := foldl_wrap64 DistributionEntry.hbdAmt record.distributions 0
  rw [zero_add, ← listed, ← hlisted, show wrap64 0 = 0 by decide] at hsum
  rw [← hsum]
  by_contra hne
  simp only [validatePendulumSettlement, hnone] at h
  rw [if_pos (Ne.symm hne)] at h
  split_ifs at h

/-! ## The rows of an epoch -/

variable (epoch : ℕ) (r : LedgerRecord)

/-- What the ids of an epoch's rows start with. -/
def settlementTag : String := pendulumSettlementTxID epoch ++ "#"

/-- A row that was written for an epoch. -/
def OfEpoch : Prop := hasPrefix r.id (settlementTag epoch) = true
  deriving Decidable

/-- What accounts got for an epoch. -/
def epochCredit : Int :=
  if OfEpoch epoch r ∧ r.owner ≠ pendulumNodesHBDBucket then r.amount else 0

/-- What the bucket paid for an epoch. -/
def epochDebit : Int :=
  if OfEpoch epoch r ∧ r.owner = pendulumNodesHBDBucket then -r.amount else 0

section Rows

variable {record : SettlementRecord} {blockHeight : ℕ} {db : LedgerDb}

def SettlementRecord.withEntries (record : SettlementRecord) (ds : List DistributionEntry) :
    SettlementRecord := { record with distributions := ds }

variable {g : LedgerRecord → Int}

theorem rows_withEntries (h : ∀ d ∈ ds, 0 < d.hbdAmt) :
    (record.withEntries ds).rows blockHeight = ds.flatMap (record.rowsOf blockHeight) := by
  have hpayouts : (record.withEntries ds).payouts = ds := by
    rw [SettlementRecord.payouts]
    exact filter_eq_self.2 fun d hd => decide_eq_true (h d hd)
  rw [SettlementRecord.rows, hpayouts]
  rfl

theorem get?_putAll_lastEntries (ds : List DistributionEntry) (db : LedgerDb) (id : String) :
    (db.putAll ((lastEntries ds).flatMap (record.rowsOf blockHeight))).get? id =
      (db.putAll (ds.flatMap (record.rowsOf blockHeight))).get? id := by
  induction ds generalizing db with
  | nil => rfl
  | cons d ds ih =>
    rw [lastEntries, flatMap_cons, putAll_append]
    split
    · rename_i hlater
      rw [ih]
      obtain ⟨e, he, hacct⟩ := mem_map.1 hlater
      refine get?_putAll_congr (fun k hk => (get?_putAll_of_not_mem fun r hr => ?_).symm) id
      -- The later entry writes under the same ids.
      have hids : (record.rowsOf blockHeight d).map LedgerRecord.id =
          (record.rowsOf blockHeight e).map LedgerRecord.id := by
        simp only [SettlementRecord.rowsOf, distributeRows, hacct, map_cons, map_nil]
      have hmem : r.id ∈ (record.rowsOf blockHeight e).map LedgerRecord.id :=
        hids ▸ mem_map_of_mem hr
      obtain ⟨r', hr', hid⟩ := mem_map.1 hmem
      exact hid ▸ hk r' (mem_flatMap.2 ⟨e, he, hr'⟩)
    · rw [flatMap_cons, putAll_append, ih]

variable {c : Int} {d : DistributionEntry} {r : LedgerRecord}

theorem sum_rowsOf
    (h : ∀ d : DistributionEntry, ((record.rowsOf blockHeight d).map g).sum = c * d.hbdAmt)
    (ds : List DistributionEntry) :
    ((ds.flatMap (record.rowsOf blockHeight)).map g).sum = c * listed ds := by
  induction ds with
  | nil => simp [listed]
  | cons d ds ih =>
    rw [flatMap_cons, map_append, sum_append, ih, h, listed_cons, mul_add]

theorem sum_putAll_rowsOf (hpos : ∀ d ∈ ds, 0 < d.hbdAmt)
    (hfresh : ∀ d ∈ ds, ∀ r ∈ record.rowsOf blockHeight d, db.get? r.id = none)
    (h : ∀ d : DistributionEntry, ((record.rowsOf blockHeight d).map g).sum = c * d.hbdAmt) :
    (db.putAll (ds.flatMap (record.rowsOf blockHeight))).sum g =
      db.sum g + c * listed (lastEntries ds) := by
  have hlast : ∀ d ∈ lastEntries ds, 0 < d.hbdAmt := fun d hd => hpos d (mem_of_mem_lastEntries hd)
  have hsame : (db.putAll (ds.flatMap (record.rowsOf blockHeight))).sum g =
      (db.putAll ((record.withEntries (lastEntries ds)).rows blockHeight)).sum g := by
    rw [rows_withEntries hlast]
    exact ((perm_docs (get?_putAll_lastEntries ds db)).map g).sum_eq.symm
  have hnodup : (((record.withEntries (lastEntries ds)).rows blockHeight).map
      LedgerRecord.id).Nodup := by
    refine nodup_rows blockHeight (((filter_sublist ..).map _).nodup ?_)
    exact nodup_lastEntries ds
  rw [hsame, sum_putAll hnodup, rows_withEntries hlast, ← sum_rowsOf h]
  refine congrArg _ (congrArg List.sum (map_congr_left fun r hr => ?_))
  obtain ⟨d, hd, hr⟩ := mem_flatMap.1 hr
  rw [valueAt_of_get?_eq_none (hfresh d (mem_of_mem_lastEntries hd) r hr), sub_zero]

theorem ofEpoch_of_mem_rowsOf (hr : r ∈ record.rowsOf blockHeight d) : OfEpoch record.epoch r := by
  have hid : ∀ a tag : String,
      hasPrefix (settlementTag record.epoch ++ a ++ tag ++ a) (settlementTag record.epoch) = true := by
    intro a tag
    rw [String.append_assoc, String.append_assoc]
    exact hasPrefix_append _ _
  simp only [SettlementRecord.rowsOf, distributeRows, mem_cons, not_mem_nil,
    or_false] at hr
  rcases hr with rfl | rfl <;> exact hid _ _

section

variable (d : DistributionEntry)

theorem sum_epochCredit_rowsOf :
    ((record.rowsOf blockHeight d).map (epochCredit record.epoch)).sum = 1 * d.hbdAmt := by
  rw [map_congr_left (g := fun r => if r.owner ≠ pendulumNodesHBDBucket then r.amount else 0)
    fun r hr => by simp [epochCredit, ofEpoch_of_mem_rowsOf hr]]
  simp [SettlementRecord.rowsOf, distributeRows, hiveAccount_ne_bucket]

theorem sum_epochDebit_rowsOf :
    ((record.rowsOf blockHeight d).map (epochDebit record.epoch)).sum = 1 * d.hbdAmt := by
  rw [map_congr_left (g := fun r => if r.owner = pendulumNodesHBDBucket then -r.amount else 0)
    fun r hr => by simp [epochDebit, ofEpoch_of_mem_rowsOf hr]]
  simp [SettlementRecord.rowsOf, distributeRows, hiveAccount_ne_bucket]

theorem sum_bucketAmount_rowsOf_entry :
    ((record.rowsOf blockHeight d).map (bucketAmount blockHeight)).sum = -1 * d.hbdAmt := by
  rw [map_bucketAmount_rowsOf]
  simp

end

theorem bucketAmount_rowsOf_nonpos (hpays : 0 < d.hbdAmt) (hr : r ∈ record.rowsOf blockHeight d) :
    bucketAmount blockHeight r ≤ 0 := by
  have hmem := mem_map_of_mem (f := bucketAmount blockHeight) hr
  rw [map_bucketAmount_rowsOf] at hmem
  simp only [mem_cons, not_mem_nil, or_false] at hmem
  omega

theorem valueAt_putAll_nonpos {rows : List LedgerRecord} {id : String}
    (hrows : ∀ r ∈ rows, g r ≤ 0) (hold : db.valueAt g id ≤ 0) :
    (db.putAll rows).valueAt g id ≤ 0 := by
  induction rows generalizing db with
  | nil => exact hold
  | cons r rows ih =>
    refine ih (fun r' hr' => hrows r' (mem_cons_of_mem _ hr')) ?_
    rw [valueAt_put]
    split
    · exact hrows r mem_cons_self
    · exact hold

theorem Covered.bucketBalance_nonneg (h : Covered record blockHeight db ds)
    (hpos : ∀ d ∈ ds, 0 < d.hbdAmt)
    (hold : ∀ d ∈ ds, ∀ r ∈ record.rowsOf blockHeight d, db.valueAt (bucketAmount blockHeight)
      r.id ≤ 0) (hnonneg : 0 ≤ bucketBalance db blockHeight) :
    0 ≤ bucketBalance (db.putAll (ds.flatMap (record.rowsOf blockHeight))) blockHeight := by
  induction ds generalizing db with
  | nil => exact hnonneg
  | cons d ds ih =>
    have hrows : ∀ r ∈ record.rowsOf blockHeight d, bucketAmount blockHeight r ≤ 0 :=
      fun r => bucketAmount_rowsOf_nonpos (hpos d mem_cons_self)
    rw [flatMap_cons, putAll_append]
    refine ih h.2 (fun e he => hpos e (mem_cons_of_mem _ he)) (fun e he r hr => ?_) ?_
    · exact valueAt_putAll_nonpos hrows (hold e (mem_cons_of_mem _ he) r hr)
    have hpaid := bucketBalance_putAll_ge hrows (hold d mem_cons_self)
    have hcovered := h.1
    rw [sum_bucketAmount_rowsOf_entry] at hpaid
    omega

end Rows

/-! ## A settled epoch -/

structure Applied where
  env : SettlementEnv
  before : SettlementStore
  record : SettlementRecord
  blockHeight : ℕ
  unsettled : before.markers.get? record.epoch = none
  settled : (applyPendulumSettlement env before record blockHeight).markers.get? record.epoch =
    some (record.marker blockHeight)
  bucket_lt : bucketBalance before.ledger blockHeight < 2 ^ 63

namespace Applied

variable (w : Applied)

def after : LedgerDb := (applyPendulumSettlement w.env w.before w.record w.blockHeight).ledger

def PaysWhatItSays : Prop :=
  w.after.sum (epochCredit w.record.epoch) = w.record.totalDistributedHBD ∧
    w.after.sum (epochCredit w.record.epoch) = w.after.sum (epochDebit w.record.epoch) ∧
    w.after.sum (epochCredit w.record.epoch) ≤ max 0 (bucketBalance w.before.ledger w.blockHeight)

/-- No earlier application has left rows for the epoch. -/
def Fresh : Prop := ∀ r ∈ w.before.ledger.docs, ¬ OfEpoch w.record.epoch r
  deriving Decidable

/-- What settles an epoch has passed the checks and paid everything. -/
theorem applied : validatePendulumSettlement w.env w.record = .ok () ∧
    Covered w.record w.blockHeight w.before.ledger w.record.payouts ∧
    w.after = w.before.ledger.putAll (w.record.rows w.blockHeight) := by
  have hkept : ∀ s : SettlementStore, applyPendulumSettlement w.env w.before w.record
      w.blockHeight = s → s.markers ≠ w.before.markers := by
    rintro s rfl hmarkers
    have hsettled := w.settled
    rw [hmarkers, w.unsettled] at hsettled
    cases hsettled
  rw [after]
  unfold applyPendulumSettlement at hkept ⊢
  dsimp only at hkept ⊢
  iterate 3
    split at hkept
    · exact (hkept _ rfl rfl).elim
  rename_i hlatest hprev _ hvalid
  split at hkept
  · exact (hkept _ rfl rfl).elim
  rename_i hderived
  have hloop := @foldl_distributeEntry w.record w.blockHeight w.record.distributions w.before.ledger
  by_cases hcovered : Covered w.record w.blockHeight w.before.ledger w.record.payouts
  · refine ⟨hvalid, hcovered, ?_⟩
    rw [if_neg hlatest, if_neg hprev, if_neg hderived, hloop.1 hcovered]
    rfl
  · rw [if_pos (hloop.2 hcovered)] at hkept
    exact (hkept _ rfl rfl).elim

theorem payouts_pos : ∀ d ∈ w.record.payouts, 0 < d.hbdAmt := fun _ hd =>
  hbdAmt_pos_of_mem_payouts hd

variable {w}

theorem Fresh.get?_eq_none (h : w.Fresh) : ∀ d ∈ w.record.payouts,
    ∀ r ∈ w.record.rowsOf w.blockHeight d, w.before.ledger.get? r.id = none := by
  intro d _ r hr
  refine get?_eq_none_iff.2 fun x hx hid => h x hx ?_
  rw [OfEpoch, show x.id = r.id from hid]
  exact ofEpoch_of_mem_rowsOf hr

theorem Fresh.paid (h : w.Fresh) :
    w.after.sum (epochCredit w.record.epoch) = listed (lastEntries w.record.payouts) ∧
      w.after.sum (epochDebit w.record.epoch) = listed (lastEntries w.record.payouts) := by
  have hsum : ∀ {g : LedgerRecord → Int}, (∀ r, ¬ OfEpoch w.record.epoch r → g r = 0) →
      (∀ d : DistributionEntry, ((w.record.rowsOf w.blockHeight d).map g).sum = 1 * d.hbdAmt) →
      w.after.sum g = listed (lastEntries w.record.payouts) := by
    intro g hzero hrows
    rw [w.applied.2.2, SettlementRecord.rows, sum_putAll_rowsOf w.payouts_pos h.get?_eq_none hrows,
      sum_eq_zero fun r hr => hzero r (h r hr), zero_add, one_mul]
  exact ⟨hsum (fun r hr => if_neg fun hr' => hr hr'.1) sum_epochCredit_rowsOf,
    hsum (fun r hr => if_neg fun hr' => hr hr'.1) sum_epochDebit_rowsOf⟩

theorem Fresh.paid_le (h : w.Fresh) : listed (lastEntries w.record.payouts) ≤
    max 0 (bucketBalance w.before.ledger w.blockHeight) := by
  obtain ⟨-, hcovered, -⟩ := w.applied
  rcases lt_or_ge (bucketBalance w.before.ledger w.blockHeight) 0 with hneg | hnonneg
  · -- an overdrawn bucket covers no payment
    have hnil : w.record.payouts = [] := by
      cases hds : w.record.payouts with
      | nil => rfl
      | cons d ds =>
        rw [hds] at hcovered
        have hpos := w.payouts_pos d (hds ▸ mem_cons_self)
        have := hcovered.1
        omega
    rw [hnil]
    exact le_max_left _ _
  have hafter := hcovered.bucketBalance_nonneg w.payouts_pos (fun d hd r hr =>
    (valueAt_of_get?_eq_none (h.get?_eq_none d hd r hr) _).le) hnonneg
  rw [bucketBalance, sum_putAll_rowsOf w.payouts_pos h.get?_eq_none
    sum_bucketAmount_rowsOf_entry] at hafter
  have hle : listed (lastEntries w.record.payouts) ≤
      bucketBalance w.before.ledger w.blockHeight := by
    rw [bucketBalance]
    omega
  exact hle.trans (le_max_right _ _)

/-- **A settled epoch has paid what its record says**, out of the bucket and within it, exactly
where the replaced amounts are nothing to signed words. -/
theorem pays_what_it_says_iff (w : Applied) (hfresh : w.Fresh) :
    w.PaysWhatItSays ↔ 2 ^ 64 ∣ replaced w.record.payouts := by
  have hle := hfresh.paid_le
  have hlt := w.bucket_lt
  have hnonneg : 0 ≤ listed (lastEntries w.record.payouts) :=
    sum_nonneg fun x hx => by
      obtain ⟨d, hd, rfl⟩ := mem_map.1 hx
      exact (w.payouts_pos d (mem_of_mem_lastEntries hd)).le
  rw [PaysWhatItSays, hfresh.paid.1, hfresh.paid.2, and_iff_left ⟨rfl, hle⟩,
    total_of_validate w.applied.1, replaced]
  exact eq_wrap64_iff ⟨by omega, by omega⟩

/-! ### Ten coins -/

def tenCoins (ds : List DistributionEntry) : SettlementRecord :=
  { epoch := 1, prevEpoch := 0, snapshotRangeFrom := 0, snapshotRangeTo := 9
    bucketBalanceHBD := 10, totalDistributedHBD := 10, residualHBD := 0
    rewardReductions := [], distributions := ds }

/-- The committee of alice and bob, with ten coins in the bucket. -/
def tenInBucket : SettlementStore :=
  { ledger := Collection.empty.put
      { id := "swap", amount := 10, blockHeight := 5, owner := pendulumNodesHBDBucket
        type := .transfer, asset := .hbd }
    markers := .empty }

def aliceAndBob : SettlementEnv :=
  ⟨false, fun _ => some ["alice", "bob"], fun _ _ => [], fun _ _ => none⟩

def eachOnce : Applied where
  env := aliceAndBob
  before := tenInBucket
  record := tenCoins [⟨"alice", 5⟩, ⟨"bob", 5⟩]
  blockHeight := 10
  unsettled := by decide
  settled := by decide
  bucket_lt := by decide

theorem pays_what_it_says_eachOnce : eachOnce.PaysWhatItSays :=
  (pays_what_it_says_iff eachOnce (by decide)).2 (by decide)

def twiceListed : Applied where
  env := aliceAndBob
  before := tenInBucket
  record := tenCoins [⟨"alice", 5⟩, ⟨"hive:alice", 5⟩]
  blockHeight := 10
  unsettled := by decide
  settled := by decide
  bucket_lt := by decide

/-- The epoch is settled with ten distributed; alice has got five, and the other five stay in
the bucket. -/
theorem twice_listed_pays_once : twiceListed.Fresh ∧ ¬ twiceListed.PaysWhatItSays ∧
      validatePendulumSettlement twiceListed.env twiceListed.record = .ok () ∧
      twiceListed.record.totalDistributedHBD = 10 ∧
      twiceListed.after.sum (epochCredit 1) = 5 ∧ bucketBalance twiceListed.after 10 = 5 := by
  have hpaid : twiceListed.after.sum (epochCredit 1) = 5 := by decide
  refine ⟨by decide, fun h => ?_, by decide, rfl, hpaid, by decide⟩
  exact absurd (h.1.symm.trans hpaid) (by decide)

end Applied

end VscNode.Pendulum
