import VscNode.Pendulum.Settlement

/-!
# A settlement write by write

An application of a record is a sequence of writes, the two rows of each payment and
then the marker. A node that stops behind some of them applies the record again on
what they left. Behind the marker that does nothing (`foldl_take_of_marker`); between
the rows it may be refused (`Interrupted.completes_iff`).
-/

namespace VscNode.Pendulum

open Collection List

inductive SettlementWrite
  | storeLedger (r : LedgerRecord)
  | saveMarker (m : SettlementMarker)
  deriving DecidableEq

def SettlementStore.write (s : SettlementStore) : SettlementWrite → SettlementStore
  | .storeLedger r => { s with ledger := s.ledger.put r }
  | .saveMarker m => { s with markers := s.markers.put m }

/-- The rows that the distribution loop stores, in order. -/
def distributedRows (record : SettlementRecord) (blockHeight : ℕ) :
    LedgerDb → List DistributionEntry → List LedgerRecord
  | _, [] => []
  | db, d :: ds =>
    if 0 < d.hbdAmt ∧ d.hbdAmt ≤ bucketBalance db blockHeight then
      record.rowsOf blockHeight d ++
        distributedRows record blockHeight (db.putAll (record.rowsOf blockHeight d)) ds
    else distributedRows record blockHeight db ds

section

variable (env : SettlementEnv) (s : SettlementStore) (record : SettlementRecord) (blockHeight : ℕ)

/-- The record passes every check in front of the loop. -/
def Accepts : Prop :=
  s.getLatestSettledEpoch < record.epoch ∧ record.prevEpoch = s.getLatestSettledEpoch ∧
    validatePendulumSettlement env record = .ok () ∧
    mismatches env s.ledger record blockHeight = false
  deriving Decidable

/-- The writes of `applyPendulumSettlement`, in order. -/
def settlementWrites : List SettlementWrite :=
  if Accepts env s record blockHeight then
    (distributedRows record blockHeight s.ledger record.distributions).map .storeLedger ++
      if (record.distributions.foldl (distributeEntry record blockHeight) (s.ledger, false)).2 then []
      else [.saveMarker (record.marker blockHeight)]
  else []

end

section Writes

variable {record : SettlementRecord} {blockHeight : ℕ}

theorem foldl_storeLedger (s : SettlementStore) (rows : List LedgerRecord) :
    (rows.map .storeLedger).foldl SettlementStore.write s =
      { s with ledger := s.ledger.putAll rows } := by
  induction rows generalizing s with
  | nil => rfl
  | cons r rows ih => exact ih (s.write (.storeLedger r))

theorem fst_foldl_distributeEntry (ds : List DistributionEntry) (db : LedgerDb) (failed : Bool) :
    (ds.foldl (distributeEntry record blockHeight) (db, failed)).1 =
      db.putAll (distributedRows record blockHeight db ds) := by
  induction ds generalizing db failed with
  | nil => rfl
  | cons d ds ih =>
    rw [foldl_cons, distributedRows]
    by_cases hpays : 0 < d.hbdAmt
    · rw [distributeEntry_eq _ _ _ _ hpays]
      by_cases hcovered : d.hbdAmt ≤ bucketBalance db blockHeight
      · rw [if_pos hcovered, if_pos ⟨hpays, hcovered⟩, putAll_append]
        exact ih _ failed
      · rw [if_neg hcovered, if_neg fun h => hcovered h.2]
        exact ih db true
    · rw [distributeEntry, if_pos (not_lt.1 hpays), if_neg fun h => hpays h.1]
      exact ih db failed

theorem le_getLatestSettledEpoch {s : SettlementStore} {m : SettlementMarker} (h : m ∈ s.markers) :
    m.epoch ≤ s.getLatestSettledEpoch :=
  le_max_of_le' 0 (mem_map_of_mem h) le_rfl

variable {env : SettlementEnv} {s : SettlementStore}

theorem apply_of_settled (h : record.epoch ≤ s.getLatestSettledEpoch) :
    applyPendulumSettlement env s record blockHeight = s := by
  rw [applyPendulumSettlement]
  exact if_pos h

theorem apply_of_not_accepts (h : ¬ Accepts env s record blockHeight) :
    applyPendulumSettlement env s record blockHeight = s := by
  rw [applyPendulumSettlement]
  dsimp only
  split
  · rfl
  split
  · rfl
  split
  · rfl
  split
  · rfl
  · exact absurd ⟨not_le.1 ‹_›, not_not.1 ‹_›, ‹_›, Bool.eq_false_iff.2 ‹_›⟩ h

/-- The writes make up the application. -/
theorem foldl_settlementWrites :
    (settlementWrites env s record blockHeight).foldl SettlementStore.write s =
      applyPendulumSettlement env s record blockHeight := by
  rw [settlementWrites]
  split
  · rename_i h
    obtain ⟨hnext, hcontinues, hvalid, hderived⟩ := h
    rw [foldl_append, foldl_storeLedger, ← fst_foldl_distributeEntry _ _ false]
    simp only [applyPendulumSettlement, hcontinues, hvalid, hderived, if_neg (not_le.2 hnext),
      ne_eq, not_true_eq_false, if_false, Bool.false_eq_true]
    split <;> rfl
  · rename_i h
    exact (apply_of_not_accepts h).symm

end Writes

/-! ## Applied again -/

variable {env : SettlementEnv} {s : SettlementStore} {record : SettlementRecord}
  {blockHeight n : ℕ}

/-- Behind the marker the application is over. -/
theorem foldl_take_of_marker
    (h : ∃ m, .saveMarker m ∈ (settlementWrites env s record blockHeight).take n) :
    ((settlementWrites env s record blockHeight).take n).foldl SettlementStore.write s =
        applyPendulumSettlement env s record blockHeight ∧
      record.epoch ≤ (applyPendulumSettlement env s record blockHeight).getLatestSettledEpoch := by
  obtain ⟨m, hm⟩ := h
  rw [← foldl_settlementWrites]
  rw [settlementWrites] at hm ⊢
  generalize distributedRows record blockHeight s.ledger record.distributions = rows at hm ⊢
  have hrow : ∀ rows : List LedgerRecord, .saveMarker m ∉ rows.map SettlementWrite.storeLedger :=
    fun rows => by simp
  split at hm
  · split at hm
    · rw [append_nil] at hm
      exact absurd (mem_of_mem_take hm) (hrow rows)
    have hlength : (rows.map SettlementWrite.storeLedger).length < n := by
      by_contra hle
      rw [take_append_of_le_length (not_lt.1 hle)] at hm
      exact hrow rows (mem_of_mem_take hm)
    rw [if_pos ‹_›, if_neg ‹_›, take_of_length_le (length_append.trans_le hlength)]
    refine ⟨rfl, le_getLatestSettledEpoch (m := record.marker blockHeight) ?_⟩
    rw [foldl_append]
    exact mem_put_self _ _
  · simp at hm

theorem apply_again_of_marker
    (h : ∃ m, .saveMarker m ∈ (settlementWrites env s record blockHeight).take n) :
    applyPendulumSettlement env
        (((settlementWrites env s record blockHeight).take n).foldl SettlementStore.write s)
        record blockHeight = applyPendulumSettlement env s record blockHeight := by
  obtain ⟨heq, hsettled⟩ := foldl_take_of_marker h
  rw [heq, apply_of_settled hsettled]

end VscNode.Pendulum
