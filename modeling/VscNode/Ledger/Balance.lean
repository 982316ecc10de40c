import VscNode.Ledger.Record
import VscNode.Lib.Timeline

/-!
# Reading a balance

`getBalance` is the spend check's view of an account: the latest snapshot at or
below a height, plus every row past the snapshot that is not a protocol meta
row. `history` is what that number is for: the sum of all rows of the account,
from the first one on. The virtual delegation assets have no snapshot column and
are summed from height zero.
-/

namespace VscNode

open Collection LedgerRecord

/-- What a row contributes to the balance of `account` in `asset`. -/
def LedgerRecord.moves (account : String) (asset : Asset) (r : LedgerRecord) : Int :=
  if r.owner = account ∧ r.asset = asset ∧ isProtocolMetaLedgerType r.type = false then r.amount
  else 0

variable {r : LedgerRecord}

theorem LedgerRecord.moves_of_meta (h : isProtocolMetaLedgerType r.type = true) (account : String)
    (asset : Asset) : r.moves account asset = 0 := by
  simp [moves, h]

theorem LedgerRecord.moves_of_owner_ne {account : String} (h : r.owner ≠ account) (asset : Asset) :
    r.moves account asset = 0 := by
  simp [moves, h]

theorem LedgerRecord.moves_of_asset_ne {asset : Asset} (h : r.asset ≠ asset) (account : String) :
    r.moves account asset = 0 := by
  simp [moves, h]

namespace LedgerDbs

def getBalance (s : LedgerDbs) (account : String) (blockHeight : ℕ) (asset : Asset) : Int :=
  let balRecord := s.balances.getBalanceRecord account blockHeight
  let recordHeight := balRecord.elim 0 fun r => r.blockHeight + 1
  match asset with
  | .delegation | .delegationTotal =>
    ((s.ledger.getLedgerRange account 0 blockHeight (some asset)
      [.consensusStake, .consensusUnstake]).map (·.amount)).sum
  | .other _ => 0
  | .hive | .hbd | .hbdSavings | .hiveConsensus =>
    balRecord.elim 0 (·.field asset) +
      ((s.ledger.getLedgerRange account recordHeight blockHeight (some asset) []).map fun v =>
        if isProtocolMetaLedgerType v.type then 0 else v.amount).sum

def history (s : LedgerDbs) (account : String) (h : ℕ) (asset : Asset) : Int :=
  s.ledger.upTo (·.blockHeight) (·.moves account asset) h

theorem sum_range_eq_between (db : LedgerDb) (account : String) (start stop : ℕ) (asset : Asset) :
    ((db.getLedgerRange account start stop (some asset) []).map fun v =>
        if isProtocolMetaLedgerType v.type then 0 else v.amount).sum =
      db.between (·.blockHeight) (·.moves account asset) start stop := by
  rw [LedgerDb.sum_getLedgerRange, between]
  apply sum_congr
  intro r _
  by_cases hw : start ≤ r.blockHeight ∧ r.blockHeight ≤ stop
  · cases hm : isProtocolMetaLedgerType r.type <;>
      by_cases ho : r.owner = account <;> by_cases ha : r.asset = asset <;>
        simp [moves, hw, hm, ho, ha]
  · rw [if_neg hw, if_neg]
    exact fun h => hw ⟨h.2.1, h.2.2.1⟩

variable {asset : Asset} {account : String} {excess : ℕ → Int} {s : LedgerDbs}

theorem getBalance_eq (hasset : asset ∈ snapshotAssets) (s : LedgerDbs) (account : String) (h : ℕ) :
    s.getBalance account h asset = (s.balances.getBalanceRecord account h).elim 0 (·.field asset) +
        s.ledger.between (·.blockHeight) (·.moves account asset)
          ((s.balances.getBalanceRecord account h).elim 0 fun r => r.blockHeight + 1) h := by
  rw [← sum_range_eq_between]
  simp only [snapshotAssets, List.mem_cons, List.not_mem_nil, or_false] at hasset
  rcases hasset with rfl | rfl | rfl | rfl <;> rfl

/-- An amount per height that changes only at the account's snapshots and is zero
before the first of them. -/
structure SteppedAt (balances : BalanceDb) (account : String) (excess : ℕ → Int) : Prop where
  const : ∀ {h h' : ℕ}, h ≤ h' →
    (∀ r ∈ balances, r.account = account → r.blockHeight ≤ h ∨ h' < r.blockHeight) →
    excess h' = excess h
  zero : ∀ {h : ℕ}, (∀ r ∈ balances, r.account = account → h < r.blockHeight) → excess h = 0

theorem SteppedAt.const_zero (balances : BalanceDb) (account : String) :
    SteppedAt balances account fun _ => 0 :=
  ⟨fun _ _ => rfl, fun _ => rfl⟩

/-- More snapshots allow more changes. -/
theorem SteppedAt.mono {balances balances' : BalanceDb} (h : SteppedAt balances account excess)
    (hkept : ∀ r ∈ balances, ∃ r' ∈ balances', r'.account = r.account ∧ r'.blockHeight = r.blockHeight) :
    SteppedAt balances' account excess := by
  constructor
  · intro h₁ h₂ hle hnone
    refine h.const hle fun r hr hacct => ?_
    obtain ⟨r', hr', hacct', hheight⟩ := hkept r hr
    rw [← hheight]
    exact hnone r' hr' (hacct'.trans hacct)
  intro h₁ hnone
  refine h.zero fun r hr hacct => ?_
  obtain ⟨r', hr', hacct', hheight⟩ := hkept r hr
  rw [← hheight]
  exact hnone r' hr' (hacct'.trans hacct)

theorem getBalance_eq_history_add (hasset : asset ∈ snapshotAssets)
    (hstep : SteppedAt s.balances account excess)
    (hsnap : ∀ r ∈ s.balances, r.account = account →
      r.field asset = s.history account r.blockHeight asset + excess r.blockHeight)
    (h : ℕ) : s.getBalance account h asset = s.history account h asset + excess h := by
  rw [getBalance_eq hasset]
  cases hr : s.balances.getBalanceRecord account h with
  | none =>
    rw [hstep.zero (BalanceDb.getBalanceRecord_eq_none_iff.1 hr)]
    simp only [Option.elim_none, zero_add, add_zero]
    exact between_zero _ _ _ _
  | some r =>
    obtain ⟨hmem, hacct, hle, hlast⟩ := BalanceDb.getBalanceRecord_eq_some hr
    have hexcess : excess h = excess r.blockHeight := by
      refine hstep.const hle fun r' hr' hacct' => ?_
      rcases Nat.lt_or_ge h r'.blockHeight with hlt | hge
      · exact .inr hlt
      · exact .inl (hlast r' hr' hacct' hge)
    have hwhole := upTo_add_between s.ledger (·.blockHeight) (·.moves account asset) hle
    simp only [Option.elim_some]
    rw [hsnap r hmem hacct, hexcess, history, history, ← hwhole]
    abel

theorem getBalance_eq_history (hasset : asset ∈ snapshotAssets)
    (hsnap : ∀ r ∈ s.balances, r.account = account →
      r.field asset = s.history account r.blockHeight asset)
    (h : ℕ) : s.getBalance account h asset = s.history account h asset := by
  have heq := getBalance_eq_history_add hasset (SteppedAt.const_zero s.balances account)
    (fun r hr hacct => by rw [hsnap r hr hacct, add_zero]) h
  rwa [add_zero] at heq

end LedgerDbs

end VscNode
