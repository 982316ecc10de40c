import Mathlib.Data.List.Dedup
import Mathlib.Data.List.MinMax
import VscNode.Lib.Collection
import VscNode.Lib.Text

/-!
# Ledger rows, balance snapshots and actions

The three collections the ledger system reads and writes. A ledger row belongs
to one owner and one asset and moves `amount` at `blockHeight`; a balance record
is the snapshot of one account at one slot; an action is a payout the gateway or
a later slot still owes. Rows and actions are upserted by id, snapshots by
account and height. Amounts and balances are `int64` in the source; here they are
integers, and what is said of them is said of values within `-2 ^ 63` and `2 ^ 63`.

The queries below are the database reads the ledger code uses. `getLedgerRange`
returns the rows of one owner in a window of heights in height order, and
`getBalanceRecord` the latest snapshot at or below a height.
-/

namespace VscNode

open List Collection

/-- The asset column of a row. The two delegation assets are virtual balances. -/
inductive Asset
  | hive | hbd | hbdSavings | hiveConsensus | delegation | delegationTotal
  | other (name : String)
  deriving DecidableEq

/-- The type column of a row. -/
inductive LedgerType
  | deposit | transfer | withdraw | stake | unstake | consensusStake | consensusUnstake | frSync
  | safetySlashConsensus | safetySlashHiveBurn | safetySlashReserve | safetySlashHiveBurnPending
  | safetySlashHiveBurnPendingRelease | safetySlashHiveBurnPendingFinalized
  | safetySlashHiveBurnPendingCancelled | safetySlashConsensusReverse
  | safetySlashBurnFinalizeCursor | reservePayoutDebit | reservePayoutCredit | remediationCredit
  | remediationDebit
  | other (name : String)
  deriving DecidableEq

/-- Bookkeeping rows on protocol accounts, which count toward no balance. -/
def isProtocolMetaLedgerType : LedgerType → Bool
  | .safetySlashHiveBurn => true
  | .safetySlashReserve => true
  | .safetySlashHiveBurnPending => true
  | .safetySlashHiveBurnPendingRelease => true
  | .safetySlashHiveBurnPendingFinalized => true
  | .safetySlashHiveBurnPendingCancelled => true
  | .safetySlashBurnFinalizeCursor => true
  | .reservePayoutDebit => true
  | .remediationDebit => true
  | _ => false

/-- A ledger row. `from_` is free text; pending burns keep their maturity in it. -/
structure LedgerRecord where
  id : String
  amount : Int
  blockHeight : ℕ
  from_ : String := ""
  owner : String
  type : LedgerType
  asset : Asset
  txId : String := ""
  deriving DecidableEq

/-- The snapshot of one account at the end of a slot. -/
structure BalanceRecord where
  account : String
  blockHeight : ℕ
  hive : Int := 0
  hiveConsensus : Int := 0
  hbd : Int := 0
  hbdSavings : Int := 0
  hbdAvg : Int := 0
  hbdClaimHeight : ℕ := 0
  hbdModifyHeight : ℕ := 0
  deriving DecidableEq

namespace BalanceRecord

def field (r : BalanceRecord) : Asset → Int
  | .hive => r.hive
  | .hbd => r.hbd
  | .hbdSavings => r.hbdSavings
  | .hiveConsensus => r.hiveConsensus
  | _ => 0

end BalanceRecord

/-- The assets a balance record has a column for. -/
def snapshotAssets : List Asset := [.hbd, .hive, .hbdSavings, .hiveConsensus]

inductive ActionStatus
  | pending | processing | complete
  deriving DecidableEq

inductive ActionType
  | withdraw | stake | unstake | consensusUnstake
  deriving DecidableEq

/-- The extra data stored with an action. -/
structure ActionParams where
  epoch : Option ℕ := none
  from_ : Option String := none
  node : Option String := none
  deriving DecidableEq

structure ActionRecord where
  id : String
  status : ActionStatus
  amount : Int
  asset : Asset
  to_ : String
  memo : String := ""
  txId : String := ""
  type : ActionType
  params : ActionParams := {}
  blockHeight : ℕ
  deriving DecidableEq

abbrev LedgerDb := Collection LedgerRecord.id
abbrev BalanceDb := Collection fun r : BalanceRecord => (r.account, r.blockHeight)
abbrev ActionDb := Collection ActionRecord.id

/-- The stored part of the ledger state. -/
structure LedgerDbs where
  ledger : LedgerDb := Collection.empty
  balances : BalanceDb := Collection.empty
  actions : ActionDb := Collection.empty

def LedgerDbs.storeLedger (s : LedgerDbs) (rows : List LedgerRecord) : LedgerDbs :=
  { s with ledger := s.ledger.putAll rows }

variable (s : LedgerDbs)

variable (rows : List LedgerRecord)

@[simp] theorem LedgerDbs.storeLedger_ledger :
    (s.storeLedger rows).ledger = s.ledger.putAll rows := rfl

@[simp] theorem LedgerDbs.storeLedger_balances : (s.storeLedger rows).balances = s.balances := rfl

@[simp] theorem LedgerDbs.storeLedger_actions : (s.storeLedger rows).actions = s.actions := rfl

namespace LedgerDb

def getLedgerRange (db : LedgerDb) (account : String) (start stop : ℕ) (asset : Option Asset)
    (opType : List LedgerType) : List LedgerRecord :=
  (db.docs.filter fun r =>
    r.owner = account ∧ start ≤ r.blockHeight ∧ r.blockHeight ≤ stop ∧
      (∀ a ∈ asset, r.asset = a) ∧ (opType = [] ∨ r.type ∈ opType)).insertionSort
    fun r r' => r.blockHeight ≤ r'.blockHeight

def getDistinctAccountsRange (db : LedgerDb) (start stop : ℕ) : List String :=
  ((db.docs.filter fun r => start ≤ r.blockHeight ∧ r.blockHeight ≤ stop).map (·.owner)).dedup

variable {account : String} {db : LedgerDb} {start stop : ℕ}

theorem mem_getLedgerRange {asset : Option Asset} {opType : List LedgerType} {r : LedgerRecord} :
    r ∈ db.getLedgerRange account start stop asset opType ↔
      r ∈ db ∧ r.owner = account ∧ start ≤ r.blockHeight ∧ r.blockHeight ≤ stop ∧
        (∀ a ∈ asset, r.asset = a) ∧ (opType = [] ∨ r.type ∈ opType) := by
  simp [getLedgerRange, mem_docs]

theorem sum_getLedgerRange (db : LedgerDb) (account : String) (start stop : ℕ)
    (asset : Option Asset) (opType : List LedgerType) (g : LedgerRecord → Int) :
    ((db.getLedgerRange account start stop asset opType).map g).sum = db.sum fun r =>
        if r.owner = account ∧ start ≤ r.blockHeight ∧ r.blockHeight ≤ stop ∧
          (∀ a ∈ asset, r.asset = a) ∧ (opType = [] ∨ r.type ∈ opType) then g r else 0 := by
  rw [getLedgerRange, ((perm_insertionSort _ _).map g).sum_eq]
  exact db.sum_filter _ g

theorem mem_getDistinctAccountsRange : account ∈ db.getDistinctAccountsRange start stop ↔
      ∃ r ∈ db, r.owner = account ∧ start ≤ r.blockHeight ∧ r.blockHeight ≤ stop := by
  simp only [getDistinctAccountsRange, mem_dedup, mem_map, List.mem_filter,
    decide_eq_true_eq, mem_docs]
  constructor
  · rintro ⟨r, ⟨hr, h⟩, ho⟩
    exact ⟨r, hr, ho, h⟩
  · rintro ⟨r, hr, ho, h⟩
    exact ⟨r, ⟨hr, h⟩, ho⟩

end LedgerDb

namespace BalanceDb

/-- The latest snapshot of `account` at or below `blockHeight`. -/
def getBalanceRecord (db : BalanceDb) (account : String) (blockHeight : ℕ) : Option BalanceRecord :=
  (db.docs.filter fun r => r.account = account ∧ r.blockHeight ≤ blockHeight).argmax
    fun r => r.blockHeight

variable {account : String} {db : BalanceDb} {h : ℕ}

theorem getBalanceRecord_eq_none_iff : db.getBalanceRecord account h = none ↔
      ∀ r ∈ db, r.account = account → h < r.blockHeight := by
  simp [getBalanceRecord, argmax_eq_none, filter_eq_nil_iff, mem_docs]

theorem getBalanceRecord_eq_some {r : BalanceRecord} (hr : db.getBalanceRecord account h = some r) :
    r ∈ db ∧ r.account = account ∧ r.blockHeight ≤ h ∧
      ∀ r' ∈ db, r'.account = account → r'.blockHeight ≤ h → r'.blockHeight ≤ r.blockHeight := by
  have hmem := argmax_mem hr
  simp only [List.mem_filter, decide_eq_true_eq, mem_docs] at hmem
  refine ⟨hmem.1, hmem.2.1, hmem.2.2, ?_⟩
  intro r' hr' ha hh
  exact le_of_mem_argmax (List.mem_filter.2 ⟨hr', by simp [ha, hh]⟩) hr

end BalanceDb

end VscNode
