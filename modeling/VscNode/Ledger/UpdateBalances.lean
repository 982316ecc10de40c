import VscNode.Ledger.SafetySlash

/-!
# The end of a slot

At every slot change the state engine pays out matured consensus unstakes,
promotes matured slash burns, and writes a new snapshot for each account with
rows in the slot. `foldAccount` is one account's snapshot: the previous one plus
the rows past it, with the time-weighted savings average carried along.
-/

namespace VscNode

open List Collection

def frVirtualAccount : String := "system:fr_balance"

/-- What the slot change reads outside the ledger collections: the epoch of the
election in force, who is locked in, and the height of the last interest claim. -/
structure SlotEnv where
  epoch : Option ℕ
  (isBondLockedRetiringMember poaExitHalt : String → Bool)
  lastClaim : Option ℕ

namespace ActionDb

def getPendingActionsByEpoch (db : ActionDb) (epoch : ℕ) : List ActionRecord :=
  (db.docs.filter fun a => a.status = .pending ∧ a.type = .consensusUnstake ∧
    ∃ e ∈ a.params.epoch, e ≤ epoch).insertionSort fun a b =>
      a.blockHeight < b.blockHeight ∨ (a.blockHeight = b.blockHeight ∧ a.id.toList ≤ b.id.toList)

/-- Mark actions as paid. -/
def executeComplete (db : ActionDb) (ids : List String) : ActionDb :=
  db.modify (fun a => if a.id ∈ ids then { a with status := .complete } else a)
    fun a => by split <;> rfl

theorem mem_executeComplete {db : ActionDb} {ids : List String} {a : ActionRecord} :
    a ∈ db.executeComplete ids ↔
      ∃ b ∈ db, (if b.id ∈ ids then { b with status := .complete } else b) = a :=
  mem_modify

end ActionDb

variable (s : LedgerDbs) (env : SlotEnv)

/-- A matured unstake is held while its bonded account may not leave. -/
def SlotEnv.holds (a : ActionRecord) : Bool :=
  match a.params.from_ with
  | none => false
  | some f => f ≠ "" && (env.isBondLockedRetiringMember f || env.poaExitHalt f)

/-- The unstakes a slot change pays out. -/
def releasedActions (actions : ActionDb) : List ActionRecord :=
  match env.epoch with
  | none => []
  | some epoch => (actions.getPendingActionsByEpoch epoch).filter fun a => !env.holds a

def SlotEnv.due (a : ActionRecord) : Bool :=
  !env.holds a && decide (a.status = .pending ∧ a.type = .consensusUnstake ∧
    ∃ epoch ∈ env.epoch, ∃ e ∈ a.params.epoch, e ≤ epoch)

variable {a : ActionRecord} {env : SlotEnv} {actions : ActionDb}

theorem SlotEnv.pending_of_due (h : env.due a = true) :
    a.status = .pending ∧ a.type = .consensusUnstake := by
  simp only [SlotEnv.due, Bool.and_eq_true, decide_eq_true_eq] at h
  exact ⟨h.2.1, h.2.2.1⟩

theorem releasedActions_perm (env : SlotEnv) (actions : ActionDb) :
    (releasedActions env actions).Perm (actions.docs.filter env.due) := by
  rw [releasedActions]
  split
  · rename_i hepoch
    have hnone : actions.docs.filter env.due = [] := by simp [SlotEnv.due, hepoch]
    rw [hnone]
  rename_i epoch hepoch
  have hdue : env.due = fun a => !env.holds a && decide (a.status = .pending ∧
      a.type = .consensusUnstake ∧ ∃ e ∈ a.params.epoch, e ≤ epoch) := by
    funext a
    simp [SlotEnv.due, hepoch]
  rw [hdue, ActionDb.getPendingActionsByEpoch, ← filter_filter]
  exact (perm_insertionSort _ _).filter _

theorem mem_releasedActions : a ∈ releasedActions env actions ↔ a ∈ actions ∧ env.due a = true := by
  rw [(releasedActions_perm env actions).mem_iff, List.mem_filter, mem_docs]

theorem id_mem_releasedActions (ha : a ∈ actions) :
    a.id ∈ (releasedActions env actions).map (·.id) ↔ env.due a = true := by
  constructor
  · intro hid
    obtain ⟨b, hb, hba⟩ := mem_map.1 hid
    obtain ⟨hmem, hdue⟩ := mem_releasedActions.1 hb
    rwa [← eq_of_key_eq hmem ha hba]
  · exact fun hdue => mem_map_of_mem (mem_releasedActions.2 ⟨ha, hdue⟩)

section

variable (env : SlotEnv) (endBlock : ℕ)

theorem nodup_releasedActions (actions : ActionDb) :
    ((releasedActions env actions).map (·.id)).Nodup :=
  (((releasedActions_perm env actions).map _).nodup_iff).2
    (actions.nodup_keys.sublist (filter_sublist.map _))

theorem sum_releasedActions (actions : ActionDb) (g : ActionRecord → Int) :
    ((releasedActions env actions).map g).sum =
      actions.sum fun a => if env.due a = true then g a else 0 := by
  rw [((releasedActions_perm env actions).map g).sum_eq,
    ← actions.sum_filter (fun a => env.due a = true) g]
  simp

def releaseRecord (a : ActionRecord) : LedgerRecord :=
  { id := a.id ++ "#out", amount := a.amount, asset := .hive, blockHeight := endBlock
    owner := a.to_, type := .consensusUnstake }

def releaseUnstakes : LedgerDbs :=
  let due := releasedActions env s.actions
  { s with
    ledger := s.ledger.putAll (due.map (releaseRecord endBlock))
    actions := s.actions.executeComplete (due.map (·.id)) }

def slotAccounts (stBlock endBlock : ℕ) : List String :=
  let distinctAccounts := s.ledger.getDistinctAccountsRange stBlock endBlock
  if frVirtualAccount ∉ distinctAccounts ∧
      (s.balances.getBalanceRecord frVirtualAccount endBlock).isSome then
    distinctAccounts ++ [frVirtualAccount]
  else distinctAccounts

def foldAccount (lastClaim : Option ℕ) (endBlock : ℕ) (account : String) : Option BalanceRecord :=
  let prevBalRecord := s.balances.getBalanceRecord account endBlock
  let stHeight := prevBalRecord.elim 0 fun r => r.blockHeight + 1
  let ledgerUpdates := s.ledger.getLedgerRange account stHeight endBlock none []
  let prevClaim := prevBalRecord.elim 0 (·.hbdClaimHeight)
  let needsClaimUpdate := lastClaim.getD 0 ≠ prevClaim
  if ledgerUpdates = [] ∧ ¬ needsClaimUpdate then none
  else
    let ledgerBalance (asset : Asset) : Int :=
      prevBalRecord.elim 0 (·.field asset) + (ledgerUpdates.map fun v =>
        if v.asset = asset ∧ isProtocolMetaLedgerType v.type = false then v.amount else 0).sum
    let accrued : Int := prevBalRecord.elim 0 fun r =>
      r.hbdAvg + r.hbdSavings * ((endBlock : Int) - r.hbdModifyHeight)
    some
      { account := account, blockHeight := endBlock
        hive := ledgerBalance .hive, hiveConsensus := ledgerBalance .hiveConsensus
        hbd := ledgerBalance .hbd, hbdSavings := ledgerBalance .hbdSavings
        -- A new claim restarts the averaging window.
        hbdAvg := if needsClaimUpdate ∧ lastClaim.isSome then 0 else accrued
        hbdModifyHeight := endBlock
        hbdClaimHeight := if needsClaimUpdate then lastClaim.getD prevClaim else prevClaim }

/-- `startBlock` is zero only near genesis, where the first window reaches back
to height zero. -/
def updateBalances (startBlock endBlock : ℕ) : LedgerDbs :=
  let stBlock := if startBlock = 0 then 0 else (endBlock + 2 ^ 64 - 9) % 2 ^ 64
  let released := releaseUnstakes s env endBlock
  let s := { released with
    ledger := finalizeMaturedSafetySlashBurns released.ledger endBlock }
  { s with
    balances := s.balances.putAll
      ((slotAccounts s stBlock endBlock).filterMap (foldAccount s env.lastClaim endBlock)) }

/-! ## What a slot change writes -/

def slotRows : List LedgerRecord :=
  let released := releaseUnstakes s env endBlock
  (releasedActions env s.actions).map (releaseRecord endBlock) ++
    (promotedRows released.ledger endBlock).flatMap (promotionRecords endBlock)

theorem updateBalances_ledger (startBlock endBlock : ℕ) :
    ∃ cursorRows : List LedgerRecord,
      (cursorRows = [] ∨ ∃ c, cursorRows = [finalizeCursorRecord endBlock c]) ∧
      (updateBalances s env startBlock endBlock).ledger =
        s.ledger.putAll (slotRows s env endBlock ++ cursorRows) := by
  obtain ⟨cursorRows, hcur, heq⟩ :=
    finalizeMaturedSafetySlashBurns_eq (releaseUnstakes s env endBlock).ledger endBlock
  refine ⟨cursorRows, hcur, ?_⟩
  rw [updateBalances, slotRows, append_assoc, putAll_append]
  exact heq

end

theorem blockHeight_of_mem_slotRows {s : LedgerDbs} {endBlock : ℕ} {r : LedgerRecord}
    (h : r ∈ slotRows s env endBlock) : r.blockHeight = endBlock := by
  rcases mem_append.1 h with h | h
  · obtain ⟨a, -, rfl⟩ := mem_map.1 h
    rfl
  · obtain ⟨p, -, hp⟩ := mem_flatMap.1 h
    exact (isProtocolMeta_of_mem_promotionRecords hp).2

end VscNode
