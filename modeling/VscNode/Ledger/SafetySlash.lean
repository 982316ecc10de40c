import VscNode.Ledger.Balance

/-!
# Principal slashing and its undoing

A safety fault debits the `hive_consensus` bond of an account and commits the
same amount to the keyless reserve, at once or through a pending account that
holds it for a challenge window. `safetySlashConsensusBond` writes the two legs,
`finalizeMaturedSafetySlashBurns` promotes pending rows whose window has passed,
`cancelPendingSafetySlashBurn` and `reverseSafetySlashConsensusDebit` undo a
slash inside the window, and `reservePayout` is the only way out of the reserve.

Every row written here has an id built from the slashing transaction, the
evidence kind and the account, so that a repeated call rewrites the same rows.
-/

namespace VscNode

open Collection LedgerDb List Text

def protocolSlashReserveAccount : String := "system:protocol_slash_reserve"
def protocolSlashPendingBurnAccount : String := "system:protocol_slash_burn_pending"
def protocolSlashFinalizeCursorAccount : String := "system:protocol_slash_finalize_cursor"

/-- The cap on the challenge window, in blocks. -/
def maxSafetySlashBurnDelayBlocks : ℕ := 3333333

/-- The upper end of an unbounded scan; the database stores heights as `int64`. -/
def maxLedgerScanHeight : ℕ := 2 ^ 63 - 1

def maxUint64 : ℕ := 2 ^ 64 - 1

structure LedgerResult where
  ok : Bool
  msg : String
  deriving DecidableEq

/-- `hive:` accounts stay, other non-empty names get the prefix. -/
def normalizeHiveConsensusAccount (a : String) : String :=
  let a := trimSpace a
  if a = "" then "" else if hasPrefix a "hive:" then a else "hive:" ++ a

structure SafetySlashConsensusParams where
  account : String
  slashBps : Int
  txID : String
  blockHeight : ℕ
  evidenceKind : String
  burnDelayBlocks : ℕ
  deriving DecidableEq

/-! ## Row identifiers -/

def slashBaseID (txID kind : String) : String := txID ++ "#safety_slash#" ++ kind

variable (txID kind acct : String)

def slashDebitID : String :=
  slashBaseID txID kind ++ "#consensus_debit#" ++ acct
def slashReserveID : String :=
  slashBaseID txID kind ++ "#reserve#" ++ acct
def slashPendingID : String :=
  slashBaseID txID kind ++ "#hive_burn_pending#" ++ acct
def slashReverseID : String :=
  slashBaseID txID kind ++ "#consensus_reverse#" ++ acct

/-! ## Slashing -/

variable (s : LedgerDbs) (p : SafetySlashConsensusParams) (acct : String)

def slashBondRecord (blockHeight : ℕ) : Option BalanceRecord :=
  let atHeight := s.balances.getBalanceRecord acct blockHeight
  if (atHeight.elim 0 (·.hiveConsensus)) ≤ 0 ∧ 0 < blockHeight then
    s.balances.getBalanceRecord acct (blockHeight - 1)
  else
    atHeight

/-- `SlashBps/10000` of a positive bond, split so that no product overflows and
capped at the bond. -/
def slashAmount (bond slashBps : Int) : Int :=
  min (bond / 10000 * slashBps + bond % 10000 * slashBps / 10000) bond

variable (amt : Int)

def slashDebitRecord : LedgerRecord :=
  { id := slashDebitID p.txID p.evidenceKind acct, txId := p.txID, blockHeight := p.blockHeight
    amount := -amt, asset := .hiveConsensus, owner := acct, type := .safetySlashConsensus }

def slashReserveRecord : LedgerRecord :=
  { id := slashReserveID p.txID p.evidenceKind acct, txId := p.txID, blockHeight := p.blockHeight
    amount := amt, asset := .hive, owner := protocolSlashReserveAccount
    type := .safetySlashReserve }

def slashPendingRecord (maturity : ℕ) : LedgerRecord :=
  { id := slashPendingID p.txID p.evidenceKind acct, txId := p.txID, blockHeight := p.blockHeight
    amount := amt, asset := .hive, owner := protocolSlashPendingBurnAccount
    from_ := formatUint maturity, type := .safetySlashHiveBurnPending }

/-- The two legs of a slash of `amt`; nothing where the maturity overflows. -/
def slashRecords : Option (List LedgerRecord) :=
  if amt ≤ 0 then some [slashDebitRecord p acct amt]
  else if p.burnDelayBlocks = 0 then
    some [slashDebitRecord p acct amt, slashReserveRecord p acct amt]
  else
    let maturity := (p.blockHeight + min p.burnDelayBlocks maxSafetySlashBurnDelayBlocks) % 2 ^ 64
    if maturity < p.blockHeight then none
    else some [slashDebitRecord p acct amt, slashPendingRecord p acct amt maturity]

def rowAt (db : LedgerDb) (owner : String) (height : ℕ) (asset : Asset) (id : String) :
    Option LedgerRecord :=
  (db.getLedgerRange owner height height (some asset) []).find? fun r => r.id = id

def storeSlash : LedgerDbs × LedgerResult :=
  match slashRecords p acct amt with
  | none => (s, ⟨false, "slash burn maturity overflow"⟩)
  | some records => (s.storeLedger records, ⟨true, "success"⟩)

def computeSlash : LedgerDbs × LedgerResult :=
  let bond := (slashBondRecord s acct p.blockHeight).elim 0 (·.hiveConsensus)
  if bond ≤ 0 then (s, ⟨false, "zero consensus bond"⟩)
  else if slashAmount bond p.slashBps ≤ 0 then (s, ⟨false, "slash rounds to zero"⟩)
  else storeSlash s p acct (slashAmount bond p.slashBps)

def slashCompanionRow (db : LedgerDb) (p : SafetySlashConsensusParams) (acct : String) :
    Option LedgerRecord :=
  if p.burnDelayBlocks = 0 then
    rowAt db protocolSlashReserveAccount p.blockHeight .hive
      (slashReserveID p.txID p.evidenceKind acct)
  else
    rowAt db protocolSlashPendingBurnAccount p.blockHeight .hive
      (slashPendingID p.txID p.evidenceKind acct)

def safetySlashConsensusBond : LedgerDbs × LedgerResult :=
  let acct := normalizeHiveConsensusAccount p.account
  if acct = "" ∨ trimSpace p.txID = "" ∨ trimSpace p.evidenceKind = "" then
    (s, ⟨false, "invalid safety slash params"⟩)
  else if p.slashBps ≤ 0 ∨ 10000 < p.slashBps then (s, ⟨false, "invalid slash bps"⟩)
  else
    match rowAt s.ledger acct p.blockHeight .hiveConsensus
        (slashDebitID p.txID p.evidenceKind acct) with
    | none => computeSlash s p acct
    | some debit =>
      if (slashCompanionRow s.ledger p acct).isSome then
        (s, ⟨true, "safety slash already recorded"⟩)
      else if 0 < -debit.amount then storeSlash s p acct (-debit.amount)
      else computeSlash s p acct

/-! ## What a slash does -/

variable {db : LedgerDb} {id acct : String} {r : LedgerRecord} {p : SafetySlashConsensusParams}
  {asset : Asset} {height : ℕ} {owner : String} {amt : Int} {s : LedgerDbs} {blockHeight : ℕ}
  {type : LedgerType}

theorem rowAt_eq_some (h : rowAt db owner height asset id = some r) :
    r ∈ db ∧ r.owner = owner ∧ r.blockHeight = height ∧ r.asset = asset ∧ r.id = id := by
  obtain ⟨hdb, howner, hlo, hhi, hasset, -⟩ :=
    mem_getLedgerRange.1 (mem_of_find?_eq_some h)
  exact ⟨hdb, howner, le_antisymm hhi hlo, hasset asset rfl, by simpa using find?_some h⟩

theorem rowAt_eq_none (h : rowAt db owner height asset id = none) (hr : r ∈ db)
    (howner : r.owner = owner) (hheight : r.blockHeight = height) (hasset : r.asset = asset) :
    r.id ≠ id := by
  have hmem : r ∈ db.getLedgerRange owner height height (some asset) [] :=
    mem_getLedgerRange.2 ⟨hr, howner, hheight.ge, hheight.le, by simp [hasset], .inl rfl⟩
  simpa using find?_eq_none.1 h r hmem

theorem rowAt_of_mem (hr : r ∈ db) :
    rowAt db r.owner r.blockHeight r.asset r.id = some r := by
  cases h : rowAt db r.owner r.blockHeight r.asset r.id with
  | none => exact absurd rfl (rowAt_eq_none h hr rfl rfl rfl)
  | some r' =>
    obtain ⟨hr', -, -, -, hid⟩ := rowAt_eq_some h
    rw [eq_of_key_eq hr' hr hid]

/-- The second leg of a slash of a positive amount. -/
inductive SlashCompanion (p : SafetySlashConsensusParams) (acct : String) (amt : Int) :
    LedgerRecord → Prop
  | reserve (hdelay : p.burnDelayBlocks = 0) :
      SlashCompanion p acct amt (slashReserveRecord p acct amt)
  | pending (maturity : ℕ) (hdelay : p.burnDelayBlocks ≠ 0) (hle : p.blockHeight ≤ maturity)
      (hmaturity : maturity =
        (p.blockHeight + min p.burnDelayBlocks maxSafetySlashBurnDelayBlocks) % 2 ^ 64) :
      SlashCompanion p acct amt (slashPendingRecord p acct amt maturity)

theorem slashRecords_eq_some {records : List LedgerRecord} (hamt : 0 < amt)
    (h : slashRecords p acct amt = some records) :
    ∃ companion, SlashCompanion p acct amt companion ∧
      records = [slashDebitRecord p acct amt, companion] := by
  rw [slashRecords, if_neg (not_le.2 hamt)] at h
  split at h
  · rename_i hdelay
    exact ⟨_, .reserve hdelay, (Option.some.inj h).symm⟩
  rename_i hdelay
  dsimp only at h
  split at h
  · cases h
  · rename_i hlt
    exact ⟨_, .pending _ hdelay (not_lt.1 hlt) rfl, (Option.some.inj h).symm⟩

inductive SlashTakes (s : LedgerDbs) (p : SafetySlashConsensusParams) (acct : String) : Int → Prop
  | recorded (debit : LedgerRecord)
      (hdebit : rowAt s.ledger acct p.blockHeight .hiveConsensus
        (slashDebitID p.txID p.evidenceKind acct) = some debit) :
      SlashTakes s p acct (-debit.amount)
  | computed
      (hnone : ∀ debit, rowAt s.ledger acct p.blockHeight .hiveConsensus
        (slashDebitID p.txID p.evidenceKind acct) = some debit → 0 ≤ debit.amount)
      (hbond : 0 < (slashBondRecord s acct p.blockHeight).elim 0 (·.hiveConsensus)) :
      SlashTakes s p acct (slashAmount
        ((slashBondRecord s acct p.blockHeight).elim 0 (·.hiveConsensus)) p.slashBps)

/-- What a slash call comes to: it is refused, finds itself recorded, or writes
both legs of one amount. -/
inductive SlashOutcome (s : LedgerDbs) (p : SafetySlashConsensusParams) (acct : String) :
    LedgerDbs × LedgerResult → Prop
  | refused (msg : String) : SlashOutcome s p acct (s, ⟨false, msg⟩)
  | replayed (msg : String) (debit : LedgerRecord)
      (hdebit : rowAt s.ledger acct p.blockHeight .hiveConsensus
        (slashDebitID p.txID p.evidenceKind acct) = some debit) :
      SlashOutcome s p acct (s, ⟨true, msg⟩)
  | written (msg : String) (amt : Int) (companion : LedgerRecord) (hacct : acct ≠ "")
      (hpos : 0 < p.slashBps) (hle : p.slashBps ≤ 10000) (hamt : 0 < amt)
      (htakes : SlashTakes s p acct amt) (hcompanion : SlashCompanion p acct amt companion) :
      SlashOutcome s p acct
        (s.storeLedger [slashDebitRecord p acct amt, companion], ⟨true, msg⟩)

section

variable (s : LedgerDbs) (p : SafetySlashConsensusParams)

/-- The rows of the slash of an account whose debit is not recorded yet. -/
def computeSlashWrites (acct : String) : List LedgerRecord :=
  let bond := (slashBondRecord s acct p.blockHeight).elim 0 (·.hiveConsensus)
  if bond ≤ 0 then []
  else if slashAmount bond p.slashBps ≤ 0 then []
  else (slashRecords p acct (slashAmount bond p.slashBps)).getD []

def slashWrites : List LedgerRecord :=
  let acct := normalizeHiveConsensusAccount p.account
  if acct = "" ∨ trimSpace p.txID = "" ∨ trimSpace p.evidenceKind = "" then []
  else if p.slashBps ≤ 0 ∨ 10000 < p.slashBps then []
  else
    match rowAt s.ledger acct p.blockHeight .hiveConsensus
        (slashDebitID p.txID p.evidenceKind acct) with
    | none => computeSlashWrites s p acct
    | some debit =>
      if (slashCompanionRow s.ledger p acct).isSome then []
      else if 0 < -debit.amount then (slashRecords p acct (-debit.amount)).getD []
      else computeSlashWrites s p acct

def SlashLegs (acct : String) (rows : List LedgerRecord) : Prop :=
  rows = [] ∨ ∃ amt companion, 0 < amt ∧ SlashTakes s p acct amt ∧
    SlashCompanion p acct amt companion ∧ slashRecords p acct amt = some rows ∧
    rows = [slashDebitRecord p acct amt, companion]

def SlashDoes (acct : String) (res : LedgerDbs × LedgerResult) (rows : List LedgerRecord) : Prop :=
  SlashOutcome s p acct res ∧ res.1 = s.storeLedger rows ∧ SlashLegs s p acct rows

end

theorem slashDoes_refused (msg : String) : SlashDoes s p acct (s, ⟨false, msg⟩) [] :=
  ⟨.refused msg, rfl, .inl rfl⟩

theorem storeSlash_does (hacct : acct ≠ "") (hpos : 0 < p.slashBps) (hle : p.slashBps ≤ 10000)
    (hamt : 0 < amt) (htakes : SlashTakes s p acct amt) :
    SlashDoes s p acct (storeSlash s p acct amt) ((slashRecords p acct amt).getD []) := by
  rw [storeSlash]
  cases hrec : slashRecords p acct amt with
  | none => exact slashDoes_refused _
  | some records =>
    obtain ⟨companion, hcomp, rfl⟩ := slashRecords_eq_some hamt hrec
    exact ⟨.written _ amt companion hacct hpos hle hamt htakes hcomp, rfl,
      .inr ⟨amt, companion, hamt, htakes, hcomp, hrec, rfl⟩⟩

section

variable (s : LedgerDbs) (p : SafetySlashConsensusParams)

theorem safetySlashConsensusBond_does :
    SlashDoes s p (normalizeHiveConsensusAccount p.account) (safetySlashConsensusBond s p)
      (slashWrites s p) := by
  rw [safetySlashConsensusBond, slashWrites]
  generalize normalizeHiveConsensusAccount p.account = acct
  split
  · exact slashDoes_refused _
  rename_i hparams
  have hacct : acct ≠ "" := fun h => hparams (.inl h)
  split
  · exact slashDoes_refused _
  rename_i hbps
  have hpos : 0 < p.slashBps := by omega
  have hle : p.slashBps ≤ 10000 := by omega
  have hcompute : (∀ debit, rowAt s.ledger acct p.blockHeight .hiveConsensus
        (slashDebitID p.txID p.evidenceKind acct) = some debit → 0 ≤ debit.amount) →
      SlashDoes s p acct (computeSlash s p acct) (computeSlashWrites s p acct) := by
    intro hnone
    simp only [computeSlash, computeSlashWrites]
    split
    · exact slashDoes_refused _
    rename_i hbond
    split
    · exact slashDoes_refused _
    · rename_i hamt
      exact storeSlash_does hacct hpos hle (not_le.1 hamt) (.computed hnone (not_le.1 hbond))
  cases hrow : rowAt s.ledger acct p.blockHeight .hiveConsensus
      (slashDebitID p.txID p.evidenceKind acct) with
  | none => exact hcompute fun debit h => by rw [hrow] at h; cases h
  | some debit =>
    dsimp only
    split
    · exact ⟨.replayed _ debit hrow, rfl, .inl rfl⟩
    split
    · rename_i hneg
      exact storeSlash_does hacct hpos hle hneg (.recorded debit hrow)
    rename_i hneg
    refine hcompute fun d h => ?_
    rw [hrow] at h
    cases h
    omega

theorem safetySlashConsensusBond_outcome :
    SlashOutcome s p (normalizeHiveConsensusAccount p.account) (safetySlashConsensusBond s p) :=
  (safetySlashConsensusBond_does s p).1

theorem safetySlashConsensusBond_eq :
    (safetySlashConsensusBond s p).1 = s.storeLedger (slashWrites s p) :=
  (safetySlashConsensusBond_does s p).2.1

end

theorem slashWrites_cases (hacct : normalizeHiveConsensusAccount p.account = acct) :
    SlashLegs s p acct (slashWrites s p) :=
  hacct ▸ (safetySlashConsensusBond_does s p).2.2

/-! ## Promotion of matured pending burns -/

def readSafetySlashFinalizeCursor (db : LedgerDb) : ℕ :=
  ((db.getLedgerRange protocolSlashFinalizeCursorAccount 0 maxLedgerScanHeight (some .hive)
      [.safetySlashBurnFinalizeCursor]).foldl (fun latest r =>
    if r.blockHeight < latest.1 then latest
    else
      match parseUint (trimSpace r.from_) with
      | none => latest
      | some c => (r.blockHeight, c)) (0, 0)).2

def safetySlashFinalizeCursorRowID : String := "safety_slash_burn_finalize_cursor"

def finalizeCursorRecord (blockHeight scanFrom : ℕ) : LedgerRecord :=
  { id := safetySlashFinalizeCursorRowID, blockHeight := blockHeight, amount := 0, asset := .hive
    owner := protocolSlashFinalizeCursorAccount, from_ := formatUint scanFrom
    type := .safetySlashBurnFinalizeCursor }

section

variable (blockHeight : ℕ) (r : LedgerRecord)

def pendingReleaseRecord : LedgerRecord :=
  { id := r.id ++ "#pending_release", txId := r.txId, blockHeight := blockHeight
    amount := -r.amount, asset := .hive, owner := protocolSlashPendingBurnAccount
    from_ := r.from_, type := .safetySlashHiveBurnPendingRelease }

def promotedReserveRecord : LedgerRecord :=
  { id := r.id ++ "#promoted_to_reserve", txId := r.txId, blockHeight := blockHeight
    amount := r.amount, asset := .hive, owner := protocolSlashReserveAccount
    type := .safetySlashReserve }

def finalizedMarkerRecord : LedgerRecord :=
  { id := r.id ++ "#finalized_marker", txId := r.txId, blockHeight := blockHeight
    amount := 0, asset := .hive, owner := protocolSlashPendingBurnAccount
    from_ := r.from_, type := .safetySlashHiveBurnPendingFinalized }

end

section

variable (blockHeight : ℕ) (r : LedgerRecord)

@[simp] theorem pendingReleaseRecord_id :
    (pendingReleaseRecord blockHeight r).id = r.id ++ "#pending_release" := rfl

@[simp] theorem promotedReserveRecord_id :
    (promotedReserveRecord blockHeight r).id = r.id ++ "#promoted_to_reserve" := rfl

@[simp] theorem finalizedMarkerRecord_id :
    (finalizedMarkerRecord blockHeight r).id = r.id ++ "#finalized_marker" := rfl

end

def promotionRecords (blockHeight : ℕ) (r : LedgerRecord) : List LedgerRecord :=
  [pendingReleaseRecord blockHeight r, promotedReserveRecord blockHeight r,
    finalizedMarkerRecord blockHeight r]

/-- One pending row of the scan: skipped, kept for a later call, or promoted. The
second component is the lowest height of a row that was kept. -/
def finalizePendingRow (blockHeight : ℕ) (done : List String) (acc : LedgerDb × ℕ)
    (r : LedgerRecord) : LedgerDb × ℕ :=
  if r.amount ≤ 0 then acc
  else if r.id ∈ done then acc
  else
    match parseUint (trimSpace r.from_) with
    | none => acc
    | some maturity =>
      if blockHeight < maturity then (acc.1, min acc.2 r.blockHeight)
      else (acc.1.putAll (promotionRecords blockHeight r), acc.2)

/-- The pending ids that a marker of the scan window declares done. -/
def finalizedIDs (markers : List LedgerRecord) : List String :=
  (markers.filter fun m => hasSuffix m.id "#finalized_marker").map fun m =>
    trimSuffix m.id "#finalized_marker"

/-- Where the next scan starts: past this call, or at the lowest row it kept. -/
def nextFinalizeCursor (blockHeight : ℕ) (pendingRecs : List LedgerRecord) (minUnfinalized : ℕ) :
    ℕ :=
  if pendingRecs = [] ∨ minUnfinalized = maxUint64 then blockHeight + 1 else minUnfinalized

def finalizeMaturedSafetySlashBurns (db : LedgerDb) (blockHeight : ℕ) : LedgerDb :=
  let cursor := readSafetySlashFinalizeCursor db
  if blockHeight = 0 ∨ blockHeight < cursor then db
  else
    let pendingRecs := db.getLedgerRange protocolSlashPendingBurnAccount cursor blockHeight
      (some .hive) [.safetySlashHiveBurnPending]
    let finalizedRecs := db.getLedgerRange protocolSlashPendingBurnAccount cursor blockHeight
      (some .hive) [.safetySlashHiveBurnPendingFinalized]
    let scan := pendingRecs.foldl (finalizePendingRow blockHeight (finalizedIDs finalizedRecs))
      (db, maxUint64)
    let newCursor := nextFinalizeCursor blockHeight pendingRecs scan.2
    if cursor < newCursor then scan.1.put (finalizeCursorRecord blockHeight newCursor) else scan.1

/-! ## Cancelling and reversing -/

def safetySlashBaseID (txID kind : String) : String := slashBaseID (trimSpace txID) (trimSpace kind)

structure CancelPendingSafetySlashBurnParams where
  (txID evidenceKind slashedAccount : String)
  blockHeight : ℕ
  deriving DecidableEq

section

variable (blockHeight : ℕ) (r : LedgerRecord)

def cancelReleaseRecord : LedgerRecord :=
  { id := r.id ++ "#cancel_release", txId := r.txId, blockHeight := blockHeight
    amount := -r.amount, asset := .hive, owner := protocolSlashPendingBurnAccount
    from_ := r.from_, type := .safetySlashHiveBurnPendingRelease }

def cancelledMarkerRecord : LedgerRecord :=
  { id := r.id ++ "#cancelled_marker", txId := r.txId, blockHeight := blockHeight
    amount := 0, asset := .hive, owner := protocolSlashPendingBurnAccount
    from_ := r.from_, type := .safetySlashHiveBurnPendingCancelled }

/-- The rows that release one pending row without promoting it. -/
def cancelRecords : List LedgerRecord :=
  [cancelReleaseRecord blockHeight r, finalizedMarkerRecord blockHeight r,
    cancelledMarkerRecord blockHeight r]

end

variable (db)

def pendingRow (blockHeight : ℕ) (type : LedgerType) (id : String) : Option LedgerRecord :=
  (db.getLedgerRange protocolSlashPendingBurnAccount 0 blockHeight (some .hive) [type]).find?
    fun r => r.id = id

def cancelPendingSafetySlashBurn (p : CancelPendingSafetySlashBurnParams) :
    LedgerDb × LedgerResult :=
  let slashedAcct := normalizeHiveConsensusAccount p.slashedAccount
  if trimSpace p.txID = "" ∨ trimSpace p.evidenceKind = "" then
    (db, ⟨false, "invalid cancel params"⟩)
  else if slashedAcct = "" then (db, ⟨false, "invalid slashed account"⟩)
  else
    let pendingID := safetySlashBaseID p.txID p.evidenceKind ++ "#hive_burn_pending#" ++ slashedAcct
    match pendingRow db p.blockHeight .safetySlashHiveBurnPending pendingID with
    | none => (db, ⟨false, "pending burn row not found"⟩)
    | some r =>
      if (pendingRow db p.blockHeight .safetySlashHiveBurnPendingCancelled
          (pendingID ++ "#cancelled_marker")).isSome then
        (db, ⟨true, "already cancelled"⟩)
      else if (pendingRow db p.blockHeight .safetySlashHiveBurnPendingFinalized
          (pendingID ++ "#finalized_marker")).isSome then
        (db, ⟨false, "pending burn already finalized"⟩)
      else (db.putAll (cancelRecords p.blockHeight r), ⟨true, "cancelled"⟩)

structure ReverseSafetySlashConsensusDebitParams where
  (txID evidenceKind account : String)
  amount : Int
  blockHeight : ℕ
  opInstanceID : String
  deriving DecidableEq

def reverseSafetySlashConsensusDebit (p : ReverseSafetySlashConsensusDebitParams) :
    LedgerDb × LedgerResult :=
  let acct := normalizeHiveConsensusAccount p.account
  if acct = "" ∨ trimSpace p.txID = "" ∨ trimSpace p.evidenceKind = "" then
    (db, ⟨false, "invalid reverse params"⟩)
  else if p.amount ≤ 0 then (db, ⟨false, "reverse amount must be positive"⟩)
  else
    let base := safetySlashBaseID p.txID p.evidenceKind ++ "#consensus_reverse#" ++ acct
    let id := if trimSpace p.opInstanceID = "" then base else base ++ "#" ++ trimSpace p.opInstanceID
    (db.put
      { id := id, txId := trimSpace p.txID, blockHeight := p.blockHeight, amount := p.amount
        asset := .hiveConsensus, owner := acct, type := .safetySlashConsensusReverse },
      ⟨true, "reverse credit recorded"⟩)

inductive SafetySlashReverseAction
  | cancel | reverse | both
  | other (text : String)
  deriving DecidableEq

structure SafetySlashReverseRecord where
  (slashTxID evidenceKind slashedAccount : String)
  action : SafetySlashReverseAction
  amount : Int
  deriving DecidableEq

def SafetySlashReverseRecord.normalize (r : SafetySlashReverseRecord) : SafetySlashReverseRecord :=
  { r with
    slashTxID := trimSpace r.slashTxID
    evidenceKind := trimSpace r.evidenceKind
    slashedAccount := normalizeHiveConsensusAccount r.slashedAccount }

variable (slashTxID evidenceKind slashedAccount : String)

def findSafetySlashConsensusRow : Option LedgerRecord :=
  let owner := normalizeHiveConsensusAccount slashedAccount
  (db.getLedgerRange owner 0 maxLedgerScanHeight (some .hiveConsensus) [.safetySlashConsensus]).find?
    fun r => r.id = slashDebitID slashTxID evidenceKind owner

/-- The sum of the rows of a read whose ids start with a text. -/
def sumWithPrefix (rows : List LedgerRecord) ( pre : String) : Int :=
  (rows.map fun r => if hasPrefix r.id pre then r.amount else 0).sum

def alreadyFinalizedToReserveAmt (slashTxID evidenceKind : String) : Int :=
  sumWithPrefix (db.getLedgerRange protocolSlashReserveAccount 0 maxLedgerScanHeight (some .hive)
    [.safetySlashReserve]) (slashBaseID slashTxID evidenceKind ++ "#")

def uncancelledPendingResidualAmt (slashTxID evidenceKind : String) : Int :=
  max 0 (sumWithPrefix (db.getLedgerRange protocolSlashPendingBurnAccount 0 maxLedgerScanHeight
    (some .hive) [.safetySlashHiveBurnPending, .safetySlashHiveBurnPendingRelease])
    (slashBaseID slashTxID evidenceKind ++ "#"))

def alreadyReversedConsensusAmt : Int :=
  sumWithPrefix (db.getLedgerRange (normalizeHiveConsensusAccount slashedAccount) 0
    maxLedgerScanHeight (some .hiveConsensus) [.safetySlashConsensusReverse])
    (slashBaseID slashTxID evidenceKind ++ "#consensus_reverse#")

def applyReverseCredit (r : SafetySlashReverseRecord) (slashAmt : Int) (carryingTxID : String)
    (blockHeight : ℕ) : LedgerDb :=
  if r.amount ≤ 0 then db
  else
    let alreadyReversed :=
      alreadyReversedConsensusAmt db r.slashTxID r.evidenceKind r.slashedAccount
    let committedToReserve := alreadyFinalizedToReserveAmt db r.slashTxID r.evidenceKind +
      uncancelledPendingResidualAmt db r.slashTxID r.evidenceKind
    let headroom := slashAmt - alreadyReversed - committedToReserve
    if headroom ≤ 0 then db
    else
      (reverseSafetySlashConsensusDebit db
        { txID := r.slashTxID, evidenceKind := r.evidenceKind, account := r.slashedAccount
          amount := min r.amount headroom, blockHeight := blockHeight
          opInstanceID := carryingTxID }).1

def applySafetySlashReverse (rec : SafetySlashReverseRecord) (carryingTxID : String)
    (blockHeight : ℕ) : LedgerDb :=
  let r := rec.normalize
  if r.slashTxID = "" ∨ r.evidenceKind = "" ∨ r.slashedAccount = "" then db
  else
    match r.action with
    | .other _ => db
    | action =>
      match findSafetySlashConsensusRow db r.slashTxID r.evidenceKind r.slashedAccount with
      | none => db
      | some slashRow =>
        let slashAmt := -slashRow.amount
        if slashAmt ≤ 0 then db
        else
          let cancelled :=
            if action = .reverse then db
            else
              (cancelPendingSafetySlashBurn db
                { txID := r.slashTxID, evidenceKind := r.evidenceKind
                  slashedAccount := r.slashedAccount, blockHeight := blockHeight }).1
          if action = .cancel then cancelled
          else applyReverseCredit cancelled r slashAmt carryingTxID blockHeight

variable {db}

/-! ## Votes to restore a bond -/

/-- One pending row of a slash in the search for its maturity: the row with the
smallest id decides. -/
def maturityStep ( pre : String) (best : Option (String × ℕ)) (r : LedgerRecord) :
    Option (String × ℕ) :=
  if hasPrefix r.id pre = false then best
  else
    match parseUint (trimSpace r.from_) with
    | none => best
    | some m =>
      match best with
      | none => some (r.id, m)
      | some (bestID, bestMaturity) =>
        if r.id < bestID then some (r.id, m) else some (bestID, bestMaturity)

def slashPendingMaturity (db : LedgerDb) (slashTxID evidenceKind : String) : ℕ :=
  ((db.getLedgerRange protocolSlashPendingBurnAccount 0 maxLedgerScanHeight (some .hive)
    [.safetySlashHiveBurnPending]).foldl
      (maturityStep (slashTxID ++ "#safety_slash#" ++ evidenceKind ++ "#")) none).elim 0 (·.2)

/-- The height at which a proposal closes; a maturity of `0` is no cap. -/
def effectiveExpiry (creationBlock expiryBlocks maturity : ℕ) : ℕ :=
  let exp := (creationBlock + expiryBlocks) % 2 ^ 64
  if maturity ≠ 0 ∧ maturity < exp then maturity else exp

def isExpired (currentBlock creationBlock expiryBlocks maturity : ℕ) : Bool :=
  effectiveExpiry creationBlock expiryBlocks maturity ≤ currentBlock

/-! ## Payouts from the reserve -/

structure ReservePayoutParams where
  (proposalID recipient : String)
  amount : Int
  blockHeight : ℕ
  deriving DecidableEq

def reserveAvailable (db : LedgerDb) (excludeDebitID : String) : Int :=
  ((db.getLedgerRange protocolSlashReserveAccount 0 maxLedgerScanHeight (some .hive)
    [.safetySlashReserve, .reservePayoutDebit]).map fun r =>
      if r.id = excludeDebitID then 0 else r.amount).sum

def reservePayoutDebit (p : ReservePayoutParams) : LedgerRecord :=
  { id := trimSpace p.proposalID ++ "#reserve_payout#debit", txId := trimSpace p.proposalID
    blockHeight := p.blockHeight, amount := -p.amount, asset := .hive
    owner := protocolSlashReserveAccount, type := .reservePayoutDebit }

def reservePayoutCredit (p : ReservePayoutParams) : LedgerRecord :=
  { id := trimSpace p.proposalID ++ "#reserve_payout#credit#" ++
      normalizeHiveConsensusAccount p.recipient
    txId := trimSpace p.proposalID, blockHeight := p.blockHeight, amount := p.amount
    asset := .hive, owner := normalizeHiveConsensusAccount p.recipient
    type := .reservePayoutCredit }

variable (p : ReservePayoutParams)

@[simp] theorem reservePayoutDebit_id :
    (reservePayoutDebit p).id = trimSpace p.proposalID ++ "#reserve_payout#debit" := rfl

@[simp] theorem reservePayoutCredit_id :
    (reservePayoutCredit p).id = trimSpace p.proposalID ++ "#reserve_payout#credit#" ++
      normalizeHiveConsensusAccount p.recipient := rfl

section

variable (db : LedgerDb) (p : ReservePayoutParams)

def reservePayout : LedgerDb × LedgerResult :=
  let proposalID := trimSpace p.proposalID
  if proposalID = "" ∨ normalizeHiveConsensusAccount p.recipient = "" then
    (db, ⟨false, "invalid reserve payout params"⟩)
  else if p.amount ≤ 0 then (db, ⟨false, "reserve payout amount must be positive"⟩)
  else
    let available := reserveAvailable db (proposalID ++ "#reserve_payout#debit")
    if available ≤ 0 then (db, ⟨false, "reserve has no available balance"⟩)
    else if available < p.amount then (db, ⟨false, "reserve payout exceeds available balance"⟩)
    else (db.putAll [reservePayoutDebit p, reservePayoutCredit p], ⟨true, "reserve payout recorded"⟩)

/-- The rows a payout stores. -/
def payoutWrites : List LedgerRecord :=
  if (reservePayout db p).2.ok then [reservePayoutDebit p, reservePayoutCredit p] else []

theorem reservePayout_eq : (reservePayout db p).1 = db.putAll (payoutWrites db p) := by
  simp only [payoutWrites, reservePayout]
  iterate 3
    split
    · rfl
  · split <;> rfl

end

theorem payoutWrites_cases (db : LedgerDb) (p : ReservePayoutParams) : payoutWrites db p = [] ∨
      payoutWrites db p = [reservePayoutDebit p, reservePayoutCredit p] ∧ 0 < p.amount ∧
        trimSpace p.proposalID ≠ "" ∧ normalizeHiveConsensusAccount p.recipient ≠ "" ∧
        p.amount ≤ reserveAvailable db (trimSpace p.proposalID ++ "#reserve_payout#debit") := by
  simp only [payoutWrites, reservePayout]
  split
  · exact .inl rfl
  rename_i hparams
  rw [not_or] at hparams
  iterate 3
    split
    · exact .inl rfl
  · exact .inr ⟨rfl, by omega, hparams.1, hparams.2, by omega⟩

/-! ## What a reverse record does -/

theorem pendingRow_eq_some (h : pendingRow db blockHeight type id = some r) :
    r ∈ db ∧ r.blockHeight ≤ blockHeight ∧ r.type = type ∧ r.id = id := by
  obtain ⟨hdb, -, -, hhi, -, htype⟩ :=
    mem_getLedgerRange.1 (mem_of_find?_eq_some h)
  exact ⟨hdb, hhi, by simpa using htype, by simpa using find?_some h⟩

theorem pendingRow_eq_none (h : pendingRow db blockHeight type id = none) (hr : r ∈ db)
    (howner : r.owner = protocolSlashPendingBurnAccount) (hheight : r.blockHeight ≤ blockHeight)
    (hasset : r.asset = .hive) (htype : r.type = type) : r.id ≠ id := by
  have hmem : r ∈ db.getLedgerRange protocolSlashPendingBurnAccount 0 blockHeight (some .hive)
      [type] :=
    mem_getLedgerRange.2
      ⟨hr, howner, Nat.zero_le _, hheight, by simp [hasset], by simp [htype]⟩
  simpa using find?_eq_none.1 h r hmem

theorem applySafetySlashReverse_cases (db : LedgerDb) (proposal : SafetySlashReverseRecord)
    (carryingTxID : String) (blockHeight : ℕ) :
    applySafetySlashReverse db proposal carryingTxID blockHeight = db ∨
      ∃ slashRow db', findSafetySlashConsensusRow db proposal.normalize.slashTxID
            proposal.normalize.evidenceKind proposal.normalize.slashedAccount = some slashRow ∧
          (db' = db ∨ db' = (cancelPendingSafetySlashBurn db
            { txID := proposal.normalize.slashTxID, evidenceKind := proposal.normalize.evidenceKind
              slashedAccount := proposal.normalize.slashedAccount
              blockHeight := blockHeight }).1) ∧
          (applySafetySlashReverse db proposal carryingTxID blockHeight = db' ∨
            applySafetySlashReverse db proposal carryingTxID blockHeight =
              applyReverseCredit db' proposal.normalize (-slashRow.amount) carryingTxID
                blockHeight) := by
  simp only [applySafetySlashReverse]
  generalize proposal.normalize = r
  iterate 3
    split
    · exact .inl rfl
  rename_i slashRow hrow
  split
  · exact .inl rfl
  by_cases hreverse : r.action = .reverse
  · rw [if_pos hreverse]
    exact .inr ⟨slashRow, db, hrow, .inl rfl, ite_eq_or_eq _ _ _⟩
  · rw [if_neg hreverse]
    exact .inr ⟨slashRow, _, hrow, .inr rfl, ite_eq_or_eq _ _ _⟩

section

variable (db : LedgerDb) (blockHeight : ℕ) (done : List String)

theorem applyReverseCredit_cases (r : SafetySlashReverseRecord) (slashAmt : Int)
    (carryingTxID : String) (blockHeight : ℕ) :
    applyReverseCredit db r slashAmt carryingTxID blockHeight = db ∨
      ∃ x : LedgerRecord,
        applyReverseCredit db r slashAmt carryingTxID blockHeight = db.put x ∧ 0 < x.amount ∧
        x.amount ≤ slashAmt -
          alreadyReversedConsensusAmt db r.slashTxID r.evidenceKind r.slashedAccount -
          (alreadyFinalizedToReserveAmt db r.slashTxID r.evidenceKind +
            uncancelledPendingResidualAmt db r.slashTxID r.evidenceKind) ∧
        x.id = (if trimSpace carryingTxID = "" then
            slashReverseID (trimSpace r.slashTxID) (trimSpace r.evidenceKind)
              (normalizeHiveConsensusAccount r.slashedAccount)
          else slashReverseID (trimSpace r.slashTxID) (trimSpace r.evidenceKind)
              (normalizeHiveConsensusAccount r.slashedAccount) ++ "#" ++
            trimSpace carryingTxID) ∧
        x.blockHeight = blockHeight ∧ x.asset = .hiveConsensus ∧
        x.owner = normalizeHiveConsensusAccount r.slashedAccount ∧
        x.type = .safetySlashConsensusReverse := by
  simp only [applyReverseCredit]
  split
  · exact .inl rfl
  split
  · exact .inl rfl
  simp only [reverseSafetySlashConsensusDebit]
  split
  · exact .inl rfl
  split
  · exact .inl rfl
  refine .inr ⟨_, rfl, ?_⟩
  dsimp only [safetySlashBaseID, slashReverseID]
  exact ⟨by omega, min_le_right _ _, rfl, rfl, rfl, rfl, rfl⟩

/-! ## The rows a finalization writes -/

/-- Whether a scanned pending row is promoted by a call at `blockHeight`. -/
def promotable (r : LedgerRecord) : Bool :=
  0 < r.amount && !(done.contains r.id) &&
    (parseUint (trimSpace r.from_)).any fun maturity => maturity ≤ blockHeight

/-- Whether a scanned pending row is kept for a later call. -/
def keptForLater (r : LedgerRecord) : Bool :=
  0 < r.amount && !(done.contains r.id) &&
    (parseUint (trimSpace r.from_)).any fun maturity => blockHeight < maturity

theorem finalizePendingRow_eq (acc : LedgerDb × ℕ) (r : LedgerRecord) :
    finalizePendingRow blockHeight done acc r =
      (if promotable blockHeight done r then acc.1.putAll (promotionRecords blockHeight r)
        else acc.1,
      if keptForLater blockHeight done r then min acc.2 r.blockHeight else acc.2) := by
  rw [finalizePendingRow]
  by_cases hamt : r.amount ≤ 0
  · simp [promotable, keptForLater, hamt, not_lt.2 hamt]
  by_cases hdone : r.id ∈ done
  · simp [promotable, keptForLater, hamt, hdone]
  cases hp : parseUint (trimSpace r.from_) with
  | none => simp [promotable, keptForLater, hamt, hdone, hp]
  | some m =>
    by_cases hm : blockHeight < m
    · simp [promotable, keptForLater, hamt, hdone, hp, hm, lt_of_not_ge hamt]
    · simp [promotable, keptForLater, hamt, hdone, hp, hm, not_lt.1 hm, lt_of_not_ge hamt]

theorem foldl_finalizePendingRow (rows : List LedgerRecord) (acc : LedgerDb × ℕ) :
    (rows.foldl (finalizePendingRow blockHeight done) acc).1 =
      acc.1.putAll ((rows.filter (promotable blockHeight done)).flatMap
        (promotionRecords blockHeight)) := by
  induction rows generalizing acc with
  | nil => rfl
  | cons r rows ih =>
    rw [foldl_cons, ih, finalizePendingRow_eq]
    by_cases hp : promotable blockHeight done r = true
    · simp [hp, putAll_append]
    · simp [hp]

def scannedPending : List LedgerRecord :=
  db.getLedgerRange protocolSlashPendingBurnAccount (readSafetySlashFinalizeCursor db) blockHeight
    (some .hive) [.safetySlashHiveBurnPending]

def scannedDone : List String :=
  finalizedIDs (db.getLedgerRange protocolSlashPendingBurnAccount
    (readSafetySlashFinalizeCursor db) blockHeight (some .hive)
    [.safetySlashHiveBurnPendingFinalized])

def promotedRows : List LedgerRecord :=
  if blockHeight = 0 ∨ blockHeight < readSafetySlashFinalizeCursor db then []
  else (scannedPending db blockHeight).filter (promotable blockHeight (scannedDone db blockHeight))

theorem finalizeMaturedSafetySlashBurns_eq :
    ∃ cursorRows : List LedgerRecord,
      (cursorRows = [] ∨ ∃ c, cursorRows = [finalizeCursorRecord blockHeight c]) ∧
      finalizeMaturedSafetySlashBurns db blockHeight =
        db.putAll ((promotedRows db blockHeight).flatMap (promotionRecords blockHeight) ++
          cursorRows) := by
  rw [finalizeMaturedSafetySlashBurns, promotedRows]
  by_cases hskip : blockHeight = 0 ∨ blockHeight < readSafetySlashFinalizeCursor db
  · exact ⟨[], .inl rfl, by simp [hskip]⟩
  simp only [if_neg hskip, foldl_finalizePendingRow]
  split
  · exact ⟨[_], .inr ⟨_, rfl⟩, by
      rw [putAll_append, putAll_cons, putAll_nil]; rfl⟩
  · exact ⟨[], .inl rfl, by rw [append_nil]; rfl⟩

end

theorem mem_promotedRows (h : r ∈ promotedRows db blockHeight) :
    r ∈ db ∧ r.owner = protocolSlashPendingBurnAccount ∧
      r.type = .safetySlashHiveBurnPending ∧ r.asset = .hive ∧
      readSafetySlashFinalizeCursor db ≤ r.blockHeight ∧ r.blockHeight ≤ blockHeight ∧
      0 < r.amount ∧ r.id ∉ scannedDone db blockHeight ∧
      ∃ m, parseUint (trimSpace r.from_) = some m ∧ m ≤ blockHeight := by
  rw [promotedRows] at h
  split at h
  · simp at h
  rw [List.mem_filter, scannedPending, mem_getLedgerRange] at h
  obtain ⟨⟨hdb, howner, hlo, hhi, hasset, htype⟩, hprom⟩ := h
  simp only [promotable, Bool.and_eq_true, decide_eq_true_eq, Bool.not_eq_true',
    contains_eq_mem, decide_eq_false_iff_not, Option.any_eq_true] at hprom
  obtain ⟨⟨hamt, hdone⟩, m, hm, hle⟩ := hprom
  exact ⟨hdb, howner, by simpa using htype, by simpa using hasset, hlo, hhi, hamt, hdone, m, hm, hle⟩

theorem nodup_promotedRows (db : LedgerDb) (blockHeight : ℕ) :
    (promotedRows db blockHeight).Nodup := by
  rw [promotedRows]
  split
  · exact nodup_nil
  refine List.Nodup.filter _ ?_
  rw [scannedPending, getLedgerRange, (perm_insertionSort _ _).nodup_iff]
  exact db.nodup_keys.of_map.filter _

theorem isProtocolMeta_of_mem_promotionRecords {x : LedgerRecord}
    (h : x ∈ promotionRecords blockHeight r) :
    isProtocolMetaLedgerType x.type = true ∧ x.blockHeight = blockHeight := by
  rcases mem_triple.1 h with rfl | rfl | rfl <;> exact ⟨rfl, rfl⟩

end VscNode
