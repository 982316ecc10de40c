import VscNode.Ledger.SafetySlash

/-!
# The oplog and the session that fills it

Transactions run in a session. A session checks an operation against the
balances it sees, which are the stored ones corrected by the virtual ledger and
by what the session itself has done, and appends an event to its oplog. When a
block carries the oplog, `ingestOplog` turns each event into ledger rows and
pending actions. `executeOplog` is that translation; it reads nothing but the
events, so the slash-adjusted release of a delegated unstake travels inside the
event.
-/

namespace VscNode

inductive OpType
  | transfer | withdraw | stake | unstake | consensusStake | consensusUnstake
  | other (name : String)
  deriving DecidableEq

/-- The parameters stamped into an event. -/
structure OpParams where
  delegated : Bool := false
  released : Option Int := none
  epoch : Option ℕ := none
  deriving DecidableEq

structure OpLogEvent where
  (id to_ from_ : String)
  amount : Int
  asset : Asset
  memo : String := ""
  type : OpType
  blockHeight : ℕ := 0
  params : OpParams := {}
  deriving DecidableEq

structure LedgerUpdate where
  id : String
  blockHeight : ℕ
  owner : String
  amount : Int
  asset : Asset
  type : LedgerType
  deriving DecidableEq

def delegationEdgeKey (from_ to_ : String) : String := from_ ++ "::" ++ to_

variable (v : OpLogEvent)

/-- The amount a delegated unstake returns, the gross amount where none is given. -/
def opReleased : Int := v.params.released.getD v.amount

/-! ## From events to rows -/

/-- The ledger rows of one event. -/
def opLedgerRecords (endBlock : ℕ) : List LedgerUpdate :=
  match v.type with
  | .transfer =>
    [⟨v.id ++ "#in", endBlock, v.from_, -v.amount, v.asset, .transfer⟩,
     ⟨v.id ++ "#out", endBlock, v.to_, v.amount, v.asset, .transfer⟩]
  | .withdraw => [⟨v.id ++ "#in", endBlock, v.from_, -v.amount, v.asset, .withdraw⟩]
  | .stake => [⟨v.id ++ "#in", endBlock, v.from_, -v.amount, .hbd, .stake⟩]
  | .unstake => [⟨v.id ++ "#in", endBlock, v.from_, -v.amount, .hbdSavings, .unstake⟩]
  | .consensusStake =>
    [⟨v.id ++ "#in", endBlock, v.from_, -v.amount, .hive, .consensusStake⟩,
     ⟨v.id ++ "#out", endBlock, v.to_, v.amount, .hiveConsensus, .consensusStake⟩] ++
    if v.params.delegated then
      [⟨v.id ++ "#edge", endBlock, delegationEdgeKey v.from_ v.to_, v.amount, .delegation,
        .consensusStake⟩,
       ⟨v.id ++ "#total", endBlock, v.to_, v.amount, .delegationTotal, .consensusStake⟩]
    else []
  | .consensusUnstake =>
    if v.params.delegated then
      -- The edge and the gross total drain by the gross amount, the bond by
      -- what is released.
      [⟨v.id ++ "#in", endBlock, v.to_, -opReleased v, .hiveConsensus, .consensusUnstake⟩,
       ⟨v.id ++ "#edge", endBlock, delegationEdgeKey v.from_ v.to_, -v.amount, .delegation,
        .consensusUnstake⟩,
       ⟨v.id ++ "#total", endBlock, v.to_, -v.amount, .delegationTotal, .consensusUnstake⟩]
    else
      [⟨v.id ++ "#in", endBlock, v.from_, -v.amount, .hiveConsensus, .consensusUnstake⟩]
  | .other _ => []

def OpLogEvent.updates : List LedgerUpdate := opLedgerRecords v v.blockHeight

def opActionRecords (endBlock : ℕ) : List ActionRecord :=
  match v.type with
  | .withdraw =>
    [{ id := v.id, amount := v.amount, asset := v.asset, to_ := v.to_, memo := v.memo
       txId := v.id, status := .pending, type := .withdraw, blockHeight := v.blockHeight }]
  | .stake =>
    [{ id := v.id, amount := v.amount, asset := .hbdSavings, to_ := v.to_, memo := v.memo
       txId := v.id, status := .pending, type := .stake, blockHeight := endBlock }]
  | .unstake =>
    [{ id := v.id, amount := v.amount, asset := .hbdSavings, to_ := v.to_, memo := v.memo
       txId := v.id, status := .pending, type := .unstake, blockHeight := endBlock }]
  | .consensusUnstake =>
    if v.params.delegated then
      [{ id := v.id, amount := opReleased v, asset := .other "-", to_ := v.from_
         memo := v.memo, txId := v.id, status := .pending, type := .consensusUnstake
         params := { epoch := v.params.epoch, node := some v.to_ }, blockHeight := endBlock }]
    else
      [{ id := v.id, amount := v.amount, asset := .other "-", to_ := v.to_
         memo := v.memo, txId := v.id, status := .pending, type := .consensusUnstake
         params := { epoch := v.params.epoch, from_ := some v.from_ }, blockHeight := endBlock }]
  | _ => []

def executeOplog (oplog : List OpLogEvent) (endBlock : ℕ) : List LedgerUpdate × List ActionRecord :=
  (oplog.flatMap fun v => opLedgerRecords v endBlock,
    oplog.flatMap fun v => opActionRecords v endBlock)

/-- The stored row of an update; every row of an oplog lands at its end height. -/
def LedgerUpdate.toRecord (u : LedgerUpdate) (endHeight : ℕ) : LedgerRecord :=
  { id := u.id, blockHeight := endHeight, amount := u.amount, asset := u.asset, owner := u.owner
    type := u.type }

def ingestOplog (s : LedgerDbs) (oplog : List OpLogEvent) (endHeight : ℕ) : LedgerDbs :=
  let results := executeOplog oplog endHeight
  { s with
    ledger := s.ledger.putAll (results.1.map (·.toRecord endHeight))
    actions := s.actions.putAll results.2 }

/-! ## Sessions -/

/-- The ledger state transactions run against: the stored collections, the
events not yet in a block, and their effect on balances. -/
structure LedgerState where
  dbs : LedgerDbs
  oplog : List OpLogEvent := []
  virtualLedger : List LedgerUpdate := []

namespace LedgerState

variable (st : LedgerState)

def compile (bh : ℕ) : List OpLogEvent :=
  st.oplog.filter fun v => v.blockHeight ≤ bh

def snapshotForAccount (account : String) (blockHeight : ℕ) (asset : Asset) : Int :=
  st.dbs.getBalance account blockHeight asset +
    ((st.virtualLedger.filter fun v => v.owner = account ∧ v.asset = asset).map (·.amount)).sum

end LedgerState

/-- One session. A balance is cached on its first read, at the height of that
read, and then moves with the session's own updates. -/
structure LedgerSession where
  state : LedgerState
  oplog : List OpLogEvent := []
  ledgerOps : List LedgerUpdate := []
  balances : String × Asset → Option Int := fun _ => none
  idCache : String → ℕ := fun _ => 0

namespace LedgerSession

variable (se : LedgerSession)

def setBalance (account : String) (asset : Asset) (amount : Int) : LedgerSession :=
  { se with balances := Function.update se.balances (account, asset) (some amount) }

def getBalance (account : String) (blockHeight : ℕ) (asset : Asset) : Int × LedgerSession :=
  match se.balances (account, asset) with
  | some bal => (bal, se)
  | none =>
    let bal := se.state.snapshotForAccount account blockHeight asset
    (bal, se.setBalance account asset bal)

def appendLedger (event : LedgerUpdate) : LedgerSession :=
  let (bal, se) := se.getBalance event.owner event.blockHeight event.asset
  let se := se.setBalance event.owner event.asset (bal + event.amount)
  { se with ledgerOps := se.ledgerOps ++ [event] }

/-- The id an event gets: a repeated id is numbered within the session. -/
def eventId (id : String) : String :=
  if 0 < se.idCache id then id ++ ":" ++ Text.formatUint (se.idCache id) else id

def appendOplog (event : OpLogEvent) : LedgerSession :=
  let stamped := { event with id := se.eventId event.id }
  let se := { se with idCache := Function.update se.idCache event.id (se.idCache event.id + 1) }
  let se := (opLedgerRecords stamped stamped.blockHeight).foldl appendLedger se
  { se with oplog := se.oplog ++ [stamped] }

/-- Hand the session's events over to the ledger state. The session goes on with
the next transaction and keeps counting ids. -/
def done : LedgerSession :=
  { state := { se.state with
      oplog := se.state.oplog ++ se.oplog
      virtualLedger := se.state.virtualLedger ++ se.ledgerOps }
    idCache := se.idCache }

/-- Drop the events of a failed transaction. -/
def revert : LedgerSession := { state := se.state, idCache := se.idCache }

end LedgerSession

structure ConsensusParams where
  (id from_ to_ : String)
  amount : Int
  (blockHeight electionEpoch : ℕ)
  delegated : Bool
  deriving DecidableEq

namespace LedgerSession

def consensusStake (se : LedgerSession) (p : ConsensusParams) : LedgerSession × LedgerResult :=
  if p.amount ≤ 0 then (se, ⟨false, "invalid amount"⟩)
  else
    let (balAmt, se) := se.getBalance p.from_ p.blockHeight .hive
    if balAmt < p.amount then (se, ⟨false, "insufficient balance"⟩)
    else
      (se.appendOplog
        { id := p.id, from_ := p.from_, to_ := p.to_, blockHeight := p.blockHeight
          amount := p.amount, asset := .hive, type := .consensusStake
          params := { delegated := p.delegated } },
        ⟨true, "success"⟩)

def slashAdjustedRelease (se : LedgerSession) (grossAmount : Int) (to_ : String)
    (blockHeight : ℕ) : Int × LedgerSession :=
  if grossAmount ≤ 0 then (0, se)
  else
    let (total, se) := se.getBalance to_ blockHeight .delegationTotal
    let (bond, se) := se.getBalance to_ blockHeight .hiveConsensus
    if total ≤ 0 ∨ total ≤ bond then (grossAmount, se)
    else if bond ≤ 0 then (0, se)
    else (grossAmount * bond / total, se)

def consensusUnstake (se : LedgerSession) (p : ConsensusParams) : LedgerSession × LedgerResult :=
  if p.amount ≤ 0 then (se, ⟨false, "invalid amount"⟩)
  else if p.delegated then
    -- Authorised against the signer's own edge; the node has none to a
    -- delegator's stake.
    let (edge, se) := se.getBalance (delegationEdgeKey p.from_ p.to_) p.blockHeight .delegation
    if edge < p.amount then (se, ⟨false, "amount exceeds delegated stake"⟩)
    else
      let (released, se) := se.slashAdjustedRelease p.amount p.to_ p.blockHeight
      (se.appendOplog
        { id := p.id, from_ := p.from_, to_ := p.to_, blockHeight := p.blockHeight
          amount := p.amount, asset := .hive, type := .consensusUnstake
          params := { epoch := some p.electionEpoch, delegated := true
                      released := some released } },
        ⟨true, "success"⟩)
  else
    let (balAmt, se) := se.getBalance p.from_ p.blockHeight .hiveConsensus
    if balAmt < p.amount then (se, ⟨false, "insufficient balance"⟩)
    else
      (se.appendOplog
        { id := p.id, from_ := p.from_, to_ := p.to_, blockHeight := p.blockHeight
          amount := p.amount, asset := .hive, type := .consensusUnstake
          params := { epoch := some p.electionEpoch } },
        ⟨true, "success"⟩)

end LedgerSession

end VscNode
