import VscNode.Ledger.Oplog
import VscNode.Ledger.RowId
import VscNode.Ledger.Snapshot
import VscNode.Lib.Run

/-!
# The life cycle of a consensus bond

HIVE becomes bond through a stake, leaves it through an unstake that a later slot
pays out, or is slashed into the reserve, from which only a payout returns it. A
`Node` holds the ledger with the events in flight, the L1 height being processed
and the open slot; `Node.apply` is what each event does to it, by the functions
of the ledger system, and `Enabled` what the callers guarantee about the event.

`Carriers` is what L1 fixes once and for all: the height of each transaction, the
length of the challenge window at each height, and what each payout proposal says.
-/

namespace VscNode

open Collection LedgerSession List Relation Text

/-! ## Batches of consensus operations -/

inductive ConsensusOp
  | stake (p : ConsensusParams)
  | unstake (p : ConsensusParams)
  deriving DecidableEq

variable (st : LedgerState) (se : LedgerSession) (txs : List (List ConsensusOp))

namespace ConsensusOp

def params : ConsensusOp → ConsensusParams
  | stake p => p
  | unstake p => p

def execute : ConsensusOp → LedgerSession × LedgerResult
  | stake p => se.consensusStake p
  | unstake p => se.consensusUnstake p

end ConsensusOp

namespace LedgerSession

/-- The operations of one transaction; the first failure drops all of them. -/
def executeOps (se : LedgerSession) : List ConsensusOp → LedgerSession
  | [] => se
  | op :: ops =>
    if (op.execute se).2.ok then (op.execute se).1.executeOps ops
    else (op.execute se).1.revert

def executeTx (ops : List ConsensusOp) : LedgerSession :=
  (se.executeOps ops).done

end LedgerSession

namespace LedgerState

def executeBatch : LedgerState :=
  (txs.foldl LedgerSession.executeTx { state := st }).state

def applyOplog (bh endHeight selfHeight : ℕ) : LedgerState :=
  let oplog := (st.compile bh).map fun v => { v with blockHeight := selfHeight }
  { dbs := ingestOplog st.dbs oplog endHeight }

end LedgerState

/-! ## What an operation does to its session -/

namespace LedgerSession

/-- Reading balances and keeping ledger updates leaves the ledger state, the
events and the id counts of a session alone. -/
structure SameLog (se se' : LedgerSession) : Prop where
  state : se'.state = se.state
  oplog : se'.oplog = se.oplog
  idCache : se'.idCache = se.idCache

variable (se : LedgerSession)

theorem SameLog.refl : SameLog se se := ⟨rfl, rfl, rfl⟩

theorem SameLog.trans {se se' se'' : LedgerSession} (h : SameLog se se') (h' : SameLog se' se'') :
    SameLog se se'' :=
  ⟨h'.state.trans h.state, h'.oplog.trans h.oplog, h'.idCache.trans h.idCache⟩

/-- Reading balances fills the cache, with what the ledger state holds, and
changes nothing else. -/
structure Reads (se se' : LedgerSession) : Prop extends SameLog se se' where
  ledgerOps : se'.ledgerOps = se.ledgerOps
  balances : ∀ k, se'.balances k = se.balances k ∨
    ∃ h, se'.balances k = some (se.state.snapshotForAccount k.1 h k.2)

theorem Reads.refl : Reads se se := ⟨.refl se, rfl, fun _ => .inl rfl⟩

theorem Reads.trans {se se' se'' : LedgerSession} (h : Reads se se') (h' : Reads se' se'') :
    Reads se se'' where
  toSameLog := h.toSameLog.trans h'.toSameLog
  ledgerOps := h'.ledgerOps.trans h.ledgerOps
  balances := by
    intro k
    rcases h'.balances k with heq | ⟨height, heq⟩
    · rw [heq]
      exact h.balances k
    · rw [heq, h.state]
      exact .inr ⟨height, rfl⟩

theorem reads_getBalance (account : String) (blockHeight : ℕ)
    (asset : Asset) : Reads se (se.getBalance account blockHeight asset).2 := by
  rw [getBalance]
  split
  · exact .refl se
  refine ⟨⟨rfl, rfl, rfl⟩, rfl, fun k => ?_⟩
  by_cases hk : k = (account, asset)
  · subst hk
    exact .inr ⟨blockHeight, Function.update_self ..⟩
  · exact .inl (Function.update_of_ne hk ..)

theorem reads_slashAdjustedRelease (grossAmount : Int) (to_ : String)
    (blockHeight : ℕ) : Reads se (se.slashAdjustedRelease grossAmount to_ blockHeight).2 := by
  have hreads := (reads_getBalance se to_ blockHeight .delegationTotal).trans
    (reads_getBalance _ to_ blockHeight .hiveConsensus)
  rw [slashAdjustedRelease]
  split
  · exact .refl se
  dsimp only
  split
  · exact hreads
  split
  · exact hreads
  · exact hreads

theorem sameLog_appendLedger (event : LedgerUpdate) : SameLog se (se.appendLedger event) :=
  (reads_getBalance se event.owner event.blockHeight event.asset).toSameLog.trans ⟨rfl, rfl, rfl⟩

theorem sameLog_foldl_appendLedger (events : List LedgerUpdate) (se : LedgerSession) :
    SameLog se (events.foldl appendLedger se) := by
  induction events generalizing se with
  | nil => exact .refl se
  | cons event events ih => exact (sameLog_appendLedger se event).trans (ih _)

structure Appended (se se' : LedgerSession) (event : OpLogEvent) : Prop where
  state : se'.state = se.state
  oplog : se'.oplog = se.oplog ++ [{ event with id := se.eventId event.id }]
  idCache : se'.idCache = Function.update se.idCache event.id (se.idCache event.id + 1)

theorem appended_appendOplog {se₀ se : LedgerSession} (h : SameLog se₀ se) (event : OpLogEvent) :
    Appended se₀ (se.appendOplog event) event := by
  have hid : se.eventId event.id = se₀.eventId event.id := by
    rw [eventId, eventId, h.idCache]
  have hfold := sameLog_foldl_appendLedger
    (opLedgerRecords { event with id := se.eventId event.id } event.blockHeight)
    { se with idCache := Function.update se.idCache event.id (se.idCache event.id + 1) }
  refine ⟨hfold.state.trans h.state, ?_, ?_⟩
  · change _ ++ _ = _
    rw [hfold.oplog, hid]
    exact congrArg (· ++ _) h.oplog
  · rw [← h.idCache]
    exact hfold.idCache

end LedgerSession

inductive ConsensusOp.Logs : ConsensusOp → OpLogEvent → Prop
  | stake (p : ConsensusParams) :
      Logs (.stake p)
        { id := p.id, from_ := p.from_, to_ := p.to_, blockHeight := p.blockHeight
          amount := p.amount, asset := .hive, type := .consensusStake
          params := { delegated := p.delegated } }
  | delegatedUnstake (p : ConsensusParams) (released : Int) :
      Logs (.unstake p)
        { id := p.id, from_ := p.from_, to_ := p.to_, blockHeight := p.blockHeight
          amount := p.amount, asset := .hive, type := .consensusUnstake
          params := { epoch := some p.electionEpoch, delegated := true
                      released := some released } }
  | unstake (p : ConsensusParams) :
      Logs (.unstake p)
        { id := p.id, from_ := p.from_, to_ := p.to_, blockHeight := p.blockHeight
          amount := p.amount, asset := .hive, type := .consensusUnstake
          params := { epoch := some p.electionEpoch } }

theorem ConsensusOp.ends (op : ConsensusOp) (se : LedgerSession) :
    (∃ se' msg, se.Reads se' ∧ op.execute se = (se', ⟨false, msg⟩)) ∨
      ∃ se' event, se.Reads se' ∧ op.Logs event ∧
        op.execute se = (se'.appendOplog event, ⟨true, "success"⟩) := by
  cases op with
  | stake p =>
    simp only [execute, consensusStake]
    split
    · exact .inl ⟨_, _, .refl se, rfl⟩
    have hread := se.reads_getBalance p.from_ p.blockHeight .hive
    split
    · exact .inl ⟨_, _, hread, rfl⟩
    · exact .inr ⟨_, _, hread, .stake p, rfl⟩
  | unstake p =>
    simp only [execute, consensusUnstake]
    split
    · exact .inl ⟨_, _, .refl se, rfl⟩
    split
    · have hread := se.reads_getBalance (delegationEdgeKey p.from_ p.to_) p.blockHeight .delegation
      split
      · exact .inl ⟨_, _, hread, rfl⟩
      · exact .inr ⟨_, _, hread.trans (reads_slashAdjustedRelease ..), .delegatedUnstake p _, rfl⟩
    have hread := se.reads_getBalance p.from_ p.blockHeight .hiveConsensus
    split
    · exact .inl ⟨_, _, hread, rfl⟩
    · exact .inr ⟨_, _, hread, .unstake p, rfl⟩

theorem ConsensusOp.execute_cases (op : ConsensusOp) (se : LedgerSession) :
    (op.execute se).2.ok = false ∧ se.SameLog (op.execute se).1 ∨
      (op.execute se).2.ok = true ∧
        ∃ event, op.Logs event ∧ se.Appended (op.execute se).1 event := by
  rcases op.ends se with ⟨se', msg, hreads, heq⟩ | ⟨se', event, hreads, hlogs, heq⟩ <;> rw [heq]
  · exact .inl ⟨rfl, hreads.toSameLog⟩
  · exact .inr ⟨rfl, event, hlogs, appended_appendOplog hreads.toSameLog event⟩

theorem LedgerSession.executeOps_state (ops : List ConsensusOp) (se : LedgerSession) :
    (se.executeOps ops).state = se.state := by
  induction ops generalizing se with
  | nil => rfl
  | cons op ops ih =>
    rw [executeOps]
    rcases op.execute_cases se with ⟨hok, hsame⟩ | ⟨hok, event, -, happ⟩
    · rw [hok, if_neg (by simp)]
      exact hsame.state
    · rw [hok, if_pos rfl, ih, happ.state]

@[simp] theorem LedgerState.executeBatch_dbs : (st.executeBatch txs).dbs = st.dbs := by
  have hfold : ∀ se : LedgerSession,
      (txs.foldl executeTx se).state.dbs = se.state.dbs := by
    induction txs with
    | nil => exact fun _ => rfl
    | cons ops txs ih =>
      intro se
      rw [foldl_cons, ih]
      change (se.executeOps ops).state.dbs = _
      rw [executeOps_state]
  exact hfold _

/-! ## Who writes what -/

variable {endBlock : ℕ} {u : LedgerUpdate} {v : OpLogEvent}

theorem id_of_mem_opLedgerRecords (h : u ∈ opLedgerRecords v endBlock) :
    u.id = v.id ++ "#in" ∨ u.id = v.id ++ "#out" ∨ u.id = v.id ++ "#edge" ∨
      u.id = v.id ++ "#total" := by
  rw [opLedgerRecords] at h
  cases hv : v.type <;> cases hd : v.params.delegated <;>
    simp only [hv, hd, if_true, if_false, Bool.false_eq_true, append_nil, mem_append,
      mem_cons, not_mem_nil, or_false] at h
  all_goals rcases h with (rfl | rfl) | rfl | rfl <;> simp only [true_or, or_true]

theorem rowClass_of_mem_opLedgerRecords (h : u ∈ opLedgerRecords v endBlock) :
    rowClass u.id = .op := by
  rcases id_of_mem_opLedgerRecords h with hid | hid | hid | hid <;> rw [hid]
  · exact rowClass_append_op "in" (by rfl) (by decide) v.id
  · exact rowClass_out v.id
  · exact rowClass_append_op "edge" (by rfl) (by decide) v.id
  · exact rowClass_append_op "total" (by rfl) (by decide) v.id

theorem rowClass_of_mem_slotRows {s : LedgerDbs} {env : SlotEnv} {r : LedgerRecord}
    (h : r ∈ slotRows s env endBlock) : rowClass r.id = .op ∨ rowClass r.id = .settlement := by
  rcases mem_append.1 h with h | h
  · obtain ⟨a, -, rfl⟩ := mem_map.1 h
    exact .inl (rowClass_out a.id)
  · obtain ⟨p, -, hp⟩ := mem_flatMap.1 h
    exact .inr (rowClass_of_mem_promotionRecords hp)

/-! ## The node -/

structure Node where
  ledger : LedgerState
  (head slot : ℕ)

/-- What L1 fixes once and for all. -/
structure Carriers where
  txHeight : String → ℕ
  burnDelay : ℕ → ℕ
  payout : String → String × Int

inductive Event
  | l1Block (height : ℕ)
  | store (rows : List LedgerRecord)
  | batch (txs : List (List ConsensusOp))
  | block (bh : ℕ) (br1 : Int)
  | slash (p : SafetySlashConsensusParams)
  | payout (p : ReservePayoutParams)
  | slotChange (env : SlotEnv) (startBlock : ℕ)

namespace Node

/-- A node without stored data at some L1 height. -/
def genesis (head : ℕ) : Node := ⟨⟨{}, [], []⟩, head, slotStart head⟩

abbrev dbs (n : Node) : LedgerDbs := n.ledger.dbs

def setDbs (n : Node) (dbs : LedgerDbs) : Node := { n with ledger := { n.ledger with dbs := dbs } }

def apply (n : Node) : Event → Node
  | .l1Block height => { n with head := height }
  | .store rows => n.setDbs (n.dbs.storeLedger rows)
  | .batch txs => { n with ledger := n.ledger.executeBatch txs }
  | .block bh br1 => { n with ledger := n.ledger.applyOplog bh (brHeight br1) n.head }
  | .slash p => n.setDbs (safetySlashConsensusBond n.dbs p).1
  | .payout p => n.setDbs { n.dbs with ledger := (reservePayout n.dbs.ledger p).1 }
  | .slotChange env startBlock =>
    { n.setDbs (updateBalances n.dbs env startBlock n.slot) with slot := slotStart n.head }

end Node

/-- A slash is carried by the L1 transaction being processed. -/
@[mk_iff] structure SlashCarried (w : Carriers) (head : ℕ) (p : SafetySlashConsensusParams) : Prop where
  height : p.blockHeight = head
  txHeight : w.txHeight p.txID = head
  delay : p.burnDelayBlocks = w.burnDelay head
  txFree : Free '#' p.txID
  kindFree : Free '#' p.evidenceKind
  acctFree : Free '#' (normalizeHiveConsensusAccount p.account)

instance (w : Carriers) (head : ℕ) (p : SafetySlashConsensusParams) :
    Decidable (SlashCarried w head p) := decidable_of_iff _ (slashCarried_iff ..).symm

@[mk_iff] structure PayoutCarried (w : Carriers) (head : ℕ) (p : ReservePayoutParams) : Prop where
  height : p.blockHeight = head
  proposal : w.payout (trimSpace p.proposalID) = (normalizeHiveConsensusAccount p.recipient, p.amount)
  idFree : Free '#' (trimSpace p.proposalID)
  recipientFree : Free '#' (normalizeHiveConsensusAccount p.recipient)

instance (w : Carriers) (head : ℕ) (p : ReservePayoutParams) : Decidable (PayoutCarried w head p) :=
  decidable_of_iff _ (payoutCarried_iff ..).symm

def Enabled (w : Carriers) (n : Node) : Event → Prop
  | .l1Block height => n.head < height
  | .store rows => ∀ r ∈ rows,
      n.head ≤ r.blockHeight ∧ Free '#' r.id ∧ r.id ≠ safetySlashFinalizeCursorRowID
  | .batch _ => True
  | .block _ br1 => isStale br1 n.head = false
  | .slash p => SlashCarried w n.head p
  | .payout p => PayoutCarried w n.head p
  | .slotChange _ _ => slotStart n.head ≠ n.slot

instance (w : Carriers) (n : Node) (e : Event) : Decidable (Enabled w n e) := by
  cases e <;> unfold Enabled <;> infer_instance

namespace Node

/-- A step by an event that meets a condition in the state it is applied to. -/
abbrev StepBy (ok : Node → Event → Prop) : Node → Node → Prop := Run.StepBy apply ok

def Reachable (w : Carriers) (n : Node) : Prop :=
  ∃ head, ReflTransGen (StepBy (Enabled w)) (genesis head) n

variable (n : Node)

@[simp] theorem dbs_setDbs (dbs : LedgerDbs) : (n.setDbs dbs).dbs = dbs := rfl

variable (p : SafetySlashConsensusParams) (env : SlotEnv) (startBlock : ℕ)

theorem apply_slash : n.apply (.slash p) = n.setDbs (safetySlashConsensusBond n.dbs p).1 := rfl

theorem dbs_apply_slotChange :
    (n.apply (.slotChange env startBlock)).dbs = updateBalances n.dbs env startBlock n.slot := by
  rw [apply]
  rfl

theorem oplog_apply_slotChange :
    (n.apply (.slotChange env startBlock)).ledger.oplog = n.ledger.oplog := by
  rw [apply]
  rfl

theorem dbs_apply_batch (txs : List (List ConsensusOp)) :
    (n.apply (.batch txs)).dbs = n.dbs := n.ledger.executeBatch_dbs txs

end Node

end VscNode
