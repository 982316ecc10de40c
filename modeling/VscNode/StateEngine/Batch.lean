import VscNode.Ledger.Delivery
import VscNode.StateEngine.Execute

/-!
# Batches

A batch is executed transaction by transaction in one ledger session. The
operations of a transaction run in order until one fails, which drops everything
the session has recorded for the transaction; the calls among them share a call
session, whose outputs count only if all operations succeed.

`Succeeds` is what it means that all operations succeed, with the events each of
them adds. A transaction adds exactly those, or nothing (`execute_outcome`).
-/

namespace VscNode

open LedgerSession List Relation Sessions Text VSCTransaction

/-! ## Transactions in a batch -/

structure TxPacket where
  txId : String
  ops : List VSCTransaction
  /-- An operation could not be resolved. -/
  invalid : Bool := false
  payer : String := ""

structure TxOutput where
  txId : String
  ok : Bool
  ledgerIds : List String := []
  deriving DecidableEq

structure ContractResult where
  success : Bool
  ret : String
  err : Option String := none
  errMsg : String := ""
  txId : String
  logs : List String := []
  tssOps : List TssOp := []
  deriving DecidableEq

structure ContractIdResult where
  contractId : String
  output : ContractResult
  deriving DecidableEq

/-- What a batch works on and leaves behind. -/
structure BatchState where
  ledger : LedgerState
  tempOutputs : TempOutputs := Collection.empty
  contractResults : List ContractIdResult := []
  txOutput : Collection TxOutput.txId := Collection.empty
  txOutIds : List String := []
  rcMap : String → Int := fun _ => 0
  firstTxHeight : ℕ := 0
  /-- The texts stored for failed transactions. -/
  txErrors : List (String × String) := []

/-- The text of a failed operation. -/
def opFailure (opIdx opCount : ℕ) (opType reason : String) : String :=
  if 1 < opCount then "op " ++ formatUint opIdx ++ " (" ++ opType ++ "): " ++ reason else reason

variable (view : ChainView) (store : ContractStore) (e : BatchState) (op : VSCTransaction)

namespace VSCTransaction

/-- The signer that pays for an operation. -/
def payer : String := op.txSelf.signers.headD ""

def called : VSCTransaction → Option String
  | call tx => some tx.contractId
  | _ => none

def isDeposit : VSCTransaction → Bool
  | deposit _ => true
  | _ => false

end VSCTransaction

/-- The operations of a transaction under way. -/
structure OpLoop where
  session : LedgerSession
  calls : Option CallSession := none
  tempOutputs : TempOutputs
  outputs : List ContractIdResult := []
  rcMap : String → Int
  firstTxHeight : ℕ
  ok : Bool := true
  failure : Option String := none

/-- What the contracts of a slot look like to the next call. -/
def newCallSession (tempOutputs : TempOutputs) : CallSession where
  store := store
  pending := tempOutputs

def callResults (txId contractId ret : String) (logs : List LogOutput) : List ContractIdResult :=
  logs.map fun log =>
    { contractId := log.contractId
      output :=
        { txId := txId, ret := if log.contractId = contractId then ret else "", success := true
          logs := log.logs, tssOps := log.tssOps } }

def callError (txId contractId : String) (r : TxResult) : ContractIdResult where
  contractId := contractId
  output := { txId := txId, ret := "", success := r.success, err := r.err, errMsg := r.ret }

def keepPrevious (tempOutputs : TempOutputs) (contractId : String) : TempOutputs :=
  match tempOutputs.get? contractId with
  | some _ => tempOutputs
  | none => tempOutputs.put (store.stored contractId)

namespace OpLoop

variable (store : ContractStore) (s : OpLoop)

/-- The sessions the next operation runs in. -/
def sessions : Sessions :=
  ⟨s.session, s.calls.getD (newCallSession store s.tempOutputs)⟩

/-- Drop what the transaction has recorded. -/
def fail (failure : Option String) : OpLoop :=
  { s with session := s.session.revert, ok := false, failure := failure }

/-- Count an operation: what it costs, and the height of the first one. -/
def charge (payer : String) (rcUsed : Int) : OpLoop :=
  { s with rcMap := Function.update s.rcMap payer (s.rcMap payer + rcUsed) }

def noteHeight (height : ℕ) : OpLoop :=
  { s with
    firstTxHeight := if s.firstTxHeight = 0 then (height + (2 ^ 64 - 1)) % 2 ^ 64
      else s.firstTxHeight }

def openCalls (op : VSCTransaction) : OpLoop :=
  match op.called, s.calls with
  | some _, none => { s with calls := some (newCallSession store s.tempOutputs) }
  | _, _ => s

def setSessions (sessions : Sessions) : OpLoop :=
  { s with session := sessions.ledger, calls := s.calls.map fun _ => sessions.calls }

def recordCall (txId contractId : String) (r : TxResult) : OpLoop :=
  if r.success then
    match s.calls with
    | none => s
    | some calls =>
      { s with
        calls := some calls.popLogs.2
        outputs := s.outputs ++ callResults txId contractId r.ret calls.popLogs.1 }
  else
    { s with
      outputs := [callError txId contractId r]
      tempOutputs := keepPrevious store s.tempOutputs contractId }

/-- The result of an operation, once it was executed. -/
def record (op : VSCTransaction) (txId : String) (r : TxResult) : OpLoop :=
  match op.called with
  | some contractId => s.recordCall store txId contractId r
  | none => s

def execute (tx : TxPacket) (idx : ℕ) (s : OpLoop) (op : VSCTransaction) : OpLoop :=
  let failure (reason : String) := opFailure idx tx.ops.length op.type reason
  let s := (s.openCalls store op).noteHeight op.txSelf.blockHeight
  if op.txSelf.signers = [] then s.fail (some (failure "no required auths"))
  else
    let (r, sessions) := op.executeTx view (s.sessions store) op.payer
    let s := (s.setSessions sessions).charge op.payer r.rcUsed
    let s := s.record store op (makeTxId tx.txId idx) r
    if r.success then s
    else s.fail (if r.ret = "" then none else some (failure r.ret))

/-- Execute operations until one fails; deposits were credited before. -/
def executeAll (view : ChainView) (store : ContractStore) (tx : TxPacket) :
    ℕ → List VSCTransaction → OpLoop → OpLoop
  | _, [], s => s
  | idx, op :: ops, s =>
    if op.isDeposit then executeAll view store tx (idx + 1) ops s
    else
      let s := s.execute view store tx idx op
      if s.ok then executeAll view store tx (idx + 1) ops s else s

end OpLoop

namespace BatchState

variable (e : BatchState)

def withError (txId : String) : Option String → BatchState
  | none => e
  | some reason => { e with txErrors := e.txErrors ++ [(txId, reason)] }

def finish (txId : String) (s : OpLoop) : BatchState × LedgerSession :=
  let tempOutputs :=
    match s.ok, s.calls with
    | true, some calls => s.tempOutputs.putAll calls.commit.toOutputs
    | _, _ => s.tempOutputs
  ({ e.withError txId s.failure with
      ledger := s.session.done.state
      tempOutputs := tempOutputs
      contractResults := e.contractResults ++ s.outputs
      txOutput := e.txOutput.put ⟨txId, s.ok, s.session.oplog.map (·.id)⟩
      txOutIds := e.txOutIds ++ [txId]
      rcMap := s.rcMap
      firstTxHeight := s.firstTxHeight },
    s.session.done)

def rejectInvalid (tx : TxPacket) : BatchState :=
  { e.withError tx.txId
      (some "transaction could not be decoded: unknown operation type or invalid payload") with
    rcMap := if tx.payer = "" then e.rcMap
      else Function.update e.rcMap tx.payer (e.rcMap tx.payer + 50)
    txOutput := e.txOutput.put ⟨tx.txId, false, []⟩
    txOutIds := e.txOutIds ++ [tx.txId] }

/-- The loop over the operations of a transaction, at its start. -/
def loop (session : LedgerSession) : OpLoop where
  session := session
  tempOutputs := e.tempOutputs
  rcMap := e.rcMap
  firstTxHeight := e.firstTxHeight

def execute (s : BatchState × LedgerSession) (tx : TxPacket) : BatchState × LedgerSession :=
  if tx.invalid then (s.1.rejectInvalid tx, s.2)
  else if tx.ops ≠ [] ∧ tx.ops.all VSCTransaction.isDeposit then s
  else s.1.finish tx.txId ((s.1.loop s.2).executeAll view store tx 0 tx.ops)

def newSession : BatchState × LedgerSession := (e, { state := e.ledger })

def executeBatch (batch : List TxPacket) : BatchState :=
  (batch.foldl (execute view store) e.newSession).1

end BatchState

/-! ## What a transaction adds -/

def Sessions.settle (s : Sessions) : Sessions :=
  match op.called with
  | some _ => ⟨s.ledger, s.calls.popLogs.2⟩
  | none => s

inductive Succeeds (view : ChainView) :
    Sessions → List VSCTransaction → List (List OpLogEvent) → Sessions → Prop
  | nil (s : Sessions) : Succeeds view s [] [] s
  | deposit {s s' : Sessions} {op : VSCTransaction} {ops : List VSCTransaction}
      {adds : List (List OpLogEvent)} (hdeposit : op.isDeposit = true)
      (h : Succeeds view s ops adds s') : Succeeds view s (op :: ops) ([] :: adds) s'
  | cons {s s₁ s' : Sessions} {op : VSCTransaction} {ops : List VSCTransaction}
      {r : TxResult} {added : List OpLogEvent} {adds : List (List OpLogEvent)}
      (hdeposit : op.isDeposit = false) (hsigned : op.txSelf.signers ≠ [])
      (hrun : op.executeTx view s op.payer = (r, s₁)) (hok : r.success = true)
      (hadds : s.ledger.Adds s₁.ledger added) (h : Succeeds view (s₁.settle op) ops adds s') :
      Succeeds view s (op :: ops) (added :: adds) s'

theorem Sessions.ledger_settle (s : Sessions) : (s.settle op).ledger = s.ledger := by
  rw [settle]
  split <;> rfl

variable {ops : List VSCTransaction}
  {view : ChainView} {old new : TempOutputs} {store : ContractStore}

theorem Succeeds.adds {s s' : Sessions} {adds : List (List OpLogEvent)}
    (h : Succeeds view s ops adds s') : s.ledger.Adds s'.ledger adds.flatten := by
  induction h with
  | nil s => exact .refl _
  | deposit _ _ ih => exact ih
  | cons _ _ _ _ hadds _ ih =>
    rw [ledger_settle] at ih
    exact hadds.trans ih

def KeptButCalled (store : ContractStore) (ops : List VSCTransaction) (old new : TempOutputs) :
    Prop :=
  ∀ contractId, new.get? contractId = old.get? contractId ∨
    old.get? contractId = none ∧ new.get? contractId = some (store.stored contractId) ∧
      ∃ op ∈ ops, op.called = some contractId

theorem KeptButCalled.mono {ops' : List VSCTransaction} (h : KeptButCalled store ops old new)
    (hsub : ops ⊆ ops') : KeptButCalled store ops' old new := by
  intro contractId
  refine (h contractId).imp_right ?_
  rintro ⟨hold, hnew, op, hop, hcalled⟩
  exact ⟨hold, hnew, op, hsub hop, hcalled⟩

theorem KeptButCalled.opening (h : KeptButCalled store ops old new) (contractId : String) :
    (newCallSession store new).opening contractId =
      (newCallSession store old).opening contractId := by
  rcases h contractId with heq | ⟨hold, hnew, -⟩
  · simp only [CallSession.opening, newCallSession, heq]
  · simp only [CallSession.opening, newCallSession, hold, hnew, Option.getD_some, Option.getD_none]

theorem contractId_stored (store : ContractStore) (contractId : String) :
    (store.stored contractId).contractId = contractId := by
  rw [ContractStore.stored]
  split <;> rfl

theorem keptButCalled_keepPrevious (store : ContractStore) {op : VSCTransaction}
    {contractId : String} (hop : op.called = some contractId) (tempOutputs : TempOutputs) :
    KeptButCalled store [op] tempOutputs (keepPrevious store tempOutputs contractId) := by
  intro id
  rw [keepPrevious]
  split
  · exact .inl rfl
  rename_i hnone
  have hkey := contractId_stored store contractId
  by_cases hid : contractId = id
  · subst hid
    refine .inr ⟨hnone, ?_, op, mem_singleton_self op, hop⟩
    have hput := Collection.get?_put_self tempOutputs (store.stored contractId)
    rwa [hkey] at hput
  · refine .inl (Collection.get?_put_of_ne ?_)
    rwa [hkey]

namespace VSCTransaction

theorem calls_executeTx (view : ChainView) {op : VSCTransaction} (h : op.called = none)
    (s : Sessions) (rcPayer : String) : (op.executeTx view s rcPayer).2.calls = s.calls := by
  have hprepared : ∀ p : Except TxResult Prepared, (runPrepared p s).2.calls = s.calls := by
    intro p
    cases p <;> rfl
  cases op with
  | call tx => cases h
  | deposit self => rfl
  | _ => exact hprepared _

end VSCTransaction

namespace OpLoop

variable {view : ChainView} {store : ContractStore} {tx : TxPacket} {idx : ℕ} {s : OpLoop}
  {op : VSCTransaction}

theorem sessions_openCalls : (s.openCalls store op).sessions store = s.sessions store := by
  rw [openCalls]
  split
  · rename_i _ hcalls
    simp [sessions, hcalls]
  · rfl

theorem isSome_calls_openCalls :
    (s.openCalls store op).calls.isSome = (s.calls.isSome || op.called.isSome) := by
  rw [openCalls]
  cases hcalled : op.called <;> cases hcalls : s.calls <;> simp [hcalls]

theorem openCalls_eq : s.openCalls store op = { s with calls := (s.openCalls store op).calls } := by
  rw [openCalls]
  split <;> rfl

/-- What an operation that succeeded leaves to the next one. -/
structure Passed (store : ContractStore) (op : VSCTransaction) (after : Sessions) (s s' : OpLoop) :
    Prop where
  ok : s'.ok = s.ok
  tempOutputs : s'.tempOutputs = s.tempOutputs
  sessions : s'.sessions store = after.settle op
  calls : s'.calls.isSome = (s.calls.isSome || op.called.isSome)

/-- Nothing is left of what a transaction has recorded. -/
structure Dropped (store : ContractStore) (ops : List VSCTransaction) (s s' : OpLoop) : Prop where
  ok : s'.ok = false
  oplog : s'.session.oplog = []
  ledgerOps : s'.session.ledgerOps = []
  state : s'.session.state = s.session.state
  kept : KeptButCalled store ops s.tempOutputs s'.tempOutputs

theorem sessions_setSessions {after : Sessions}
    (h : s.calls = none → after.calls = (s.sessions store).calls) :
    (s.setSessions after).sessions store = after := by
  cases hcalls : s.calls with
  | none =>
    have hafter := h hcalls
    rw [sessions, hcalls] at hafter
    simp only [sessions, setSessions, hcalls, Option.map_none]
    exact congrArg (Sessions.mk after.ledger) hafter.symm
  | some calls => simp [sessions, setSessions, hcalls]

variable {r : TxResult}

theorem sessions_record (hr : r.success = true) {txId : String}
    (hcalls : op.called.isSome → s.calls.isSome) :
    (s.record store op txId r).sessions store = (s.sessions store).settle op := by
  rw [record, settle]
  split
  · rename_i contractId hop
    obtain ⟨calls, hsome⟩ := Option.isSome_iff_exists.1 (hcalls (by rw [hop]; rfl))
    simp [recordCall, hr, hsome, sessions]
  · rfl

theorem record_success (hr : r.success = true) (txId : String) :
    (s.record store op txId r).ok = s.ok ∧ (s.record store op txId r).tempOutputs = s.tempOutputs ∧
      (s.record store op txId r).calls.isSome = s.calls.isSome := by
  rw [record]
  split
  · rw [recordCall, if_pos hr]
    split
    · exact ⟨rfl, rfl, rfl⟩
    · rename_i hcalls
      exact ⟨rfl, rfl, by simp [hcalls]⟩
  · exact ⟨rfl, rfl, rfl⟩

theorem record_frame (txId : String) : (s.record store op txId r).session = s.session ∧
    (s.record store op txId r).rcMap = s.rcMap := by
  rw [record]
  split
  · rw [recordCall]
    split
    · split <;> exact ⟨rfl, rfl⟩
    · exact ⟨rfl, rfl⟩
  · exact ⟨rfl, rfl⟩

theorem keptButCalled_record (hr : r.success = false) (txId : String) :
    KeptButCalled store [op] s.tempOutputs (s.record store op txId r).tempOutputs := by
  rw [record]
  split
  · rename_i contractId hop
    rw [recordCall, if_neg (by simp [hr])]
    exact keptButCalled_keepPrevious store hop s.tempOutputs
  · exact fun _ => .inl rfl

theorem execute_cases (view : ChainView) (store : ContractStore) (tx : TxPacket) (idx : ℕ)
    (op : VSCTransaction) (s : OpLoop) :
    (op.txSelf.signers ≠ [] ∧ (op.executeTx view (s.sessions store) op.payer).1.success = true ∧
        Passed store op (op.executeTx view (s.sessions store) op.payer).2 s
          (s.execute view store tx idx op)) ∨
      ((op.txSelf.signers = [] ∨
          (op.executeTx view (s.sessions store) op.payer).1.success = false) ∧
        Dropped store [op] s (s.execute view store tx idx op)) := by
  set s₁ := (s.openCalls store op).noteHeight op.txSelf.blockHeight with hs₁
  have hsessions : s₁.sessions store = s.sessions store := sessions_openCalls
  have hsame : s₁.session = s.session ∧ s₁.tempOutputs = s.tempOutputs ∧ s₁.ok = s.ok := by
    rw [hs₁, openCalls_eq]
    exact ⟨rfl, rfl, rfl⟩
  have hcalls : s₁.calls.isSome = (s.calls.isSome || op.called.isSome) := isSome_calls_openCalls
  rw [execute]
  simp only [← hs₁, hsessions]
  by_cases hsigned : op.txSelf.signers = []
  · rw [if_pos hsigned]
    have hstate : s₁.session.state = s.session.state := congrArg LedgerSession.state hsame.1
    refine .inr ⟨.inl hsigned, rfl, rfl, rfl, hstate, fun contractId => .inl ?_⟩
    exact congrArg (Collection.get? · contractId) hsame.2.1
  rw [if_neg hsigned]
  have hnests := nests_executeTx view hsigned (s.sessions store) op.payer
  have hother : op.called = none →
      (op.executeTx view (s.sessions store) op.payer).2.calls = (s.sessions store).calls :=
    fun h => calls_executeTx view h (s.sessions store) op.payer
  generalize op.executeTx view (s.sessions store) op.payer = out at hnests hother ⊢
  obtain ⟨r, after⟩ := out
  have hset : (s₁.setSessions after).sessions store = after := by
    refine sessions_setSessions fun hnone => ?_
    rw [hsessions]
    apply hother
    rw [hnone] at hcalls
    cases hop : op.called with
    | none => rfl
    | some c => simp [hop] at hcalls
  set s₂ := (s₁.setSessions after).charge op.payer r.rcUsed with hs₂
  have hsome : s₂.calls.isSome = s₁.calls.isSome := by simp [hs₂, charge, setSessions]
  cases hr : r.success with
  | true =>
    obtain ⟨hok, htemp, hisSome⟩ :
        (s₂.record store op (makeTxId tx.txId idx) r).ok = s₂.ok ∧ _ ∧ _ := record_success hr _
    refine .inl ⟨hsigned, rfl, ?_⟩
    rw [if_pos rfl]
    refine ⟨hok.trans hsame.2.2, htemp.trans hsame.2.1, ?_, ?_⟩
    · rw [sessions_record hr]
      · exact congrArg (settle op) hset
      · intro hop
        rw [hsome, hcalls, hop, Bool.or_true]
    · rw [hisSome, hsome, hcalls]
  | false =>
    refine .inr ⟨.inr rfl, ?_⟩
    rw [if_neg (by simp)]
    refine ⟨rfl, rfl, rfl, ?_, ?_⟩
    · change (s₂.record store op (makeTxId tx.txId idx) r).session.state = _
      rw [(record_frame _).1]
      exact state_eq_of_nests hnests
    · rw [← hsame.2.1]
      exact keptButCalled_record (s := s₂) hr (makeTxId tx.txId idx)

theorem executeAll_cases (hok : s.ok = true) (idx : ℕ) (ops : List VSCTransaction) :
    (∃ adds, Succeeds view (s.sessions store) ops adds
        ((s.executeAll view store tx idx ops).sessions store) ∧
        (s.executeAll view store tx idx ops).ok = true ∧
        (s.executeAll view store tx idx ops).tempOutputs = s.tempOutputs ∧
        (s.executeAll view store tx idx ops).calls.isSome =
          (s.calls.isSome || ops.any (·.called.isSome))) ∨
      ((∀ adds after, ¬ Succeeds view (s.sessions store) ops adds after) ∧
        Dropped store ops s (s.executeAll view store tx idx ops)) := by
  induction ops generalizing s idx with
  | nil => exact .inl ⟨[], .nil _, hok, rfl, by simp [executeAll]⟩
  | cons op ops ih =>
    rw [executeAll]
    split
    · rename_i hdeposit
      have hnone : op.called.isSome = false := by
        cases op <;> first | rfl | cases hdeposit
      rcases ih hok (idx + 1) with ⟨adds, hsucc, hok', htemp, hcalls⟩ | ⟨hnot, hdrop⟩
      · exact .inl ⟨[] :: adds, .deposit hdeposit hsucc, hok', htemp, by simp [hcalls, hnone]⟩
      refine .inr ⟨?_, hdrop.ok, hdrop.oplog, hdrop.ledgerOps, hdrop.state,
        hdrop.kept.mono (subset_cons_self _ _)⟩
      rintro adds after (_ | ⟨_, h⟩ | ⟨hfalse, _⟩)
      · exact hnot _ _ h
      · rw [hdeposit] at hfalse
        cases hfalse
    rename_i hdeposit
    rw [Bool.not_eq_true] at hdeposit
    rcases execute_cases view store tx idx op s with
      ⟨hsigned, hsucc, hpass⟩ | ⟨hfail, hdrop⟩
    · have hok' := hpass.ok.trans hok
      obtain ⟨added, hadds, -⟩ := exists_adds_of_nests
        (nests_executeTx view hsigned (s.sessions store) op.payer)
      have hstate : (s.execute view store tx idx op).session.state = s.session.state := by
        have hledger := congrArg ledger hpass.sessions
        rw [ledger_settle] at hledger
        exact (congrArg LedgerSession.state hledger).trans hadds.state
      rw [if_pos hok']
      rcases ih hok' (idx + 1) with ⟨adds, hrest, hok'', htemp, hcalls⟩ | ⟨hnot, hdrop⟩
      · rw [hpass.sessions] at hrest
        refine .inl ⟨added :: adds, .cons hdeposit hsigned rfl hsucc hadds hrest, hok'',
          htemp.trans hpass.tempOutputs, ?_⟩
        rw [hcalls, hpass.calls, any_cons, Bool.or_assoc]
      refine .inr ⟨?_, hdrop.ok, hdrop.oplog, hdrop.ledgerOps, hdrop.state.trans hstate, ?_⟩
      · rintro adds after (_ | ⟨htrue, _⟩ | ⟨_, _, hrun, _, _, h⟩)
        · rw [hdeposit] at htrue
          cases htrue
        · rw [hpass.sessions, hrun] at hnot
          exact hnot _ _ h
      · rw [← hpass.tempOutputs]
        exact hdrop.kept.mono (subset_cons_self _ _)
    rw [if_neg (by simp [hdrop.ok])]
    refine .inr ⟨?_, hdrop.ok, hdrop.oplog, hdrop.ledgerOps, hdrop.state,
      hdrop.kept.mono (by simp)⟩
    rintro adds after (_ | ⟨htrue, _⟩ | ⟨_, hsigned, hrun, hsucc, _, _⟩)
    · rw [hdeposit] at htrue
      cases htrue
    rcases hfail with hfail | hfail
    · exact hsigned hfail
    · rw [hrun, hsucc] at hfail
      cases hfail

end OpLoop

namespace BatchState

variable {view : ChainView} {store : ContractStore}

/-- Between two transactions the session of a batch has recorded nothing. -/
structure Clean (s : BatchState × LedgerSession) : Prop where
  state : s.2.state = s.1.ledger
  oplog : s.2.oplog = []
  ledgerOps : s.2.ledgerOps = []

theorem clean_newSession : Clean e.newSession := ⟨rfl, rfl, rfl⟩

theorem Clean.execute {s : BatchState × LedgerSession} (h : Clean s) (tx : TxPacket) :
    Clean (BatchState.execute view store s tx) := by
  rw [BatchState.execute]
  split
  · exact ⟨h.state, h.oplog, h.ledgerOps⟩
  split
  · exact h
  · exact ⟨rfl, rfl, rfl⟩

theorem clean_foldl (batch : List TxPacket) :
    Clean (batch.foldl (execute view store) e.newSession) := by
  have hrun : ∀ s : BatchState × LedgerSession, Clean s → Clean (batch.foldl (execute view store) s) := by
    induction batch with
    | nil => exact fun _ h => h
    | cons tx batch ih => exact fun s h => ih _ (h.execute tx)
  exact hrun _ (clean_newSession e)

variable {e : BatchState} {s : OpLoop} {se : LedgerSession} {ops : List VSCTransaction}
  {txId : String}

theorem ledger_finish (txId : String) {added : List OpLogEvent} (hclean : Clean (e, se))
    (h : se.Adds s.session added) :
    (e.finish txId s).1.ledger.oplog = e.ledger.oplog ++ added ∧
      (e.finish txId s).1.ledger.virtualLedger =
        e.ledger.virtualLedger ++ added.flatMap OpLogEvent.updates := by
  have hstate : s.session.state = e.ledger := h.state.trans hclean.state
  have hoplog : s.session.oplog = added := by rw [h.oplog, hclean.oplog, nil_append]
  have hops : s.session.ledgerOps = added.flatMap OpLogEvent.updates := by
    rw [h.ledgerOps, hclean.ledgerOps, nil_append]
  constructor
  · change s.session.state.oplog ++ s.session.oplog = _
    rw [hstate, hoplog]
  · change s.session.state.virtualLedger ++ s.session.ledgerOps = _
    rw [hstate, hops]

theorem ledger_finish_dropped (hclean : Clean (e, se))
    (h : OpLoop.Dropped store ops (e.loop se) s) :
    (e.finish txId s).1.ledger.oplog = e.ledger.oplog ∧
      (e.finish txId s).1.ledger.virtualLedger = e.ledger.virtualLedger ∧
      KeptButCalled store ops e.tempOutputs (e.finish txId s).1.tempOutputs := by
  have hstate : s.session.state = e.ledger := h.state.trans hclean.state
  refine ⟨?_, ?_, ?_⟩
  · change s.session.state.oplog ++ s.session.oplog = _
    rw [hstate, h.oplog, append_nil]
  · change s.session.state.virtualLedger ++ s.session.ledgerOps = _
    rw [hstate, h.ledgerOps, append_nil]
  have htemp : (e.finish txId s).1.tempOutputs = s.tempOutputs := by
    simp only [finish, h.ok]
  rw [htemp]
  exact h.kept

theorem tempOutputs_finish (hok : s.ok = true) (htemp : s.tempOutputs = e.tempOutputs)
    (hcalls : s.calls.isSome = ((e.loop se).calls.isSome || ops.any (·.called.isSome))) :
    (e.finish txId s).1.tempOutputs =
      if ops.any (·.called.isSome) then
        e.tempOutputs.putAll (s.sessions store).calls.commit.toOutputs
      else e.tempOutputs := by
  change _ = (false || _) at hcalls
  rw [Bool.false_or] at hcalls
  simp only [finish, hok, htemp, ← hcalls, OpLoop.sessions]
  cases s.calls <;> rfl

end BatchState

theorem Succeeds.unique {s : Sessions} {adds adds' : List (List OpLogEvent)}
    {after after' : Sessions} (h : Succeeds view s ops adds after)
    (h' : Succeeds view s ops adds' after') : adds = adds' ∧ after = after' := by
  induction h generalizing adds' with
  | nil s =>
    cases h'
    exact ⟨rfl, rfl⟩
  | deposit hdeposit _ ih =>
    cases h' with
    | deposit _ h' =>
      obtain ⟨rfl, rfl⟩ := ih h'
      exact ⟨rfl, rfl⟩
    | cons hnot => simp [hdeposit] at hnot
  | cons hnot _ hrun _ hadds _ ih =>
    cases h' with
    | deposit hdeposit => simp [hdeposit] at hnot
    | cons _ _ hrun' _ hadds' h' =>
      rw [hrun] at hrun'
      cases hrun'
      obtain rfl := append_cancel_left (hadds.oplog.symm.trans hadds'.oplog)
      obtain ⟨rfl, rfl⟩ := ih h'
      exact ⟨rfl, rfl⟩

theorem succeeds_deposits (view : ChainView) (s : Sessions)
    (h : ops.all isDeposit = true) :
    Succeeds view s ops (ops.map fun _ => []) s ∧ ops.any (·.called.isSome) = false := by
  induction ops with
  | nil => exact ⟨.nil s, rfl⟩
  | cons op ops ih =>
    obtain ⟨hop, hops⟩ := Bool.and_eq_true_iff.1 h
    obtain ⟨hsucc, hnone⟩ := ih hops
    refine ⟨.deposit hop hsucc, ?_⟩
    rw [any_cons, hnone, Bool.or_false]
    cases op <;> first | rfl | cases hop

namespace BatchState

/-- What a transaction does whose operations could be resolved. -/
theorem execute_cases (view : ChainView) (store : ContractStore)
    {s : BatchState × LedgerSession} (hclean : Clean s) {tx : TxPacket}
    (hvalid : tx.invalid = false) :
    (∃ adds after, Succeeds view ⟨s.2, newCallSession store s.1.tempOutputs⟩ tx.ops adds after ∧
        (execute view store s tx).1.ledger.oplog = s.1.ledger.oplog ++ adds.flatten ∧
        (execute view store s tx).1.ledger.virtualLedger =
          s.1.ledger.virtualLedger ++ adds.flatten.flatMap OpLogEvent.updates ∧
        (execute view store s tx).1.tempOutputs =
          if tx.ops.any (·.called.isSome) then
            s.1.tempOutputs.putAll after.calls.commit.toOutputs
          else s.1.tempOutputs) ∨
      ((∀ adds after,
          ¬ Succeeds view ⟨s.2, newCallSession store s.1.tempOutputs⟩ tx.ops adds after) ∧
        (execute view store s tx).1.ledger.oplog = s.1.ledger.oplog ∧
        (execute view store s tx).1.ledger.virtualLedger = s.1.ledger.virtualLedger ∧
        KeptButCalled store tx.ops s.1.tempOutputs (execute view store s tx).1.tempOutputs) := by
  rw [execute, if_neg (by simp [hvalid])]
  split
  · rename_i hdeposits
    obtain ⟨hsucc, hnone⟩ := succeeds_deposits view
      ⟨s.2, newCallSession store s.1.tempOutputs⟩ hdeposits.2
    exact .inl ⟨_, _, hsucc, by simp, by simp, by simp [hnone]⟩
  rcases OpLoop.executeAll_cases (s := s.1.loop s.2) rfl 0 tx.ops with
    ⟨adds, hsucc, hok, htemp, hcalls⟩ | ⟨hnot, hdrop⟩
  · obtain ⟨hoplog, hvirtual⟩ := ledger_finish tx.txId hclean hsucc.adds
    exact .inl ⟨adds, _, hsucc, hoplog, hvirtual, tempOutputs_finish hok htemp hcalls⟩
  · exact .inr ⟨hnot, ledger_finish_dropped hclean hdrop⟩

/-- A transaction of a batch adds what all its operations add, in order, or
nothing at all: then the next call also finds every contract as it was. -/
theorem transaction_atomic (view : ChainView) (store : ContractStore) (e : BatchState)
    (before : List TxPacket) (tx : TxPacket) :
    let s := before.foldl (execute view store) e.newSession
    let s' := execute view store s tx
    let start : Sessions := ⟨s.2, newCallSession store s.1.tempOutputs⟩
    ((tx.invalid = true ∨ ∀ adds after, ¬ Succeeds view start tx.ops adds after) →
        s'.1.ledger.oplog = s.1.ledger.oplog ∧
          s'.1.ledger.virtualLedger = s.1.ledger.virtualLedger ∧
          KeptButCalled store tx.ops s.1.tempOutputs s'.1.tempOutputs ∧
          ∀ contractId, (newCallSession store s'.1.tempOutputs).opening contractId =
            (newCallSession store s.1.tempOutputs).opening contractId) ∧
      ∀ adds after, tx.invalid = false → Succeeds view start tx.ops adds after →
        s'.1.ledger.oplog = s.1.ledger.oplog ++ adds.flatten ∧ s'.1.ledger.virtualLedger =
            s.1.ledger.virtualLedger ++ adds.flatten.flatMap OpLogEvent.updates ∧
          s'.1.tempOutputs =
            if tx.ops.any (·.called.isSome) then
              s.1.tempOutputs.putAll after.calls.commit.toOutputs
            else s.1.tempOutputs := by
  intro s s' start
  have hclean : Clean s := clean_foldl e before
  constructor
  · intro hfails
    have hkept : s'.1.ledger.oplog = s.1.ledger.oplog ∧
        s'.1.ledger.virtualLedger = s.1.ledger.virtualLedger ∧
        KeptButCalled store tx.ops s.1.tempOutputs s'.1.tempOutputs := by
      cases hinvalid : tx.invalid with
      | true =>
        have hs' : s' = (s.1.rejectInvalid tx, s.2) := if_pos hinvalid
        rw [hs']
        exact ⟨rfl, rfl, fun _ => .inl rfl⟩
      | false =>
        rcases execute_cases view store hclean hinvalid with
          ⟨adds, after, hsucc, -⟩ | ⟨-, hkept⟩
        · rcases hfails with hfails | hfails
          · rw [hinvalid] at hfails
            cases hfails
          · exact absurd hsucc (hfails adds after)
        · exact hkept
    exact ⟨hkept.1, hkept.2.1, hkept.2.2, hkept.2.2.opening⟩
  intro adds after hvalid hsucc
  rcases execute_cases view store hclean hvalid with
    ⟨adds', after', hsucc', hadded⟩ | ⟨hnot, -⟩
  · obtain ⟨rfl, rfl⟩ := hsucc.unique hsucc'
    exact hadded
  · exact absurd hsucc (hnot adds after)

def bareView : ChainView where
  netId := "vsc-mainnet"
  getElectionInfo _ := none
  allowsDelegation _ _ := false
  isBondLockedRetiringMember _ _ := false
  poaExitHalt _ _ := none
  poaHaltOnBondedNodeActive _ := false
  poaBondLockedWhileShareFundedActive _ := false
  heldShareOfFundedVault _ _ := false
  hiveFreeAmount := 0
  getFrozenAmt _ _ := 0
  getContractInfo _ _ := none
  getCode _ := .error "no code"
  payloadSize _ := 0
  host _ := ⟨false, fun _ _ => .error "no contract"⟩
  runtime _ _ _ := ([], .panicked)

def noContracts : ContractStore := ⟨fun _ => none, fun _ _ => none⟩

def aliceSends (txId amount : String) : TxPacket where
  txId := txId
  ops := [.transfer
    { self := { txId := txId, blockHeight := 5, requiredAuths := .of ["hive:alice"] }
      netId := "vsc-mainnet", from_ := "hive:alice", to_ := "hive:bob", amount := amount
      asset := "hive" }]

def aliceSent (id : String) (amount : Int) : OpLogEvent where
  id := id
  from_ := "hive:alice"
  to_ := "hive:bob"
  amount := amount
  asset := .hive
  type := .transfer
  blockHeight := 5

/-- Of Alice's ten, five are sent. A transaction that sends four and then nine is refused, and
leaves nothing of the four. -/
theorem transaction_atomic_aliceSends :
    let s := execute bareView noContracts (newSession { ledger := ⟨Desk.aliceHive, [], []⟩ })
      (aliceSends "a" "0.005")
    s.1.ledger.oplog.map (·.amount) = [5] ∧
      (execute bareView noContracts s
        { txId := "b", ops := (aliceSends "b" "0.004").ops ++ (aliceSends "b" "0.009").ops }).1.ledger.oplog =
          s.1.ledger.oplog := by
  intro s
  constructor
  · have hadded := (transaction_atomic bareView noContracts
      { ledger := ⟨Desk.aliceHive, [], []⟩ } [] (aliceSends "a" "0.005")).2
      [[aliceSent "a" 5]] _ rfl (.cons rfl (by decide) rfl rfl ⟨rfl, rfl, rfl⟩ (.nil _))
    rw [show s.1.ledger.oplog = _ from hadded.1]
    rfl
  refine ((transaction_atomic bareView noContracts { ledger := ⟨Desk.aliceHive, [], []⟩ }
    [aliceSends "a" "0.005"] _).1 (.inr ?_)).1
  rintro adds after (_ | ⟨hfalse, _⟩ | ⟨_, _, hrun, -, -, hrest⟩)
  · cases hfalse
  obtain rfl := congrArg Prod.snd hrun
  rcases hrest with _ | ⟨hfalse, _⟩ | ⟨_, _, hrun, hok, _, _⟩
  · cases hfalse
  have hfail := congrArg (fun out => out.1.success) hrun
  rw [hok] at hfail
  exact absurd hfail (by decide)

end BatchState

end VscNode
