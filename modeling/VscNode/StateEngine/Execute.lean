import VscNode.StateEngine.Operation

/-!
# Executing an operation

An operation that moves an amount is checked first, against the chain and its own
signers, and then handed to the ledger session; a contract call runs the contract
in a context of its own. The result says whether it succeeded, and what it costs.

Whatever an operation does to the ledger session is a run of nested savepoints
whose events carry the operation's id and draw on its signers or on contracts
(`VSCTransaction.nests_executeTx`).
-/

namespace VscNode

open Contract Relation Text List

structure TxResult where
  success : Bool
  ret : String
  err : Option String := none
  rcUsed : Int
  deriving DecidableEq

structure ElectionInfo where
  epoch : ℕ
  /-- `DelegatedStakeActiveForElection`. -/
  delegatedStake : Bool
  deriving DecidableEq

structure ContractInfo where
  (owner code : String)
  deriving DecidableEq

/-- How the code of a contract ends. -/
inductive Outcome
  | returned (result : String) (gas : ℕ)
  | failed (errorCode error : String) (gas : ℕ)
  | panicked

/-- What a contract is run with. -/
structure Invocation where
  env : Environment
  code : String
  gasCycles : ℕ
  action : String
  payload : Json

structure ChainView where
  netId : String
  getElectionInfo : ℕ → Option ElectionInfo
  /-- The mode a node has published lets others stake to it. -/
  (allowsDelegation isBondLockedRetiringMember : String → ℕ → Bool)
  /-- Under the exit halt, and until which height where that is settled. -/
  poaExitHalt : String → ℕ → Option (Option ℕ)
  (poaHaltOnBondedNodeActive poaBondLockedWhileShareFundedActive : ℕ → Bool)
  heldShareOfFundedVault : String → ℕ → Bool
  hiveFreeAmount : Int
  getFrozenAmt : String → ℕ → Int
  getContractInfo : String → ℕ → Option ContractInfo
  getCode : String → Except String String
  payloadSize : Json → ℕ
  host : ℕ → Host
  runtime : Invocation → LedgerSession → CallSession → List HostCall × Outcome

/-! ## Operations that move an amount -/

def refused (ret : String) (rcUsed : Int) : TxResult := ⟨false, ret, none, rcUsed⟩

/-- A session operation that has passed the checks, and what it costs. -/
structure Prepared where
  op : SessionOp
  rcUsed : Int

namespace TxMove

variable (view : ChainView) (tx : TxMove)

def id : String := makeTxId tx.self.txId tx.self.opIndex

def isUser (account : String) : Bool := hasPrefix account "did:" || hasPrefix account "hive:"

def prepareTransfer : Except TxResult Prepared :=
  if tx.netId ≠ view.netId then .error (refused "wrong net ID" 50)
  else if tx.to_ = "" ∨ tx.from_ = "" then .error (refused "Invalid to/from" 50)
  else if isUser tx.to_ = false ∨ isUser tx.from_ = false then
    .error (refused "Invalid to/from" 50)
  else if tx.from_ ∉ tx.self.requiredAuths.elems then .error (refused "Invalid RequiredAuths" 50)
  else
    match parseAssetAmount tx.amount tx.asset with
    | .error err => .error (refused ("Invalid amount: " ++ err) 50)
    | .ok amount =>
      .ok ⟨.transfer
        { id := tx.id, from_ := tx.from_, to_ := tx.to_, amount := amount
          asset := Asset.ofString tx.asset, memo := tx.memo, type := .transfer
          blockHeight := tx.self.blockHeight } 0, 100⟩

def prepareWithdraw : Except TxResult Prepared :=
  if tx.netId ≠ view.netId then .error (refused "wrong net ID" 50)
  else if tx.to_ = "" then .error (refused "Invalid to" 50)
  else
    match parseAssetAmount tx.amount tx.asset with
    | .error err => .error (refused ("Invalid amount: " ++ err) 50)
    | .ok amount =>
      if tx.from_ = "" ∨ tx.from_ ∉ tx.self.requiredAuths.elems then
        .error (refused "Invalid RequiredAuths" 50)
      else
        .ok ⟨.withdraw
          { id := tx.id, from_ := tx.from_, to_ := tx.to_, amount := amount
            asset := Asset.ofString tx.asset, memo := tx.memo
            blockHeight := tx.self.blockHeight }, 200⟩

/-- The parameters of a stake or an unstake of HBD. -/
def stakeOp : Except TxResult StakeOp :=
  if tx.netId ≠ view.netId then .error (refused "wrong net ID" 50)
  else if tx.to_ = "" then .error (refused "Invalid to/from" 50)
  else
    match parseAssetAmount tx.amount tx.asset with
    | .error err => .error (refused ("Invalid amount: " ++ err) 50)
    | .ok amount =>
      if tx.from_ = "" ∨ tx.from_ ∉ tx.self.requiredAuths.elems then
        .error (refused "Invalid RequiredAuths" 50)
      else
        .ok
          { id := tx.id, from_ := tx.from_, to_ := tx.to_, amount := amount
            asset := Asset.ofString tx.asset, blockHeight := tx.self.blockHeight }

def prepareStakeHbd : Except TxResult Prepared :=
  (tx.stakeOp view).map fun p => ⟨.stake p 0, 200⟩

def prepareUnstakeHbd : Except TxResult Prepared :=
  (tx.stakeOp view).map fun p => ⟨.unstake p, 200⟩

/-- The checks a consensus stake and unstake share, and the amount. -/
def consensusAmount : Except TxResult Int :=
  if tx.netId ≠ view.netId then .error (refused "wrong net ID" 50)
  else if tx.to_ = "" ∨ tx.from_ = "" then .error (refused "Invalid to/from" 50)
  else if tx.from_ ∉ tx.self.requiredAuths.elems then .error (refused "Invalid RequiredAuths" 50)
  else if hasPrefix tx.to_ "hive:" = false ∨ hasPrefix tx.from_ "hive:" = false then
    .error (refused "Invalid to/from" 50)
  else if tx.asset ≠ "" ∧ tx.asset ≠ "hive" then .error (refused "Invalid asset" 50)
  else
    match parseAssetAmount tx.amount tx.asset with
    | .error err => .error (refused ("Invalid amount: " ++ err) 50)
    | .ok amount => .ok amount

def prepareConsensusStake : Except TxResult Prepared :=
  match tx.consensusAmount view with
  | .error r => .error r
  | .ok amount =>
    let delegated := (view.getElectionInfo tx.self.blockHeight).any (·.delegatedStake)
    if delegated ∧ tx.from_ ≠ tx.to_ ∧
        view.allowsDelegation tx.to_ tx.self.blockHeight = false then
      .error (refused "node does not accept delegations" 100)
    else
      .ok ⟨.consensus (.stake
        { id := tx.id, from_ := tx.from_, to_ := tx.to_, amount := amount
          blockHeight := tx.self.blockHeight, electionEpoch := 0, delegated := delegated }), 100⟩

def consensusUnstakeLockEpochs : ℕ := 5

def ownRetiring : String :=
  "consensus bond is locked: your committee holds a retiring BTC vault key that is not yet drained; retry the unstake after its migration completes"

def ownHalt : Option ℕ → String
  | some release =>
    "consensus bond is locked: POA collateral exit-halt runs until block " ++
      formatUint release ++ "; retry the unstake at or after that height"
  | none =>
    "consensus bond is locked: POA collateral exit-halt. Your seat is still an electable committee candidate. Disable your witness so it can no longer be elected; the halt then expires a fixed number of blocks later"

def ownShare : String :=
  "consensus bond is locked: this node is electable, recently active as a witness, in the current committee, or holds a share of a BTC vault generation that is not yet purged; it frees once its witness has been disabled for the exit-halt window and every such generation has been rotated out and purged"

def nodeRetiring : String :=
  "consensus bond is locked: the node you delegated to holds a retiring BTC vault key that is not yet drained; retry the unstake after its migration completes"

def nodeHalt : Option ℕ → String
  | some release =>
    "consensus bond is locked: the node you delegated to is under the POA collateral exit-halt until block " ++
      formatUint release ++ "; retry the unstake at or after that height"
  | none =>
    "consensus bond is locked: the node you delegated to holds a POA seat and is still an electable committee candidate; its collateral, including delegated stake, stays locked until it stops being electable and the exit-halt expires"

def nodeShare : String :=
  "consensus bond is locked: the node you delegated to is electable, recently active as a witness, in the current committee, or holds a share of a BTC vault generation that is not yet purged; retry once it has left and every such generation has been rotated out and purged"

def lockOf (account : String) (height : ℕ) (retiring : String) (halt : Option ℕ → String) :
    Option String :=
  if view.isBondLockedRetiringMember account height then some retiring
  else (view.poaExitHalt account height).map halt

def bondLock (election : ElectionInfo) : Option String :=
  let height := tx.self.blockHeight
  let node :=
    if tx.to_ ≠ tx.from_ ∧ election.delegatedStake ∧ view.poaHaltOnBondedNodeActive height then
      lockOf view tx.to_ height nodeRetiring nodeHalt
    else none
  node.or <|
    let bonded := if election.delegatedStake then tx.to_ else tx.from_
    if view.poaBondLockedWhileShareFundedActive height ∧
        view.heldShareOfFundedVault bonded height then
      some (if bonded ≠ tx.from_ then nodeShare else ownShare)
    else none

def prepareConsensusUnstake : Except TxResult Prepared :=
  match tx.consensusAmount view with
  | .error r => .error r
  | .ok amount =>
    match lockOf view tx.from_ tx.self.blockHeight ownRetiring ownHalt with
    | some msg => .error (refused msg 50)
    | none =>
      match view.getElectionInfo tx.self.blockHeight with
      | none => .error (refused "election lookup unavailable; retry unstake later" 50)
      | some election =>
        match tx.bondLock view election with
        | some msg => .error (refused msg 50)
        | none =>
          .ok ⟨.consensus (.unstake
            { id := tx.id, from_ := tx.from_, to_ := tx.to_, amount := amount
              blockHeight := tx.self.blockHeight
              electionEpoch := election.epoch + consensusUnstakeLockEpochs
              delegated := election.delegatedStake }), 100⟩

end TxMove

/-! ## Contract calls -/

variable (view : ChainView) (t : TxVscCallContract)

/-- Whether an account has enough resource credits, and how many it then has left. -/
def canConsume (se : LedgerSession) (account : String) (height : ℕ) (rcAmt : Int) :
    (Bool × Int) × LedgerSession :=
  if hasPrefix account "did:vsc:oracle:" then ((true, 2 ^ 63 - 1), se)
  else
    let (balAmt, se) := se.getBalance account height .hbd
    let balAmt := if hasPrefix account "hive:" then balAmt + view.hiveFreeAmount else balAmt
    let totalAmt := balAmt - view.getFrozenAmt account height
    if totalAmt < rcAmt then ((false, 0), se) else ((true, totalAmt - rcAmt), se)

def freeRcRemaining (account : String) (height : ℕ) : Int :=
  if hasPrefix account "hive:" then max 0 (view.hiveFreeAmount - view.getFrozenAmt account height)
  else 0

def cycleGasPerRc : ℕ := 100000

def maxContractPayloadSize : ℕ := 8 * 1024

structure Sessions where
  ledger : LedgerSession
  calls : CallSession

namespace TxVscCallContract

/-- The account a call is made for, by default the first signer. -/
def caller_ : String :=
  if t.caller = "" then
    (t.self.requiredAuths.elems ++ t.self.requiredPostingAuths.elems).headD ""
  else t.caller

def environment (owner : String) : Environment where
  contractId := t.contractId
  contractOwner := owner
  blockHeight := t.self.blockHeight
  txId := t.self.txId
  blockId := t.self.blockId
  index := t.self.index
  opIndex := t.self.opIndex
  timestamp := t.self.timestamp
  requiredAuths := t.self.requiredAuths.elems
  requiredPostingAuths := t.self.requiredPostingAuths.elems
  caller := t.caller_
  sender := t.caller_
  intents := t.intents

/-- Resource credits for the cycles a call has used, at least a hundred. -/
def rcUsed (gas : ℕ) : Int := max 100 ((gas + cycleGasPerRc - 1) / cycleGasPerRc : ℕ)

def result : Outcome → TxResult
  | .returned ret gas => ⟨true, ret, none, rcUsed gas⟩
  | .failed errorCode error gas => ⟨false, error, some errorCode, rcUsed gas⟩
  | .panicked => ⟨false, "internal error: panic during execution", none, 100⟩

def invoke (info : ContractInfo) (code : String) (availableGas : Int) (s : Sessions)
    (rcPayer : String) : TxResult × Sessions :=
  let gas := min (min availableGas.toNat t.rcLimit) ((2 ^ 64 - 1) / cycleGasPerRc)
  let env := t.environment info.owner
  -- The contract is among the outputs even if it touches no state.
  let (_, calls) := s.calls.getContractSession t.contractId
  let ctx := Context.new env gas (freeRcRemaining view rcPayer t.self.blockHeight) 0 none
  let (script, outcome) := view.runtime
    ⟨env, code, gas * cycleGasPerRc, t.action, t.payload⟩ s.ledger calls
  let vm := Vm.run (view.host t.self.blockHeight) ⟨s.ledger, calls, [ctx]⟩ script
  (result outcome, ⟨vm.ledger, vm.calls⟩)

def executeTx (s : Sessions) (rcPayer : String) : TxResult × Sessions :=
  if t.netId ≠ view.netId then (refused "wrong net ID" 100, s)
  else if maxContractPayloadSize < view.payloadSize t.payload then
    (refused "payload exceeds maximum size of 8192 bytes" 100, s)
  else
    match view.getContractInfo t.contractId t.self.blockHeight with
    | none => (refused "contract not found" 100, s)
    | some info =>
      match view.getCode info.code with
      | .error err => (refused err 100, s)
      | .ok code =>
        let ((hasMinRCs, availableGas), ledger) :=
          canConsume view s.ledger rcPayer t.self.blockHeight 100
        if hasMinRCs = false then
          (refused ("minimum RC requirement is not met. RCs available: " ++
            formatInt availableGas) 100, ⟨ledger, s.calls⟩)
        else if t.caller ≠ "" ∧ t.caller ∉ t.self.requiredAuths.elems ∧
            t.caller ∉ t.self.requiredPostingAuths.elems then
          (refused "caller is not in required_auths or required_posting_auths" 100,
            ⟨ledger, s.calls⟩)
        else t.invoke view info code availableGas ⟨ledger, s.calls⟩ rcPayer

end TxVscCallContract

/-! ## Operations -/

namespace VSCTransaction

def runPrepared (p : Except TxResult Prepared) (s : Sessions) : TxResult × Sessions :=
  match p with
  | .error r => (r, s)
  | .ok p =>
    let (ledger, r) := p.op.execute s.ledger
    (⟨r.ok, r.msg, none, p.rcUsed⟩, ⟨ledger, s.calls⟩)

def executeTx (view : ChainView) (s : Sessions) (rcPayer : String) :
    VSCTransaction → TxResult × Sessions
  | call tx => tx.executeTx view s rcPayer
  | deposit _ => (⟨true, "", none, 0⟩, s)
  | transfer tx => runPrepared (tx.prepareTransfer view) s
  | withdraw tx => runPrepared (tx.prepareWithdraw view) s
  | stakeHbd tx => runPrepared (tx.prepareStakeHbd view) s
  | unstakeHbd tx => runPrepared (tx.prepareUnstakeHbd view) s
  | consensusStake tx => runPrepared (tx.prepareConsensusStake view) s
  | consensusUnstake tx => runPrepared (tx.prepareConsensusUnstake view) s

end VSCTransaction

/-! ## Whom an operation acts for -/

/-- The account a session operation draws on. -/
def SessionOp.from_ : SessionOp → String
  | transfer event _ => event.from_
  | withdraw p => p.from_
  | stake p _ => p.from_
  | unstake p => p.from_
  | consensus op => op.params.from_

theorem SessionOp.Logs.from_eq {se : LedgerSession} {op : SessionOp} {event : OpLogEvent}
    (h : op.Logs se event) : event.from_ = op.from_ := by
  cases h with
  | consensus op event hlogs => cases hlogs <;> rfl
  | _ => rfl

/-- A prepared operation has the id of the operation and draws on a signer. -/
structure Prepared.For (tx : TxMove) (p : Prepared) : Prop where
  id : p.op.id = tx.id
  from_ : p.op.from_ ∈ tx.self.requiredAuths.elems

namespace TxMove

variable {view : ChainView} {tx : TxMove} {p : Prepared}

theorem prepareTransfer_for (h : tx.prepareTransfer view = .ok p) : p.For tx := by
  simp only [prepareTransfer] at h
  split_ifs at h with hnet hempty huser hauth
  split at h
  · cases h
  · cases h
    exact ⟨rfl, hauth⟩

theorem prepareWithdraw_for (h : tx.prepareWithdraw view = .ok p) : p.For tx := by
  simp only [prepareWithdraw] at h
  split_ifs at h with hnet hto hauth
  · split at h <;> cases h
  split at h
  · cases h
  · cases h
    exact ⟨rfl, not_not.1 fun hnot => hauth (.inr hnot)⟩

theorem stakeOp_eq_ok {op : StakeOp} (h : tx.stakeOp view = .ok op) :
    op.id = tx.id ∧ op.from_ ∈ tx.self.requiredAuths.elems := by
  simp only [stakeOp] at h
  split_ifs at h with hnet hto hauth
  · split at h <;> cases h
  split at h
  · cases h
  · cases h
    exact ⟨rfl, not_not.1 fun hnot => hauth (.inr hnot)⟩

theorem prepareStakeHbd_for (h : tx.prepareStakeHbd view = .ok p) : p.For tx := by
  rw [prepareStakeHbd] at h
  cases hop : tx.stakeOp view <;> rw [hop] at h <;> cases h
  exact ⟨(stakeOp_eq_ok hop).1, (stakeOp_eq_ok hop).2⟩

theorem prepareUnstakeHbd_for (h : tx.prepareUnstakeHbd view = .ok p) : p.For tx := by
  rw [prepareUnstakeHbd] at h
  cases hop : tx.stakeOp view <;> rw [hop] at h <;> cases h
  exact ⟨(stakeOp_eq_ok hop).1, (stakeOp_eq_ok hop).2⟩

theorem mem_of_consensusAmount_eq_ok {amount : Int} (h : tx.consensusAmount view = .ok amount) :
    tx.from_ ∈ tx.self.requiredAuths.elems := by
  simp only [consensusAmount] at h
  split_ifs at h with hnet hempty hauth
  exact hauth

theorem prepareConsensusStake_for (h : tx.prepareConsensusStake view = .ok p) : p.For tx := by
  simp only [prepareConsensusStake] at h
  split at h
  · cases h
  rename_i amount hamount
  split_ifs at h
  cases h
  exact ⟨rfl, mem_of_consensusAmount_eq_ok hamount⟩

theorem prepareConsensusUnstake_for (h : tx.prepareConsensusUnstake view = .ok p) :
    p.For tx := by
  simp only [prepareConsensusUnstake] at h
  split at h
  · cases h
  rename_i amount hamount
  iterate 3
    split at h
    · cases h
  · cases h
    exact ⟨rfl, mem_of_consensusAmount_eq_ok hamount⟩

end TxMove

/-- The accounts that signed an operation. -/
def TxSelf.signers (self : TxSelf) : List String :=
  self.requiredAuths.elems ++ self.requiredPostingAuths.elems

def VSCTransaction.MayDebit : VSCTransaction → String → Prop
  | call tx, debited => debited ∈ tx.self.signers ∨ ∃ contractId, debited = account contractId
  | op, debited => debited ∈ op.txSelf.requiredAuths.elems

structure VSCTransaction.Issues (op : VSCTransaction) (event : OpLogEvent) : Prop where
  id : event.id = op.txSelf.txId ∨ event.id = makeTxId op.txSelf.txId op.txSelf.opIndex
  from_ : op.MayDebit event.from_

theorem reads_canConsume (view : ChainView) (se : LedgerSession) (account : String) (height : ℕ)
    (rcAmt : Int) : se.Reads (canConsume view se account height rcAmt).2 := by
  rw [canConsume]
  split
  · exact .refl se
  dsimp only
  generalize (if hasPrefix account "hive:" = true then _ else _ : Int) = balAmt
  split <;> exact se.reads_getBalance ..

theorem TxVscCallContract.caller_mem_signers {t : TxVscCallContract} (hsigned : t.self.signers ≠ [])
    (h : ¬ (t.caller ≠ "" ∧ t.caller ∉ t.self.requiredAuths.elems ∧
      t.caller ∉ t.self.requiredPostingAuths.elems)) : t.caller_ ∈ t.self.signers := by
  rw [caller_]
  split
  · obtain ⟨a, l, hl⟩ := exists_cons_of_ne_nil hsigned
    rw [TxSelf.signers] at hl ⊢
    rw [hl]
    exact mem_cons_self
  rename_i hcaller
  rw [TxSelf.signers, mem_append]
  tauto

namespace VSCTransaction

open LedgerSession

theorem nests_runPrepared (op : VSCTransaction) (tx : TxMove) {p : Except TxResult Prepared}
    (hself : op.txSelf = tx.self)
    (hdebit : ∀ debited ∈ tx.self.requiredAuths.elems, op.MayDebit debited)
    (h : ∀ q, p = .ok q → q.For tx) (s : Sessions) :
    ReflTransGen (Nests op.Issues) (s.ledger, []) ((runPrepared p s).2.ledger, []) := by
  cases p with
  | error r => exact .refl
  | ok q =>
    have hfor := h q rfl
    refine .single (SessionOp.nests q.op (fun event hlogs => ⟨.inr ?_, hdebit _ ?_⟩) [])
    · rw [hlogs.id_eq, hfor.id, hself]
      rfl
    · rw [hlogs.from_eq]
      exact hfor.from_

variable (view : ChainView)

theorem nests_invoke {tx : TxVscCallContract}
    (hcaller : tx.caller_ ∈ tx.self.signers) (info : ContractInfo) (code : String)
    (availableGas : Int) (s : Sessions) (rcPayer : String) :
    ReflTransGen (Nests (call tx).Issues) (s.ledger, [])
      ((tx.invoke view info code availableGas s rcPayer).2.ledger, []) := by
  have hissues : ∀ event, IssuedFor tx.self.txId tx.caller_ event → (call tx).Issues event := by
    intro event h
    refine ⟨.inl h.id, ?_⟩
    rcases h.from_ with heq | hcontract
    · exact .inl (heq ▸ hcaller)
    · exact .inr hcontract
  -- The contract starts in one context, and what its last one leaves open is dropped.
  have hrun : ∀ (host : Host) (vm : Vm) (script : List HostCall), vm.session = (s.ledger, []) →
      (∀ ctx ∈ vm.frames, ctx.ActsFor tx.self.txId tx.caller_) →
      ReflTransGen (Nests (call tx).Issues) (s.ledger, []) ((vm.run host script).ledger, []) := by
    intro host vm script hsession hacts
    have hnests : ReflTransGen (Nests (call tx).Issues) vm.session (vm.run host script).session :=
      ReflTransGen.mono (fun _ _ h => h.mono hissues) _ _ (Vm.nests_run hacts script)
    exact hsession ▸ hnests.tail (.dropped nil_suffix)
  exact hrun _ _ _ rfl (forall_mem_singleton.2 ⟨rfl, .inl rfl⟩)

theorem nests_call {tx : TxVscCallContract} (hsigned : tx.self.signers ≠ [])
    (s : Sessions) (rcPayer : String) :
    ReflTransGen (Nests (call tx).Issues) (s.ledger, [])
      ((tx.executeTx view s rcPayer).2.ledger, []) := by
  have hreads := reads_canConsume view s.ledger rcPayer tx.self.blockHeight 100
  rw [TxVscCallContract.executeTx]
  iterate 4
    split
    · exact .refl
  dsimp only
  split
  · exact .single (.reads hreads)
  split
  · exact .single (.reads hreads)
  rename_i hcaller
  exact .head (.reads hreads)
    (nests_invoke view (tx.caller_mem_signers hsigned hcaller) _ _ _ ⟨_, s.calls⟩ rcPayer)

theorem nests_executeTx {op : VSCTransaction} (hsigned : op.txSelf.signers ≠ [])
    (s : Sessions) (rcPayer : String) :
    ReflTransGen (Nests op.Issues) (s.ledger, []) ((op.executeTx view s rcPayer).2.ledger, []) := by
  cases op with
  | call tx => exact nests_call view hsigned s rcPayer
  | deposit self => exact .refl
  | transfer tx =>
    exact nests_runPrepared (.transfer tx) tx rfl (fun _ h => h) (fun _ => tx.prepareTransfer_for) s
  | withdraw tx =>
    exact nests_runPrepared (.withdraw tx) tx rfl (fun _ h => h) (fun _ => tx.prepareWithdraw_for) s
  | stakeHbd tx =>
    exact nests_runPrepared (.stakeHbd tx) tx rfl (fun _ h => h) (fun _ => tx.prepareStakeHbd_for) s
  | unstakeHbd tx =>
    exact nests_runPrepared (.unstakeHbd tx) tx rfl (fun _ h => h) (fun _ => tx.prepareUnstakeHbd_for) s
  | consensusStake tx =>
    exact nests_runPrepared (.consensusStake tx) tx rfl (fun _ h => h)
      (fun _ => tx.prepareConsensusStake_for) s
  | consensusUnstake tx =>
    exact nests_runPrepared (.consensusUnstake tx) tx rfl (fun _ h => h)
      (fun _ => tx.prepareConsensusUnstake_for) s

end VSCTransaction

end VscNode
