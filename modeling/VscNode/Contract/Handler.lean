import VscNode.Contract.Operations

/-!
# The handler of contract operations

An L1 transaction whose first operation is `vsc.create_contract`, `vsc.update_contract` or
`vsc.cancel_contract_update` is handled while the block is read, outside of the batch that
guards the execution of user operations. Its payload is decoded with errors ignored, a
fee is looked for in the second operation, and the stored versions are written at once.
-/

namespace VscNode.Contracts

open GoJson Text

/-! ## The fee -/

structure HiveOperation where
  type : String
  value : List (String × Json)

def stringAt (value : List (String × Json)) (key : String) : Option String :=
  match value.lookup key with
  | some (.str s) => some s
  | _ => none

def hasFeePaymentOp (ops : List HiveOperation) (feeAmt : Int) (feeAsset : String) :
    Option (Int × String) :=
  match ops with
  | _ :: secondOp :: _ =>
    if secondOp.type ≠ "transfer" then none
    else
      match secondOp.value.lookup "amount" with
      | some (.obj amountData) =>
        match stringAt amountData "amount" with
        | none => none
        | some amountStr =>
          match parseInt amountStr with
          | (_, some _) => none
          | (amount, none) =>
            let feeNai := if feeAsset ≠ "hbd" then "@@000000021" else "@@000000013"
            if amount < feeAmt ∨ stringAt amountData "nai" ≠ some feeNai ∨
                stringAt secondOp.value "to" ≠ some gatewayWallet then none
            else (stringAt secondOp.value "from").map fun from_ => (amount, from_)
      | _ => none
  | _ => none

structure FeeDeposit where
  (id asset : String)
  amount : Int
  (account from_ memo : String)
  blockHeight : ℕ
  deriving DecidableEq

/-- The fee goes to the treasury when the operation earned it, and back otherwise. -/
def feeDeposit (cfg : ContractConfig) (pos : L1Position) (earned : Bool) (fee : Int × String) :
    FeeDeposit where
  id := makeTxId pos.transactionId 1
  asset := "hbd"
  amount := fee.1
  account := if earned then cfg.gatewayWallet else hiveAccount fee.2
  from_ := hiveAccount fee.2
  memo := if earned then "to=vsc.dao" else "to=" ++ fee.2
  blockHeight := pos.blockHeight

/-! ## The handler -/

/-- What became of a contract operation. -/
inductive Report
  | skipped
  | created (result : TxResult)
  | updated (result : UpdateContractResult)
  | cancelled (result : CancelContractUpdateResult)
  deriving DecidableEq

def Report.Failed : Report → Prop
  | skipped => False
  | created result => result.success = false
  | updated result => result.success = false
  | cancelled result => result.success = false

def Report.Accepted : Report → Prop
  | skipped => False
  | created result => result.success = true
  | updated result => result.success = true
  | cancelled result => result.success = true

theorem Report.Accepted.not_failed {r : Report} (h : r.Accepted) : ¬ r.Failed := by
  cases r with
  | skipped => exact id
  | _ => exact fun hfailed => Bool.false_ne_true (hfailed.symm.trans h)

structure Handled where
  report : Report
  contracts : ContractDb
  deposit : Option FeeDeposit := none

structure ContractEngine where
  elections : ElectionDb
  contracts : ContractDb

namespace ContractEngine

variable (cfg : ContractConfig) (s : ContractEngine) (pos : L1Position) (cj : CustomJson)
  (ops : List HiveOperation)

def createTx : TxCreateContract := .decode (pos.txSelf cj) cj.json

/-- The update that a transaction asks for. -/
def updateTx : TxUpdateContract := .decode (pos.txSelf cj) cj.json

/-- The cancellation that a transaction asks for. -/
def cancelTx : TxCancelContractUpdate := .decode (pos.txSelf cj) cj.json

/-- The fee that a transaction pays. -/
def feePaid : Option (Int × String) := hasFeePaymentOp ops contractDeploymentFee "hbd"

def handleCreate : Handled :=
  let (result, contracts) := (createTx pos cj).executeTx cfg s.elections s.contracts
  if cfg.onMainnet = false ∨ contractDeploymentFeeStartHeight ≤ pos.blockHeight then
    match feePaid ops with
    | none => ⟨.skipped, s.contracts, none⟩
    | some fee => ⟨.created result, contracts, some (feeDeposit cfg pos result.success fee)⟩
  else ⟨.created result, contracts, none⟩

def UpdatesTaken : Prop := cfg.onMainnet = false ∨ contractUpdateHeight ≤ pos.blockHeight
  deriving Decidable

def handleUpdate : Except Panic Handled :=
  if UpdatesTaken cfg pos then
    match (updateTx pos cj).executeTx cfg s.elections s.contracts (feePaid ops).isSome with
    | .error p => .error p
    | .ok (result, contracts) =>
      .ok ⟨.updated result, contracts,
        (feePaid ops).map (feeDeposit cfg pos (result.success && result.codeUpdated))⟩
  else .ok ⟨.skipped, s.contracts, none⟩

def handleCancel : Handled :=
  if cfg.onMainnet = false ∨
      contractUpdateTimelockActive (s.elections.activeConsensusVersion pos.blockHeight) then
    let (result, contracts) := (cancelTx pos cj).executeTx s.contracts
    ⟨.cancelled result, contracts, none⟩
  else ⟨.skipped, s.contracts, none⟩

/-- The contract operation at the head of an L1 transaction. -/
def handle : Except Panic Handled :=
  if cj.id = "vsc.create_contract" then .ok (s.handleCreate cfg pos cj ops)
  else if cj.id = "vsc.update_contract" then s.handleUpdate cfg pos cj ops
  else if cj.id = "vsc.cancel_contract_update" then .ok (s.handleCancel cfg pos cj)
  else .ok ⟨.skipped, s.contracts, none⟩

/-! ## What handling comes to -/

def NilFollowed : Prop :=
  cj.id = "vsc.update_contract" ∧ UpdatesTaken cfg pos ∧
    ∃ existing, (updateTx pos cj).Authorized s.contracts existing ∧
      (updateTx pos cj).BringsCode (feePaid ops).isSome existing ∧
      (updateTx pos cj).FollowsNil s.elections

/-- A panic, nothing written, or one of the three writes. -/
inductive Handles : Except Panic Handled → Prop
  | panicked (p : Panic) (hnil : s.NilFollowed cfg pos cj ops) : Handles (.error p)
  | passedOver (out : Handled) (hnil : ¬ s.NilFollowed cfg pos cj ops)
      (hreport : ¬ out.report.Accepted) (hsame : out.contracts = s.contracts) :
      Handles (.ok out)
  | created (deposit : Option FeeDeposit) (signer : String) (election : ElectionResult)
      (cid : String) (hnil : ¬ s.NilFollowed cfg pos cj ops)
      (hsigner : (pos.txSelf cj).requiredAuths.elems.head? = some signer)
      (helection : s.elections.getElectionByHeight pos.blockHeight = some election)
      (hproof : (createTx pos cj).storageProof.verify cfg election = true)
      (hcid : cfg.decodeCid (createTx pos cj).code = some cid) :
      Handles (.ok ⟨.created ⟨true, "", none, 0⟩,
        s.contracts.registerContract (cfg.contractId pos.transactionId pos.opIndex)
          ((createTx pos cj).contract signer (cfg.contractId pos.transactionId pos.opIndex)),
        deposit⟩)
  | updated (deposit : Option FeeDeposit) (existing : Contract) (codeUpdated : Bool)
      (hnil : ¬ s.NilFollowed cfg pos cj ops)
      (hauth : (updateTx pos cj).Authorized s.contracts existing)
      (hchecked : codeUpdated = true →
        ∃ runtime, (updateTx pos cj).Checked cfg s.elections (.ok (.ok runtime))) :
      Handles (.ok ⟨.updated { success := true, codeUpdated := codeUpdated },
        s.contracts.registerContract (updateTx pos cj).id
          (((updateTx pos cj).updatedContract cfg s.elections existing.owner existing).withCode
            ((updateTx pos cj).newCode codeUpdated)),
        deposit⟩)
  | cancelled (deposit : Option FeeDeposit) (n : ℕ) (hnil : ¬ s.NilFollowed cfg pos cj ops) :
      Handles (.ok ⟨.cancelled { success := true, cancelled := n },
        (s.contracts.cancelPendingUpdate (cancelTx pos cj).id pos.blockHeight pos.blockHeight
          pos.transactionId (cancelTx pos cj).targetTx).1,
        deposit⟩)

variable {cfg s pos cj ops}

theorem handles_create (hnil : ¬ s.NilFollowed cfg pos cj ops) :
    s.Handles cfg pos cj ops (.ok (s.handleCreate cfg pos cj ops)) := by
  rw [handleCreate]
  have hexec := (createTx pos cj).executed cfg s.elections s.contracts
  have hself : (createTx pos cj).self = pos.txSelf cj := TxCreateContract.self_decode ..
  generalize (createTx pos cj).executeTx cfg s.elections s.contracts = out at hexec ⊢
  cases hexec with
  | refused err =>
    dsimp only
    split
    · split
      · exact .passedOver _ hnil id rfl
      · exact .passedOver _ hnil Bool.false_ne_true rfl
    · exact .passedOver _ hnil Bool.false_ne_true rfl
  | created signer rest election cid hauths helection hproof hcid =>
    rw [hself] at hauths helection ⊢
    have hsigner : (pos.txSelf cj).requiredAuths.elems.head? = some signer := by
      rw [hauths, List.head?_cons]
    dsimp only
    split
    · split
      · exact .passedOver _ hnil id rfl
      · exact .created _ signer election cid hnil hsigner helection hproof hcid
    · exact .created _ signer election cid hnil hsigner helection hproof hcid

theorem handles_update (hid : cj.id = "vsc.update_contract") :
    s.Handles cfg pos cj ops (s.handleUpdate cfg pos cj ops) := by
  rw [handleUpdate]
  split
  · rename_i htaken
    have hexec := (updateTx pos cj).executed cfg s.elections s.contracts (feePaid ops).isSome
    have hunique : ∀ existing existing', (updateTx pos cj).Authorized s.contracts existing →
        (updateTx pos cj).Authorized s.contracts existing' → existing = existing' :=
      fun _ _ h h' => Option.some.inj (h.found.symm.trans h'.found)
    generalize (updateTx pos cj).executeTx cfg s.elections s.contracts (feePaid ops).isSome = out
      at hexec ⊢
    cases hexec with
    | refused err hcode =>
      refine .passedOver _ ?_ Bool.false_ne_true rfl
      rintro ⟨-, -, existing, hauth, -, hnil⟩
      exact (hcode existing hauth).2 hnil
    | panicked p existing hauth hcode hnil =>
      exact .panicked p ⟨hid, htaken, existing, hauth, hcode, hnil⟩
    | updated existing codeUpdated hauth hcode hchecked =>
      refine .updated _ existing codeUpdated ?_ hauth hchecked
      rintro ⟨-, -, existing', hauth', hcode', hnil⟩
      obtain rfl := hunique existing' existing hauth' hauth
      obtain ⟨runtime, hpassed⟩ := hchecked (hcode.2 hcode')
      cases hpassed with
      | passed _ _ _ _ hnot => exact hnot hnil
  · rename_i htaken
    exact .passedOver _ (fun h => htaken h.2.1) id rfl

theorem handles_cancel (hnil : ¬ s.NilFollowed cfg pos cj ops) :
    s.Handles cfg pos cj ops (.ok (s.handleCancel cfg pos cj)) := by
  rw [handleCancel]
  split
  · have hexec := (cancelTx pos cj).executed s.contracts
    have hself : (cancelTx pos cj).self = pos.txSelf cj := TxCancelContractUpdate.self_decode ..
    generalize (cancelTx pos cj).executeTx s.contracts = out at hexec ⊢
    cases hexec with
    | refused err => exact .passedOver _ hnil Bool.false_ne_true rfl
    | cancelled n =>
      rw [hself]
      exact .cancelled none n hnil
  · exact .passedOver _ hnil id rfl

theorem handles (cfg : ContractConfig) (s : ContractEngine) (pos : L1Position) (cj : CustomJson)
    (ops : List HiveOperation) : s.Handles cfg pos cj ops (s.handle cfg pos cj ops) := by
  rw [handle]
  split
  · rename_i hid
    exact handles_create fun h => absurd (hid.symm.trans h.1) (by decide)
  split
  · rename_i hid
    exact handles_update hid
  rename_i hupdate
  split
  · exact handles_cancel fun h => hupdate h.1
  · exact .passedOver _ (fun h => hupdate h.1) id rfl

/-! ## Runs -/

end ContractEngine

inductive ContractEvent
  | election (election : ElectionResult)
  | operation (pos : L1Position) (cj : CustomJson) (ops : List HiveOperation)

def ContractEvent.height : ContractEvent → ℕ
  | election e => e.blockHeight
  | operation pos _ _ => pos.blockHeight

namespace ContractEngine

variable (cfg : ContractConfig)

/-- A node that panics stays where it is. -/
def step (s : ContractEngine) : ContractEvent → ContractEngine
  | .election e => { s with elections := s.elections.put e }
  | .operation pos cj ops =>
    match s.handle cfg pos cj ops with
    | .error _ => s
    | .ok out => { s with contracts := out.contracts }

def initial : ContractEngine := ⟨.empty, .empty⟩

def run (es : List ContractEvent) : ContractEngine :=
  es.foldl (step cfg) initial

theorem run_concat (es : List ContractEvent) (e : ContractEvent) :
    run cfg (es ++ [e]) = (run cfg es).step cfg e := by
  rw [run, List.foldl_append, List.foldl_cons, List.foldl_nil, run]

/-! ## Panics -/

variable {cfg : ContractConfig} {s : ContractEngine} {pos : L1Position} {cj : CustomJson}
  {ops : List HiveOperation}

variable (cfg s pos cj ops) in
def Returns : Prop :=
  ∃ out, s.handle cfg pos cj ops = .ok out ∧ (out.report.Failed → out.contracts = s.contracts)

/-- A contract operation is handled without a panic, and without a trace where it fails,
unless it is an update that follows a nil pointer. -/
theorem returns_iff (cfg : ContractConfig) (s : ContractEngine) (pos : L1Position)
    (cj : CustomJson) (ops : List HiveOperation) :
    s.Returns cfg pos cj ops ↔ ¬ s.NilFollowed cfg pos cj ops := by
  rw [Returns]
  have hhandles := handles cfg s pos cj ops
  generalize s.handle cfg pos cj ops = out at hhandles ⊢
  cases hhandles with
  | panicked p hnil => simp [hnil]
  | passedOver out hnil _ hsame => exact iff_of_true ⟨out, rfl, fun _ => hsame⟩ hnil
  | created _ _ _ _ hnil =>
    exact iff_of_true ⟨_, rfl, fun h => absurd h (Report.Accepted.not_failed rfl)⟩ hnil
  | updated _ _ _ hnil =>
    exact iff_of_true ⟨_, rfl, fun h => absurd h (Report.Accepted.not_failed rfl)⟩ hnil
  | cancelled _ _ hnil =>
    exact iff_of_true ⟨_, rfl, fun h => absurd h (Report.Accepted.not_failed rfl)⟩ hnil

end ContractEngine

/-! ## An update without a runtime -/

/-- A network without a timelock whose libraries accept nothing. -/
def plainConfig : ContractConfig where
  onMainnet := false
  gatewayWallet := "hive:vsc.gateway"
  contractUpdateTimelockBlocks := 0
  minSpSigners := 1
  dids := ⟨fun _ => false, fun _ => false, fun _ => false, fun _ => false, fun _ => false,
    fun _ _ _ => false⟩
  parseCid _ := none
  decodeCid _ := none
  contractId txId _ := txId

def deployed : Contract where
  id := "c"
  code := "code"
  name := "counter"
  description := ""
  creator := "hive:alice"
  owner := "hive:alice"
  txId := "t0"
  creationHeight := 5
  runtime := "go"
  activationHeight := 5
  proposer := "hive:alice"

def feeTransfer : HiveOperation :=
  ⟨"transfer", [("from", .str "alice"), ("to", .str "vsc.gateway"),
    ("amount", .obj [("amount", .str "10000"), ("nai", .str "@@000000013")])]⟩

theorem update_without_runtime :
    ¬ ContractEngine.Returns plainConfig ⟨.empty, Collection.empty.put deployed⟩
      ⟨"t1", 9, "b9", "", 0, 0⟩
      ⟨"vsc.update_contract", ["alice"], [], some (.obj [("id", .str "c"), ("code", .str "new")])⟩
      [⟨"custom_json", []⟩, feeTransfer] := by
  rintro ⟨out, hout, -⟩
  have hpanic : ContractEngine.handle plainConfig ⟨.empty, Collection.empty.put deployed⟩
      ⟨"t1", 9, "b9", "", 0, 0⟩
      ⟨"vsc.update_contract", ["alice"], [], some (.obj [("id", .str "c"), ("code", .str "new")])⟩
      [⟨"custom_json", []⟩, feeTransfer] = .error .nilRuntime := by rfl
  rw [hpanic] at hout
  cases hout

end VscNode.Contracts
