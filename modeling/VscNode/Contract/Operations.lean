import VscNode.Chain.Election
import VscNode.Contract.Registry
import VscNode.StateEngine.Execute

/-!
# Contract operations

A contract is created with a storage proof for its code, an aggregate signature of the
committee over a content id. Its owner can update it: name and description are replaced,
the owner where the update names one, and the code where it names another and a fee is
paid, again with a proof. The new version is a copy of the active one with these changes;
it becomes active after the network's timelock, and until then the owner can cancel it.

`runtime` and `storage_proof` of an update are pointers. They are followed only when the
update brings new code, so their absence is a panic there (`Panic`), and nowhere else.
-/

namespace VscNode.Contracts

open GoJson Pendulum Text TransactionPool List

/-! ## Parameters -/

def contractDeploymentFee : Int := 10000

def contractDeploymentFeeStartHeight : ℕ := 99410000

def contractUpdateHeight : ℕ := 102100000

def gatewayWallet : String := "vsc.gateway"

/-- What the handlers take from the network's configuration and from libraries. `parseCid`
and `decodeCid` read the text of a content id, `contractId` names the contract an
operation creates. -/
structure ContractConfig where
  onMainnet : Bool
  gatewayWallet : String
  (contractUpdateTimelockBlocks minSpSigners : ℕ)
  dids : DidLib
  (parseCid decodeCid : String → Option String)
  contractId : String → Int → String

def contractUpdateTimelockActive (active : Version) : Bool := active.meetsConsensusMin ⟨0, 2, 0⟩

variable (cfg : ContractConfig) (self : TxSelf) (self_ : TxSelf) (json : Option Json)

def ContractConfig.contractUpdateActivationHeight (submitHeight : ℕ) (active : Version) : ℕ :=
  if cfg.contractUpdateTimelockBlocks = 0 then submitHeight
  else if cfg.onMainnet ∧ contractUpdateTimelockActive active = false then submitHeight
  else submitHeight + cfg.contractUpdateTimelockBlocks

theorem ContractConfig.le_contractUpdateActivationHeight (submitHeight : ℕ) (active : Version) :
    submitHeight ≤ cfg.contractUpdateActivationHeight submitHeight active := by
  rw [contractUpdateActivationHeight]
  split
  · exact le_rfl
  split
  · exact le_rfl
  · exact Nat.le_add_right ..

/-- `NewFromString` knows the name. -/
def isRuntime (name : String) : Bool := name = "assembly-script" || name = "go"

def ownerAccount (owner : String) : String :=
  if hasPrefix owner "hive:" = false ∧ hasPrefix owner "did:" = false then hiveAccount owner
  else owner

/-! ## Storage proofs -/

structure SerializedCircuit where
  signature : String := ""
  bitVector : String := ""
  deriving DecidableEq

structure StorageProof where
  hash : String := ""
  signature : SerializedCircuit := {}
  deriving DecidableEq

variable (s : String) (c : SerializedCircuit) (p : StorageProof)

namespace SerializedCircuit

def setSignature : SerializedCircuit :=
  { c with signature := s }
def setBitVector : SerializedCircuit :=
  { c with bitVector := s }

def fields : List (StructField SerializedCircuit) :=
  [.of "sig" string signature setSignature, .of "bv" string bitVector setBitVector]

end SerializedCircuit

namespace StorageProof

def setHash : StorageProof := { p with hash := s }
def setSignature : StorageProof :=
  { p with signature := c }

def fields : List (StructField StorageProof) :=
  [.of "hash" string hash setHash,
    .of "signature" (struct SerializedCircuit.fields) signature setSignature]

/-- Enough seats of the committee signed the data the proof names. -/
def verify (cfg : ContractConfig) (sp : StorageProof) (election : ElectionResult) : Bool :=
  let didMembers := election.members.map (·.key)
  match cfg.parseCid sp.hash with
  | none => false
  | some cid =>
    match deserializeBlsCircuit cfg.dids sp.signature.signature sp.signature.bitVector
        didMembers cid with
    | .error _ => false
    | .ok circuit =>
      match circuit.verify cfg.dids with
      | .error _ => false
      | .ok (verified, includedDids) =>
        if verified = false ∨ includedDids.length < cfg.minSpSigners then false else true

end StorageProof

/-! ## Creating a contract -/

structure TxCreateContract where
  self : TxSelf
  version : String := ""
  netId : String := ""
  name : String := ""
  code : String := ""
  runtime : String := ""
  owner : String := ""
  description : String := ""
  storageProof : StorageProof := {}
  deriving DecidableEq

namespace TxCreateContract

variable (s : String) (t : TxCreateContract)

def setVersion : TxCreateContract := { t with version := s }
def setNetId : TxCreateContract := { t with netId := s }
def setName : TxCreateContract := { t with name := s }
def setCode : TxCreateContract := { t with code := s }
def setRuntime : TxCreateContract := { t with runtime := s }
def setOwner : TxCreateContract := { t with owner := s }
def setDescription : TxCreateContract :=
  { t with description := s }
def setStorageProof (t : TxCreateContract) : TxCreateContract :=
  { t with storageProof := p }

def fields : List (StructField TxCreateContract) :=
  [.of "__v" string version setVersion, .of "net_id" string netId setNetId,
    .of "name" string name setName, .of "code" string code setCode,
    .of "runtime" string runtime setRuntime, .of "owner" string owner setOwner,
    .of "description" string description setDescription,
    .of "storage_proof" (struct StorageProof.fields) storageProof setStorageProof]

def decode : TxCreateContract :=
  json.elim { self := self } fun v => membersUpTo ["runtime"] fields (membersOf v) { self := self }

@[simp] theorem self_decode : (decode self_ json).self = self_ := by
  cases json with
  | none => rfl
  | some v =>
    refine @proj_membersUpTo_eq_self _ _ _ TxCreateContract.self _ ?_ (membersOf v) _
    iterate 8 refine forall_mem_cons.2 ⟨fun _ _ => rfl, ?_⟩
    exact nofun

variable (elections : ElectionDb) (contracts : ContractDb) (tx : TxCreateContract)

def contract (signer : String) (id : String) : Contract where
  id := id
  code := tx.code
  name := tx.name
  description := tx.description
  creator := signer
  owner := if tx.owner = "" then signer else ownerAccount tx.owner
  proposer := signer
  txId := tx.self.txId
  creationHeight := tx.self.blockHeight
  activationHeight := tx.self.blockHeight
  runtime := tx.runtime

def executeTx : TxResult × ContractDb :=
  if isRuntime tx.runtime = false then (refused "runtime name is invalid" 0, contracts)
  else
    match tx.self.requiredAuths.elems with
    | [] => (refused "cannot create contract with posting auths" 0, contracts)
    | signer :: _ =>
      match elections.getElectionByHeight tx.self.blockHeight with
      | none =>
        (refused ("failed to get election at height " ++ formatUint tx.self.blockHeight ++
          ": mongo: no documents in result") 0, contracts)
      | some election =>
        if tx.storageProof.verify cfg election = false then
          (refused "invalid storage proof" 0, contracts)
        else
          match cfg.decodeCid tx.code with
          | none => (refused "invalid contract code cid" 0, contracts)
          | some _ =>
            let id := cfg.contractId tx.self.txId tx.self.opIndex
            (⟨true, "", none, 0⟩, contracts.registerContract id (tx.contract signer id))

/-- What executing the operation comes to. -/
inductive Executed (cfg : ContractConfig) (elections : ElectionDb) (contracts : ContractDb)
    (tx : TxCreateContract) : TxResult × ContractDb → Prop
  | refused (err : String) : Executed cfg elections contracts tx (refused err 0, contracts)
  | created (signer : String) (rest : List String) (election : ElectionResult) (cid : String)
      (hauths : tx.self.requiredAuths.elems = signer :: rest)
      (helection : elections.getElectionByHeight tx.self.blockHeight = some election)
      (hproof : tx.storageProof.verify cfg election = true)
      (hcid : cfg.decodeCid tx.code = some cid) :
      Executed cfg elections contracts tx (⟨true, "", none, 0⟩,
          contracts.registerContract (cfg.contractId tx.self.txId tx.self.opIndex)
            (tx.contract signer (cfg.contractId tx.self.txId tx.self.opIndex)))

theorem executed : Executed cfg elections contracts tx (tx.executeTx cfg elections contracts) := by
  rw [executeTx]
  split
  · exact .refused _
  cases hauths : tx.self.requiredAuths.elems with
  | nil => exact .refused _
  | cons signer rest =>
    cases helection : elections.getElectionByHeight tx.self.blockHeight with
    | none => exact .refused _
    | some election =>
      dsimp only
      split
      · exact .refused _
      rename_i hproof
      cases hcid : cfg.decodeCid tx.code with
      | none => exact .refused _
      | some cid =>
        exact .created signer rest election cid hauths helection (Bool.not_eq_false _ ▸ hproof) hcid

end TxCreateContract

/-! ## Updating a contract -/

def Contract.withCode (c : Contract) : Option (String × String) → Contract
  | none => c
  | some (code, runtime) => { c with code := code, runtime := runtime }

/-- A nil pointer is followed. -/
inductive Panic
  | nilRuntime | nilStorageProof
  deriving DecidableEq

structure UpdateContractResult where
  success : Bool
  codeUpdated : Bool := false
  err : String := ""
  deriving DecidableEq

structure TxUpdateContract where
  self : TxSelf
  netId : String := ""
  id : String := ""
  name : String := ""
  description : String := ""
  owner : String := ""
  runtime : Option String := none
  code : String := ""
  storageProof : Option StorageProof := none
  deriving DecidableEq

namespace TxUpdateContract

variable (s : String) (t : TxUpdateContract)

def setNetId : TxUpdateContract := { t with netId := s }
def setId : TxUpdateContract := { t with id := s }
def setName : TxUpdateContract := { t with name := s }
def setDescription : TxUpdateContract :=
  { t with description := s }
def setOwner : TxUpdateContract := { t with owner := s }
def setRuntime (r : Option String) (t : TxUpdateContract) : TxUpdateContract :=
  { t with runtime := r }
def setCode : TxUpdateContract := { t with code := s }
def setStorageProof (p : Option StorageProof) (t : TxUpdateContract) : TxUpdateContract :=
  { t with storageProof := p }

def fields : List (StructField TxUpdateContract) :=
  [.of "net_id" string netId setNetId, .of "id" string id setId, .of "name" string name setName,
    .of "description" string description setDescription, .of "owner" string owner setOwner,
    .of "runtime" (pointer "" string) runtime setRuntime, .of "code" string code setCode,
    .of "storage_proof" (pointer {} (struct StorageProof.fields)) storageProof setStorageProof]

def decode : TxUpdateContract :=
  json.elim { self := self } fun v => membersUpTo ["runtime"] fields (membersOf v) { self := self }

@[simp] theorem self_decode : (decode self_ json).self = self_ := by
  cases json with
  | none => rfl
  | some v =>
    refine @proj_membersUpTo_eq_self _ _ _ TxUpdateContract.self _ ?_ (membersOf v) _
    iterate 8 refine forall_mem_cons.2 ⟨fun _ _ => rfl, ?_⟩
    exact nofun

def refusedUpdate (err : String) : UpdateContractResult := { success := false, err := err }

variable (cfg : ContractConfig) (elections : ElectionDb) (tx : TxUpdateContract)

/-- The update asks for code that the contract does not run yet, and its fee is paid. -/
def BringsCode (hasFee : Bool) (existing : Contract) : Prop :=
  hasFee = true ∧ tx.code ≠ "" ∧ tx.code ≠ existing.code
  deriving Decidable

def checkCode : Except Panic (Except String String) :=
  match tx.runtime with
  | none => .error .nilRuntime
  | some runtime =>
    if isRuntime runtime = false then .ok (.error "runtime name is invalid")
    else
      match elections.getElectionByHeight tx.self.blockHeight with
      | none => .ok (.error "failed to get election")
      | some election =>
        match tx.storageProof with
        | none => .error .nilStorageProof
        | some proof =>
          if proof.verify cfg election = false then .ok (.error "invalid storage proof")
          else
            match cfg.decodeCid tx.code with
            | none => .ok (.error "invalid contract code cid")
            | some _ => .ok (.ok runtime)

def updatedContract (signer : String) (existing : Contract) : Contract where
  id := tx.id
  name := tx.name
  description := tx.description
  creator := existing.creator
  owner := if tx.owner = "" then existing.owner else ownerAccount tx.owner
  runtime := existing.runtime
  code := existing.code
  txId := tx.self.txId
  creationHeight := tx.self.blockHeight
  proposer := signer
  activationHeight := cfg.contractUpdateActivationHeight tx.self.blockHeight
    (elections.activeConsensusVersion tx.self.blockHeight)

def executeTx (contracts : ContractDb) (tx : TxUpdateContract) (hasFee : Bool) :
    Except Panic (UpdateContractResult × ContractDb) :=
  match tx.self.requiredAuths.elems with
  | [] => .ok (refusedUpdate "cannot update contract with posting auths", contracts)
  | signer :: _ =>
    match contracts.contractById tx.id tx.self.blockHeight with
    | none => .ok (refusedUpdate "failed to retrieve contract to update", contracts)
    | some existing =>
      if signer ≠ existing.owner then .ok (refusedUpdate "not owner", contracts)
      else
        let updated := tx.updatedContract cfg elections signer existing
        if tx.BringsCode hasFee existing then
          match tx.checkCode cfg elections with
          | .error p => .error p
          | .ok (.error err) => .ok (refusedUpdate err, contracts)
          | .ok (.ok runtime) =>
            .ok ({ success := true, codeUpdated := true }, contracts.registerContract tx.id
                { updated with code := tx.code, runtime := runtime })
        else .ok ({ success := true }, contracts.registerContract tx.id updated)

/-- The code is checked through a pointer that is nil. -/
def FollowsNil : Prop :=
  tx.runtime = none ∨ (∃ runtime ∈ tx.runtime, isRuntime runtime = true) ∧
      (elections.getElectionByHeight tx.self.blockHeight).isSome ∧ tx.storageProof = none

inductive Checked (cfg : ContractConfig) (elections : ElectionDb) (tx : TxUpdateContract) :
    Except Panic (Except String String) → Prop
  | panicked (p : Panic) (hnil : tx.FollowsNil elections) : Checked cfg elections tx (.error p)
  | refused (err : String) (hnil : ¬ tx.FollowsNil elections) :
      Checked cfg elections tx (.ok (.error err))
  | passed (runtime : String) (election : ElectionResult) (proof : StorageProof) (cid : String)
      (hnil : ¬ tx.FollowsNil elections) (hruntime : tx.runtime = some runtime)
      (helection : elections.getElectionByHeight tx.self.blockHeight = some election)
      (hsome : tx.storageProof = some proof) (hproof : proof.verify cfg election = true)
      (hcid : cfg.decodeCid tx.code = some cid) :
      Checked cfg elections tx (.ok (.ok runtime))

theorem checked : Checked cfg elections tx (tx.checkCode cfg elections) := by
  rw [checkCode]
  cases hruntime : tx.runtime with
  | none => exact .panicked _ (.inl hruntime)
  | some runtime =>
    dsimp only
    split
    · rename_i hname
      exact .refused _ (by simp [FollowsNil, hruntime, hname])
    rename_i hname
    cases helection : elections.getElectionByHeight tx.self.blockHeight with
    | none => exact .refused _ (by simp [FollowsNil, hruntime, helection])
    | some election =>
      cases hsome : tx.storageProof with
      | none =>
        exact .panicked _ (.inr (by simpa [hruntime, helection, hsome] using hname))
      | some proof =>
        have hnil : ¬ tx.FollowsNil elections := by simp [FollowsNil, hruntime, hsome]
        dsimp only
        split
        · exact .refused _ hnil
        rename_i hproof
        cases hcid : cfg.decodeCid tx.code with
        | none => exact .refused _ hnil
        | some cid =>
          exact .passed runtime election proof cid hnil hruntime helection hsome
            (Bool.not_eq_false _ ▸ hproof) hcid

structure Authorized (contracts : ContractDb) (tx : TxUpdateContract) (existing : Contract) :
    Prop where
  found : contracts.contractById tx.id tx.self.blockHeight = some existing
  signed : tx.self.requiredAuths.elems.head? = some existing.owner

def newCode (codeUpdated : Bool) : Option (String × String) :=
  if codeUpdated then tx.runtime.map fun runtime => (tx.code, runtime) else none

/-- What executing the operation comes to. -/
inductive Executed (cfg : ContractConfig) (elections : ElectionDb) (contracts : ContractDb)
    (tx : TxUpdateContract) (hasFee : Bool) :
    Except Panic (UpdateContractResult × ContractDb) → Prop
  | refused (err : String)
      (hcode : ∀ existing, tx.Authorized contracts existing →
        tx.BringsCode hasFee existing ∧ ¬ tx.FollowsNil elections) :
      Executed cfg elections contracts tx hasFee (.ok (refusedUpdate err, contracts))
  | panicked (p : Panic) (existing : Contract) (hauth : tx.Authorized contracts existing)
      (hcode : tx.BringsCode hasFee existing) (hnil : tx.FollowsNil elections) :
      Executed cfg elections contracts tx hasFee (.error p)
  | updated (existing : Contract) (codeUpdated : Bool) (hauth : tx.Authorized contracts existing)
      (hcode : codeUpdated = true ↔ tx.BringsCode hasFee existing)
      (hchecked : codeUpdated = true → ∃ runtime, Checked cfg elections tx (.ok (.ok runtime))) :
      Executed cfg elections contracts tx hasFee
        (.ok ({ success := true, codeUpdated := codeUpdated }, contracts.registerContract tx.id
          ((tx.updatedContract cfg elections existing.owner existing).withCode
            (tx.newCode codeUpdated))))

theorem executed (contracts : ContractDb) (tx : TxUpdateContract) (hasFee : Bool) :
    Executed cfg elections contracts tx hasFee (tx.executeTx cfg elections contracts hasFee) := by
  rw [executeTx]
  cases hauths : tx.self.requiredAuths.elems with
  | nil =>
    exact .refused _ fun existing hauth => by simpa [hauths] using hauth.signed
  | cons signer rest =>
    cases hfound : contracts.contractById tx.id tx.self.blockHeight with
    | none =>
      exact .refused _ fun existing hauth => by simpa [hfound] using hauth.found
    | some existing =>
      have hunique : ∀ existing', tx.Authorized contracts existing' → existing' = existing :=
        fun existing' hauth => Option.some.inj (hauth.found.symm.trans hfound)
      dsimp only
      split
      · rename_i hne
        refine .refused _ fun existing' hauth => absurd ?_ hne
        have hsigned := hauth.signed
        rw [hunique existing' hauth, hauths, head?_cons, Option.some.injEq] at hsigned
        exact hsigned
      rename_i howner
      rw [not_not] at howner
      subst howner
      have hauth : tx.Authorized contracts existing := ⟨hfound, by rw [hauths]; rfl⟩
      split
      · rename_i hcode
        have hchecked := checked cfg elections tx
        generalize tx.checkCode cfg elections = out at hchecked
        cases hchecked with
        | panicked p hnil => exact .panicked p existing hauth hcode hnil
        | refused err hnil =>
          refine .refused err fun existing' hauth' => ?_
          rw [hunique existing' hauth']
          exact ⟨hcode, hnil⟩
        | passed runtime election proof cid hnil hruntime helection hsome hproof hcid =>
          have hnew : tx.newCode true = some (tx.code, runtime) := by
            rw [newCode, if_pos rfl, hruntime, Option.map_some]
          have hupdated := Executed.updated existing true hauth ⟨fun _ => hcode, fun _ => rfl⟩
            fun _ => ⟨runtime, .passed runtime election proof cid hnil hruntime helection
              hsome hproof hcid⟩
          rw [hnew] at hupdated
          exact hupdated
      · rename_i hcode
        exact .updated existing false hauth (by simp [hcode]) (by simp)

end TxUpdateContract

/-! ## Cancelling an update -/

structure CancelContractUpdateResult where
  success : Bool
  cancelled : ℕ := 0
  err : String := ""
  deriving DecidableEq

structure TxCancelContractUpdate where
  self : TxSelf
  netId : String := ""
  id : String := ""
  txId : String := ""
  deriving DecidableEq

namespace TxCancelContractUpdate

variable (s : String) (t : TxCancelContractUpdate)

def setNetId : TxCancelContractUpdate :=
  { t with netId := s }
def setId : TxCancelContractUpdate := { t with id := s }
def setTxId : TxCancelContractUpdate :=
  { t with txId := s }

def fields : List (StructField TxCancelContractUpdate) :=
  [.of "net_id" string netId setNetId, .of "id" string id setId, .of "tx_id" string txId setTxId]

def decode : TxCancelContractUpdate :=
  json.elim { self := self } fun v => (struct fields).apply v { self := self }

@[simp] theorem self_decode : (decode self_ json).self = self_ := by
  cases json with
  | none => rfl
  | some v =>
    refine @proj_members_eq_self _ _ _ TxCancelContractUpdate.self ?_ (membersOf v) _
    iterate 3 refine forall_mem_cons.2 ⟨fun _ _ => rfl, ?_⟩
    exact nofun

variable (contracts : ContractDb) (tx : TxCancelContractUpdate)

/-- The update to cancel, or every pending one. -/
def targetTx : Option String :=
  if tx.txId ≠ "" then some tx.txId else none

def refusedCancel (err : String) : CancelContractUpdateResult := { success := false, err := err }

def executeTx : CancelContractUpdateResult × ContractDb :=
  match tx.self.requiredAuths.elems with
  | [] => (refusedCancel "cannot cancel contract update with posting auths", contracts)
  | signer :: _ =>
    match contracts.contractById tx.id tx.self.blockHeight with
    | none => (refusedCancel "failed to retrieve contract to cancel update", contracts)
    | some existing =>
      if signer ≠ existing.owner then (refusedCancel "not owner", contracts)
      else
        let (contracts', cancelled) := contracts.cancelPendingUpdate tx.id tx.self.blockHeight
          tx.self.blockHeight tx.self.txId tx.targetTx
        ({ success := true, cancelled := cancelled }, contracts')

/-- What executing the operation comes to. -/
inductive Executed (contracts : ContractDb) (tx : TxCancelContractUpdate) :
    CancelContractUpdateResult × ContractDb → Prop
  | refused (err : String) : Executed contracts tx (refusedCancel err, contracts)
  | cancelled (n : ℕ) :
      Executed contracts tx ({ success := true, cancelled := n },
        (contracts.cancelPendingUpdate tx.id tx.self.blockHeight tx.self.blockHeight tx.self.txId
          tx.targetTx).1)

theorem executed : Executed contracts tx (tx.executeTx contracts) := by
  rw [executeTx]
  iterate 3
    split
    · exact .refused _
  · exact .cancelled _

end TxCancelContractUpdate

end VscNode.Contracts
