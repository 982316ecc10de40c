import VscNode.Contract.Execution
import VscNode.Lib.GoJson

/-!
# Operations and where they come from

An operation carries a `TxSelf`: the transaction it belongs to and the accounts
that signed it. An operation of an L1 `custom_json` gets it from the block, one of
an off-chain transaction from the block that carries the transaction and from its
headers. The payload is then decoded into the operation, over what was put there.
-/

variable (n : ℕ)

namespace VscNode

open GoJson Text

/-! ## Operations -/

structure TxSelf where
  txId : String := ""
  blockId : String := ""
  blockHeight : ℕ := 0
  index : Int := 0
  opIndex : Int := 0
  timestamp : String := ""
  requiredAuths : Slice := {}
  requiredPostingAuths : Slice := {}
  deriving DecidableEq

structure TxMove where
  self : TxSelf
  netId : String := ""
  from_ : String := ""
  to_ : String := ""
  amount : String := ""
  asset : String := ""
  memo : String := ""
  typei : String := ""

structure TxVscCallContract where
  self : TxSelf
  netId : String := ""
  caller : String := ""
  contractId : String := ""
  action : String := ""
  payload : Json := .null
  rcLimit : ℕ := 0
  intents : List Intent := []

inductive VSCTransaction
  | call (tx : TxVscCallContract)
  | deposit (self : TxSelf)
  | transfer (tx : TxMove)
  | withdraw (tx : TxMove)
  | stakeHbd (tx : TxMove)
  | unstakeHbd (tx : TxMove)
  | consensusStake (tx : TxMove)
  | consensusUnstake (tx : TxMove)

namespace VSCTransaction

def type : VSCTransaction → String
  | call _ => "call"
  | deposit _ => "deposit"
  | transfer _ => "transfer"
  | withdraw _ => "withdraw"
  | stakeHbd _ => "stake_hbd"
  | unstakeHbd _ => "unstake_hbd"
  | consensusStake _ => "consensus_stake"
  | consensusUnstake _ => "consensus_unstake"

def txSelf : VSCTransaction → TxSelf
  | call tx => tx.self
  | deposit self => self
  | transfer tx => tx.self
  | withdraw tx => tx.self
  | stakeHbd tx => tx.self
  | unstakeHbd tx => tx.self
  | consensusStake tx => tx.self
  | consensusUnstake tx => tx.self

end VSCTransaction

/-- The id of an operation of a transaction. -/
def makeTxId (txId : String) (opIdx : Int) : String :=
  if opIdx = 0 then txId else txId ++ "-" ++ formatInt opIdx

/-- The transaction comes before the dash. -/
theorem headD_fields_makeTxId {txId : String} (hdash : Free '-' txId) (idx : ℕ) :
    (fields '-' (makeTxId txId idx)).headD "" = txId := by
  rw [makeTxId]
  split
  · rw [fields_of_free hdash]
    rfl
  rw [String.append_assoc, fields_suffix (formatUint idx) (by simp [formatInt])
    (free_formatUint (by decide) idx), fields_of_free hdash]
  rfl

/-! ## Decoding -/

namespace TxSelf

variable (s : String) (t : TxSelf)

def setTxId : TxSelf := { t with txId := s }
def setBlockId : TxSelf := { t with blockId := s }
def setBlockHeight (t : TxSelf) : TxSelf := { t with blockHeight := n }
def setIndex (n : Int) (t : TxSelf) : TxSelf := { t with index := n }
def setOpIndex (n : Int) (t : TxSelf) : TxSelf := { t with opIndex := n }
def setTimestamp : TxSelf := { t with timestamp := s }
def setRequiredAuths (s : Slice) (t : TxSelf) : TxSelf := { t with requiredAuths := s }
def setRequiredPostingAuths (s : Slice) (t : TxSelf) : TxSelf :=
  { t with requiredPostingAuths := s }

/-- None of the fields has a tag, so each goes by its Go name. -/
def fields : List (StructField TxSelf) :=
  [.of "TxId" string txId setTxId, .of "BlockId" string blockId setBlockId,
   .of "BlockHeight" uint64 blockHeight setBlockHeight,
   .of "Index" int64 index setIndex,
   .of "OpIndex" int64 opIndex setOpIndex,
   .of "Timestamp" string timestamp setTimestamp,
   .of "RequiredAuths" slice requiredAuths setRequiredAuths,
   .of "RequiredPostingAuths" slice requiredPostingAuths setRequiredPostingAuths]

end TxSelf

namespace TxMove

def setSelf (s : TxSelf) (t : TxMove) : TxMove := { t with self := s }

variable (s : String) (t : TxMove)

def setNetId : TxMove := { t with netId := s }
def setFrom : TxMove := { t with from_ := s }
def setTo : TxMove := { t with to_ := s }
def setAmount : TxMove := { t with amount := s }
def setAsset : TxMove := { t with asset := s }
def setMemo : TxMove := { t with memo := s }
def setTypei : TxMove := { t with typei := s }

/-- The fields every one of these operations has. -/
def common : List (StructField TxMove) :=
  [.of "from" string from_ setFrom, .of "to" string to_ setTo,
   .of "amount" string amount setAmount, .of "asset" string asset setAsset,
   .of "net_id" string netId setNetId]

def self_ : StructField TxMove := .of "Self" (struct TxSelf.fields) self setSelf

def memo_ : StructField TxMove := .of "memo" string memo setMemo

/-- The fields of `TxVSCTransfer` and `TxVSCWithdraw`. -/
def transferFields : List (StructField TxMove) := self_ :: memo_ :: common

def stakeHbdFields : List (StructField TxMove) := self_ :: .of "type" string typei setTypei :: common

/-- The fields of `TxUnstakeHbd` and `TxConsensusUnstake`. -/
def unstakeFields : List (StructField TxMove) := self_ :: common

/-- `TxConsensusStake` keeps `Self` out of the decoder with the tag `-`. -/
def consensusStakeFields : List (StructField TxMove) := common

end TxMove

namespace Intent

def setType (s : String) (i : Intent) : Intent := { i with type := s }
def setArgs (args : List (String × String)) (i : Intent) : Intent := { i with args := args }

def fields : List (StructField Intent) :=
  [.of "type" string type setType, .of "args" stringMap args setArgs]

end Intent

variable (v : Json)

namespace TxVscCallContract

def setSelf (s : TxSelf) (t : TxVscCallContract) : TxVscCallContract := { t with self := s }

variable (s : String) (t : TxVscCallContract)

def setNetId : TxVscCallContract := { t with netId := s }
def setCaller : TxVscCallContract := { t with caller := s }
def setContractId : TxVscCallContract :=
  { t with contractId := s }
def setAction : TxVscCallContract := { t with action := s }
def setPayload (t : TxVscCallContract) : TxVscCallContract := { t with payload := v }
def setRcLimit (t : TxVscCallContract) : TxVscCallContract := { t with rcLimit := n }
def setIntents (l : List Intent) (t : TxVscCallContract) : TxVscCallContract :=
  { t with intents := l }

def fields : List (StructField TxVscCallContract) :=
  [.of "Self" (struct TxSelf.fields) self setSelf, .of "net_id" string netId setNetId,
   .of "caller" string caller setCaller,
   .of "contract_id" string contractId setContractId,
   .of "action" string action setAction,
   .of "payload" raw payload setPayload,
   .of "rc_limit" uint64 rcLimit setRcLimit,
   .of "intents" (list {} (struct Intent.fields)) intents setIntents]

end TxVscCallContract

namespace VSCTransaction

/-- Decode a payload into an operation. -/
def decode : VSCTransaction → VSCTransaction
  | call tx => call ((struct TxVscCallContract.fields).apply v tx)
  | deposit self => deposit self
  | transfer tx => transfer ((struct TxMove.transferFields).apply v tx)
  | withdraw tx => withdraw ((struct TxMove.transferFields).apply v tx)
  | stakeHbd tx => stakeHbd ((struct TxMove.stakeHbdFields).apply v tx)
  | unstakeHbd tx => unstakeHbd ((struct TxMove.unstakeFields).apply v tx)
  | consensusStake tx => consensusStake ((struct TxMove.consensusStakeFields).apply v tx)
  | consensusUnstake tx => consensusUnstake ((struct TxMove.unstakeFields).apply v tx)

/-- No member of the payload has the wrong type. -/
def decodes : VSCTransaction → Bool
  | call _ => (struct TxVscCallContract.fields).ok v
  | deposit _ => true
  | transfer _ => (struct TxMove.transferFields).ok v
  | withdraw _ => (struct TxMove.transferFields).ok v
  | stakeHbd _ => (struct TxMove.stakeHbdFields).ok v
  | unstakeHbd _ => (struct TxMove.unstakeFields).ok v
  | consensusStake _ => (struct TxMove.consensusStakeFields).ok v
  | consensusUnstake _ => (struct TxMove.unstakeFields).ok v

end VSCTransaction

/-! ## Operations on L1 -/

/-- Where an operation stands on L1. -/
structure L1Position where
  transactionId : String
  blockHeight : ℕ
  (blockId timestamp : String)
  index : Int
  opIndex : ℕ
  deriving DecidableEq

structure CustomJson where
  id : String
  (requiredAuths requiredPostingAuths : List String)
  json : Option Json

def hiveAccount (name : String) : String := "hive:" ++ name

def L1Position.txSelf (pos : L1Position) (cj : CustomJson) : TxSelf where
  txId := pos.transactionId
  blockId := pos.blockId
  blockHeight := pos.blockHeight
  index := pos.index
  opIndex := pos.opIndex
  timestamp := pos.timestamp
  requiredAuths := .of (cj.requiredAuths.map hiveAccount)
  requiredPostingAuths := .of (cj.requiredPostingAuths.map hiveAccount)

/-- The operation of a `custom_json` id, before its payload is decoded. -/
def blankOnchain (self : TxSelf) : String → Option VSCTransaction
  | "vsc.withdraw" => some (.withdraw { self := self })
  | "vsc.call" => some (.call { self := self })
  | "vsc.transfer" => some (.transfer { self := self })
  | "vsc.stake_hbd" => some (.stakeHbd { self := self })
  | "vsc.unstake_hbd" => some (.unstakeHbd { self := self })
  | "vsc.consensus_stake" => some (.consensusStake { self := self })
  | "vsc.consensus_unstake" => some (.consensusUnstake { self := self })
  | _ => none

def parseUserOperation (pos : L1Position) (cj : CustomJson) : Option VSCTransaction :=
  (blankOnchain (pos.txSelf cj) cj.id).map fun tx => cj.json.elim tx fun v => tx.decode v

/-! ## Off-chain transactions -/

structure VSCTransactionHeader where
  nonce : ℕ := 0
  requiredAuths : List String := []
  rcLimit : ℕ := 0
  netId : String := ""
  deriving DecidableEq

/-- An off-chain operation; the payload is the text of its bytes. -/
structure VSCTransactionOp where
  type : String := ""
  payload : String := ""
  deriving DecidableEq

structure OffchainTransaction where
  self : TxSelf
  txId : String
  type : String := ""
  version : String := ""
  headers : VSCTransactionHeader := {}
  tx : List VSCTransactionOp := []

variable (s : String) (h : VSCTransactionHeader) (op : VSCTransactionOp) (t : OffchainTransaction)

namespace VSCTransactionHeader

def setNonce : VSCTransactionHeader := { h with nonce := n }
def setRequiredAuths (auths : List String) (h : VSCTransactionHeader) : VSCTransactionHeader :=
  { h with requiredAuths := auths }
def setRcLimit : VSCTransactionHeader := { h with rcLimit := n }
def setNetId : VSCTransactionHeader := { h with netId := s }

def fields : List (StructField VSCTransactionHeader) :=
  [.of "nonce" uint64 nonce setNonce,
   .of "required_auths" (list "" string) requiredAuths setRequiredAuths,
   .of "rc_limit" uint64 rcLimit setRcLimit,
   .of "net_id" string netId setNetId]

end VSCTransactionHeader

namespace VSCTransactionOp

def setType : VSCTransactionOp := { op with type := s }
def setPayload : VSCTransactionOp := { op with payload := s }

def fields : List (StructField VSCTransactionOp) :=
  [.of "type" string type setType, .of "payload" string payload setPayload]

end VSCTransactionOp

namespace OffchainTransaction

def setSelf (s : TxSelf) (t : OffchainTransaction) : OffchainTransaction := { t with self := s }
def setType : OffchainTransaction := { t with type := s }
def setVersion : OffchainTransaction :=
  { t with version := s }
def setHeaders : OffchainTransaction :=
  { t with headers := h }
def setTx (ops : List VSCTransactionOp) (t : OffchainTransaction) : OffchainTransaction :=
  { t with tx := ops }

/-- `TxId` is kept out of the decoder with the tag `-`, `Self` is not. -/
def fields : List (StructField OffchainTransaction) :=
  [.of "Self" (struct TxSelf.fields) self setSelf, .of "__t" string type setType,
   .of "__v" string version setVersion,
   .of "headers" (struct VSCTransactionHeader.fields) headers setHeaders,
   .of "tx" (list {} (struct VSCTransactionOp.fields)) tx setTx]

def asTransaction (self : TxSelf) (id : String) (doc : Json) : Except String OffchainTransaction :=
  if (struct fields).ok doc then .ok ((struct fields).apply doc { self := self, txId := id })
  else .error ("Unmarshal failed for tx " ++ id)

end OffchainTransaction

/-- What the resolution of off-chain operations depends on. -/
structure Resolver where
  /-- `UnstakeHbdDirectionFixActive` at the height of the block. -/
  unstakeHbdFix : Bool
  /-- The JSON form of a payload that is valid CBOR. -/
  cbor : String → Option Json

/-- The operation of an off-chain type, before its payload is decoded. Only a call
is given its place in the transaction. -/
def blankOffchain (unstakeHbdFix : Bool) (self : TxSelf) (netId : String) (idx : ℕ) :
    String → Option VSCTransaction
  | "call" => some (.call { self := { self with opIndex := idx }, netId := netId })
  | "transfer" => some (.transfer { self := self, netId := netId })
  | "withdraw" => some (.withdraw { self := self, netId := netId })
  | "stake_hbd" => some (.stakeHbd { self := self, netId := netId })
  | "unstake_hbd" =>
    -- Before the fix an unstake was built as a stake.
    if unstakeHbdFix then some (.unstakeHbd { self := self, netId := netId })
    else some (.stakeHbd { self := self, netId := netId })
  | _ => none

namespace OffchainTransaction

/-- Resolve the operations from the `idx`-th on. `auths` are the signers in the
headers: every operation shares their slice, so they come back as the payloads
have left them. -/
def resolve (r : Resolver) (self : TxSelf) (netId : String) :
    ℕ → List VSCTransactionOp → List String → Except String (List VSCTransaction) × List String
  | _, [], auths => (.ok [], auths)
  | idx, op :: ops, auths =>
    let self := self.setRequiredAuths (.of auths)
    match blankOffchain r.unstakeHbdFix self netId idx op.type with
    | none => (.error ("op " ++ formatUint idx ++ ": unknown op type " ++ quote op.type), auths)
    | some blank =>
      let failed := "op " ++ formatUint idx ++ " (" ++ quote op.type ++ "): "
      match r.cbor op.payload with
      | none => (.error (failed ++ "decode cbor op payload (type " ++ quote op.type ++ ")"), auths)
      | some v =>
        let vtx := blank.decode v
        let auths := vtx.txSelf.requiredAuths.array
        if blank.decodes v then
          match resolve r self netId (idx + 1) ops auths with
          | (.ok vtxs, auths) => (.ok (vtx :: vtxs), auths)
          | (.error msg, auths) => (.error msg, auths)
        else (.error (failed ++ "cannot unmarshal"), auths)

/-- The operations of an off-chain transaction, and the transaction as its own
operations have left it. -/
def toTransaction (r : Resolver) (tx : OffchainTransaction) :
    Except String (List VSCTransaction) × OffchainTransaction :=
  let (ops, auths) := resolve r tx.self tx.headers.netId 0 tx.tx tx.headers.requiredAuths
  (ops, tx.setHeaders (tx.headers.setRequiredAuths auths))

end OffchainTransaction

end VscNode
