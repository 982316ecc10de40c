import VscNode.Chain.Slot
import VscNode.Ledger.SafetySlash

/-!
# Composing and signing blocks

The leader of a slot composes a block from its pending transactions, from what its
state engine has derived since the last block, and from its pool of governance
records, and asks the others to sign it. A signer composes the block again from its
own state and signs if it comes to the same block.

Blocks are compared by content identifiers, which are taken to be injective, so a
block stands for its own identifier.
-/

namespace VscNode.BlockProducer

open Text

/-! ## The pool of governance records -/

def SafetySlashReverseAction.text : SafetySlashReverseAction → String
  | .cancel => "cancel"
  | .reverse => "reverse"
  | .both => "both"
  | .other text => text

def maxPendingReverses : ℕ := 10000
def maxGovernanceOpsPerBlock : ℕ := 32

def validReverseShape (rec_ : SafetySlashReverseRecord) : Bool :=
  let r := rec_.normalize
  if r.slashTxID = "" ∨ r.evidenceKind = "" ∨ r.slashedAccount = "" then false
  else if ¬Free '#' r.slashTxID ∨ ¬Free '#' r.evidenceKind then false
  else
    match r.action with
    | .other _ => false
    | _ => true

def reverseDedupKey (r : SafetySlashReverseRecord) : String :=
  r.slashTxID ++ "|" ++ r.evidenceKind ++ "|" ++ r.slashedAccount ++ "|" ++
    SafetySlashReverseAction.text r.action

/-- The pending records, in the order of their arrival and one for each key. -/
abbrev Pool := Collection reverseDedupKey

def Pool.enqueueSlashReverse (p : Pool) (r : SafetySlashReverseRecord) : Pool × Bool :=
  if validReverseShape r.normalize = false then (p, false)
  else if (p.get? (reverseDedupKey r.normalize)).isSome then (p.put r.normalize, true)
  else if maxPendingReverses ≤ p.docs.length then (p, false)
  else (p.put r.normalize, true)

def Pool.drainSlashReverses (p : Pool) (max : ℕ) : Pool × List SafetySlashReverseRecord :=
  let n := if 0 < max ∧ max < p.docs.length then max else p.docs.length
  (p.drop n, p.docs.take n)

/-! ## Nodes -/

structure TransactionRecord where
  ops : List String
  unconfirmed : Bool
  requiredAuths : List String
  nonce : Int
  deriving DecidableEq

/-- A block; `body` is what a node derives from its state: the previous block, the
oplog and the contract outputs. -/
structure Block (β : Type*) where
  slotHeight : ℕ
  transactions : List String
  body : β
  reverses : List SafetySlashReverseRecord
  deriving DecidableEq

structure BlockMsg (β : Type*) where
  slotHeight : ℕ
  producer : String
  transactions : List String
  blockCid : Block β

structure Node (β : Type*) where
  account : String
  (bh lastProcessed : ℕ)
  getSlot : ℕ → Option String
  txDb : String → Option TransactionRecord
  nonceDb : List String → ℕ
  body : ℕ → β
  pool : Pool
  blockSigning : Option (Block β)

namespace Node

variable {β : Type*}

variable (n : Node β) (m : BlockMsg β)

def withPool (pool : Pool) : Node β := { n with pool := pool }

@[simp] theorem withPool_pool (pool : Pool) : (n.withPool pool).pool = pool := rfl

variable [DecidableEq β]

variable (slotHeight : ℕ) (transactions : List String)

def generateBlock : Node β × Block β :=
  let drained := n.pool.drainSlashReverses maxGovernanceOpsPerBlock
  (n.withPool drained.1,
    { slotHeight := slotHeight, transactions := transactions, body := n.body slotHeight
      reverses := drained.2.map (·.normalize) })

/-- The leader's part: a block of some pending transactions and the message with which
it asks for signatures. -/
def produceBlock : Node β × BlockMsg β :=
  let made := n.generateBlock slotHeight transactions
  ({ made.1 with blockSigning := some made.2 },
    { slotHeight := slotHeight, producer := n.account, transactions := transactions
      blockCid := made.2 })

/-- A transaction that a message may list: known, with operations, still unconfirmed and
not below the nonce of its signers. -/
def listable (id : String) : Bool :=
  match n.txDb id with
  | none => false
  | some tx => tx.ops ≠ [] ∧ tx.unconfirmed ∧
      (tx.requiredAuths = [] ∨ (n.nonceDb tx.requiredAuths : Int) ≤ tx.nonce)

/-- Whether a message comes from the leader of a slot that is still open to the node. -/
def accepts : Bool :=
  n.bh ≤ m.slotHeight + slotLength ∧ m.slotHeight ≤ n.bh ∧
    (m.slotHeight + (2 ^ 64 - slotLength)) % 2 ^ 64 ≤ n.bh ∧
    n.getSlot m.slotHeight = some m.producer

/-- Whether a signer goes on to compose the block of a message. -/
def derives : Bool :=
  n.accepts m ∧ ¬(m.producer = n.account ∧ n.blockSigning.isSome) ∧
    m.slotHeight ≤ n.lastProcessed ∧ m.transactions.all n.listable

def handleBlockMsg (n : Node β) (m : BlockMsg β) : Node β × Option (Block β) :=
  if n.accepts m = false then (n, none)
  else if m.producer = n.account ∧ n.blockSigning.isSome then (n, n.blockSigning)
  else if n.derives m = false then (n, none)
  else
    let made := n.generateBlock m.slotHeight m.transactions
    (made.1, if made.2 = m.blockCid then some made.2 else none)

end Node

end VscNode.BlockProducer
