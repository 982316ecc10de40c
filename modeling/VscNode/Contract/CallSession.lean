import VscNode.Lib.Collection

/-!
# Call sessions

The contract calls of one transaction share a call session. It opens a session
for each contract it touches, from what earlier transactions of the slot left or
else from the last stored output, and lets the calls work on an overlay of that
state. `commit` moves the overlays into the sessions and `toOutputs` is what the
slot then remembers; a call that fails inside a transaction is undone by
restoring a snapshot.

The source copies maps wherever two holders could share one; here they are
values.
-/

namespace VscNode

structure ContractMetadata where
  currentSize : Int := 0
  maxSize : Int := 0
  deriving DecidableEq

structure TssOp where
  (type keyId : String)
  args : String := ""
  epochs : ℕ := 0
  deriving DecidableEq

/-- The entries of a map of byte strings: a key may be missing, or be there and
hold nil. -/
abbrev StateCache := String → Option (Option String)

structure TempOutput where
  contractId : String
  cache : StateCache := fun _ => none
  deletions : String → Bool := fun _ => false
  metadata : ContractMetadata := {}
  cid : String := ""

abbrev TempOutputs := Collection TempOutput.contractId

/-- The stored contract data a call session reads. -/
structure ContractStore where
  getLastOutput : String → Option (ContractMetadata × String)
  databin : String → String → Option String

/-- The state of a contract that no transaction of the slot has left. -/
def ContractStore.stored (store : ContractStore) (contractId : String) : TempOutput :=
  match store.getLastOutput contractId with
  | some (metadata, cid) => { contractId := contractId, metadata := metadata, cid := cid }
  | none => { contractId := contractId }

/-- The working overlay of a contract session. -/
structure StateStore where
  cache : StateCache
  deletions : String → Bool
  ephem : String → Option String := fun _ => none

structure ContractSession where
  contractId : String
  metadata : ContractMetadata
  cache : StateCache
  deletions : String → Bool
  stateMerkle : String
  state : StateStore
  logs : List String := []
  tssOps : List TssOp := []

namespace ContractSession

def ofOutput (out : TempOutput) : ContractSession where
  contractId := out.contractId
  metadata := out.metadata
  cache := out.cache
  deletions := out.deletions
  stateMerkle := out.cid
  state := ⟨out.cache, out.deletions, fun _ => none⟩

variable (s : ContractSession)

def toOutput : TempOutput :=
  ⟨s.contractId, s.cache, s.deletions, s.metadata, s.stateMerkle⟩

def setState (state : StateStore) : ContractSession :=
  ⟨s.contractId, s.metadata, s.cache, s.deletions, s.stateMerkle, state, s.logs, s.tssOps⟩

def setMetadata (metadata : ContractMetadata) : ContractSession :=
  ⟨s.contractId, metadata, s.cache, s.deletions, s.stateMerkle, s.state, s.logs, s.tssOps⟩

def setLogs (logs : List String) (tssOps : List TssOp) : ContractSession :=
  ⟨s.contractId, s.metadata, s.cache, s.deletions, s.stateMerkle, s.state, logs, tssOps⟩

def stateGet (key : String) : Option String :=
  if s.deletions key then none else (s.cache key).join

/-- Read a key; what the stored state has under it is kept in the overlay, also
where it has nothing. -/
def get (databin : String → String → Option String) (key : String) :
    Option String × ContractSession :=
  if s.state.deletions key then (some "", s)
  else
    match (s.state.cache key).join with
    | some value => (some value, s)
    | none =>
      match s.stateGet key with
      | some value => (some value, s)
      | none =>
        let value := databin s.stateMerkle key
        (value, s.setState { s.state with cache := Function.update s.state.cache key (some value) })

def set (key value : String) : ContractSession :=
  s.setState { s.state with
      cache := Function.update s.state.cache key (some (some value))
      deletions := Function.update s.state.deletions key false }

def delete (key : String) : ContractSession :=
  s.setState { s.state with
      cache := Function.update s.state.cache key none
      deletions := Function.update s.state.deletions key true }

def setEphem (key : String) (value : Option String) : ContractSession :=
  s.setState { s.state with ephem := Function.update s.state.ephem key value }

def incSize (size : Int) : ContractSession :=
  let currentSize := s.metadata.currentSize + size
  s.setMetadata ⟨currentSize, max s.metadata.maxSize currentSize⟩

def commit : ContractSession :=
  ⟨s.contractId, s.metadata, s.state.cache, s.state.deletions, s.stateMerkle, s.state, s.logs,
    s.tssOps⟩

end ContractSession

structure CallSession where
  store : ContractStore
  sessions : Collection ContractSession.contractId := Collection.empty
  pending : TempOutputs := Collection.empty

structure LogOutput where
  contractId : String
  logs : List String
  tssOps : List TssOp
  deriving DecidableEq

namespace CallSession

variable (cs : CallSession) (contractId : String)

/-- A contract's state is the one the slot left, or else the stored one. -/
def opening : TempOutput :=
  (cs.pending.get? contractId).getD (cs.store.stored contractId)

def getContractSession : ContractSession × CallSession :=
  match cs.sessions.get? contractId with
  | some s => (s, cs)
  | none =>
    let s := ContractSession.ofOutput (cs.opening contractId)
    (s, { cs with
          sessions := cs.sessions.put s
          pending := Collection.empty.putAll
            (cs.pending.docs.filter fun out => out.contractId ≠ contractId) })

def update (f : ContractSession → ContractSession) : CallSession :=
  let (s, cs) := cs.getContractSession contractId
  { cs with sessions := cs.sessions.put (f s) }

def appendLogs (logs : List String) : CallSession :=
  cs.update contractId fun s => s.setLogs (s.logs ++ logs) s.tssOps

def appendTssLog (op : TssOp) : CallSession :=
  cs.update contractId fun s => s.setLogs s.logs (s.tssOps ++ [op])

def popLogs : List LogOutput × CallSession :=
  ((cs.sessions.docs.map fun s => ⟨s.contractId, s.logs, s.tssOps⟩).insertionSort
      fun l l' => l.contractId ≤ l'.contractId,
    { cs with sessions := Collection.empty.putAll (cs.sessions.docs.map fun s => s.setLogs [] []) })

def commit (cs : CallSession) : CallSession :=
  { cs with sessions := Collection.empty.putAll (cs.sessions.docs.map ContractSession.commit) }

def toOutputs : List TempOutput := cs.sessions.docs.map ContractSession.toOutput

end CallSession

/-! ## Snapshots -/

structure ContractSnapshot where
  contractId : String
  cache : StateCache
  deletions : String → Bool
  metadata : ContractMetadata
  (logsLen tssOpsLen : ℕ)
  state : StateStore

structure CallSnapshot where
  sessions : List ContractSnapshot
  pending : TempOutputs

namespace ContractSession

def snapshot (s : ContractSession) : ContractSnapshot :=
  ⟨s.contractId, s.cache, s.deletions, s.metadata, s.logs.length, s.tssOps.length, s.state⟩

def restore (s : ContractSession) (snap : ContractSnapshot) : ContractSession :=
  ⟨s.contractId, snap.metadata, snap.cache, snap.deletions, s.stateMerkle, snap.state,
    s.logs.take snap.logsLen, s.tssOps.take snap.tssOpsLen⟩

end ContractSession

namespace CallSession

def snapshot (cs : CallSession) : CallSnapshot :=
  ⟨cs.sessions.docs.map ContractSession.snapshot, cs.pending⟩

/-- Sessions opened after the snapshot are dropped, the others go back to it. -/
def restore (cs : CallSession) (snap : CallSnapshot) : CallSession :=
  { cs with
    sessions := Collection.empty.putAll (snap.sessions.filterMap fun s =>
      (cs.sessions.get? s.contractId).map fun session => session.restore s)
    pending := snap.pending }

end CallSession

end VscNode
