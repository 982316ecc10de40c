import VscNode.DataLayer.Dir
import VscNode.Tss.OutputScoping

/-!
# The state the signing gate reads

The gate reads the contract's state at a height through
`contractStateReaderAtStrict` (`modules/tss/solvency_gate.go`): the newest output
row gives the root, the root is loaded from the local block store, and each key
is looked up in it. The reader tells a key that is absent from a read that
failed, and the gate refuses every key when the registry cannot be read.

Two reads below it do not keep the two apart: a failed query for the output row
is answered with an empty row, and a root that cannot be loaded locally with an
empty directory. `refuses_unchecked_iff` says that these are the only ones.
-/

namespace VscNode

/-! ## Stored contract outputs -/

structure OutputRow where
  contractId : String := ""
  stateMerkle : String := ""
  blockHeight : ℕ := 0
  deriving DecidableEq

inductive OutputError
  | noDocuments | queryFailed | decodeFailed
  deriving DecidableEq

structure OutputDb where
  rows : List OutputRow
  queryFails : Bool := false
  decodeFails : Bool := false

namespace OutputDb

variable (db : OutputDb)

variable (contractId : String) (height : ℕ)

def newest : Option OutputRow :=
  ((db.rows.filter fun o => o.contractId = contractId ∧ o.blockHeight ≤ height).insertionSort
    fun o o' => o'.blockHeight ≤ o.blockHeight).head?

def getLastOutputStrict : Except OutputError OutputRow :=
  if db.queryFails then .error .queryFailed
  else
    match db.newest contractId height with
    | none => .error .noDocuments
    | some row => if db.decodeFails then .error .decodeFailed else .ok row

/-- A failed query is answered with an empty output. -/
def getLastOutput : Except OutputError OutputRow :=
  match db.getLastOutputStrict contractId height with
  | .error .decodeFailed => .error .decodeFailed
  | .error _ => .ok {}
  | .ok row => .ok row

end OutputDb

namespace Tss

open BtcScopeDeps BtcVault DataLayer OutputDb

/-- What a node has of a contract's state: the output rows, the local blocks, the ids' text form
and the bytes of a directory's block. -/
structure StateSource where
  outputs : OutputDb
  store : BlockStore
  parseCid : String → Option Cid
  dirBytes : List (String × Cid) → Bytes

namespace StateSource

variable (src : StateSource)

def getRaw : Cid → Option Bytes
  | .value raw => if src.store.node (.value raw) then some raw else none
  | .dir links => if src.store.node (.dir links) then some (src.dirBytes links) else none

/-- One read below a root that has been loaded. -/
def readAt (databin : DataBin) (key : String) : Except String (Option Bytes) :=
  match databin.get src.store key with
  | .error .notExist => .ok none
  | .error .unreadable => .error ("read " ++ key)
  | .ok keyCid =>
    match src.getRaw keyCid with
    | none => .error ("getraw " ++ key)
    | some raw => .ok (some raw)

def contractStateReaderAtStrict (contractId : String) (bh : ℕ) (key : String) :
    Except String (Option Bytes) :=
  match src.outputs.getLastOutput contractId bh with
  | .error _ => .error ("get last output for " ++ contractId)
  | .ok output =>
    if output.stateMerkle = "" then .ok none
    else
      match src.parseCid output.stateMerkle with
      | none => .error ("parse state cid " ++ output.stateMerkle)
      | some stateCid => src.readAt (.load src.store stateCid) key

def gate (deps : BtcScopeDeps) (bh : ℕ) : BtcScopeDeps :=
  { deps with readKeyStrict := src.contractStateReaderAtStrict deps.contractId bh }

structure Committed (contractId : String) (bh : ℕ) (links : List (String × Cid)) (raw : Bytes) :
    Prop where
  contract : contractId ≠ ""
  row : ∃ row, src.outputs.newest contractId bh = some row ∧ row.stateMerkle ≠ "" ∧
    src.parseCid row.stateMerkle = some (.dir links)
  registry : links.lookup "v" = some (.value raw)
  nonempty : raw ≠ []

/-- The reads that stand before the registry's own: the query for the row has to work, and if it
gives a row, the root has to be there with all its links. -/
def RootRead (links : List (String × Cid)) : Prop :=
  src.outputs.queryFails = false ∧ (src.outputs.decodeFails = true ∨
      src.store.node (.dir links) = true ∧ src.store.links (.dir links) = true)

variable {src} {contractId : String} {bh : ℕ} {links : List (String × Cid)} {raw : Bytes}

theorem reader_of_row {row : OutputRow} (hquery : src.outputs.queryFails = false)
    (hdecode : src.outputs.decodeFails = false) (hrow : src.outputs.newest contractId bh = some row)
    (hmerkle : row.stateMerkle ≠ "") {root : Cid} (hparse : src.parseCid row.stateMerkle = some root)
    (key : String) :
    src.contractStateReaderAtStrict contractId bh key = src.readAt (.load src.store root) key := by
  have hlast : src.outputs.getLastOutput contractId bh = .ok row := by
    simp [getLastOutput, getLastOutputStrict, hquery, hrow, hdecode]
  simp only [contractStateReaderAtStrict, hlast, if_neg hmerkle, hparse]

theorem readAt_load {key : String} {cid : Cid} (hkey : Text.Free '/' key)
    (hnode : src.store.node (.dir links) = true) (hlinks : src.store.links (.dir links) = true)
    (hcid : links.lookup key = some cid) :
    src.readAt (.load src.store (.dir links)) key =
      if src.store.node cid then
        match src.getRaw cid with
        | none => .error ("getraw " ++ key)
        | some raw => .ok (some raw)
      else .error ("read " ++ key) := by
  rw [readAt, DataBin.load_of_held hnode hlinks, DataBin.get_mk_nil hkey, SortedMap.get?_ofList,
    hcid]
  by_cases hheld : src.store.node cid = true
  · simp [hheld]
  · simp [hheld]

theorem readAt_unloaded {key : String} (hkey : Text.Free '/' key)
    (h : (src.store.node (.dir links) && src.store.links (.dir links)) = false) :
    src.readAt (.load src.store (.dir links)) key = .ok none := by
  rw [readAt, DataBin.load_of_not_held h, DataBin.empty, LeafDir.empty, DataBin.get_mk_nil hkey]
  rfl

theorem Committed.read_registry (h : src.Committed contractId bh links raw)
    (hroot : src.RootRead links) :
    src.contractStateReaderAtStrict contractId bh "v" = .ok (some raw) ∨
      ∃ e, src.contractStateReaderAtStrict contractId bh "v" = .error e := by
  obtain ⟨row, hrow, hmerkle, hparse⟩ := h.row
  obtain ⟨hquery, hreads⟩ := hroot
  cases hdecode : src.outputs.decodeFails with
  | true =>
    right
    have hlast : src.outputs.getLastOutput contractId bh = .error .decodeFailed := by
      simp [getLastOutput, getLastOutputStrict, hquery, hrow, hdecode]
    exact ⟨_, by rw [contractStateReaderAtStrict, hlast]⟩
  | false =>
    obtain ⟨hnode, hlinks⟩ := hreads.resolve_left (by simp [hdecode])
    rw [reader_of_row hquery hdecode hrow hmerkle hparse,
      readAt_load (by decide) hnode hlinks h.registry]
    by_cases hheld : src.store.node (.value raw) = true
    · exact .inl (by simp [hheld, getRaw])
    · exact .inr ⟨_, by rw [if_neg hheld]⟩

theorem Committed.read_absent (h : src.Committed contractId bh links raw)
    (hroot : ¬ src.RootRead links) :
    src.contractStateReaderAtStrict contractId bh "v" = .ok none := by
  obtain ⟨row, hrow, hmerkle, hparse⟩ := h.row
  cases hquery : src.outputs.queryFails with
  | true =>
    have hlast : src.outputs.getLastOutput contractId bh = .ok {} := by
      simp [getLastOutput, getLastOutputStrict, hquery]
    simp [contractStateReaderAtStrict, hlast]
  | false =>
    simp only [RootRead, hquery, true_and, not_or, Bool.not_eq_true] at hroot
    obtain ⟨hdecode, hload⟩ := hroot
    rw [reader_of_row hquery hdecode hrow hmerkle hparse]
    exact readAt_unloaded (by decide) (by simpa [Bool.and_eq_false_iff] using hload)

/-- The gate refuses every vault key it could not check against the committed registry, whatever
else fails, exactly when the row can be queried and its root loaded. -/
theorem refuses_unchecked_iff (src : StateSource) (deps : BtcScopeDeps) (bh : ℕ)
    (links : List (String × Cid)) (raw : Bytes)
    (h : src.Committed deps.contractId bh links raw) :
    (∀ keyId sighash, (src.gate deps bh).evaluateScope keyId sighash ≠ .refuse →
      (src.gate deps bh).readKeyStrict "v" = .ok (some raw)) ↔ src.RootRead links := by
  constructor
  · intro hrefuses
    by_contra hroot
    have habsent : (src.gate deps bh).readKeyStrict "v" = .ok none := h.read_absent hroot
    have hallow := evaluateScope_of_absent habsent []
    have hread := hrefuses _ _ (by rw [hallow]; decide)
    rw [habsent] at hread
    cases hread
  intro hroot keyId sighash hverdict
  obtain hread | ⟨e, herror⟩ := h.read_registry hroot
  · exact hread
  have hrefuse : (src.gate deps bh).evaluateScope keyId sighash = .refuse :=
    evaluateScope_of_error (d := src.gate deps bh) h.contract herror keyId sighash
  exact absurd hrefuse hverdict

def rootMissing : StateSource where
  outputs := { rows := [⟨"btc", "root", 5⟩] }
  store := ⟨fun
    | .value _ => true
    | .dir _ => false, fun _ => true⟩
  parseCid s := if s = "root" then some (.dir [("v", .value [1])]) else none
  dirBytes _ := []

/-- The same state with everything in the local store, read while the database does not answer. -/
def queryLost : StateSource :=
  { rootMissing with
    outputs := { rootMissing.outputs with queryFails := true }
    store := BinOp.allHeld }

/-- In both the registry is there and unread, and the key of generation 0 signs. -/
theorem unread_registry_allows : rootMissing.Committed "btc" 9 [("v", .value [1])] [1] ∧
    (rootMissing.gate BtcScopeDeps.rotating 9).evaluateScope "btc-main" [7] = .allow ∧
    queryLost.Committed "btc" 9 [("v", .value [1])] [1] ∧
    (queryLost.gate BtcScopeDeps.rotating 9).evaluateScope "btc-main" [7] = .allow := by
  refine ⟨⟨by decide, ⟨_, rfl, by decide, rfl⟩, rfl, by decide⟩, by decide +kernel,
    ⟨by decide, ⟨_, rfl, by decide, rfl⟩, rfl, by decide⟩, by decide +kernel⟩

/-- The rotation's registry with the registry's own block missing: the gate refuses. -/
def registryMissing : StateSource :=
  { rootMissing with
    store := ⟨fun
      | .value _ => false
      | .dir _ => true, fun _ => true⟩ }

theorem refuses_unchecked_iff_registryMissing : registryMissing.RootRead [("v", .value [1])] ∧
    ∀ keyId sighash,
      (registryMissing.gate BtcScopeDeps.rotating 9).evaluateScope keyId sighash ≠ .refuse →
      (registryMissing.gate BtcScopeDeps.rotating 9).readKeyStrict "v" = .ok (some [1]) := by
  have hroot : registryMissing.RootRead [("v", .value [1])] := ⟨rfl, .inr ⟨rfl, rfl⟩⟩
  have hcommitted : registryMissing.Committed rotating.contractId 9
      [("v", .value [1])] [1] := ⟨by decide, ⟨_, rfl, by decide, rfl⟩, rfl, by decide⟩
  exact ⟨hroot, (refuses_unchecked_iff registryMissing rotating 9 _ _ hcommitted).2
    hroot⟩

end StateSource

end Tss

end VscNode
