import VscNode.StateEngine.Batch

/-!
# The contract outputs of a slot

The block producer composes one output for each contract that has an entry at the
end of the slot, with the results all transactions have left for it. A node that
ingests an output acts on the TSS requests in its results.

The results of a transaction that fails are not dropped together with its state:
only a call that fails replaces them by its error. They come out whenever another
transaction of the slot gives the contract an entry.
-/

namespace VscNode

open LedgerSession Relation Text List Collection

/-! ## Composing outputs -/

structure ContractOutputResult where
  ret : String
  ok : Bool
  err : Option String := none
  errMsg : String := ""
  logs : List String := []
  tssOps : List TssOp := []
  deriving DecidableEq

structure ContractOutput where
  contractId : String
  metadata : ContractMetadata
  stateMerkle : String
  inputs : List String
  results : List ContractOutputResult
  /-- Not written any more; requests are among the results. -/
  tssOps : List TssOp := []
  deriving DecidableEq

structure ContentIds where
  state : TempOutput → String
  output : ContractOutput → String

def ContractResult.toOutput (r : ContractResult) : ContractOutputResult :=
  ⟨r.ret, r.success, r.err, r.errMsg, r.logs, r.tssOps⟩

namespace BatchState

variable (ids : ContentIds) (e : BatchState)

def resultsOf (contractId : String) : List ContractResult :=
  (e.contractResults.filter fun r => r.contractId = contractId).map (·.output)

def makeOutput (out : TempOutput) : Option ContractOutput :=
  match e.resultsOf out.contractId with
  | [] => none
  | results =>
    some
      { contractId := out.contractId
        metadata := out.metadata
        stateMerkle := ids.state out
        inputs := results.map (·.txId)
        results := results.map (·.toOutput) }

def makeOutputs : List ContractOutput :=
  ((e.tempOutputs.docs.insertionSort fun out out' => out.contractId ≤ out'.contractId).filterMap
    (e.makeOutput ids)).insertionSort fun o o' => ids.output o ≤ ids.output o'

end BatchState

/-! ## Ingesting outputs -/

inductive TssKeyStatus
  | created | active | deprecated | retired
  deriving DecidableEq

structure TssKey where
  id : String
  algo : String := ""
  status : TssKeyStatus
  epochs : ℕ := 0
  expiryEpoch : ℕ := 0
  deprecatedHeight : Int := 0
  deriving DecidableEq

/-- A request that is waiting for its signature. -/
structure TssRequest where
  (keyId msg : String)
  deriving DecidableEq

structure TssStore where
  keys : Collection TssKey.id := Collection.empty
  requests : Collection (fun r : TssRequest => (r.keyId, r.msg)) := Collection.empty

def maxKeyEpochs : ℕ := 365

def TssKey.renew (key : TssKey) (epoch epochs : ℕ) : TssKey :=
  { key with
    expiryEpoch := min ((epoch + epochs) % 2 ^ 64) (epoch + maxKeyEpochs)
    status := .active
    deprecatedHeight := if key.status = .deprecated then 0 else key.deprecatedHeight }

namespace TssStore

def create (st : TssStore) (op : TssOp) : TssStore :=
  match st.keys.get? op.keyId with
  | some _ => st
  | none =>
    { st with
      keys := st.keys.put
        { id := op.keyId, algo := op.args, status := .created, epochs := op.epochs } }

def renew (epoch : Option ℕ) (st : TssStore) (op : TssOp) : TssStore :=
  match st.keys.get? op.keyId, epoch with
  | some key, some epoch =>
    if 0 < op.epochs ∧ (key.status = .active ∨ key.status = .deprecated) then
      { st with keys := st.keys.put (key.renew epoch op.epochs) }
    else st
  | _, _ => st

/-- A request that is already known is left alone. -/
def sign (st : TssStore) (op : TssOp) : TssStore :=
  match st.requests.get? (op.keyId, op.args) with
  | some _ => st
  | none => { st with requests := st.requests.put ⟨op.keyId, op.args⟩ }

def act (epoch : Option ℕ) (st : TssStore) (op : TssOp) : TssStore :=
  match op.type with
  | "create" => st.create op
  | "renew" => st.renew epoch op
  | "sign" => st.sign op
  | _ => st

end TssStore

/-- The transaction an input of an output belongs to. -/
def inputTxId (inputId : String) : String := (fields '-' inputId).headD ""

namespace ContractOutput

/-- What an output does to the TSS keys and requests; `indexed` is whether they
are kept at the height of the block. -/
def ingest (indexed : Bool) (epoch : Option ℕ) (st : TssStore) (o : ContractOutput) : TssStore :=
  if indexed then (o.tssOps ++ o.results.flatMap (·.tssOps)).foldl (TssStore.act epoch) st else st

def entries (o : ContractOutput) : List (String × ContractOutputResult) := o.inputs.zip o.results

def without (txId : String) (o : ContractOutput) : ContractOutput :=
  let kept := o.entries.filter fun p => inputTxId p.1 ≠ txId
  { o with inputs := kept.map Prod.fst, results := kept.map Prod.snd }

end ContractOutput

/-- A result that says nothing but that a call has failed. -/
structure ContractOutputResult.Silent (r : ContractOutputResult) : Prop where
  ok : r.ok = false
  logs : r.logs = []
  tssOps : r.tssOps = []

/-! ## Entries of composed outputs -/

namespace BatchState

variable {ids : ContentIds} {e : BatchState}

theorem entries_of_makeOutput {out : TempOutput} {o : ContractOutput}
    (h : e.makeOutput ids out = some o) :
    o.results = o.entries.map Prod.snd ∧ o.entries =
      (e.resultsOf out.contractId).map fun r => (r.txId, r.toOutput) := by
  rw [makeOutput] at h
  split at h
  · cases h
  cases h
  rw [ContractOutput.entries, zip_map', List.map_map]
  exact ⟨rfl, rfl⟩

theorem mem_makeOutputs {o : ContractOutput} :
    o ∈ e.makeOutputs ids ↔ ∃ out ∈ e.tempOutputs, e.makeOutput ids out = some o := by
  simp only [makeOutputs, mem_insertionSort, mem_filterMap, mem_docs]

theorem mem_entries_iff (p : String × ContractOutputResult) :
    (∃ o ∈ e.makeOutputs ids, p ∈ o.entries) ↔
      ∃ r ∈ e.contractResults, e.tempOutputs.get? r.contractId ≠ none ∧
        p = (r.output.txId, r.output.toOutput) := by
  constructor
  · rintro ⟨o, ho, hp⟩
    obtain ⟨out, hout, hmake⟩ := mem_makeOutputs.1 ho
    rw [(entries_of_makeOutput hmake).2] at hp
    obtain ⟨r, hr, rfl⟩ := mem_map.1 hp
    obtain ⟨r, hmem, rfl⟩ := mem_map.1 hr
    obtain ⟨hmem, hid⟩ := mem_filter.1 hmem
    rw [decide_eq_true_eq] at hid
    refine ⟨r, hmem, ?_, rfl⟩
    rw [hid, get?_of_mem hout]
    exact Option.some_ne_none out
  rintro ⟨r, hr, hsome, rfl⟩
  obtain ⟨out, hout⟩ := Option.ne_none_iff_exists'.1 hsome
  obtain ⟨hmem, hid⟩ := get?_eq_some_iff.1 hout
  have hresult : r.output ∈ e.resultsOf out.contractId :=
    mem_map.2 ⟨r, mem_filter.2 ⟨hr, by simp [hid]⟩, rfl⟩
  obtain ⟨o, ho⟩ : ∃ o, e.makeOutput ids out = some o := by
    rw [makeOutput]
    split
    · rename_i hnil
      rw [hnil] at hresult
      cases hresult
    · exact ⟨_, rfl⟩
  refine ⟨o, mem_makeOutputs.2 ⟨out, hmem, ho⟩, ?_⟩
  rw [(entries_of_makeOutput ho).2]
  exact mem_map.2 ⟨r.output, hresult, rfl⟩

end BatchState

namespace ContractOutput

theorem ingest_without {o : ContractOutput} (ho : o.results = o.entries.map Prod.snd)
    {txId : String} (h : ∀ p ∈ o.entries, inputTxId p.1 = txId → p.2.tssOps = [])
    (indexed : Bool) (epoch : Option ℕ) (st : TssStore) :
    o.ingest indexed epoch st = (o.without txId).ingest indexed epoch st := by
  have hops : ∀ l : List (String × ContractOutputResult),
      (∀ p ∈ l, inputTxId p.1 = txId → p.2.tssOps = []) →
      (l.map Prod.snd).flatMap (·.tssOps) =
        ((l.filter fun p => inputTxId p.1 ≠ txId).map Prod.snd).flatMap (·.tssOps) := by
    intro l hl
    induction l with
    | nil => rfl
    | cons p l ih =>
      obtain ⟨hp, hl⟩ := forall_mem_cons.1 hl
      rw [map_cons, flatMap_cons, ih hl, filter_cons]
      by_cases hid : inputTxId p.1 = txId
      · simp [hid, hp hid]
      · simp [hid]
  rw [ingest, ingest, ho, hops o.entries h]
  rfl

end ContractOutput

/-! ## What a transaction leaves among the results -/

def Reached (view : ChainView) : List VSCTransaction → Sessions → String → Prop
  | [], _, _ => False
  | op :: ops, s, contractId =>
    if op.isDeposit then Reached view ops s contractId
    else
      let (r, s) := op.executeTx view s op.payer
      op.txSelf.signers ≠ [] ∧ r.success = true ∧
        (op.called.isSome ∧ s.calls.sessions.get? contractId ≠ none ∨
          Reached view ops (s.settle op) contractId)

def FailsAtCall (view : ChainView) : List VSCTransaction → Sessions → Prop
  | [], _ => False
  | op :: ops, s =>
    if op.isDeposit then FailsAtCall view ops s
    else
      let (r, s) := op.executeTx view s op.payer
      op.txSelf.signers ≠ [] ∧
        if r.success then FailsAtCall view ops (s.settle op) else op.called.isSome = true

namespace OpLoop

variable {view : ChainView} {store : ContractStore} {tx : TxPacket} {idx : ℕ} {s : OpLoop}
  {op : VSCTransaction}

theorem outputs_execute (view : ChainView) (store : ContractStore) (tx : TxPacket) (idx : ℕ)
    (op : VSCTransaction) (s : OpLoop) :
    let out := op.executeTx view (s.sessions store) op.payer
    (s.execute view store tx idx op).outputs =
      if op.txSelf.signers = [] then s.outputs
      else
        match op.called with
        | none => s.outputs
        | some contractId =>
          if out.1.success then
            s.outputs ++ callResults (makeTxId tx.txId idx) contractId out.1.ret
              out.2.calls.popLogs.1
          else [callError (makeTxId tx.txId idx) contractId out.1] := by
  intro out
  have hsessions : ((s.openCalls store op).noteHeight op.txSelf.blockHeight).sessions store =
      s.sessions store := sessions_openCalls
  have hopen : ∀ contractId, op.called = some contractId →
      ∃ calls, (s.openCalls store op).calls = some calls := by
    intro contractId hop
    apply Option.isSome_iff_exists.1
    rw [isSome_calls_openCalls, hop, Option.isSome_some, Bool.or_true]
  have houtputs : (s.openCalls store op).outputs = s.outputs := by rw [openCalls_eq]
  rw [execute]
  simp only [hsessions]
  split
  · exact houtputs
  change (if out.1.success then _ else _ : OpLoop).outputs = _
  have hrecord : ∀ r : OpLoop, (if out.1.success then r else r.fail
      (if out.1.ret = "" then none else
        some (opFailure idx tx.ops.length op.type out.1.ret))).outputs = r.outputs := by
    intro r
    split <;> rfl
  rw [hrecord, record]
  cases hop : op.called with
  | none => exact houtputs
  | some contractId =>
    obtain ⟨calls, hcalls⟩ := hopen contractId hop
    dsimp only
    rw [recordCall]
    split
    · simp only [charge, setSessions, noteHeight, hcalls, houtputs, Option.map_some]
      rfl
    · rfl

theorem mem_popLogs {cs : CallSession} {contractId : String} :
    (∃ log ∈ cs.popLogs.1, log.contractId = contractId) ↔
      cs.sessions.get? contractId ≠ none := by
  rw [Ne, get?_eq_none_iff]
  simp only [CallSession.popLogs, mem_insertionSort, mem_map, not_forall, not_not,
    exists_exists_and_eq_and, mem_docs, exists_prop]

theorem mem_callResults {txId contractId ret : String} {logs : List LogOutput}
    {r : ContractIdResult} (h : r ∈ callResults txId contractId ret logs) :
    r.output.txId = txId ∧ r.output.success = true := by
  obtain ⟨log, -, rfl⟩ := mem_map.1 h
  exact ⟨rfl, rfl⟩

theorem contractId_callResults {txId contractId ret c : String} {cs : CallSession} :
    (∃ r ∈ callResults txId contractId ret cs.popLogs.1, r.contractId = c) ↔
      cs.sessions.get? c ≠ none := by
  rw [← mem_popLogs]
  simp only [callResults, mem_map, exists_exists_and_eq_and]

theorem txId_outputs_executeAll {ops : List VSCTransaction} {r : ContractIdResult}
    (h : r ∈ (s.executeAll view store tx idx ops).outputs) :
    r ∈ s.outputs ∨ ∃ i : ℕ, r.output.txId = makeTxId tx.txId i := by
  induction ops generalizing s idx with
  | nil => exact .inl h
  | cons op ops ih =>
    have hop : ∀ r ∈ (s.execute view store tx idx op).outputs,
        r ∈ s.outputs ∨ ∃ i : ℕ, r.output.txId = makeTxId tx.txId i := by
      intro r hr
      rw [outputs_execute] at hr
      split at hr
      · exact .inl hr
      split at hr
      · exact .inl hr
      split at hr
      · exact (mem_append.1 hr).imp_right fun hr => ⟨idx, (mem_callResults hr).1⟩
      · rw [mem_singleton.1 hr]
        exact .inr ⟨idx, rfl⟩
    rw [executeAll] at h
    split at h
    · exact ih h
    dsimp only at h
    split at h
    · rcases ih h with h | h
      · exact hop r h
      · exact .inr h
    · exact hop r h

theorem outputs_of_fails (hok : s.ok = true) {ops : List VSCTransaction}
    (hfails : ∀ adds after, ¬ Succeeds view (s.sessions store) ops adds after) :
    (FailsAtCall view ops (s.sessions store) ∧
        ∃ r : ContractIdResult, (s.executeAll view store tx idx ops).outputs = [r] ∧
          r.output.toOutput.Silent) ∨
      (¬ FailsAtCall view ops (s.sessions store) ∧
        ∃ results, (s.executeAll view store tx idx ops).outputs = s.outputs ++ results ∧
          (∀ r ∈ results, r.output.success = true) ∧
          ∀ c, (∃ r ∈ results, r.contractId = c) ↔ Reached view ops (s.sessions store) c) := by
  induction ops generalizing s idx with
  | nil => exact absurd (.nil _) (hfails [] _)
  | cons op ops ih =>
    rw [executeAll]
    simp only [FailsAtCall, Reached]
    cases hdeposit : op.isDeposit with
    | true =>
      simp only [if_true]
      exact ih hok fun adds after h => hfails _ after (.deposit hdeposit h)
    | false =>
      simp only [Bool.false_eq_true, if_false]
      have houtputs := outputs_execute view store tx idx op s
      rcases execute_cases view store tx idx op s with
        ⟨hsigned, hsucc, hpass⟩ | ⟨hfail, hdrop⟩
      · obtain ⟨added, hadds, -⟩ := exists_adds_of_nests
          (VSCTransaction.nests_executeTx view hsigned (s.sessions store) op.payer)
        have hok' := hpass.ok.trans hok
        have hrest := @ih (idx + 1) _ hok' fun adds after h => by
          rw [hpass.sessions] at h
          exact hfails _ after (.cons hdeposit hsigned rfl hsucc hadds h)
        rw [hpass.sessions] at hrest
        simp only [hsucc, if_true, hok', hsigned, not_false_eq_true, true_and, ne_eq]
        refine hrest.imp_right ?_
        rintro ⟨hnot, results, hresults, hsuccess, hreached⟩
        refine ⟨hnot, ?_⟩
        simp only [if_neg hsigned, hsucc, if_true] at houtputs
        cases hop : op.called with
        | none =>
          simp only [hop] at houtputs
          refine ⟨results, by rw [hresults, houtputs], hsuccess, fun c => ?_⟩
          rw [hreached]
          simp
        | some contractId =>
          simp only [hop] at houtputs
          refine ⟨_, by rw [hresults, houtputs, append_assoc], ?_, fun c => ?_⟩
          · exact forall_mem_append.2 ⟨fun r hr => (mem_callResults hr).2, hsuccess⟩
          · simp only [mem_append, or_and_right, exists_or, contractId_callResults,
              hreached, Option.isSome_some, true_and, ne_eq]
      simp only [hdrop.ok, Bool.false_eq_true, if_false]
      by_cases hsigned : op.txSelf.signers = []
      · refine .inr ⟨fun h => h.1 hsigned, [], ?_, by simp, fun c => ?_⟩
        · rw [houtputs, if_pos hsigned, append_nil]
        · simp [hsigned]
      have hfalse := hfail.resolve_left hsigned
      simp only [if_neg hsigned, hfalse, Bool.false_eq_true, if_false] at houtputs
      cases hop : op.called with
      | none =>
        simp only [hop] at houtputs
        refine .inr ⟨?_, [], by rw [houtputs, append_nil], by simp, fun c => ?_⟩
        · simp [hfalse]
        · simp [hfalse]
      | some contractId =>
        simp only [hop] at houtputs
        refine .inl ⟨⟨hsigned, ?_⟩, _, houtputs, hfalse, rfl, rfl⟩
        simp [hfalse]

end OpLoop

theorem inputTxId_makeTxId {txId : String} (h : Free '-' txId) (idx : ℕ) :
    inputTxId (makeTxId txId idx) = txId := headD_fields_makeTxId h idx

structure SlotBatch where
  view : ChainView
  store : ContractStore
  txs : List TxPacket

structure ResultsOf (txs : List TxPacket) (old new : List ContractIdResult) : Prop where
  kept : old ⊆ new
  added : ∀ r ∈ new, r ∈ old ∨ ∃ tx ∈ txs, ∃ i : ℕ, r.output.txId = makeTxId tx.txId i

theorem ResultsOf.trans {txs txs' : List TxPacket} {old mid new : List ContractIdResult}
    (h : ResultsOf txs old mid) (h' : ResultsOf txs' mid new) :
    ResultsOf (txs ++ txs') old new where
  kept := List.Subset.trans h.kept h'.kept
  added r hr := by
    rcases h'.added r hr with hr | ⟨tx, htx, hid⟩
    · refine (h.added r hr).imp_right ?_
      rintro ⟨tx, htx, hid⟩
      exact ⟨tx, mem_append_left _ htx, hid⟩
    · exact .inr ⟨tx, mem_append_right _ htx, hid⟩

namespace BatchState

variable {view : ChainView} {store : ContractStore}

def addedResults (view : ChainView) (store : ContractStore) (s : BatchState × LedgerSession)
    (tx : TxPacket) : List ContractIdResult :=
  if tx.invalid then []
  else if tx.ops ≠ [] ∧ tx.ops.all VSCTransaction.isDeposit then []
  else ((s.1.loop s.2).executeAll view store tx 0 tx.ops).outputs

variable (s : BatchState × LedgerSession)

variable (tx : TxPacket) (e : BatchState) (batches : List SlotBatch)

theorem contractResults_execute : (execute view store s tx).1.contractResults =
      s.1.contractResults ++ addedResults view store s tx := by
  rw [execute, addedResults]
  split
  · rw [append_nil]
    rfl
  split
  · rw [append_nil]
  · rfl

theorem txId_addedResults {s : BatchState × LedgerSession} {tx : TxPacket} {r : ContractIdResult}
    (h : r ∈ addedResults view store s tx) : ∃ i : ℕ, r.output.txId = makeTxId tx.txId i := by
  rw [addedResults] at h
  split at h
  · cases h
  split at h
  · cases h
  · exact (OpLoop.txId_outputs_executeAll h).resolve_left (by simp [loop])

theorem resultsOf_execute :
    ResultsOf [tx] s.1.contractResults (execute view store s tx).1.contractResults := by
  rw [contractResults_execute]
  refine ⟨subset_append_left _ _, fun r hr => (mem_append.1 hr).imp_right fun hr => ?_⟩
  exact ⟨tx, mem_singleton_self tx, txId_addedResults hr⟩

theorem resultsOf_foldl (txs : List TxPacket) :
    ResultsOf txs s.1.contractResults (txs.foldl (execute view store) s).1.contractResults := by
  induction txs generalizing s with
  | nil => exact ⟨List.Subset.refl _, fun r hr => .inl hr⟩
  | cons tx txs ih => exact (resultsOf_execute s tx).trans (ih _)

def executeSlot : BatchState :=
  batches.foldl (fun e b => e.executeBatch b.view b.store b.txs) e

theorem resultsOf_executeSlot :
    ResultsOf (batches.flatMap (·.txs)) e.contractResults
      (e.executeSlot batches).contractResults := by
  induction batches generalizing e with
  | nil => exact ⟨List.Subset.refl _, fun r hr => .inl hr⟩
  | cons b batches ih =>
    rw [flatMap_cons]
    exact (resultsOf_foldl e.newSession b.txs).trans (ih _)

end BatchState

structure SlotPlace where
  earlier : List SlotBatch
  view : ChainView
  store : ContractStore
  (before after : List TxPacket)
  later : List SlotBatch

namespace SlotPlace

open BatchState

variable (place : SlotPlace) (e : BatchState) (tx : TxPacket)

/-- The other transactions of the slot. -/
def others : List TxPacket :=
  place.earlier.flatMap (·.txs) ++ place.before ++ (place.after ++ place.later.flatMap (·.txs))

def start : BatchState × LedgerSession :=
  place.before.foldl (execute place.view place.store) (e.executeSlot place.earlier).newSession

/-- What the operations of the transaction find. -/
def sessions : Sessions :=
  ⟨(place.start e).2, newCallSession place.store (place.start e).1.tempOutputs⟩

def final : BatchState :=
  e.executeSlot
    (place.earlier ++ ⟨place.view, place.store, place.before ++ tx :: place.after⟩ :: place.later)

variable {place e tx}

theorem final_eq : place.final e tx =
    (place.after.foldl (execute place.view place.store)
      (execute place.view place.store (place.start e) tx)).1.executeSlot place.later := by
  simp only [final, start, executeSlot, foldl_append, foldl_cons, executeBatch]

theorem mem_final_iff (he : e.contractResults = [])
    (hids : ∀ t ∈ place.others, t.txId ≠ tx.txId ∧ Free '-' t.txId) (hdash : Free '-' tx.txId)
    {r : ContractIdResult} :
    r ∈ (place.final e tx).contractResults ∧ inputTxId r.output.txId = tx.txId ↔
      r ∈ addedResults place.view place.store (place.start e) tx := by
  have hbefore : ResultsOf (place.earlier.flatMap (·.txs) ++ place.before) []
      (place.start e).1.contractResults := by
    rw [← he]
    exact (resultsOf_executeSlot e place.earlier).trans
      (resultsOf_foldl (e.executeSlot place.earlier).newSession place.before)
  have hafter : ResultsOf (place.after ++ place.later.flatMap (·.txs))
      (execute place.view place.store (place.start e) tx).1.contractResults
      (place.final e tx).contractResults := by
    rw [final_eq]
    exact (resultsOf_foldl _ place.after).trans (resultsOf_executeSlot _ place.later)
  have hother : ∀ t ∈ place.others, ∀ i : ℕ, r.output.txId = makeTxId t.txId i →
      inputTxId r.output.txId ≠ tx.txId := by
    intro t ht i hid
    rw [hid, inputTxId_makeTxId (hids t ht).2]
    exact (hids t ht).1
  constructor
  · rintro ⟨hr, hid⟩
    rcases hafter.added r hr with hr | ⟨t, ht, i, hti⟩
    · rw [contractResults_execute] at hr
      rcases mem_append.1 hr with hr | hr
      · rcases hbefore.added r hr with hr | ⟨t, ht, i, hti⟩
        · cases hr
        · exact absurd hid (hother t (mem_append_left _ ht) i hti)
      · exact hr
    · exact absurd hid (hother t (mem_append_right _ ht) i hti)
  intro hr
  have hmem : r ∈ (execute place.view place.store (place.start e) tx).1.contractResults := by
    rw [contractResults_execute]
    exact mem_append_right _ hr
  refine ⟨hafter.kept hmem, ?_⟩
  obtain ⟨i, hi⟩ := txId_addedResults hr
  rw [hi, inputTxId_makeTxId hdash]

theorem addedResults_of_fails (hfails : tx.invalid = true ∨
      ∀ adds after, ¬ Succeeds place.view (place.sessions e) tx.ops adds after) :
    ((tx.invalid = true ∨ FailsAtCall place.view tx.ops (place.sessions e)) ∧
        ∀ r ∈ addedResults place.view place.store (place.start e) tx, r.output.toOutput.Silent) ∨
      ((∀ r ∈ addedResults place.view place.store (place.start e) tx, r.output.success = true) ∧
        ¬ (tx.invalid = true ∨ FailsAtCall place.view tx.ops (place.sessions e)) ∧
        ∀ c, (∃ r ∈ addedResults place.view place.store (place.start e) tx, r.contractId = c) ↔
          Reached place.view tx.ops (place.sessions e) c) := by
  cases hinvalid : tx.invalid with
  | true => exact .inl ⟨.inl rfl, by simp [addedResults, hinvalid]⟩
  | false =>
    have hnot := hfails.resolve_left (by simp [hinvalid])
    simp only [Bool.false_eq_true, false_or]
    have hdeposits : ¬ (tx.ops ≠ [] ∧ tx.ops.all VSCTransaction.isDeposit = true) :=
      fun h => hnot _ _ (succeeds_deposits place.view (place.sessions e) h.2).1
    simp only [addedResults, hinvalid, Bool.false_eq_true, if_false, if_neg hdeposits]
    rcases @OpLoop.outputs_of_fails place.view place.store tx 0
        ((place.start e).1.loop (place.start e).2) rfl tx.ops hnot with
      ⟨hcall, r, houtputs, hsilent⟩ | ⟨hcall, results, houtputs, hsuccess, hreached⟩
    · rw [houtputs]
      exact .inl ⟨hcall, forall_mem_singleton.2 hsilent⟩
    · rw [houtputs]
      exact .inr ⟨hsuccess, hcall, hreached⟩

/-- A transaction that fails leaves nothing in the outputs of the slot, and causes
nothing when they are ingested, exactly if the operation that failed is a call or
no contract its calls have reached gets an output. -/
theorem failed_emits_nothing_iff (ids : ContentIds) (place : SlotPlace) (e : BatchState)
    (tx : TxPacket) (he : e.contractResults = [])
    (hids : ∀ t ∈ place.others, t.txId ≠ tx.txId ∧ Free '-' t.txId) (hdash : Free '-' tx.txId)
    (hfails : tx.invalid = true ∨
      ∀ adds after, ¬ Succeeds place.view (place.sessions e) tx.ops adds after) :
    ((∀ o ∈ (place.final e tx).makeOutputs ids, ∀ p ∈ o.entries,
          inputTxId p.1 = tx.txId → p.2.Silent) ∧
        ∀ o ∈ (place.final e tx).makeOutputs ids, ∀ indexed epoch st,
          o.ingest indexed epoch st = (o.without tx.txId).ingest indexed epoch st) ↔
      (tx.invalid = true ∨ FailsAtCall place.view tx.ops (place.sessions e) ∨
        ∀ c, Reached place.view tx.ops (place.sessions e) c →
          (place.final e tx).tempOutputs.get? c = none) := by
  have hentries : (∀ o ∈ (place.final e tx).makeOutputs ids, ∀ p ∈ o.entries,
      inputTxId p.1 = tx.txId → p.2.Silent) ↔
      ∀ r ∈ addedResults place.view place.store (place.start e) tx,
        (place.final e tx).tempOutputs.get? r.contractId ≠ none → r.output.toOutput.Silent := by
    constructor
    · intro h r hr hentry
      obtain ⟨hmem, hid⟩ := (mem_final_iff he hids hdash).2 hr
      obtain ⟨o, ho, hp⟩ := (@mem_entries_iff ids _ _).2 ⟨r, hmem, hentry, rfl⟩
      exact h o ho _ hp hid
    intro h o ho p hp hid
    obtain ⟨r, hr, hentry, rfl⟩ := (mem_entries_iff p).1 ⟨o, ho, hp⟩
    exact h r ((mem_final_iff he hids hdash).1 ⟨hr, hid⟩) hentry
  constructor
  · rintro ⟨hsilent, -⟩
    rcases addedResults_of_fails hfails with ⟨hcall, -⟩ | ⟨hsuccess, -, hreached⟩
    · exact hcall.imp_right .inl
    refine .inr (.inr fun c hc => ?_)
    obtain ⟨r, hr, rfl⟩ := (hreached c).2 hc
    by_contra hentry
    have hfalse := (hentries.1 hsilent r hr hentry).ok
    change r.output.success = false at hfalse
    rw [hsuccess r hr] at hfalse
    cases hfalse
  intro hcondition
  have hsilent : ∀ o ∈ (place.final e tx).makeOutputs ids, ∀ p ∈ o.entries,
      inputTxId p.1 = tx.txId → p.2.Silent := by
    refine hentries.2 fun r hr hentry => ?_
    rcases addedResults_of_fails hfails with ⟨-, hsilent⟩ | ⟨-, hcall, hreached⟩
    · exact hsilent r hr
    · rw [← or_assoc] at hcondition
      exact absurd (hcondition.resolve_left hcall _ ((hreached _).1 ⟨r, hr, rfl⟩)) hentry
  refine ⟨hsilent, fun o ho indexed epoch st => ?_⟩
  obtain ⟨out, -, hmake⟩ := mem_makeOutputs.1 ho
  exact ContractOutput.ingest_without (entries_of_makeOutput hmake).1
    (fun p hp hid => (hsilent o ho p hp hid).tssOps) indexed epoch st

def signingView : ChainView :=
  { bareView with
    hiveFreeAmount := 1000
    getContractInfo := fun _ _ => some ⟨"hive:owner", "code"⟩
    getCode := fun code => .ok code
    runtime := fun call _ _ =>
      (if call.action = "ask" then
          [.log "asked", .tssOp { type := "sign", keyId := "key", args := "msg" }, .ret]
        else [.ret],
        .returned "done" 0) }

def calls (txId account action : String) : VSCTransaction :=
  .call
    { self := { txId := txId, blockHeight := 5, requiredAuths := .of [account] }
      netId := "vsc-mainnet", contractId := "c", action := action, rcLimit := 500 }

def asksAndFails : TxPacket where
  txId := "a"
  ops := calls "a" "hive:alice" "ask" :: (BatchState.aliceSends "a" "0.020").ops

def contentIds : ContentIds := ⟨fun _ => "state", fun o => o.contractId⟩

/-- Alice's transaction, with the given transactions after it. -/
def placeBefore (after : List TxPacket) : SlotPlace where
  earlier := []
  view := signingView
  store := noContracts
  before := []
  after := after
  later := []

def aliceSlot : BatchState := { ledger := ⟨Desk.aliceHive, [], []⟩ }

theorem failed_emits_nothing_alone :
    let outputs := ((placeBefore []).final aliceSlot asksAndFails).makeOutputs contentIds
    (∀ o ∈ outputs, ∀ p ∈ o.entries, inputTxId p.1 = "a" → p.2.Silent) ∧
      ∀ o ∈ outputs, ∀ indexed epoch st,
        o.ingest indexed epoch st = (o.without "a").ingest indexed epoch st := by
  refine (failed_emits_nothing_iff contentIds (placeBefore []) aliceSlot asksAndFails rfl
    (fun t ht => absurd ht (by simp [others, placeBefore])) (by decide) (.inr ?_)).2
    (.inr (.inr fun c _ => rfl))
  rintro adds after (_ | ⟨hfalse, _⟩ | ⟨_, _, hrun, hok, _, hrest⟩)
  · cases hfalse
  cases hrun
  rcases hrest with _ | ⟨hfalse, _⟩ | ⟨_, _, hrun, hok, _, _⟩
  · cases hfalse
  have hfail := congrArg (fun out => out.1.success) hrun
  rw [hok] at hfail
  exact absurd hfail (by decide)

/-- Bob calls the contract as well, and what Alice's call has done comes out
although her transaction has failed; the request for a signature is acted on. -/
theorem failed_emits_request :
    let f := (placeBefore [⟨"b", [calls "b" "hive:bob" ""], false, ""⟩]).final aliceSlot asksAndFails
    (f.txOutput.get? "a").map (·.ok) = some false ∧
      (f.makeOutputs contentIds).flatMap (fun o => o.entries.map fun p =>
          (p.1, p.2.ok, p.2.logs, p.2.tssOps.map (·.keyId))) =
        [("a", true, ["asked"], ["key"]), ("b", true, [], [])] ∧
      ((f.makeOutputs contentIds).foldl (ContractOutput.ingest true none) {}).requests.docs =
        [⟨"key", "msg"⟩] :=
  ⟨rfl, rfl, rfl⟩

end SlotPlace

end VscNode
