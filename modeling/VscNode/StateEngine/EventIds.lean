import VscNode.Ledger.InFlight
import VscNode.StateEngine.Batch

/-!
# The ids of the events in flight

The id of an event starts with the transaction id its operation carries: alone,
with the place of the operation after a dash, and with a count after a colon
where the session has given the id before. The transaction it belongs to can be
read off it (`owner`), as long as every operation carries the id of its own
transaction. Then transactions with different ids leave events with different
ids, and within a transaction the session's count tells them apart, also after
calls that were undone.

An operation that carries the id of another transaction is counted by another
session than the operations of that transaction when the two are executed in
different batches, and both get the same id.
-/

namespace VscNode

open LedgerSession Relation Text List

/-! ## Ids of operations -/

/-- The transaction an id belongs to. -/
def owner (id : String) : String := (fields '-' ((fields ':' id).headD "")).headD ""

variable {txId : String} {event : OpLogEvent} {tx : TxPacket}

theorem free_colon_makeTxId (h : Free ':' txId) (idx : ℕ) : Free ':' (makeTxId txId idx) := by
  rw [makeTxId]
  split
  · exact h
  have hidx := free_formatUint (c := ':') (by decide) idx
  simp only [Free, formatInt, String.toList_append, mem_append, not_or] at h hidx ⊢
  exact ⟨⟨h, by decide⟩, hidx⟩

theorem owner_makeTxId (hcolon : Free ':' txId) (hdash : Free '-' txId) (idx : ℕ) :
    owner (makeTxId txId idx) = txId := by
  rw [owner, fields_of_free (free_colon_makeTxId hcolon idx), headD_cons,
    headD_fields_makeTxId hdash]

theorem owner_stamp {id : String} (h : Free ':' id) (k : ℕ) : owner (stamp id k) = owner id := by
  rw [owner, owner, fields_stamp h, fields_of_free h]
  split <;> rfl

/-- An operation id of a transaction. -/
structure OpId (txId id : String) : Prop where
  noColon : Free ':' id
  owner : owner id = txId

theorem opId_makeTxId (hcolon : Free ':' txId) (hdash : Free '-' txId) (idx : ℕ) :
    OpId txId (makeTxId txId idx) :=
  ⟨free_colon_makeTxId hcolon idx, owner_makeTxId hcolon hdash idx⟩

/-! ## Transactions whose operations carry their own id -/

/-- The id of a transaction has no separator, and its operations carry it. -/
structure TxPacket.Own (tx : TxPacket) : Prop where
  noColon : Free ':' tx.txId
  noDash : Free '-' tx.txId
  txId : ∀ op ∈ tx.ops, op.txSelf.txId = tx.txId
  opIndex : ∀ op ∈ tx.ops, 0 ≤ op.txSelf.opIndex

theorem TxPacket.Own.opId_of_issues (h : tx.Own) {op : VSCTransaction} (hop : op ∈ tx.ops)
    (hissues : op.Issues event) : OpId tx.txId event.id := by
  obtain ⟨idx, hidx⟩ := Int.eq_ofNat_of_zero_le (h.opIndex op hop)
  rcases hissues.id with hid | hid
  · rw [hid, h.txId op hop]
    exact opId_makeTxId h.noColon h.noDash 0
  · rw [hid, h.txId op hop, hidx]
    exact opId_makeTxId h.noColon h.noDash idx

/-- What a session has recorded for a transaction is numbered by its counts. -/
def NumberedFor (txId : String) (l : SessionLog) : Prop := Numbered (OpId txId) l.idCache l.oplog

theorem numberedFor_append {l : SessionLog} (hid : OpId txId event.id) (h : NumberedFor txId l) :
    NumberedFor txId (l.append event) :=
  h.append (fun _ hid => hid.noColon) hid rfl

theorem Succeeds.numberedFor {view : ChainView} (htx : tx.Own) {s s' : Sessions}
    {ops : List VSCTransaction} (hops : ops ⊆ tx.ops) {adds : List (List OpLogEvent)}
    (h : Succeeds view s ops adds s') (hs : NumberedFor tx.txId s.ledger.log) :
    NumberedFor tx.txId s'.ledger.log := by
  induction h with
  | nil s => exact hs
  | deposit _ _ ih => exact ih (subset_of_cons_subset hops) hs
  | @cons s s₁ s' op ops r added adds hdeposit hsigned hrun hok hadds h ih =>
    refine ih (subset_of_cons_subset hops) ?_
    rw [Sessions.ledger_settle]
    have hop : op ∈ tx.ops := hops mem_cons_self
    have hnests := VSCTransaction.nests_executeTx view hsigned s op.payer
    rw [hrun] at hnests
    exact (Nested.run (P := NumberedFor tx.txId)
      (fun l event hissues hl => numberedFor_append (htx.opId_of_issues hop hissues) hl)
      hnests (nested_nil hs)).now

namespace BatchState

/-- The events of the transactions executed so far have ids of their own, which
start with the ids of these transactions. -/
structure Distinct (txs : List TxPacket) (oplog : List OpLogEvent) : Prop where
  nodup : (oplog.map (·.id)).Nodup
  owner : ∀ v ∈ oplog, owner v.id ∈ txs.map (·.txId)

variable {txs : List TxPacket}

theorem Distinct.mono {txs' : List TxPacket} {oplog : List OpLogEvent} (h : Distinct txs oplog)
    (hsub : txs ⊆ txs') : Distinct txs' oplog :=
  ⟨h.nodup, fun v hv => map_subset _ hsub (h.owner v hv)⟩

variable {tx : TxPacket} {s : BatchState × LedgerSession} {store : ContractStore} {view : ChainView}

theorem Distinct.append {oplog added : List OpLogEvent} (h : Distinct txs oplog)
    (hnew : tx.txId ∉ txs.map (·.txId)) (hnodup : (added.map (·.id)).Nodup)
    (howner : ∀ v ∈ added, VscNode.owner v.id = tx.txId) :
    Distinct (txs ++ [tx]) (oplog ++ added) where
  nodup := by
    rw [map_append]
    refine nodup_append.2 ⟨h.nodup, hnodup, ?_⟩
    rintro _ hold _ hadded rfl
    obtain ⟨u, hu, heq⟩ := mem_map.1 hold
    obtain ⟨v, hv, hveq⟩ := mem_map.1 hadded
    refine hnew ?_
    rw [← howner v hv, hveq, ← heq]
    exact h.owner u hu
  owner := by
    intro v hv
    rw [map_append, mem_append]
    rcases mem_append.1 hv with hv | hv
    · exact .inl (h.owner v hv)
    · exact .inr (by simp [howner v hv])

theorem Distinct.execute (hclean : Clean s) (htx : tx.Own) (hnew : tx.txId ∉ txs.map (·.txId))
    (h : Distinct txs s.1.ledger.oplog) :
    Distinct (txs ++ [tx]) (BatchState.execute view store s tx).1.ledger.oplog := by
  cases hvalid : tx.invalid with
  | true =>
    have hsame : BatchState.execute view store s tx = (s.1.rejectInvalid tx, s.2) := if_pos hvalid
    rw [hsame]
    exact h.mono (subset_append_left _ _)
  | false =>
    rcases execute_cases view store hclean hvalid with
      ⟨adds, after, hsucc, hoplog, -⟩ | ⟨-, hoplog, -⟩
    · have hnumbered : NumberedFor tx.txId after.ledger.log := by
        refine hsucc.numberedFor htx (List.Subset.refl _) ?_
        rw [NumberedFor, LedgerSession.log, hclean.oplog]
        exact ⟨nodup_nil, by simp⟩
      have hafter : after.ledger.oplog = adds.flatten := by
        rw [hsucc.adds.oplog, hclean.oplog, nil_append]
      rw [hoplog, ← hafter]
      refine h.append hnew hnumbered.nodup fun v hv => ?_
      obtain ⟨id, k, hid, -, hstamp⟩ := hnumbered.stamped v hv
      rw [hstamp, owner_stamp hid.noColon, hid.owner]
    · rw [hoplog]
      exact h.mono (subset_append_left _ _)

theorem Distinct.foldl {batch : List TxPacket} (hclean : Clean s) (hown : ∀ tx ∈ batch, tx.Own)
    (hnodup : ((txs ++ batch).map (·.txId)).Nodup) (h : Distinct txs s.1.ledger.oplog) :
    Distinct (txs ++ batch) (batch.foldl (BatchState.execute view store) s).1.ledger.oplog := by
  induction batch generalizing txs s with
  | nil => exact h.mono (subset_append_left _ _)
  | cons tx batch ih =>
    obtain ⟨htx, hbatch⟩ := forall_mem_cons.1 hown
    rw [append_cons] at hnodup ⊢
    refine ih (hclean.execute tx) hbatch hnodup (h.execute hclean htx ?_)
    rw [map_append, map_append] at hnodup
    intro hmem
    exact disjoint_of_nodup_append (List.Nodup.of_append_left hnodup) hmem (by simp)

/-! ## Between two flushes -/

/-- The transactions executed since the last flush and the state they have led
to. What else happens to the state leaves the events in flight alone. -/
inductive SinceFlush : List TxPacket → BatchState → Prop
  | flushed {e : BatchState} (h : e.ledger.oplog = []) : SinceFlush [] e
  | batch {txs : List TxPacket} {e : BatchState} (h : SinceFlush txs e) (view : ChainView)
      (store : ContractStore) (batch : List TxPacket) :
      SinceFlush (txs ++ batch) (e.executeBatch view store batch)
  | other {txs : List TxPacket} {e e' : BatchState} (h : SinceFlush txs e)
      (heq : e'.ledger.oplog = e.ledger.oplog) : SinceFlush txs e'

theorem SinceFlush.distinct {e : BatchState} (h : SinceFlush txs e) (hown : ∀ tx ∈ txs, tx.Own)
    (hnodup : (txs.map (·.txId)).Nodup) :
    Distinct txs e.ledger.oplog := by
  induction h with
  | flushed h =>
    rw [h]
    exact ⟨nodup_nil, by simp⟩
  | @batch txs e _ view store batch ih =>
    obtain ⟨hown, hbatch⟩ := forall_mem_append.1 hown
    have hfirst : (txs.map (·.txId)).Nodup := by
      rw [map_append] at hnodup
      exact hnodup.of_append_left
    exact (ih hown hfirst).foldl (clean_newSession e) hbatch hnodup
  | other _ heq ih =>
    rw [heq]
    exact ih hown hnodup

/-- Between two flushes all events have ids of their own, and so have the rows
derived from them. -/
theorem ids_distinct {txs : List TxPacket} {e : BatchState} (h : SinceFlush txs e)
    (hnodup : (txs.map (·.txId)).Nodup) (hown : ∀ tx ∈ txs, tx.Own) :
    (e.ledger.oplog.map (·.id)).Nodup ∧
      ∀ endBlock, ((executeOplog e.ledger.oplog endBlock).1.map (·.id)).Nodup := by
  have hdistinct := h.distinct hown hnodup
  exact ⟨hdistinct.nodup, nodup_id_executeOplog hdistinct.nodup⟩

/-- Alice's transfer and a retry of hers, in two batches. -/
theorem ids_distinct_twoBatches :
    let e := (executeBatch bareView noContracts { ledger := ⟨Desk.aliceHive, [], []⟩ }
      [aliceSends "a" "0.005"]).executeBatch bareView noContracts [aliceSends "b" "0.001"]
    e.ledger.oplog.map (·.id) = ["a", "b"] ∧
      ((executeOplog e.ledger.oplog 10).1.map (·.id)).Nodup := by
  have hsince := ((SinceFlush.flushed (e := { ledger := ⟨Desk.aliceHive, [], []⟩ }) rfl).batch
    bareView noContracts [aliceSends "a" "0.005"]).batch bareView noContracts
    [aliceSends "b" "0.001"]
  refine ⟨by decide, (ids_distinct hsince (by decide) ?_).2 10⟩
  intro tx htx
  simp only [nil_append, cons_append, mem_cons, not_mem_nil, or_false] at htx
  rcases htx with rfl | rfl
  · exact ⟨by decide, by decide, by decide, by decide⟩
  · exact ⟨by decide, by decide, by decide, by decide⟩

def l1Packet (txId : String) (cj : CustomJson) : TxPacket where
  txId := txId
  ops := (parseUserOperation ⟨txId, 5, "block", "time", 0, 0⟩ cj).toList

/-- A transfer on L1, signed by its sender; `more` is added to the payload. -/
def l1Transfer (from_ to_ amount : String) (more : List (String × Json)) : CustomJson where
  id := "vsc.transfer"
  requiredAuths := [from_]
  requiredPostingAuths := []
  json := some (.obj ([("net_id", .str "vsc-mainnet"), ("from", .str (hiveAccount from_)),
    ("to", .str (hiveAccount to_)), ("amount", .str amount), ("asset", .str "hive")] ++ more))

/-- Bob's payload names Alice's transaction as its own. The two transactions are
executed in different batches, and their events and rows have the same ids. -/
theorem ids_collide :
    let alice := l1Packet "a" (l1Transfer "alice" "bob" "0.005" [])
    let bob := l1Packet "b" (l1Transfer "bob" "carol" "0.001" [("self", .obj [("TxId", .str "a")])])
    let e := (executeBatch bareView noContracts { ledger := ⟨Desk.aliceHive, [], []⟩ }
      [alice]).executeBatch bareView noContracts [bob]
    e.ledger.oplog.map (fun v => (v.id, v.from_)) = [("a", "hive:alice"), ("a", "hive:bob")] ∧
      (executeOplog e.ledger.oplog 10).1.map (·.id) = ["a#in", "a#out", "a#in", "a#out"] := by
  decide

end BatchState

end VscNode
