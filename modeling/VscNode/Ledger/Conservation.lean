import VscNode.Ledger.Books

/-!
# The bond life cycle conserves HIVE

Every event of the life cycle keeps the books, and none but an L1 deposit changes
the total. Operations are the exception: nothing in the ledger tells a repeated
operation id from a new one, so a batch must use fresh ids (`Event.Fresh`). A second
unstake under the id of a paid one reopens its action, and the ledger owes the
amount again.
-/

namespace VscNode

open Collection Relation Text List

/-! ## What leaves the events in flight alone -/

section Flight

variable {s : LedgerDbs} {id : String}

theorem InFlight.mono {s' : LedgerDbs} {oplog : List OpLogEvent} (h : InFlight s oplog)
    (hkept : ∀ {id}, Unused s id → Unused s' id) : InFlight s' oplog :=
  ⟨h.nodup, h.noHash, h.type, fun v hv => hkept (h.unused v hv)⟩

theorem Unused.storeLedger (h : Unused s id) {rows : List LedgerRecord}
    (hrows : ∀ r ∈ rows, rowClass r.id ≠ .op) : Unused (s.storeLedger rows) id := by
  have hrow : ∀ {t : String} (word : String), t.toList = '#' :: word.toList → word ∈ opWords →
      s.ledger.get? (id ++ t) = none → (s.storeLedger rows).ledger.get? (id ++ t) = none := by
    intro t word ht hword hnone
    rw [LedgerDbs.storeLedger_ledger, get?_putAll_of_not_mem, hnone]
    intro r hr heq
    exact hrows r hr (by rw [heq, rowClass_append_op word ht hword])
  exact ⟨hrow "in" (by rfl) (by decide) h.in_, hrow "out" (by rfl) (by decide) h.out,
    hrow "edge" (by rfl) (by decide) h.edge, hrow "total" (by rfl) (by decide) h.total, h.action⟩

theorem Unused.release (h : Unused s id) (env : SlotEnv) (endBlock : ℕ) :
    Unused (releaseUnstakes s env endBlock) id := by
  have hne : ∀ a ∈ s.actions, a.id ≠ id := get?_eq_none_iff.1 h.action
  have hrow : ∀ {t : String}, s.ledger.get? (id ++ t) = none →
      (∀ a ∈ s.actions, a.id ++ "#out" ≠ id ++ t) →
      (releaseUnstakes s env endBlock).ledger.get? (id ++ t) = none := by
    intro t hnone hids
    rw [releaseUnstakes_eq, LedgerDbs.storeLedger_ledger, get?_putAll_of_not_mem]
    · exact hnone
    intro r hr
    obtain ⟨a, ha, rfl⟩ := mem_map.1 hr
    exact hids a (mem_releasedActions.1 ha).1
  refine ⟨hrow h.in_ ?_, hrow h.out ?_, hrow h.edge ?_, hrow h.total ?_, ?_⟩
  · exact fun a _ => append_ne_append (by decide) _ _
  · exact fun a ha heq => hne a ha (append_right_cancel_iff.1 heq)
  · exact fun a _ => append_ne_append (by decide) _ _
  · exact fun a _ => append_ne_append (by decide) _ _
  refine get?_eq_none_iff.2 fun a ha => ?_
  obtain ⟨b, hb, rfl⟩ := ActionDb.mem_executeComplete.1 ha
  split <;> exact hne b hb

theorem Unused.slotChange (h : Unused s id) (env : SlotEnv) (startBlock endBlock : ℕ) :
    Unused (updateBalances s env startBlock endBlock) id := by
  have hrelease := h.release env endBlock
  obtain ⟨cursorRows, hcur, heq⟩ :=
    finalizeMaturedSafetySlashBurns_eq (releaseUnstakes s env endBlock).ledger endBlock
  have hrows : ∀ r ∈ (promotedRows (releaseUnstakes s env endBlock).ledger endBlock).flatMap
      (promotionRecords endBlock) ++ cursorRows, rowClass r.id ≠ .op := by
    intro r hr
    rcases mem_append.1 hr with hr | hr
    · obtain ⟨p, -, hp⟩ := mem_flatMap.1 hr
      rw [rowClass_of_mem_promotionRecords hp]
      decide
    rcases hcur with rfl | ⟨c, rfl⟩
    · simp at hr
    · rw [mem_singleton.1 hr, rowClass_finalizeCursorRecord]
      decide
  have hledger : (updateBalances s env startBlock endBlock).ledger =
      finalizeMaturedSafetySlashBurns (releaseUnstakes s env endBlock).ledger endBlock := rfl
  have hactions : (updateBalances s env startBlock endBlock).actions =
      (releaseUnstakes s env endBlock).actions := rfl
  obtain ⟨hin, hout, hedge, htotal, haction⟩ := hrelease.storeLedger hrows
  rw [LedgerDbs.storeLedger_ledger, ← heq, ← hledger] at hin hout hedge htotal
  exact ⟨hin, hout, hedge, htotal, by rw [hactions]; exact haction⟩

end Flight

/-! ## Runs -/

instance (n : Node) (id : String) : Decidable (FreshOp n id) :=
  decidable_of_iff _ (freshOp_iff ..).symm

namespace Event

/-- The operations of a batch have ids that nothing uses. -/
def Fresh (n : Node) : Event → Prop
  | .batch txs => ∀ ops ∈ txs, ∀ op ∈ ops, FreshOp n op.params.id
  | _ => True

instance (n : Node) (e : Event) : Decidable (e.Fresh n) := by
  refine e.casesOn ?_ ?_ ?_ ?_ ?_ ?_ ?_ <;> intros <;> unfold Event.Fresh <;> infer_instance

/-- Rows stored for L1 bring HIVE in; the other events only move it. -/
def Internal : Event → Prop
  | .store _ => False
  | _ => True

instance (e : Event) : Decidable e.Internal := by
  refine e.casesOn ?_ ?_ ?_ ?_ ?_ ?_ ?_ <;> intros <;> unfold Event.Internal <;> infer_instance

end Event

namespace Node

variable (w : Carriers) (n : Node) (e : Event)

def FreshEvent : Prop := Enabled w n e ∧ e.Fresh n
  deriving Decidable

def CycleEvent : Prop := FreshEvent w n e ∧ e.Internal
  deriving Decidable

structure Balanced (w : Carriers) (n : Node) : Prop where
  books : Books w n.dbs
  flight : InFlight n.dbs n.ledger.oplog

theorem balanced_genesis (head : ℕ) : Balanced w (genesis head) :=
  ⟨books_empty w, inFlight_nil _⟩

variable {w : Carriers} {n : Node}

theorem Balanced.setDbs {dbs : LedgerDbs} (h : Balanced w n) (hkeeps : Keeps w n.dbs dbs)
    (hkept : ∀ {id}, Unused n.dbs id → Unused dbs id) : Balanced w (n.setDbs dbs) :=
  ⟨hkeeps.books, h.flight.mono hkept⟩

theorem unused_slash {p : SafetySlashConsensusParams} (hp : SlashCarried w n.head p) {id : String}
    (h : Unused n.dbs id) : Unused (safetySlashConsensusBond n.dbs p).1 id := by
  have hout := safetySlashConsensusBond_outcome n.dbs p
  generalize safetySlashConsensusBond n.dbs p = res at hout
  cases hout with
  | refused msg => exact h
  | replayed msg debit hdebit => exact h
  | written msg amt companion hne hpos hle hamt htakes hcompanion =>
    have hacct : HiveAccount (normalizeHiveConsensusAccount p.account) :=
      ⟨hp.acctFree, hasPrefix_normalizeHiveConsensusAccount hne⟩
    refine h.storeLedger (forall_mem_pair ?_ ?_)
    · rw [slashDebitRecord, rowClass_slashDebitID p.txID hp.kindFree hacct]
      decide
    · rw [(hcompanion.id_eq hp).1, rowClass_companionID w p.txID hp.kindFree hacct]
      decide

theorem unused_payout {p : ReservePayoutParams} (hp : PayoutCarried w n.head p) {id : String}
    (h : Unused n.dbs id) :
    Unused { n.dbs with ledger := (reservePayout n.dbs.ledger p).1 } id := by
  rw [reservePayout_eq]
  rcases payoutWrites_cases n.dbs.ledger p with hnil | ⟨hrows, -, -, hne, -⟩
  · rw [hnil]
    exact h
  rw [hrows]
  refine h.storeLedger fun r hr => ?_
  rw [rowClass_of_mem_reservePayout
    ⟨hp.recipientFree, hasPrefix_normalizeHiveConsensusAccount hne⟩ hr]
  decide

theorem Balanced.apply (h : Balanced w n) {e : Event} (he : Enabled w n e) (hfresh : e.Fresh n) :
    Balanced w (n.apply e) ∧ (e.Internal → (n.apply e).dbs.totalHive = n.dbs.totalHive) := by
  cases e with
  | l1Block height => exact ⟨⟨h.books, h.flight⟩, fun _ => rfl⟩
  | store rows =>
    have hclass : ∀ r ∈ rows, rowClass r.id = .plain := fun r hr => rowClass_of_free (he r hr).2.1
    refine ⟨⟨h.books.storeLedger hclass (by simp) (by simp) (by simp) ?_ (by simp), ?_⟩, False.elim⟩
    · intro _
      rw [← h.books.cursor]
      exact valueAt_putAll_of_not_mem _ fun r hr => (he r hr).2.2
    refine h.flight.mono fun hunused => hunused.storeLedger fun r hr => ?_
    rw [hclass r hr]
    decide
  | batch txs =>
    have hdbs := n.dbs_apply_batch txs
    refine ⟨⟨?_, ?_⟩, fun _ => by rw [hdbs]⟩
    · rw [hdbs]
      exact h.books
    · rw [hdbs]
      exact h.flight.batch hfresh
  | block bh br1 =>
    have hmap :
        InFlight n.dbs ((n.ledger.compile bh).map fun v => { v with blockHeight := n.head }) := by
      have hsub := h.flight.sublist (filter_sublist (p := fun v => decide (v.blockHeight ≤ bh)))
      refine ⟨?_, ?_, ?_, ?_⟩
      · rw [List.map_map]
        exact hsub.nodup
      · intro v hv
        obtain ⟨u, hu, rfl⟩ := mem_map.1 hv
        exact hsub.noHash u hu
      · intro v hv
        obtain ⟨u, hu, rfl⟩ := mem_map.1 hv
        exact hsub.type u hu
      intro v hv
      obtain ⟨u, hu, rfl⟩ := mem_map.1 hv
      exact hsub.unused u hu
    have hkeeps := h.books.ingest hmap (brHeight br1)
    exact ⟨⟨hkeeps.books, inFlight_nil _⟩, fun _ => hkeeps.total⟩
  | slash p =>
    have hkeeps := h.books.slash he
    rw [apply_slash]
    exact ⟨h.setDbs hkeeps (unused_slash he), fun _ => by rw [dbs_setDbs]; exact hkeeps.total⟩
  | payout p =>
    have hkeeps := h.books.payout he
    rw [Node.apply]
    exact ⟨h.setDbs hkeeps (unused_payout he), fun _ => by rw [dbs_setDbs]; exact hkeeps.total⟩
  | slotChange env startBlock =>
    have hkeeps := h.books.slotChange env startBlock n.slot
    refine ⟨⟨?_, ?_⟩, fun _ => ?_⟩ <;> rw [dbs_apply_slotChange]
    · exact hkeeps.books
    · rw [oplog_apply_slotChange]
      exact h.flight.mono fun hunused => hunused.slotChange env startBlock n.slot
    · exact hkeeps.total

theorem balanced_of_run {head : ℕ}
    (h : ReflTransGen (StepBy (FreshEvent w)) (genesis head) n) : Balanced w n := by
  refine Run.preserves ?_ h (balanced_genesis w head)
  rintro s t ⟨e, ⟨he, hfresh⟩, rfl⟩ hs
  exact (hs.apply he hfresh).1

/-- In every run whose operations use fresh ids, from any point on, the bond life
cycle keeps the total of HIVE rows, bond rows and owed unstakes. -/
theorem totalHive_eq_of_run {n' : Node} {head : ℕ}
    (hn : ReflTransGen (StepBy (FreshEvent w)) (genesis head) n)
    (hrun : ReflTransGen (StepBy (CycleEvent w)) n n') : n'.dbs.totalHive = n.dbs.totalHive := by
  have hinv : Balanced w n' ∧ n'.dbs.totalHive = n.dbs.totalHive := by
    refine Run.preserves (P := fun m => Balanced w m ∧ m.dbs.totalHive = n.dbs.totalHive) ?_ hrun
      ⟨balanced_of_run hn, rfl⟩
    rintro s t ⟨e, ⟨⟨he, hfresh⟩, hint⟩, rfl⟩ ⟨hs, htotal⟩
    have happly := hs.apply he hfresh
    exact ⟨happly.1, (happly.2 hint).trans htotal⟩
  exact hinv.2

end Node

/-! ## An operation id used twice -/

def oneAccountCarriers : Carriers := ⟨fun _ => 0, fun _ => 0, fun _ => ("", 0)⟩

def depositedNode : Node :=
  (Node.genesis 10).apply (.store [{ id := "d", amount := 100, blockHeight := 10
                                     owner := "hive:a", type := .deposit, asset := .hive }])

def paidNode : Node :=
  [.batch [[.stake ⟨"s", "hive:a", "hive:a", 100, 10, 0, false⟩]], .block 10 10,
    .batch [[.unstake ⟨"u", "hive:a", "hive:a", 40, 10, 0, false⟩]], .block 10 10, .l1Block 20,
    .slotChange ⟨some 5, fun _ => false, fun _ => false, none⟩ 0].foldl Node.apply depositedNode

/-- A second unstake under the id of the paid one. -/
def reusedUnstake : List Event :=
  [.batch [[.unstake ⟨"u", "hive:a", "hive:a", 30, 20, 1, false⟩]], .block 20 20]

theorem run_depositedNode :
    ReflTransGen (Node.StepBy (Node.FreshEvent oneAccountCarriers)) (Node.genesis 10)
      depositedNode :=
  .single ⟨_, by decide, rfl⟩

theorem totalHive_paidNode : paidNode.dbs.totalHive = depositedNode.dbs.totalHive :=
  Node.totalHive_eq_of_run run_depositedNode (Run.foldl (by decide))

/-- The second unstake reopens the paid action, and 40 HIVE come from nowhere. -/
theorem totalHive_reusedUnstake : paidNode.Reachable oneAccountCarriers ∧
      Run.AllAlong Node.apply (Enabled oneAccountCarriers) paidNode reusedUnstake ∧
      (∀ e ∈ reusedUnstake, e.Internal) ∧
      paidNode.dbs.totalHive = 100 ∧
      (reusedUnstake.foldl Node.apply paidNode).dbs.totalHive = 140 := by
  refine ⟨⟨10, ?_⟩, by decide, by decide, by decide, by decide⟩
  exact .head ⟨_, by decide, rfl⟩ (Run.foldl (s := depositedNode) (by decide))

end VscNode
