import VscNode.Ledger.StakeCredit

/-!
# Actions that are settled

An oplog opens the actions of its withdrawals, stakes and unstakes as pending. A
header of the gateway or the end of a slot completes them, and a completed one is
selected for no payout. Actions are stored by id, and storing one sets all of it,
the status among it: an oplog that is ingested again, by a node that replays its
blocks, opens a completed action once more.

`BridgeRun.stays_settled_iff` says that this is the only way back: a run keeps
what is settled exactly when no oplog in it opens an action that is settled by
then.
-/

namespace VscNode

open Collection List

/-! ## Selection for a payout -/

/-- The number of actions the gateway takes up at once. -/
def maxGatewayActionBatch : ℕ := 100

def ActionDb.getPendingActions (db : ActionDb) (bh : ℕ) (types : List ActionType) :
    List ActionRecord :=
  ((db.docs.filter fun a => a.status = .pending ∧ a.blockHeight ≤ bh ∧
    (types = [] ∨ a.type ∈ types)).insertionSort fun a b =>
      a.blockHeight < b.blockHeight ∨ (a.blockHeight = b.blockHeight ∧ a.id.toList ≤ b.id.toList)).take
    maxGatewayActionBatch

variable {a : ActionRecord}

theorem ActionDb.pending_of_mem_getPendingActions {db : ActionDb} {bh : ℕ}
    {types : List ActionType} (h : a ∈ db.getPendingActions bh types) :
    a ∈ db ∧ a.status = .pending := by
  have hmem := (perm_insertionSort _ _).mem_iff.1 (mem_of_mem_take h)
  simp only [List.mem_filter, mem_docs, decide_eq_true_eq] at hmem
  exact ⟨hmem.1, hmem.2.1⟩

def LedgerDbs.Selects (s : LedgerDbs) (id : String) : Prop :=
  (∃ bh types, ∃ a ∈ s.actions.getPendingActions bh types, a.id = id) ∨
    ∃ env : SlotEnv, ∃ a ∈ releasedActions env s.actions, a.id = id

def LedgerDbs.Settled (s : LedgerDbs) (id : String) : Prop :=
  ∃ a, s.actions.get? id = some a ∧ a.status = .complete

variable {s : LedgerDbs} {e : BridgeEvent}

theorem LedgerDbs.Settled.not_selects {id : String} (h : s.Settled id) : ¬ s.Selects id := by
  obtain ⟨a, hget, hstatus⟩ := h
  have hpending : ∀ b ∈ s.actions, b.id = id → b.status ≠ .pending := by
    rintro b hb rfl hb'
    rw [get?_of_mem hb] at hget
    rw [← Option.some.inj hget, hb'] at hstatus
    cases hstatus
  rintro (⟨bh, types, b, hb, hid⟩ | ⟨env, b, hb, hid⟩)
  · obtain ⟨hmem, hstatus⟩ := ActionDb.pending_of_mem_getPendingActions hb
    exact hpending b hmem hid hstatus
  · obtain ⟨hmem, hdue⟩ := mem_releasedActions.1 hb
    exact hpending b hmem hid (SlotEnv.pending_of_due hdue).1

/-! ## Events -/

inductive BridgeEvent
  | ingest (oplog : List OpLogEvent) (endHeight : ℕ)
  | index (update : ActionUpdate) (blockHeight : ℕ)
  | slot (env : SlotEnv) (startBlock endBlock : ℕ)

namespace BridgeEvent

def apply (s : LedgerDbs) : BridgeEvent → LedgerDbs
  | ingest oplog endHeight => ingestOplog s oplog endHeight
  | index update blockHeight => indexActions s update blockHeight
  | slot env startBlock endBlock => updateBalances s env startBlock endBlock

def opened : BridgeEvent → List ActionRecord
  | ingest oplog endHeight => (executeOplog oplog endHeight).2
  | _ => []

end BridgeEvent

theorem status_of_mem_opActionRecords {v : OpLogEvent} {endBlock : ℕ}
    (h : a ∈ opActionRecords v endBlock) : a.status = .pending := by
  rw [opActionRecords] at h
  split at h
  · rw [mem_singleton.1 h]
  · rw [mem_singleton.1 h]
  · rw [mem_singleton.1 h]
  · split at h <;> rw [mem_singleton.1 h]
  · cases h

theorem BridgeEvent.status_of_mem_opened (h : a ∈ e.opened) : a.status = .pending := by
  cases e with
  | ingest oplog endHeight =>
    obtain ⟨v, -, ha⟩ := mem_flatMap.1 h
    exact status_of_mem_opActionRecords ha
  | index update blockHeight => cases h
  | slot env startBlock endBlock => cases h

/-! ## What completes stays complete -/

namespace LedgerDbs.Settled

variable {s : LedgerDbs} {id : String}

theorem executeComplete (h : s.Settled id) (ids : List String) :
    Settled { s with actions := s.actions.executeComplete ids } id := by
  obtain ⟨a, hget, hstatus⟩ := h
  obtain ⟨hmem, rfl⟩ := get?_eq_some_iff.1 hget
  refine ⟨if a.id ∈ ids then { a with status := .complete } else a, ?_, ?_⟩
  · refine get?_eq_some_iff.2 ⟨ActionDb.mem_executeComplete.2 ⟨a, hmem, rfl⟩, ?_⟩
    split_ifs <;> rfl
  split_ifs
  · rfl
  · exact hstatus

theorem indexActions (h : s.Settled id) (update : ActionUpdate) (blockHeight : ℕ) :
    (indexActions s update blockHeight).Settled id := by
  rw [VscNode.indexActions]
  generalize indexWrites s update blockHeight = writes
  induction writes generalizing s with
  | nil => exact h
  | cons w writes ih =>
    refine ih ?_
    cases w with
    | storeLedger r => exact h
    | executeComplete id' => exact h.executeComplete [id']

theorem apply (h : s.Settled id) {e : BridgeEvent} (he : ∀ a ∈ e.opened, a.id ≠ id) :
    (e.apply s).Settled id := by
  cases e with
  | ingest oplog endHeight =>
    obtain ⟨a, hget, hstatus⟩ := h
    exact ⟨a, (get?_putAll_of_not_mem he).trans hget, hstatus⟩
  | index update blockHeight => exact h.indexActions update blockHeight
  | slot env startBlock endBlock =>
    exact h.executeComplete ((releasedActions env s.actions).map (·.id))

end LedgerDbs.Settled

theorem BridgeEvent.not_settled_of_opened (ha : a ∈ e.opened) : ¬ (e.apply s).Settled a.id := by
  rintro ⟨b, hget, hstatus⟩
  cases e with
  | ingest oplog endHeight =>
    have hopened : b ∈ (ingest oplog endHeight).opened :=
      mem_of_get?_putAll hget ⟨a, ha, rfl⟩
    rw [status_of_mem_opened hopened] at hstatus
    cases hstatus
  | index update blockHeight => cases ha
  | slot env startBlock endBlock => cases ha

/-! ## Runs -/

structure BridgeRun where
  start : LedgerDbs
  events : List BridgeEvent

namespace BridgeRun

variable (w : BridgeRun)

def after (events : List BridgeEvent) : LedgerDbs := events.foldl BridgeEvent.apply w.start

theorem after_concat (events : List BridgeEvent) (e : BridgeEvent) :
    w.after (events ++ [e]) = e.apply (w.after events) := by
  rw [after, foldl_append]
  rfl

def StaysSettled : Prop :=
  ∀ done more rest, w.events = done ++ more ++ rest → ∀ id, (w.after done).Settled id →
    (w.after (done ++ more)).Settled id ∧ ¬ (w.after (done ++ more)).Selects id

def OpensUnsettled : Prop :=
  ∀ done e rest, w.events = done ++ e :: rest → ∀ a ∈ e.opened, ¬ (w.after done).Settled a.id

/-- **Settled actions stay settled** exactly in the runs whose oplogs open no settled one. -/
theorem stays_settled_iff : w.StaysSettled ↔ w.OpensUnsettled := by
  constructor
  · intro h done e rest hevents a ha hsettled
    have hafter := (h done [e] rest (by simpa using hevents) a.id hsettled).1
    rw [after_concat] at hafter
    exact e.not_settled_of_opened ha hafter
  intro h done more
  induction more using reverseRecOn with
  | nil =>
    intro rest _ id hsettled
    rw [append_nil]
    exact ⟨hsettled, hsettled.not_selects⟩
  | append_singleton more e ih =>
    intro rest hevents id hsettled
    have hbefore := (ih (e :: rest) (by simpa using hevents) id hsettled).1
    have hopened : ∀ a ∈ e.opened, a.id ≠ id := fun a ha hid =>
      h (done ++ more) e rest (by simpa using hevents) a ha (hid ▸ hbefore)
    rw [← append_assoc, after_concat]
    have hafter := hbefore.apply hopened
    exact ⟨hafter, hafter.not_selects⟩

/-- A withdrawal of a hundred, paid by the gateway, whose oplog is ingested once more. -/
def replayedWithdrawal : BridgeRun :=
  let withdrawal : OpLogEvent :=
    { id := "w", to_ := "hive:a", from_ := "hive:a", amount := 100, asset := .hive
      type := .withdraw, blockHeight := 10 }
  { start := {}
    events := [.ingest [withdrawal] 10, .index ⟨["w"], ""⟩ 20, .ingest [withdrawal] 10] }

/-- The replay opens the paid withdrawal again, and the gateway takes it up a second time. -/
theorem replayed_withdrawal_reopened : ¬ replayedWithdrawal.StaysSettled ∧
      ((replayedWithdrawal.after (replayedWithdrawal.events.take 2)).actions.docs.map
        (·.status)) = [.complete] ∧
      ((replayedWithdrawal.after replayedWithdrawal.events).actions.getPendingActions 30
        [.withdraw, .stake, .unstake]).map (·.id) = ["w"] := by
  have hpaid : (replayedWithdrawal.after (replayedWithdrawal.events.take 2)).actions.docs.map
      (·.status) = [.complete] := by decide
  have hagain : ((replayedWithdrawal.after replayedWithdrawal.events).actions.getPendingActions 30
      [.withdraw, .stake, .unstake]).map (·.id) = ["w"] := by decide
  refine ⟨fun h => ?_, hpaid, hagain⟩
  have hmem : "w" ∈ ((replayedWithdrawal.after replayedWithdrawal.events).actions.getPendingActions
      30 [.withdraw, .stake, .unstake]).map (·.id) := hagain ▸ mem_singleton_self _
  obtain ⟨a, ha, hid⟩ := mem_map.1 hmem
  exact (h (replayedWithdrawal.events.take 2) (replayedWithdrawal.events.drop 2) [] (by simp) "w"
    ⟨_, rfl, rfl⟩).2 (.inl ⟨30, _, a, ha, hid⟩)

end BridgeRun

end VscNode
