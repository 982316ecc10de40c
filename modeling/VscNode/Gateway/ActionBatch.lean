import VscNode.Ledger.BridgeActions
import VscNode.Lib.FixedPoint

/-!
# The batches of the gateway

Every few blocks the gateway settles the pending actions in one L1 transaction. It nets
the stakes of a batch against its unstakes, moves the difference between its wallet and
its savings, and marks in the header the unstakes that need not wait for the savings.

Only unstakes whose record is in HBD are marked, and an oplog writes the record of every
unstake in the savings asset. So in a store that oplogs have written nothing is marked:
every unstake waits for the savings (`cleared_survives`), and what is marked is backed by
the stakes (`backed`).
-/

namespace VscNode.Gateway

open Collection FixedPoint List Nat Text

def addUint64 (bal : ℕ) (a : ActionRecord) : ℕ := (bal + (a.amount % 2 ^ 64).toNat) % 2 ^ 64

/-- The unstakes that are cleared: they are taken up from the front while the balance of
those taken is no more than the unstaked balance. -/
def clear (unstakeBal : ℕ) : ℕ → List ActionRecord → List String
  | _, [] => []
  | clearedBal, a :: as =>
    if unstakeBal < addUint64 clearedBal a then []
    else a.id :: clear unstakeBal (addUint64 clearedBal a) as

def clearedBits (clearedOps : List String) : List String → ℕ
  | [] => 0
  | id :: ids => Nat.bit (decide (id ∈ clearedOps)) (clearedBits clearedOps ids)

def base64StdChar (v : ℕ) : Char := if v = 62 then '+' else if v = 63 then '/' else base64Char v

/-- `base64.RawStdEncoding.EncodeToString`. -/
def base64RawStd (bytes : List ℕ) : String := String.ofList ((sextets bytes).map base64StdChar)

structure Batch where
  actions : List ActionRecord
  nodup : (actions.map ActionRecord.id).Nodup
  bounded : actions.length ≤ maxGatewayActionBatch
  unstakeOps : List ActionRecord
  perm : unstakeOps.Perm (actions.filter fun a => a.type = .unstake ∧ a.asset = .hbd)
  sorted : unstakeOps.Pairwise (·.amount ≤ ·.amount)

instance : Std.Total fun a a' : ActionRecord => a.amount ≤ a'.amount := ⟨fun _ _ => le_total ..⟩

instance : IsTrans ActionRecord fun a a' => a.amount ≤ a'.amount := ⟨fun _ _ _ => le_trans⟩

namespace Batch

def ofPending (db : ActionDb) (bh : ℕ) : Batch where
  actions := db.getPendingActions bh [.withdraw, .stake, .unstake]
  nodup := by
    refine ((((perm_insertionSort ..).map _).nodup_iff).2 ?_).sublist
      ((take_sublist ..).map _)
    exact db.nodup_keys.sublist (filter_sublist.map _)
  bounded := length_take_le ..
  unstakeOps := ((db.getPendingActions bh [.withdraw, .stake, .unstake]).filter fun a =>
    a.type = .unstake ∧ a.asset = .hbd).insertionSort fun a a' => a.amount ≤ a'.amount
  perm := perm_insertionSort ..
  sorted := pairwise_insertionSort ..

variable (b : Batch)

def ofType (type : ActionType) : List ActionRecord := b.actions.filter (·.type = type)

def stakeBal : ℕ := (b.ofType .stake).foldl addUint64 0

def unstakeBal : ℕ := (b.ofType .unstake).foldl addUint64 0

/-- What is deposited in the savings, and what is withdrawn from them. -/
def savings : Int × Int :=
  if b.unstakeBal < b.stakeBal then (wrap64 (b.stakeBal - b.unstakeBal : ℕ), 0)
  else if b.stakeBal < b.unstakeBal then (0, wrap64 (b.unstakeBal - b.stakeBal : ℕ))
  else (0, 0)

def clearedOps : List String := clear b.unstakeBal 0 b.unstakeOps

def executedOps : List String := b.actions.map (·.id)

def clearedSet : ℕ := clearedBits b.clearedOps b.executedOps

def header : ActionUpdate :=
  ⟨b.executedOps, base64RawStd (Nat.digits 256 b.clearedSet).reverse⟩

end Batch

/-! ## What oplogs store -/

section

variable {P : ActionRecord → Prop} (hP : ∀ a status, P a → P { a with status := status })
include hP

theorem forall_mem_executeComplete {db : ActionDb} (h : ∀ a ∈ db, P a) (ids : List String) :
    ∀ a ∈ db.executeComplete ids, P a := by
  intro a ha
  obtain ⟨c, hc, rfl⟩ := ActionDb.mem_executeComplete.1 ha
  split_ifs
  · exact hP c .complete (h c hc)
  · exact h c hc

/-- What holds of the stored records whatever their status, and of those an event opens,
holds after the event. -/
theorem forall_mem_apply {s : LedgerDbs} (h : ∀ a ∈ s.actions, P a) {e : BridgeEvent}
    (hopened : ∀ a ∈ e.opened, P a) : ∀ a ∈ (e.apply s).actions, P a := by
  cases e with
  | ingest oplog endHeight => exact forall_mem_putAll h hopened
  | index update blockHeight =>
    rw [BridgeEvent.apply, indexActions]
    generalize indexWrites s update blockHeight = writes
    induction writes generalizing s with
    | nil => exact h
    | cons w writes ih =>
      refine ih ?_
      cases w with
      | storeLedger r => exact h
      | executeComplete id => exact forall_mem_executeComplete hP h [id]
  | slot env startBlock endBlock => exact forall_mem_executeComplete hP h _

theorem forall_mem_after {w : BridgeRun} (hstart : w.start.actions = Collection.empty)
    (hopened : ∀ e ∈ w.events, ∀ a ∈ e.opened, P a) : ∀ a ∈ (w.after w.events).actions, P a := by
  have hfold : ∀ (events : List BridgeEvent) (s : LedgerDbs), (∀ e ∈ events, ∀ a ∈ e.opened, P a) →
      (∀ a ∈ s.actions, P a) → ∀ a ∈ (events.foldl BridgeEvent.apply s).actions, P a := by
    intro events
    induction events with
    | nil => exact fun s _ hs => hs
    | cons e events ih =>
      intro s hopened hs
      rw [forall_mem_cons] at hopened
      exact ih _ hopened.2 (forall_mem_apply hP hs hopened.1)
  refine hfold w.events w.start hopened ?_
  rw [hstart]
  exact fun a ha => absurd ha (not_mem_empty a)

end

theorem asset_of_mem_opActionRecords {v : OpLogEvent} {endBlock : ℕ} {a : ActionRecord}
    (h : a ∈ opActionRecords v endBlock) (htype : a.type = .unstake) : a.asset = .hbdSavings := by
  rw [opActionRecords] at h
  split at h
  · rw [mem_singleton.1 h] at htype
    cases htype
  · rw [mem_singleton.1 h]
  · rw [mem_singleton.1 h]
  · split at h <;> rw [mem_singleton.1 h] at htype <;> cases htype
  · cases h

theorem asset_of_mem_opened {e : BridgeEvent} {a : ActionRecord} (h : a ∈ e.opened)
    (htype : a.type = .unstake) : a.asset = .hbdSavings := by
  cases e with
  | ingest oplog endHeight =>
    obtain ⟨v, -, ha⟩ := mem_flatMap.1 h
    exact asset_of_mem_opActionRecords ha htype
  | index update blockHeight => cases h
  | slot env startBlock endBlock => cases h

/-! ## The marks -/

variable {s : LedgerDbs} {update : ActionUpdate} {blockHeight : ℕ}

theorem get?_indexOp {id id' : String} (hne : id' ≠ id) (idx : ℕ) :
    ((indexOp s update blockHeight idx id).foldl IndexWrite.apply s).actions.get? id' =
      s.actions.get? id' := by
  have hcomplete : (s.actions.executeComplete [id]).get? id' = s.actions.get? id' := by
    refine Option.ext fun a => ?_
    rw [get?_eq_some_iff, get?_eq_some_iff, ActionDb.mem_executeComplete]
    refine and_congr_left fun ha => ⟨?_, fun hmem => ⟨a, hmem, if_neg (by simpa [ha])⟩⟩
    rintro ⟨c, hc, rfl⟩
    rwa [if_neg]
    intro hid
    rw [if_pos hid] at ha
    exact hne (ha.symm.trans (mem_singleton.1 hid))
  rw [indexOp]
  repeat' split
  all_goals first | rfl | exact hcomplete

theorem indexOps_eq {ids : List String} (hnodup : ids.Nodup) (s : LedgerDbs) (idx : ℕ) :
    indexOps s update blockHeight idx ids =
      (ids.zipIdx idx).flatMap fun p => indexOp s update blockHeight p.2 p.1 := by
  induction ids generalizing s idx with
  | nil => rfl
  | cons id ids ih =>
    rw [nodup_cons] at hnodup
    rw [indexOps, zipIdx_cons, flatMap_cons, ih hnodup.2]
    congr 1
    refine flatMap_congr fun p hp => ?_
    have hne : p.1 ≠ id := by
      rintro rfl
      exact hnodup.1 (fst_mem_of_mem_zipIdx hp)
    rw [indexOp, get?_indexOp hne, ← indexOp]

namespace Batch

variable {b : Batch} {a : ActionRecord} {idx : ℕ}

theorem mem_unstakeOps : a ∈ b.unstakeOps ↔ a ∈ b.actions ∧ a.type = .unstake ∧ a.asset = .hbd := by
  rw [b.perm.mem_iff, List.mem_filter, decide_eq_true_eq]

/-- A batch of records that the oplogs of a run have stored clears nothing. -/
theorem clearedOps_eq_nil {w : BridgeRun} (hstart : w.start.actions = Collection.empty)
    (hb : ∀ a ∈ b.actions, a ∈ (w.after w.events).actions) : b.clearedOps = [] := by
  have hasset : ∀ a ∈ (w.after w.events).actions, a.type = .unstake → a.asset = .hbdSavings :=
    forall_mem_after (fun _ _ h => h) hstart fun _ _ _ ha => asset_of_mem_opened ha
  have hnone : b.unstakeOps = [] := by
    refine eq_nil_iff_forall_not_mem.2 fun a ha => ?_
    obtain ⟨hmem, htype, hhbd⟩ := mem_unstakeOps.1 ha
    rw [hasset a (hb a hmem) htype] at hhbd
    cases hhbd
  rw [clearedOps, hnone, clear]

theorem cleared_eq_false (h : b.clearedOps = []) (idx : ℕ) : b.header.cleared idx = false := by
  have hbits : ∀ ids, clearedBits [] ids = 0 := by
    intro ids
    induction ids with
    | nil => rfl
    | cons id ids ih => simp [clearedBits, ih]
  have htext : b.header.clearedOps = "" := by
    rw [header, clearedSet, h, hbits]
    rfl
  rw [ActionUpdate.cleared, htext]
  exact zero_testBit idx

theorem mem_indexWrites_iff (hs : ∀ a ∈ b.actions, s.actions.get? a.id = some a)
    (ha : b.actions[idx]? = some a) (htype : a.type = .unstake) (delay : ℕ) :
    .storeLedger (creditRecord a .hbd .unstake (blockHeight + delay)) ∈
        indexWrites s b.header blockHeight ↔
      delay = if b.header.cleared idx then 1 else hbdUnstakeBlocks := by
  have hmem := mem_of_getElem? ha
  have hidx : b.executedOps[idx]? = some a.id := by rw [executedOps, getElem?_map, ha]; rfl
  have hnodup : b.header.ops.Nodup := b.nodup
  rw [indexWrites, indexOps_eq hnodup, mem_flatMap]
  constructor
  · rintro ⟨⟨id, i⟩, hp, hw⟩
    have hi : b.executedOps[i]? = some id := mem_zipIdx_iff_getElem?.1 hp
    obtain ⟨a', ha', rfl⟩ := mem_map.1 (mem_of_getElem? hi)
    simp only [indexOp, hs a' ha'] at hw
    split at hw <;> simp [creditRecord] at hw
    obtain ⟨hid, -, hdelay, -⟩ := hw
    obtain ⟨hlt, -⟩ := List.getElem?_eq_some_iff.1 hi
    have hi' : i = idx := (getElem?_inj hlt b.nodup).1 (by rw [hi, ← hid, hidx])
    rwa [hi'] at hdelay
  rintro rfl
  refine ⟨(a.id, idx), mem_zipIdx_iff_getElem?.2 hidx, ?_⟩
  simp [indexOp, hs a hmem, htype]

/-- **The marks arrive**: of a batch of pending actions that oplogs have stored, each
unstake is credited at the next block when it was cleared and after the delay of the savings
otherwise. None is cleared. -/
theorem cleared_survives (w : BridgeRun) (hstart : w.start.actions = Collection.empty) (bh : ℕ)
    (b : Batch) (hb : b.actions =
      (w.after w.events).actions.getPendingActions bh [.withdraw, .stake, .unstake])
    (hs : ∀ a ∈ b.actions, s.actions.get? a.id = some a) (blockHeight : ℕ) :
    b.clearedOps = [] ∧ ∀ a ∈ b.actions, a.type = .unstake → ∀ delay : ℕ,
      (.storeLedger (creditRecord a .hbd .unstake (blockHeight + delay)) ∈
          indexWrites s b.header blockHeight ↔
        delay = if a.id ∈ b.clearedOps then 1 else hbdUnstakeBlocks) := by
  have hmem : ∀ a ∈ b.actions, a ∈ (w.after w.events).actions := fun a ha =>
    (ActionDb.pending_of_mem_getPendingActions (hb ▸ ha)).1
  have hnone := clearedOps_eq_nil hstart hmem
  refine ⟨hnone, fun a ha htype delay => ?_⟩
  obtain ⟨idx, hidx⟩ := mem_iff_getElem?.1 ha
  rw [mem_indexWrites_iff hs hidx htype, cleared_eq_false hnone, hnone]
  simp

/-- Ten staked and two unstaked, as their oplog stores them. -/
def stakeAndUnstake : BridgeRun :=
  let op (id : String) (type : OpType) (amount : Int) : OpLogEvent :=
    { id := id, to_ := "hive:alice", from_ := "hive:alice", amount := amount, asset := .hbd
      type := type, blockHeight := 5 }
  { start := {}
    events := [.ingest [op "s" .stake 10, op "u" .unstake 2] 5] }

theorem cleared_survives_stakeAndUnstake :
    let s := stakeAndUnstake.after stakeAndUnstake.events
    let b := ofPending s.actions 20
    b.executedOps = ["s", "u"] ∧ ∀ a ∈ b.actions, a.type = .unstake →
      .storeLedger (creditRecord a .hbd .unstake (40 + hbdUnstakeBlocks)) ∈
        indexWrites s b.header 40 := by
  intro s b
  have hs : ∀ a ∈ b.actions, s.actions.get? a.id = some a := by decide +kernel
  obtain ⟨hnone, h⟩ := cleared_survives stakeAndUnstake rfl 20 b rfl hs 40
  refine ⟨by decide +kernel, fun a ha htype => (h a ha htype _).2 ?_⟩
  rw [hnone]
  simp

/-! ## The balances -/

def total (actions : List ActionRecord) : Int := (actions.map ActionRecord.amount).sum

section

variable {as : List ActionRecord}

theorem addUint64_cons (hpos : ∀ a' ∈ a :: as, 0 < a'.amount) {bal : ℕ}
    (hfit : bal + total (a :: as) < 2 ^ 64) :
    (addUint64 bal a : Int) = bal + a.amount ∧ 0 ≤ total as ∧
      total (a :: as) = a.amount + total as := by
  obtain ⟨ha, has⟩ := forall_mem_cons.1 hpos
  have hrest : 0 ≤ total as := sum_nonneg (by simpa using fun a ha => (has a ha).le)
  have hcons : total (a :: as) = a.amount + total as := sum_cons
  refine ⟨?_, hrest, hcons⟩
  rw [addUint64]
  omega

theorem foldl_addUint64 (hpos : ∀ a ∈ as, 0 < a.amount) {bal : ℕ} (hfit : bal + total as < 2 ^ 64) :
    ((as.foldl addUint64 bal : ℕ) : Int) = bal + total as := by
  induction as generalizing bal with
  | nil => simp [total]
  | cons a as ih =>
    obtain ⟨hadd, hrest, hcons⟩ := addUint64_cons hpos hfit
    rw [foldl_cons, ih (forall_mem_cons.1 hpos).2 (by omega), hadd, hcons, add_assoc]

end

/-- **What is cleared is backed** by the stakes of the batch, and the savings make up the
difference of its unstakes and its stakes. -/
theorem backed (w : BridgeRun) (hstart : w.start.actions = Collection.empty)
    (hpos : ∀ e ∈ w.events, ∀ a ∈ e.opened, a.type ≠ .consensusUnstake → 0 < a.amount) (bh : ℕ)
    (b : Batch) (hb : b.actions =
      (w.after w.events).actions.getPendingActions bh [.withdraw, .stake, .unstake])
    (hfit : total (b.ofType .stake) < 2 ^ 63 ∧ total (b.ofType .unstake) < 2 ^ 63) :
    total (b.actions.filter (·.id ∈ b.clearedOps)) ≤ total (b.ofType .stake) ∧
      b.savings.2 - b.savings.1 = total (b.ofType .unstake) - total (b.ofType .stake) := by
  have hmem : ∀ a ∈ b.actions, a ∈ (w.after w.events).actions := fun a ha =>
    (ActionDb.pending_of_mem_getPendingActions (hb ▸ ha)).1
  have hstored := forall_mem_after (fun _ _ h => h) hstart hpos
  have hpos' : ∀ type, type ≠ .consensusUnstake → ∀ a ∈ b.ofType type, 0 < a.amount := by
    intro type htype a ha
    obtain ⟨ha, ht⟩ := mem_filter.1 ha
    exact hstored a (hmem a ha) (by simpa [of_decide_eq_true ht] using htype)
  have hbal : ∀ type, type ≠ .consensusUnstake → total (b.ofType type) < 2 ^ 63 →
      (((b.ofType type).foldl addUint64 0 : ℕ) : Int) = total (b.ofType type) ∧
        0 ≤ total (b.ofType type) := fun type htype h => by
    have hbal : (((b.ofType type).foldl addUint64 0 : ℕ) : Int) = total (b.ofType type) := by
      rw [foldl_addUint64 (hpos' type htype) (by omega), cast_zero, zero_add]
    exact ⟨hbal, hbal ▸ Int.natCast_nonneg _⟩
  obtain ⟨hstakeBal, hnonneg⟩ := hbal .stake (by decide) hfit.1
  obtain ⟨hunstakeBal, -⟩ := hbal .unstake (by decide) hfit.2
  rw [← stakeBal] at hstakeBal
  rw [← unstakeBal] at hunstakeBal
  constructor
  · simpa [clearedOps_eq_nil hstart hmem, total] using hnonneg
  rw [savings]
  split_ifs
  · rw [wrap64_of_isInt64 ⟨by omega, by omega⟩]
    omega
  · rw [wrap64_of_isInt64 ⟨by omega, by omega⟩]
    omega
  · omega

theorem backed_stakeAndUnstake :
    let b := ofPending (stakeAndUnstake.after stakeAndUnstake.events).actions 20
    b.savings = (8, 0) ∧
      total (b.actions.filter (·.id ∈ b.clearedOps)) ≤ total (b.ofType .stake) := by
  intro b
  exact ⟨by decide +kernel,
    (backed stakeAndUnstake rfl (by decide +kernel) 20 b rfl (by decide +kernel)).1⟩

end Batch

end VscNode.Gateway
