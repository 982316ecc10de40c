import VscNode.Ledger.History
import VscNode.Ledger.RowId

/-!
# Crediting stakes and unstakes

The gateway settles staking actions on L1 and names them in a `vsc.actions`
header. `indexActions` goes through the header: it stores the credit of each
action under an id made from the action's, dated by the header, and then marks
the action complete. It does not ask whether the action was credited before, so a
header that names an action again moves the credit to a new height. A snapshot
that has counted the row at its old height keeps what it counted, and the moved
row is counted once more.

`Tally` runs the ledger together with a record of these rows, and
`Tally.Sound.getBalance_eq` says what every balance read returns.
-/

namespace VscNode

open Collection Relation List

/-- The delay of an unstake that is not settled against a stake. -/
def hbdUnstakeBlocks : ℕ := 86400

/-- A `vsc.actions` header: the ids it names, and a bit set of the unstakes among
them that are settled at once. -/
structure ActionUpdate where
  ops : List String
  clearedOps : String
  deriving DecidableEq

def ActionUpdate.cleared (u : ActionUpdate) (idx : ℕ) : Bool :=
  (Text.bigEndian (Text.base64RawUrl u.clearedOps).1).testBit idx

/-- The row that pays an action out. -/
def creditRecord (a : ActionRecord) (asset : Asset) (type : LedgerType) (height : ℕ) :
    LedgerRecord :=
  { id := a.id ++ "#out", amount := a.amount, asset := asset, owner := a.to_, type := type
    blockHeight := height }

inductive IndexWrite
  | storeLedger (r : LedgerRecord)
  | executeComplete (id : String)
  deriving DecidableEq

variable (s : LedgerDbs) (update : ActionUpdate) (blockHeight : ℕ)

def IndexWrite.apply : IndexWrite → LedgerDbs
  | .storeLedger r => { s with ledger := s.ledger.put r }
  | .executeComplete id => { s with actions := s.actions.executeComplete [id] }

/-- The writes for one id of a header: the credit first, then the mark. -/
def indexOp (blockHeight idx : ℕ) (id : String) : List IndexWrite :=
  match s.actions.get? id with
  | none => []
  | some record =>
    match record.type with
    | .stake =>
      [.storeLedger (creditRecord record .hbdSavings .stake (blockHeight + 1)), .executeComplete id]
    | .unstake =>
      let blockDelay := if update.cleared idx then 1 else hbdUnstakeBlocks
      [.storeLedger (creditRecord record .hbd .unstake (blockHeight + blockDelay)),
        .executeComplete id]
    | .withdraw | .consensusUnstake => [.executeComplete id]

def indexOps (s : LedgerDbs) (update : ActionUpdate) (blockHeight : ℕ) :
    ℕ → List String → List IndexWrite
  | _, [] => []
  | idx, id :: ids =>
    let writes := indexOp s update blockHeight idx id
    writes ++ indexOps (writes.foldl IndexWrite.apply s) update blockHeight (idx + 1) ids

def indexWrites : List IndexWrite :=
  indexOps s update blockHeight 0 update.ops

def indexActions : LedgerDbs :=
  (indexWrites s update blockHeight).foldl IndexWrite.apply s

def ActionRecord.IsCredit (a : ActionRecord) (r : LedgerRecord) : Prop :=
  a.type = .stake ∧ r = creditRecord a .hbdSavings .stake r.blockHeight ∨
    a.type = .unstake ∧ r = creditRecord a .hbd .unstake r.blockHeight
  deriving Decidable

def IndexWrite.Dated : IndexWrite → Prop
  | .storeLedger r => blockHeight < r.blockHeight ∧ ∃ a : ActionRecord, a.IsCredit r
  | .executeComplete _ => True

variable {s : LedgerDbs} {update : ActionUpdate}

theorem dated_of_mem_indexOp {blockHeight idx : ℕ} {id : String} :
    ∀ w ∈ indexOp s update blockHeight idx id, w.Dated blockHeight := by
  intro w hw
  unfold indexOp at hw
  split at hw
  · cases hw
  rename_i record _
  split at hw
  · rename_i htype
    rcases mem_pair.1 hw with rfl | rfl
    · exact ⟨Nat.lt_succ_self _, record, .inl ⟨htype, rfl⟩⟩
    · trivial
  · rename_i htype
    rcases mem_pair.1 hw with rfl | rfl
    · refine ⟨?_, record, .inr ⟨htype, rfl⟩⟩
      simp only [creditRecord, hbdUnstakeBlocks]
      split <;> omega
    · trivial
  all_goals
    rw [mem_singleton.1 hw]
    trivial

theorem dated_of_mem_indexOps {blockHeight : ℕ} {ids : List String} :
    ∀ {s : LedgerDbs} {idx : ℕ}, ∀ w ∈ indexOps s update blockHeight idx ids, w.Dated blockHeight := by
  induction ids with
  | nil => intro s idx w hw; cases hw
  | cons id ids ih =>
    intro s idx w hw
    rcases mem_append.1 hw with hw | hw
    · exact dated_of_mem_indexOp w hw
    · exact ih w hw

namespace ActionRecord

variable {a : ActionRecord} {r r' : LedgerRecord}

section

variable (h : a.IsCredit r)
include h

theorem IsCredit.id : r.id = a.id ++ "#out" := by
  rcases h with ⟨-, h⟩ | ⟨-, h⟩ <;> rw [h] <;> rfl

theorem IsCredit.moves (h' : a.IsCredit r') : r'.moves a.to_ r.asset = a.amount := by
  rcases h with ⟨ht, h⟩ | ⟨ht, h⟩ <;> rcases h' with ⟨ht', h'⟩ | ⟨ht', h'⟩
  · rw [h, h']
    exact if_pos ⟨rfl, rfl, rfl⟩
  · rw [ht] at ht'
    cases ht'
  · rw [ht] at ht'
    cases ht'
  · rw [h, h']
    exact if_pos ⟨rfl, rfl, rfl⟩

theorem IsCredit.id_ne_cursor : r.id ≠ safetySlashFinalizeCursorRowID := by
  intro hid
  have hop : rowClass r.id = .op := by
    rw [h.id]
    exact rowClass_out a.id
  rw [hid, rowClass_of_free (show Text.Free '#' safetySlashFinalizeCursorRowID by decide)] at hop
  cases hop

theorem IsCredit.asset_mem : r.asset ∈ snapshotAssets := by
  rcases h with ⟨-, h⟩ | ⟨-, h⟩ <;> rw [h] <;> simp [creditRecord, snapshotAssets]

end

end ActionRecord

/-! ## Counting credits -/

namespace LedgerDbs

def countedAt (s : LedgerDbs) (r : LedgerRecord) : Option ℕ :=
  ((s.balances.docs.filter fun b => b.account = r.owner ∧ r.blockHeight ≤ b.blockHeight).map
    (·.blockHeight)).min?

variable {r : LedgerRecord} {s : LedgerDbs}

theorem countedAt_eq_some {n : ℕ} (h : s.countedAt r = some n) :
    r.blockHeight ≤ n ∧ (∃ b ∈ s.balances, b.account = r.owner ∧ b.blockHeight = n) ∧
      ∀ b ∈ s.balances, b.account = r.owner → r.blockHeight ≤ b.blockHeight → n ≤ b.blockHeight := by
  obtain ⟨hmem, hmin⟩ := min?_eq_some_iff.1 h
  obtain ⟨b, hb, rfl⟩ := mem_map.1 hmem
  obtain ⟨hb, hcond⟩ := List.mem_filter.1 hb
  simp only [decide_eq_true_eq] at hcond
  refine ⟨hcond.2, ⟨b, hb, hcond.1, rfl⟩, fun b' hb' hacct hle => hmin _ ?_⟩
  exact mem_map_of_mem (List.mem_filter.2 ⟨hb', by simp [hacct, hle]⟩)

theorem exists_countedAt_iff {b : BalanceRecord} (hb : b ∈ s.balances)
    (hacct : b.account = r.owner) :
    (∃ n, s.countedAt r = some n ∧ n ≤ b.blockHeight) ↔ r.blockHeight ≤ b.blockHeight := by
  constructor
  · rintro ⟨n, hn, hle⟩
    exact (countedAt_eq_some hn).1.trans hle
  intro hle
  cases hn : s.countedAt r with
  | none =>
    rw [countedAt, min?_eq_none_iff, map_eq_nil_iff, filter_eq_nil_iff] at hn
    exact absurd (hn b hb) (by simp [hacct, hle])
  | some n => exact ⟨n, rfl, (countedAt_eq_some hn).2.2 b hb hacct hle⟩

end LedgerDbs

structure Recount where
  row : LedgerRecord
  counted : ℕ
  deriving DecidableEq

def Recount.excess (qs : List Recount) (account : String) (asset : Asset) (h : ℕ) : Int :=
  (qs.map fun q => if q.counted ≤ h then q.row.moves account asset else 0).sum

theorem Recount.excess_append (qs qs' : List Recount) (account : String) (asset : Asset) (h : ℕ) :
    Recount.excess (qs ++ qs') account asset h =
      Recount.excess qs account asset h + Recount.excess qs' account asset h := by
  simp [Recount.excess]

/-- A chain and the rows that headers replaced too late. -/
structure Tally where
  chain : Chain
  recounted : List Recount := []

namespace Tally

/-- The row that a write under `id` replaces, if a snapshot has counted it. -/
def recountsOf (t : Tally) (id : String) : List Recount :=
  match t.chain.dbs.ledger.get? id with
  | none => []
  | some old => (t.chain.dbs.countedAt old).toList.map fun n => ⟨old, n⟩

/-- Stores a row and records what it replaces. -/
def put (t : Tally) (r : LedgerRecord) : Tally where
  chain := { t.chain with dbs := { t.chain.dbs with ledger := t.chain.dbs.ledger.put r } }
  recounted := t.recounted ++ t.recountsOf r.id

def write (t : Tally) (w : IndexWrite) : Tally :=
  { chain := { t.chain with dbs := w.apply t.chain.dbs }
    recounted := t.recounted ++
      match w with
      | .storeLedger r => t.recountsOf r.id
      | .executeComplete _ => [] }

inductive Step : Tally → Tally → Prop
  | chain (t : Tally) (c : Chain) (h : Chain.Step t.chain c) : Step t { t with chain := c }
  | index (t : Tally) (update : ActionUpdate) (n : ℕ) :
      Step t (((indexWrites t.chain.dbs update t.chain.head).take n).foldl write t)

def Reachable (t : Tally) : Prop := ∃ head, ReflTransGen Step ⟨Chain.genesis head, []⟩ t

structure Sound (t : Tally) : Prop where
  chain : t.chain.SoundWith (Recount.excess t.recounted)
  covered : ∀ q ∈ t.recounted, ∃ b ∈ t.chain.dbs.balances,
    b.account = q.row.owner ∧ b.blockHeight = q.counted
  later : ∀ q ∈ t.recounted, ∀ r ∈ t.chain.dbs.ledger, r.id = q.row.id → q.counted < r.blockHeight

theorem sound_nil {n : Chain} (h : n.Sound) : Sound ⟨n, []⟩ :=
  ⟨Chain.sound_iff.1 h, by simp, by simp⟩

variable {qs : List Recount} {a : ActionRecord} {h : ℕ}

theorem steppedAt_excess {balances : BalanceDb}
    (hcovered : ∀ q ∈ qs, ∃ b ∈ balances, b.account = q.row.owner ∧ b.blockHeight = q.counted)
    (account : String) (asset : Asset) :
    LedgerDbs.SteppedAt balances account (Recount.excess qs account asset) := by
  constructor
  · intro h h' hle hnone
    refine congrArg List.sum (map_congr_left fun q hq => ?_)
    by_cases howner : q.row.owner = account
    · obtain ⟨b, hb, hacct, hheight⟩ := hcovered q hq
      have hsame : q.counted ≤ h' ↔ q.counted ≤ h := by
        rcases hnone b hb (hacct.trans howner) with hb | hb <;> omega
      simp only [hsame]
    · simp only [LedgerRecord.moves_of_owner_ne howner, ite_self]
  intro h hnone
  refine sum_eq_zero fun v hv => ?_
  obtain ⟨q, hq, rfl⟩ := mem_map.1 hv
  by_cases howner : q.row.owner = account
  · obtain ⟨b, hb, hacct, hheight⟩ := hcovered q hq
    have hlt := hnone b hb (hacct.trans howner)
    exact if_neg (by omega)
  · simp only [LedgerRecord.moves_of_owner_ne howner, ite_self]

variable {t : Tally}

theorem mem_recountsOf {id : String} {q : Recount} (hq : q ∈ t.recountsOf id) :
    q.row.id = id ∧ t.chain.dbs.countedAt q.row = some q.counted := by
  unfold recountsOf at hq
  split at hq
  · cases hq
  rename_i old hold
  obtain ⟨n, hn, rfl⟩ := mem_map.1 hq
  exact ⟨(get?_eq_some_iff.1 hold).2, Option.mem_toList.1 hn⟩

/-- What a snapshot keeps of a replaced row is what the ledger loses with it. -/
theorem excess_recountsOf {b : BalanceRecord} (hb : b ∈ t.chain.dbs.balances) (id : String)
    (asset : Asset) :
    Recount.excess (t.recountsOf id) b.account asset b.blockHeight = t.chain.dbs.ledger.valueAt
        (fun r => if r.blockHeight ≤ b.blockHeight then r.moves b.account asset else 0) id := by
  unfold recountsOf
  cases hget : t.chain.dbs.ledger.get? id with
  | none => rw [valueAt_of_get?_eq_none hget]; rfl
  | some old =>
    rw [valueAt_of_get?_eq_some hget]
    by_cases howner : old.owner = b.account
    · have hiff := LedgerDbs.exists_countedAt_iff hb howner.symm
      cases hn : t.chain.dbs.countedAt old with
      | none =>
        rw [if_neg fun hle => by simpa [hn] using hiff.2 hle]
        simp [Recount.excess, hn]
      | some n =>
        have hsame : n ≤ b.blockHeight ↔ old.blockHeight ≤ b.blockHeight := by
          simpa [hn] using hiff
        simp [Recount.excess, hn, hsame]
    · simp [Recount.excess, LedgerRecord.moves_of_owner_ne howner, Function.comp_def]

variable {r : LedgerRecord}

/-- A row that is dated past every snapshot may replace another one. -/
theorem Sound.put (ht : Sound t) (hpast : ∀ b ∈ t.chain.dbs.balances, b.blockHeight < r.blockHeight)
    (hcursor : r.id ≠ safetySlashFinalizeCursorRowID) : Sound (t.put r) := by
  have hcovered : ∀ q ∈ t.recounted ++ t.recountsOf r.id, ∃ b ∈ t.chain.dbs.balances,
      b.account = q.row.owner ∧ b.blockHeight = q.counted := by
    intro q hq
    rcases mem_append.1 hq with hq | hq
    · exact ht.covered q hq
    · exact (LedgerDbs.countedAt_eq_some (mem_recountsOf hq).2).2.1
  refine ⟨⟨?_, ht.chain.behind, fun account asset => steppedAt_excess hcovered account asset, ?_⟩,
    hcovered, ?_⟩
  · exact forall_mem_put (fun hid => absurd hid hcursor) ht.chain.cursorOnly
  · intro b hb asset hasset
    have hhistory : (t.put r).chain.dbs.history b.account b.blockHeight asset =
        t.chain.dbs.history b.account b.blockHeight asset - t.chain.dbs.ledger.valueAt (fun r =>
            if r.blockHeight ≤ b.blockHeight then r.moves b.account asset else 0) r.id :=
      upTo_put_of_lt_date (hpast b hb)
    have hfield := ht.chain.snapshot_eq b hb asset hasset
    rw [hhistory, ← excess_recountsOf (t := t) hb, hfield]
    show _ = _ + Recount.excess (t.recounted ++ t.recountsOf r.id) _ _ _
    rw [Recount.excess_append]
    abel
  -- The replaced row is gone, and the new one is dated past every snapshot.
  intro q hq x hx hid
  obtain ⟨b, hb, -, hheight⟩ := hcovered q hq
  rcases mem_put.1 hx with rfl | ⟨hx, hne⟩
  · rw [← hheight]
    exact hpast b hb
  rcases mem_append.1 hq with hq | hq
  · exact ht.later q hq x hx hid
  · exact absurd (hid.trans (mem_recountsOf hq).1) hne

theorem Sound.write (ht : Sound t) {w : IndexWrite} (hw : w.Dated t.chain.head) :
    Sound (t.write w) := by
  cases w with
  | executeComplete id =>
    have hnil : (t.write (.executeComplete id)).recounted = t.recounted := append_nil _
    obtain ⟨⟨hcursor, hbehind, hstepped, hsnap⟩, hcovered, hlater⟩ := ht
    rw [← hnil] at hstepped hsnap hcovered hlater
    exact ⟨⟨hcursor, hbehind, hstepped, hsnap⟩, hcovered, hlater⟩
  | storeLedger r =>
    obtain ⟨hlt, a, hcredit⟩ := hw
    exact ht.put (fun b hb => (ht.chain.behind.lt_head hb).trans hlt) hcredit.id_ne_cursor

theorem Sound.writes {ws : List IndexWrite} (ht : Sound t) (hws : ∀ w ∈ ws, w.Dated t.chain.head) :
    Sound (ws.foldl Tally.write t) := by
  induction ws generalizing t with
  | nil => exact ht
  | cons w ws ih =>
    refine ih (ht.write (hws w mem_cons_self)) fun x hx => ?_
    exact hws x (mem_cons_of_mem _ hx)

theorem Step.sound {t' : Tally} (h : Step t t') (ht : Sound t) : Sound t' := by
  cases h with
  | chain c h =>
    refine ⟨h.soundWith ht.chain, fun q hq => ?_, fun q hq r hr hid => ?_⟩
    · obtain ⟨b, hb, hacct, hheight⟩ := ht.covered q hq
      obtain ⟨b', hb', hacct', hheight'⟩ := h.exists_balances b hb
      exact ⟨b', hb', hacct'.trans hacct, hheight'.trans hheight⟩
    obtain ⟨rows, hledger, -, hpast⟩ := h.rows ht.chain.behind
    obtain ⟨b, hb, -, hheight⟩ := ht.covered q hq
    have hr' : r ∈ t.chain.dbs.ledger.putAll rows := hledger ▸ hr
    rcases mem_of_mem_putAll hr' with hr' | hr'
    · rw [← hheight]
      exact hpast b hb r hr'
    · exact ht.later q hq r hr' hid
  | index update n =>
    exact ht.writes fun w hw => dated_of_mem_indexOps w (mem_of_mem_take hw)

theorem Reachable.sound (h : Reachable t) : Sound t := by
  obtain ⟨head, hrun⟩ := h
  exact Run.preserves (fun _ _ hst hs => hst.sound hs) hrun (sound_nil (Chain.sound_genesis head))

/-- Everything in the balance of an action's receiver other than the action's credits. -/
def besides (t : Tally) (a : ActionRecord) (asset : Asset) (h : ℕ) : Int :=
  t.chain.dbs.ledger.upTo (·.blockHeight)
      (fun r => if a.IsCredit r then 0 else r.moves a.to_ asset) h +
    Recount.excess (t.recounted.filter fun q => ¬ a.IsCredit q.row) a.to_ asset h

def lateHeaders (t : Tally) (a : ActionRecord) : ℕ := t.recounted.countP fun q => a.IsCredit q.row

theorem excess_eq_add (hcredit : a.IsCredit r) (hqs : ∀ q ∈ qs, a.IsCredit q.row → q.counted ≤ h) :
    Recount.excess qs a.to_ r.asset h =
      Recount.excess (qs.filter fun q => ¬ a.IsCredit q.row) a.to_ r.asset h +
        (qs.countP fun q => a.IsCredit q.row) * a.amount := by
  induction qs with
  | nil => simp [Recount.excess]
  | cons q qs ih =>
    have hrest := ih fun x hx => hqs x (mem_cons_of_mem _ hx)
    have hcons : ∀ l, Recount.excess (q :: l) a.to_ r.asset h =
        (if q.counted ≤ h then q.row.moves a.to_ r.asset else 0) +
          Recount.excess l a.to_ r.asset h := fun l => sum_cons
    rw [hcons, hrest]
    by_cases hq : a.IsCredit q.row
    · have hcounted := hqs q mem_cons_self hq
      rw [if_pos hcounted, hcredit.moves hq, filter_cons_of_neg (by simpa using hq),
        countP_cons_of_pos (by simpa using hq)]
      push_cast
      ring
    rw [filter_cons_of_pos (by simpa using hq), hcons,
      countP_cons_of_neg (by simpa using hq)]
    ring

theorem history_eq_add {db : LedgerDb} (hr : r ∈ db) (hcredit : a.IsCredit r)
    (hle : r.blockHeight ≤ h) :
    db.upTo (·.blockHeight) (·.moves a.to_ r.asset) h =
      db.upTo (·.blockHeight) (fun x => if a.IsCredit x then 0 else x.moves a.to_ r.asset) h +
        a.amount := by
  have hone : ∀ x ∈ db, a.IsCredit x ↔ x.id = r.id := by
    intro x hx
    constructor
    · intro hx
      rw [hx.id, hcredit.id]
    intro hid
    rw [eq_of_key_eq hx hr hid]
    exact hcredit
  have hrest : db.upTo (·.blockHeight) (fun x => if a.IsCredit x then 0 else x.moves a.to_ r.asset) h =
      db.sum fun x => if x.id = r.id then 0 else
        if x.blockHeight ≤ h then x.moves a.to_ r.asset else 0 := by
    refine sum_congr fun x hx => ?_
    by_cases hid : x.id = r.id
    · simp [hid, (hone x hx).2 hid]
    · simp [hid, mt (hone x hx).1 hid]
  rw [hrest, sum_except, valueAt_of_get?_eq_some (get?_of_mem hr), if_pos hle,
    hcredit.moves hcredit, sub_add_cancel, upTo]

theorem Sound.getBalance_eq (ht : Sound t) (hr : r ∈ t.chain.dbs.ledger) (hcredit : a.IsCredit r)
    (hle : r.blockHeight ≤ h) :
    t.chain.dbs.getBalance a.to_ h r.asset =
      t.besides a r.asset h + (1 + t.lateHeaders a) * a.amount := by
  have hcounted : ∀ q ∈ t.recounted, a.IsCredit q.row → q.counted ≤ h := by
    intro q hq hcredit'
    have hlt := ht.later q hq r hr (hcredit.id.trans hcredit'.id.symm)
    omega
  rw [ht.chain.getBalance_eq hcredit.asset_mem, LedgerDbs.history, history_eq_add hr hcredit hle,
    excess_eq_add hcredit hcounted, besides, lateHeaders]
  ring

/-- In every run, the balance of the receiver holds the amount of a staking action
exactly once, at every height from its last credit on, if and only if the amount is
zero or no header named the action after a snapshot had counted its credit. -/
theorem credited_once_iff (ht : Reachable t) {a : ActionRecord} {r : LedgerRecord}
    (hr : r ∈ t.chain.dbs.ledger) (hcredit : a.IsCredit r) {h : ℕ} (hle : r.blockHeight ≤ h) :
    t.chain.dbs.getBalance a.to_ h r.asset = t.besides a r.asset h + a.amount ↔
      a.amount = 0 ∨ t.lateHeaders a = 0 := by
  rw [ht.sound.getBalance_eq hr hcredit hle, add_right_inj, add_mul, one_mul, add_eq_left,
    mul_eq_zero, Nat.cast_eq_zero, or_comm]

section Example

def stakeHeader : ActionUpdate := ⟨["s"], ""⟩

def stakeAction : ActionRecord :=
  { id := "s", status := .pending, amount := 100, asset := .hbdSavings, to_ := "hive:a"
    txId := "s", type := .stake, blockHeight := 15 }

def quietSlot : SlotEnv := ⟨none, fun _ => false, fun _ => false, none⟩

def staked : Chain :=
  let stake : OpLogEvent :=
    { id := "s", from_ := "hive:a", to_ := "hive:a", amount := 100, asset := .hbd, type := .stake }
  { Chain.genesis 10 with dbs := ingestOplog {} [stake] 15 }

def stakedOnce : Tally := (indexWrites staked.dbs stakeHeader 10).foldl write ⟨staked, []⟩

/-- The ledger at height 20, after the first slot. -/
def stakedSlot : Chain := ⟨updateBalances stakedOnce.chain.dbs quietSlot 0 10, 20, 20⟩

/-- The ledger at height 30, when a snapshot has counted the credit. -/
def stakedAndCounted : Tally := ⟨⟨updateBalances stakedSlot.dbs quietSlot 10 20, 30, 30⟩, []⟩

/-- The header is issued once more at height 30. -/
def stakedTwice : Tally :=
  (indexWrites stakedAndCounted.chain.dbs stakeHeader 30).foldl write stakedAndCounted

theorem reachable_stakedOnce : Reachable stakedOnce := by
  have hingest : Chain.Step (Chain.genesis 10) staked :=
    .ingest (Chain.genesis 10) _ 15 (by decide) (by decide)
  exact ⟨10, .tail (.tail .refl (.chain ⟨Chain.genesis 10, []⟩ staked hingest))
    (.index ⟨staked, []⟩ stakeHeader 2)⟩

theorem reachable_stakedAndCounted : Reachable stakedAndCounted := by
  obtain ⟨head, hrun⟩ := reachable_stakedOnce
  have hnext : Chain.Step stakedOnce.chain { stakedOnce.chain with head := 20 } :=
    .l1Block _ 20 (by decide)
  have hslot : Chain.Step { stakedOnce.chain with head := 20 } stakedSlot :=
    .slotChange { stakedOnce.chain with head := 20 } quietSlot 0 (by decide) (by decide)
  have hnext' : Chain.Step stakedSlot { stakedSlot with head := 30 } := .l1Block _ 30 (by decide)
  have hslot' : Chain.Step { stakedSlot with head := 30 } stakedAndCounted.chain :=
    .slotChange { stakedSlot with head := 30 } quietSlot 10 (by decide) (by decide)
  exact ⟨head, (((hrun.tail (.chain stakedOnce _ hnext)).tail (.chain ⟨_, []⟩ _ hslot)).tail
    (.chain ⟨_, []⟩ _ hnext')).tail (.chain ⟨_, []⟩ _ hslot')⟩

theorem credited_once_stakedAndCounted :
    stakedAndCounted.chain.dbs.getBalance "hive:a" 40 .hbdSavings =
      stakedAndCounted.besides stakeAction .hbdSavings 40 + 100 :=
  (credited_once_iff reachable_stakedAndCounted (a := stakeAction)
    (r := creditRecord stakeAction .hbdSavings .stake 11) (mem_docs.1 (by decide)) (by decide)
    (by decide)).2 (by decide)

/-- The second header is too late: the stake of 100 HBD is in the balance twice. -/
theorem credited_twice_stakedTwice : Reachable stakedTwice ∧
      stakedTwice.chain.dbs.getBalance "hive:a" 40 .hbdSavings = 200 ∧
      stakedTwice.chain.dbs.getBalance "hive:a" 40 .hbdSavings ≠
        stakedTwice.besides stakeAction .hbdSavings 40 + 100 := by
  refine ⟨?_, by decide, by decide⟩
  obtain ⟨head, hrun⟩ := reachable_stakedAndCounted
  exact ⟨head, hrun.tail (.index stakedAndCounted stakeHeader 2)⟩

end Example

end Tally

end VscNode
