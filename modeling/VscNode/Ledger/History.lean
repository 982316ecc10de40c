import VscNode.Ledger.Oplog
import VscNode.Ledger.Snapshot
import VscNode.Lib.Run

/-!
# Balances are histories

The ledger is written by three kinds of steps: rows stored for the L1 block
being processed, oplogs of accepted VSC blocks, and the slot change that folds
rows into snapshots. `Chain.Step` lists them with what the code guarantees about
heights. Along every run, each snapshot stays the sum of its account's rows at
or below it, because nothing is ever written behind a snapshot; a balance read is
then the account's full history.
-/

namespace VscNode

open Collection LedgerDbs List Relation

def WrittenOnce (db : LedgerDb) (r : LedgerRecord) : Prop :=
  if r.id = safetySlashFinalizeCursorRowID then r.type = .safetySlashBurnFinalizeCursor
  else db.get? r.id = none
  deriving Decidable

/-- Every row of a batch may be written when its turn comes. -/
def AllWrittenOnce : LedgerDb → List LedgerRecord → Prop
  | _, [] => True
  | db, r :: rows => WrittenOnce db r ∧ AllWrittenOnce (db.put r) rows

instance decidableAllWrittenOnce : (db : LedgerDb) → (rows : List LedgerRecord) →
    Decidable (AllWrittenOnce db rows)
  | _, [] => isTrue trivial
  | db, r :: rows =>
    have := decidableAllWrittenOnce (db.put r) rows
    inferInstanceAs (Decidable (_ ∧ _))

def CursorOnly (db : LedgerDb) : Prop :=
  ∀ r ∈ db, r.id = safetySlashFinalizeCursorRowID → r.type = .safetySlashBurnFinalizeCursor

variable {db : LedgerDb}

section

variable (hdb : CursorOnly db)
include hdb

theorem CursorOnly.put {r : LedgerRecord} (hr : WrittenOnce db r) : CursorOnly (db.put r) := by
  intro x hx hid
  rcases mem_of_mem_put hx with rfl | hx
  · rw [WrittenOnce, if_pos hid] at hr
    exact hr
  · exact hdb x hx hid

theorem upTo_put_of_writtenOnce {r : LedgerRecord} (hr : WrittenOnce db r) {s : ℕ}
    (hs : s < r.blockHeight) (account : String) (asset : Asset) :
    (db.put r).upTo (·.blockHeight) (·.moves account asset) s =
      db.upTo (·.blockHeight) (·.moves account asset) s := by
  rw [WrittenOnce] at hr
  split at hr
  · -- The cursor is overwritten, but neither version of it moves anything.
    rename_i hid
    refine upTo_put_of_eq_zero (LedgerRecord.moves_of_meta (by rw [hr]; rfl) _ _) ?_
    intro old hold
    obtain ⟨hmem, hkey⟩ := get?_eq_some_iff.1 hold
    have htype := hdb old hmem (hkey.trans hid)
    exact LedgerRecord.moves_of_meta (by rw [htype]; rfl) _ _
  · exact upTo_put_of_lt hr hs

theorem cursorOnly_putAll {rows : List LedgerRecord} (hrows : AllWrittenOnce db rows) :
    CursorOnly (db.putAll rows) := by
  induction rows generalizing db with
  | nil => exact hdb
  | cons r rows ih => exact ih (hdb.put hrows.1) hrows.2

theorem upTo_putAll_of_allWrittenOnce {rows : List LedgerRecord} (hrows : AllWrittenOnce db rows)
    {s : ℕ} (hs : ∀ r ∈ rows, s < r.blockHeight) (account : String) (asset : Asset) :
    (db.putAll rows).upTo (·.blockHeight) (·.moves account asset) s =
      db.upTo (·.blockHeight) (·.moves account asset) s := by
  induction rows generalizing db with
  | nil => rfl
  | cons r rows ih =>
    rw [putAll_cons, ih (hdb.put hrows.1) hrows.2 fun x hx => hs x (mem_cons_of_mem _ hx),
      upTo_put_of_writtenOnce hdb hrows.1 (hs r mem_cons_self)]

end

theorem allWrittenOnce_append {rows rows' : List LedgerRecord} (h : AllWrittenOnce db rows)
    (h' : AllWrittenOnce (db.putAll rows) rows') :
    AllWrittenOnce db (rows ++ rows') := by
  induction rows generalizing db with
  | nil => exact h'
  | cons r rows ih => exact ⟨h.1, ih h.2 h'⟩

/-! ## Runs -/

/-- The ledger together with the L1 height being processed and the open slot. -/
structure Chain where
  dbs : LedgerDbs
  (head slot : ℕ)

namespace Chain

/-- A node that starts with empty collections at some L1 height. -/
def genesis (head : ℕ) : Chain := ⟨{}, head, slotStart head⟩

def oplogRows (oplog : List OpLogEvent) (endHeight : ℕ) : List LedgerRecord :=
  (executeOplog oplog endHeight).1.map (·.toRecord endHeight)

inductive Step : Chain → Chain → Prop
  | l1Block (c : Chain) (height : ℕ) (hnext : c.head < height) : Step c { c with head := height }
  | store (c : Chain) (rows : List LedgerRecord)
      (hheight : ∀ r ∈ rows, c.head ≤ r.blockHeight) (honce : AllWrittenOnce c.dbs.ledger rows) :
      Step c { c with dbs := { c.dbs with ledger := c.dbs.ledger.putAll rows } }
  | ingest (c : Chain) (oplog : List OpLogEvent) (br1 : Int) (hfresh : isStale br1 c.head = false)
      (honce : AllWrittenOnce c.dbs.ledger (oplogRows oplog (brHeight br1))) :
      Step c { c with dbs := ingestOplog c.dbs oplog (brHeight br1) }
  | remediate (c : Chain) (rows : List LedgerRecord)
      (hheight : ∀ r ∈ rows, r.blockHeight = c.slot) (honce : AllWrittenOnce c.dbs.ledger rows) :
      Step c { c with dbs := { c.dbs with ledger := c.dbs.ledger.putAll rows } }
  | slotChange (c : Chain) (env : SlotEnv) (startBlock : ℕ) (hslot : slotStart c.head ≠ c.slot)
      (honce : AllWrittenOnce c.dbs.ledger (slotRows c.dbs env c.slot)) :
      Step c ⟨updateBalances c.dbs env startBlock c.slot, c.head, slotStart c.head⟩

/-- What holds between steps: every snapshot is the sum of its account's rows at
or below it, and belongs to a slot that has ended. -/
structure Sound (c : Chain) : Prop where
  cursorOnly : CursorOnly c.dbs.ledger
  behind : SnapshotsBehind c.dbs.balances c.head c.slot
  snapshot_eq : ∀ r ∈ c.dbs.balances, ∀ asset ∈ snapshotAssets,
    r.field asset = c.dbs.history r.account r.blockHeight asset

structure SoundWith (excess : String → Asset → ℕ → Int) (c : Chain) : Prop where
  cursorOnly : CursorOnly c.dbs.ledger
  behind : SnapshotsBehind c.dbs.balances c.head c.slot
  stepped : ∀ account asset, LedgerDbs.SteppedAt c.dbs.balances account (excess account asset)
  snapshot_eq : ∀ r ∈ c.dbs.balances, ∀ asset ∈ snapshotAssets,
    r.field asset = c.dbs.history r.account r.blockHeight asset + excess r.account asset r.blockHeight

variable {c c' : Chain}

theorem sound_iff : Sound c ↔ SoundWith (fun _ _ _ => 0) c := by
  constructor
  · rintro ⟨hcursor, hbehind, hsnap⟩
    refine ⟨hcursor, hbehind, fun account _ => .const_zero _ account, fun r hr asset hasset => ?_⟩
    rw [hsnap r hr asset hasset, add_zero]
  rintro ⟨hcursor, hbehind, -, hsnap⟩
  refine ⟨hcursor, hbehind, fun r hr asset hasset => ?_⟩
  rw [hsnap r hr asset hasset, add_zero]

theorem sound_genesis (head : ℕ) : Sound (genesis head) where
  cursorOnly := fun r hr => absurd hr (not_mem_empty r)
  behind := SnapshotsBehind.empty head
  snapshot_eq := fun r hr => absurd hr (not_mem_empty r)

namespace SoundWith

variable {excess : String → Asset → ℕ → Int} {c : Chain}

theorem getBalance_eq (hc : SoundWith excess c) {asset : Asset} (hasset : asset ∈ snapshotAssets)
    (account : String) (h : ℕ) :
    c.dbs.getBalance account h asset = c.dbs.history account h asset + excess account asset h := by
  refine getBalance_eq_history_add hasset (hc.stepped account asset) ?_ h
  rintro r hr rfl
  exact hc.snapshot_eq r hr asset hasset

end SoundWith

theorem updateBalances_rows (s : LedgerDbs) (env : SlotEnv) (startBlock endBlock : ℕ)
    (honce : AllWrittenOnce s.ledger (slotRows s env endBlock)) :
    ∃ rows, (updateBalances s env startBlock endBlock).ledger = s.ledger.putAll rows ∧
      AllWrittenOnce s.ledger rows ∧ ∀ r ∈ rows, r.blockHeight = endBlock := by
  obtain ⟨cursorRows, hcur, hledger⟩ := updateBalances_ledger s env startBlock endBlock
  refine ⟨_, hledger, allWrittenOnce_append honce ?_, ?_⟩
  · rcases hcur with rfl | ⟨n, rfl⟩
    · trivial
    · exact ⟨by rw [WrittenOnce, if_pos (by rfl)]; rfl, trivial⟩
  intro r hr
  rcases mem_append.1 hr with hr | hr
  · exact blockHeight_of_mem_slotRows hr
  rcases hcur with rfl | ⟨n, rfl⟩
  · simp at hr
  · rw [mem_singleton.1 hr]
    rfl

section

variable (h : Step c c')
include h

theorem Step.rows (hbehind : SnapshotsBehind c.dbs.balances c.head c.slot) :
    ∃ rows, c'.dbs.ledger = c.dbs.ledger.putAll rows ∧ AllWrittenOnce c.dbs.ledger rows ∧
      ∀ b ∈ c.dbs.balances, ∀ r ∈ rows, b.blockHeight < r.blockHeight := by
  cases h with
  | l1Block height hnext => exact ⟨[], rfl, trivial, by simp⟩
  | store rows hheight honce =>
    exact ⟨rows, rfl, honce, fun b hb r hr => (hbehind.lt_head hb).trans_le (hheight r hr)⟩
  | ingest oplog br1 hfresh honce =>
    refine ⟨_, rfl, honce, fun b hb r hr => ?_⟩
    obtain ⟨u, -, rfl⟩ := mem_map.1 hr
    exact lt_brHeight_of_not_isStale hfresh (hbehind.add_le_head b hb)
  | remediate rows hheight honce =>
    refine ⟨rows, rfl, honce, fun b hb r hr => ?_⟩
    rw [hheight r hr]
    exact hbehind.lt_slot b hb
  | slotChange env startBlock hslot honce =>
    obtain ⟨rows, hledger, hall, hdate⟩ := updateBalances_rows _ env startBlock _ honce
    refine ⟨rows, hledger, hall, fun b hb r hr => ?_⟩
    rw [hdate r hr]
    exact hbehind.lt_slot b hb

theorem Step.exists_balances :
    ∀ r ∈ c.dbs.balances, ∃ r' ∈ c'.dbs.balances,
      r'.account = r.account ∧ r'.blockHeight = r.blockHeight := by
  cases h with
  | slotChange env startBlock hslot honce => exact fun _ hr => exists_mem_putAll (.inl hr)
  | _ => exact fun r hr => ⟨r, hr, rfl, rfl⟩

theorem Step.soundWith {excess : String → Asset → ℕ → Int} (hc : SoundWith excess c) :
    SoundWith excess c' := by
  obtain ⟨rows, hledger, honce, hpast⟩ := h.rows hc.behind
  have hcursor : CursorOnly c'.dbs.ledger := by
    rw [hledger]
    exact cursorOnly_putAll hc.cursorOnly honce
  have hstepped := fun account asset => (hc.stepped account asset).mono h.exists_balances
  -- Nothing is written behind a snapshot, so the old snapshots stay what they were.
  have hold : ∀ r ∈ c.dbs.balances, ∀ asset ∈ snapshotAssets, r.field asset =
      c'.dbs.history r.account r.blockHeight asset + excess r.account asset r.blockHeight := by
    intro r hr asset hasset
    rw [hc.snapshot_eq r hr asset hasset, history, history, hledger,
      upTo_putAll_of_allWrittenOnce hc.cursorOnly honce (hpast r hr)]
  cases h with
  | l1Block height hnext => exact ⟨hcursor, hc.behind.next hnext, hstepped, hold⟩
  | store | ingest | remediate => exact ⟨hcursor, hc.behind, hstepped, hold⟩
  | slotChange env startBlock hslot honce =>
    refine ⟨hcursor, hc.behind.slotChange env startBlock hslot, hstepped, ?_⟩
    intro r hr asset hasset
    rcases mem_balances_updateBalances hr with hr | ⟨hblock, hfield⟩
    · exact hold r hr asset hasset
    rw [hfield asset hasset, hblock]
    refine getBalance_eq_history_add
      (s := { updateBalances c.dbs env startBlock c.slot with balances := c.dbs.balances })
      hasset (hc.stepped r.account asset) ?_ _
    intro r' hr' hacct
    rw [← hacct]
    exact hold r' hr' asset hasset

theorem Step.sound (hc : Sound c) : Sound c' :=
  sound_iff.2 (h.soundWith (sound_iff.1 hc))

end

/-- The states of a node that started with empty collections. -/
def Reachable (c : Chain) : Prop := ∃ head, ReflTransGen Step (genesis head) c

theorem Reachable.sound (h : Reachable c) : Sound c := by
  obtain ⟨head, hrun⟩ := h
  exact Run.preserves (fun _ _ hst hs => hst.sound hs) hrun (sound_genesis head)

/-- In every reachable ledger a balance read is the sum of the account's full
history, and each snapshot is the sum of exactly the rows at or below it. -/
theorem getBalance_eq_history_of_reachable {c : Chain} (hc : Reachable c) {asset : Asset}
    (hasset : asset ∈ snapshotAssets) (account : String) (height : ℕ) :
    c.dbs.getBalance account height asset = c.dbs.history account height asset ∧
      ∀ r ∈ c.dbs.balances, r.account = account →
        r.field asset = c.dbs.history account r.blockHeight asset := by
  have hsnap : ∀ r ∈ c.dbs.balances, r.account = account →
      r.field asset = c.dbs.history account r.blockHeight asset := by
    intro r hr hacct
    rw [hc.sound.snapshot_eq r hr asset hasset, hacct]
  exact ⟨getBalance_eq_history hasset hsnap height, hsnap⟩

/-! ## Settled balances -/

theorem Step.getBalance_eq (h : Step c c') (hc : Sound c) {b : BalanceRecord}
    (hb : b ∈ c.dbs.balances) {height : ℕ} (hheight : height ≤ b.blockHeight) {asset : Asset}
    (hasset : asset ∈ snapshotAssets) (account : String) :
    c'.dbs.getBalance account height asset = c.dbs.getBalance account height asset := by
  obtain ⟨rows, hledger, honce, hpast⟩ := h.rows hc.behind
  have hread : ∀ {d : Chain}, Sound d → d.dbs.getBalance account height asset =
      d.dbs.history account height asset := fun hd => by
    simpa using (sound_iff.1 hd).getBalance_eq hasset account height
  rw [hread hc, hread (h.sound hc), history, history, hledger,
    upTo_putAll_of_allWrittenOnce hc.cursorOnly honce fun r hr => hheight.trans_lt (hpast b hb r hr)]

/-- **A balance behind a snapshot is final**: once a snapshot has been taken at a height, of
whatever account, no run changes what any account had at that height or below. -/
theorem getBalance_of_run (hc : Reachable c) (hrun : ReflTransGen Step c c') {b : BalanceRecord}
    (hb : b ∈ c.dbs.balances) {height : ℕ} (hheight : height ≤ b.blockHeight) {asset : Asset}
    (hasset : asset ∈ snapshotAssets) (account : String) :
    c'.dbs.getBalance account height asset = c.dbs.getBalance account height asset := by
  induction hrun using ReflTransGen.head_induction_on generalizing b with
  | refl => rfl
  | @head c d hstep hrest ih =>
    obtain ⟨b', hb', -, hsame⟩ := hstep.exists_balances b hb
    obtain ⟨head, hstart⟩ := hc
    rw [ih ⟨head, hstart.tail hstep⟩ hb' (hsame ▸ hheight)]
    exact hstep.getBalance_eq (Reachable.sound ⟨head, hstart⟩) hb hheight hasset account

def depositThenTransfer : Chain :=
  let deposit : LedgerRecord :=
    { id := "d", amount := 100, blockHeight := 10, owner := "hive:a", type := .deposit
      asset := .hive }
  let transfer : OpLogEvent :=
    { id := "t", from_ := "hive:a", to_ := "hive:b", amount := 30, asset := .hive
      type := .transfer }
  let stored : LedgerDbs := { ledger := Collection.empty.put deposit }
  ⟨ingestOplog (updateBalances stored ⟨none, fun _ => false, fun _ => false, none⟩ 0 10)
    [transfer] 15, 20, 20⟩

theorem reachable_depositThenTransfer : Reachable depositThenTransfer := by
  refine ⟨10, .tail (.tail (.tail (.tail .refl (.store _ [_] ?_ ?_)) (.l1Block _ 20 ?_))
    (.slotChange _ _ 0 ?_ ?_)) (.ingest _ _ 15 ?_ ?_)⟩
  all_goals decide

theorem getBalance_depositThenTransfer : depositThenTransfer.dbs.getBalance "hive:a" 20 .hive = 70 ∧
      depositThenTransfer.dbs.history "hive:a" 20 .hive = 70 := by
  have h := (getBalance_eq_history_of_reachable reachable_depositThenTransfer
    (show Asset.hive ∈ snapshotAssets by decide) "hive:a" 20).1
  have hbal : depositThenTransfer.dbs.getBalance "hive:a" 20 .hive = 70 := by decide
  exact ⟨hbal, h.symm.trans hbal⟩

theorem getBalance_behind_second_deposit :
    let row : LedgerRecord := { id := "e", amount := 5, blockHeight := 20, owner := "hive:a"
                                type := .deposit, asset := .hive }
    let dbs := depositThenTransfer.dbs
    LedgerDbs.getBalance { dbs with ledger := dbs.ledger.putAll [row] } "hive:a" 10 .hive = 100 :=
  (getBalance_of_run reachable_depositThenTransfer
    (.single (.store depositThenTransfer [_] (by decide) (by decide)))
    (head_mem (by decide : depositThenTransfer.dbs.balances.docs ≠ [])) (by decide) (by decide)
    "hive:a").trans (by decide)

end Chain

end VscNode
