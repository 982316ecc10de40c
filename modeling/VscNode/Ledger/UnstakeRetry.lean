import VscNode.Ledger.StakeCredit

/-!
# Releasing an unstake again

The rows that pay out matured unstakes are stored one after another. Where storing fails,
the rows before the failure have landed, the unstakes stay pending, and the slot's
snapshots are written all the same. A later slot releases the unstakes again: each row
keeps its id and gets the date of the later slot.

A row that had landed was counted by the snapshot of its own slot. Its second version is
dated past that snapshot and is counted once more. `ReleaseRetry.released_once_iff` says
that this is the only way in which a release and its retry miscount.
-/

namespace VscNode

open Collection List Relation Tally

/-! ## A slot change whose release fails -/

/-- What a slot change does after the release of unstakes. -/
def settleSlot (s : LedgerDbs) (lastClaim : Option ℕ) (startBlock endBlock : ℕ) : LedgerDbs :=
  let stBlock := if startBlock = 0 then 0 else (endBlock + 2 ^ 64 - 9) % 2 ^ 64
  let s := { s with ledger := finalizeMaturedSafetySlashBurns s.ledger endBlock }
  { s with
    balances := s.balances.putAll
      ((slotAccounts s stBlock endBlock).filterMap (foldAccount s lastClaim endBlock)) }

variable (s : LedgerDbs)

variable (env : SlotEnv) (endBlock : ℕ)

theorem updateBalances_eq_settleSlot (startBlock endBlock : ℕ) :
    updateBalances s env startBlock endBlock =
      settleSlot (releaseUnstakes s env endBlock) env.lastClaim startBlock endBlock := rfl

section

variable (s : LedgerDbs) (env : SlotEnv)

def payoutRows (endBlock : ℕ) : List LedgerRecord :=
  (releasedActions env s.actions).map (releaseRecord endBlock)

/-- A release that fails after `n` rows: no action is marked complete. -/
def releaseUnstakesCut (n endBlock : ℕ) : LedgerDbs :=
  s.storeLedger ((payoutRows s env endBlock).take n)

def updateBalancesCut (n startBlock endBlock : ℕ) : LedgerDbs :=
  settleSlot (releaseUnstakesCut s env n endBlock) env.lastClaim startBlock endBlock

end

def promotionRows (db : LedgerDb) (endBlock : ℕ) : List LedgerRecord :=
  (promotedRows db endBlock).flatMap (promotionRecords endBlock)

/-- The slot change of a slot without an election, which releases nothing. -/
def SlotEnv.quiet : SlotEnv := { env with epoch := none }

theorem ActionDb.executeComplete_nil (db : ActionDb) : db.executeComplete [] = db := by
  obtain ⟨docs, hdocs⟩ := db
  simp [ActionDb.executeComplete, Collection.modify]

theorem releaseUnstakes_quiet : releaseUnstakes s env.quiet endBlock = s := by
  simp only [releaseUnstakes, releasedActions, SlotEnv.quiet, map_nil,
    ActionDb.executeComplete_nil, putAll_nil]

theorem settleSlot_eq_updateBalances (startBlock endBlock : ℕ) :
    settleSlot s env.lastClaim startBlock endBlock =
      updateBalances s env.quiet startBlock endBlock := by
  rw [updateBalances_eq_settleSlot, releaseUnstakes_quiet]
  rfl

theorem Chain.Step.settle (c : Chain) (env : SlotEnv) (startBlock : ℕ)
    (hslot : slotStart c.head ≠ c.slot)
    (honce : AllWrittenOnce c.dbs.ledger (promotionRows c.dbs.ledger c.slot)) :
    Chain.Step c ⟨settleSlot c.dbs env.lastClaim startBlock c.slot, c.head, slotStart c.head⟩ := by
  rw [settleSlot_eq_updateBalances]
  refine .slotChange c env.quiet startBlock hslot ?_
  rw [slotRows, releaseUnstakes_quiet]
  exact honce

variable {r : LedgerRecord}

theorem exists_snapshot_settleSlot {s : LedgerDbs} (lastClaim : Option ℕ)
    {startBlock endBlock : ℕ} (hr : r ∈ finalizeMaturedSafetySlashBurns s.ledger endBlock)
    (hdate : r.blockHeight = endBlock) (hstart : startBlock = 0 ∨ 9 ≤ endBlock)
    (hprev : ∀ b ∈ s.balances, b.blockHeight < endBlock) :
    ∃ b ∈ (settleSlot s lastClaim startBlock endBlock).balances,
      b.account = r.owner ∧ b.blockHeight = endBlock := by
  set s' : LedgerDbs := { s with ledger := finalizeMaturedSafetySlashBurns s.ledger endBlock }
    with hs'
  set stBlock := if startBlock = 0 then 0 else (endBlock + 2 ^ 64 - 9) % 2 ^ 64 with hst
  have hwindow : stBlock ≤ endBlock := by
    rw [hst]
    split
    · exact Nat.zero_le _
    rename_i hne
    have h9 := hstart.resolve_left hne
    rw [show endBlock + 2 ^ 64 - 9 = endBlock - 9 + 2 ^ 64 by omega, Nat.add_mod_right]
    exact (Nat.mod_le _ _).trans (Nat.sub_le _ _)
  have hacct : r.owner ∈ slotAccounts s' stBlock endBlock := by
    have hmem : r.owner ∈ s'.ledger.getDistinctAccountsRange stBlock endBlock :=
      LedgerDb.mem_getDistinctAccountsRange.2 ⟨r, hr, rfl, hdate ▸ hwindow, hdate.le⟩
    rw [slotAccounts]
    split
    · exact mem_append_left _ hmem
    · exact hmem
  have hfold : ∃ b, foldAccount s' lastClaim endBlock r.owner = some b := by
    have hrange : r ∈ s'.ledger.getLedgerRange r.owner
        ((s'.balances.getBalanceRecord r.owner endBlock).elim 0 fun b => b.blockHeight + 1)
        endBlock none [] := by
      refine LedgerDb.mem_getLedgerRange.2 ⟨hr, rfl, ?_, hdate.le, by simp, .inl rfl⟩
      rw [hdate]
      cases hget : s'.balances.getBalanceRecord r.owner endBlock with
      | none => exact Nat.zero_le _
      | some b => exact hprev b (BalanceDb.getBalanceRecord_eq_some hget).1
    simp only [foldAccount]
    rw [if_neg fun h => ne_nil_of_mem hrange h.1]
    exact ⟨_, rfl⟩
  obtain ⟨b, hb⟩ := hfold
  obtain ⟨hbacct, hbheight, -⟩ := foldAccount_field hb (show Asset.hive ∈ snapshotAssets by decide)
  have hnew : b ∈ (slotAccounts s' stBlock endBlock).filterMap (foldAccount s' lastClaim endBlock) :=
    mem_filterMap.2 ⟨r.owner, hacct, hb⟩
  obtain ⟨b', hmem, hbacct', hbheight'⟩ := exists_mem_putAll (.inr hnew)
  exact ⟨b', hmem, hbacct'.trans hbacct, hbheight'.trans hbheight⟩

/-! ## Rows that stay -/

variable {db : LedgerDb} {rows : List LedgerRecord}

theorem mem_putAll_of_allWrittenOnce (honce : AllWrittenOnce db rows) (hr : r ∈ db)
    (hid : r.id ≠ safetySlashFinalizeCursorRowID) : r ∈ db.putAll rows := by
  induction rows generalizing db with
  | nil => exact hr
  | cons x rows ih =>
    refine ih honce.2 (mem_put.2 (.inr ⟨hr, fun hkey => ?_⟩))
    have hx := honce.1
    rw [WrittenOnce, if_neg (hkey ▸ hid)] at hx
    exact absurd hkey (get?_eq_none_iff.1 hx r hr)

theorem mem_finalizeMaturedSafetySlashBurns {endBlock : ℕ}
    (honce : AllWrittenOnce db (promotionRows db endBlock)) (hr : r ∈ db)
    (hid : r.id ≠ safetySlashFinalizeCursorRowID) :
    r ∈ finalizeMaturedSafetySlashBurns db endBlock := by
  obtain ⟨cursorRows, hcursor, heq⟩ := finalizeMaturedSafetySlashBurns_eq db endBlock
  rw [heq]
  refine mem_putAll_of_allWrittenOnce (allWrittenOnce_append honce ?_) hr hid
  rcases hcursor with rfl | ⟨n, rfl⟩
  · trivial
  · exact ⟨by rw [WrittenOnce, if_pos (by rfl)]; rfl, trivial⟩

theorem Chain.Step.mem_ledger {c c' : Chain} (h : Chain.Step c c') (hc : c.Sound)
    (hr : r ∈ c.dbs.ledger) (hid : r.id ≠ safetySlashFinalizeCursorRowID) :
    r ∈ c'.dbs.ledger := by
  obtain ⟨rows, hledger, honce, -⟩ := h.rows hc.behind
  rw [hledger]
  exact mem_putAll_of_allWrittenOnce honce hr hid

theorem releaseRecord_id_ne_cursor (a : ActionRecord) :
    (releaseRecord endBlock a).id ≠ safetySlashFinalizeCursorRowID := by
  intro hid
  have hop : rowClass (releaseRecord endBlock a).id = .op :=
    rowClass_out a.id
  rw [hid, rowClass_of_free (show Text.Free '#' safetySlashFinalizeCursorRowID by decide)] at hop
  cases hop

theorem nodup_payoutRows : ((payoutRows s env endBlock).map (·.id)).Nodup := by
  have hids : (payoutRows s env endBlock).map (·.id) =
      ((releasedActions env s.actions).map (·.id)).map (· ++ "#out") := by
    rw [payoutRows, List.map_map, List.map_map]
    rfl
  rw [hids]
  exact (nodup_releasedActions env s.actions).map fun _ _ h => (String.append_left_inj "#out").1 h

/-! ## A failed release and its retry -/

structure ReleaseRetry where
  before : Chain
  reachable : before.Reachable
  env : SlotEnv
  (cut startBlock : ℕ)
  ended : slotStart before.head ≠ before.slot
  start_zero : before.slot = 0 → startBlock = 0
  once : AllWrittenOnce before.dbs.ledger ((payoutRows before.dbs env before.slot).take cut)
  promoted_once : AllWrittenOnce (releaseUnstakesCut before.dbs env cut before.slot).ledger
    (promotionRows (releaseUnstakesCut before.dbs env cut before.slot).ledger before.slot)
  retried : Chain
  run : ReflTransGen Chain.Step ⟨updateBalancesCut before.dbs env cut startBlock before.slot,
    before.head, slotStart before.head⟩ retried
  env_ : SlotEnv
  startBlock_ : ℕ
  ended_ : slotStart retried.head ≠ retried.slot
  payouts_only : ∀ p ∈ payoutRows retried.dbs env_ retried.slot, ∀ r ∈ retried.dbs.ledger,
    r.id = p.id → r ∈ (payoutRows before.dbs env before.slot).take cut
  promoted_once_ : AllWrittenOnce (releaseUnstakes retried.dbs env_ retried.slot).ledger
    (promotionRows (releaseUnstakes retried.dbs env_ retried.slot).ledger retried.slot)

namespace ReleaseRetry

variable (w : ReleaseRetry)

def landed : List LedgerRecord := (payoutRows w.before.dbs w.env w.before.slot).take w.cut

/-- The unstakes that the retry releases. -/
def released : List ActionRecord := releasedActions w.env_ w.retried.dbs.actions

def payouts : List LedgerRecord := payoutRows w.retried.dbs w.env_ w.retried.slot

/-- The slot change of the retry. -/
def after : Chain :=
  ⟨updateBalances w.retried.dbs w.env_ w.startBlock_ w.retried.slot, w.retried.head,
    slotStart w.retried.head⟩

variable (account : String)

def besides (h : ℕ) : Int :=
  w.after.dbs.ledger.upTo (·.blockHeight)
    (fun r => if r.id ∈ w.payouts.map (·.id) then 0 else r.moves account .hive) h

def ReleasedOnce : Prop :=
  ∀ a ∈ w.released, ∀ h, w.retried.slot ≤ h → w.after.dbs.getBalance a.to_ h .hive =
      w.besides a.to_ h + ((w.released.filter fun a' => a'.to_ = a.to_).map (·.amount)).sum

def landedAmount : Int :=
  ((w.landed.filter fun r => r.id ∈ w.payouts.map (·.id)).map (·.moves account .hive)).sum

variable {w}

variable {r : LedgerRecord} {p : LedgerRecord} {h : ℕ}

theorem blockHeight_landed (hr : r ∈ w.landed) :
    r.blockHeight = w.before.slot ∧ r.id ≠ safetySlashFinalizeCursorRowID := by
  obtain ⟨a, -, rfl⟩ := mem_map.1 (mem_of_mem_take hr)
  exact ⟨rfl, releaseRecord_id_ne_cursor _ a⟩

theorem failed_run : ReflTransGen Chain.Step w.before
    ⟨updateBalancesCut w.before.dbs w.env w.cut w.startBlock w.before.slot, w.before.head,
      slotStart w.before.head⟩ := by
  refine .tail (.single (.remediate w.before w.landed (fun r hr => (blockHeight_landed hr).1) w.once))
    ?_
  exact Chain.Step.settle
    { w.before with dbs := releaseUnstakesCut w.before.dbs w.env w.cut w.before.slot }
    w.env w.startBlock w.ended w.promoted_once

theorem retried_reachable : w.retried.Reachable := by
  obtain ⟨head, hrun⟩ := w.reachable
  exact ⟨head, (hrun.trans failed_run).trans w.run⟩

theorem landed_counted (hr : r ∈ w.landed) :
    r ∈ w.retried.dbs.ledger ∧ ∃ b ∈ w.retried.dbs.balances,
      b.account = r.owner ∧ b.blockHeight = w.before.slot := by
  obtain ⟨hdate, hid⟩ := blockHeight_landed hr
  have hsound := w.reachable.sound
  have hmod := hsound.behind.slot_mod
  -- In the failed slot itself.
  have hnodup : (w.landed.map LedgerRecord.id).Nodup :=
    (nodup_payoutRows _ _ _).sublist ((take_sublist _ _).map _)
  have hfinal := mem_finalizeMaturedSafetySlashBurns w.promoted_once
    (mem_putAll_of_nodup hnodup hr) hid
  have hstart : w.startBlock = 0 ∨ 9 ≤ w.before.slot := by
    rcases Nat.eq_zero_or_pos w.before.slot with hzero | hpos
    · exact .inl (w.start_zero hzero)
    refine .inr ?_
    rw [show slotLength = 10 from rfl] at hmod
    omega
  have hsnap := exists_snapshot_settleSlot w.env.lastClaim hfinal hdate hstart
    fun b hb => hsound.behind.lt_slot b hb
  -- Along the run to the retry.
  have hkept : ∀ {c c' : Chain}, ReflTransGen Chain.Step c c' → c.Sound →
      (r ∈ c.dbs.ledger ∧ ∃ b ∈ c.dbs.balances, b.account = r.owner ∧
        b.blockHeight = w.before.slot) →
      r ∈ c'.dbs.ledger ∧ ∃ b ∈ c'.dbs.balances, b.account = r.owner ∧
        b.blockHeight = w.before.slot := by
    intro c c' hrun hc h
    have hboth := Run.preserves (P := fun c : Chain => c.Sound ∧ r ∈ c.dbs.ledger ∧
      ∃ b ∈ c.dbs.balances, b.account = r.owner ∧ b.blockHeight = w.before.slot) ?_ hrun ⟨hc, h⟩
    · exact hboth.2
    rintro c c' hstep ⟨hc, hmem, b, hb, hacct, hheight⟩
    obtain ⟨b', hb', hacct', hheight'⟩ := hstep.exists_balances b hb
    exact ⟨hstep.sound hc, hstep.mem_ledger hc hmem hid, b', hb', hacct'.trans hacct,
      hheight'.trans hheight⟩
  have hfailed := Run.preserves (fun _ _ hst hs => hst.sound hs) failed_run hsound
  exact hkept w.run hfailed ⟨hfinal, hsnap⟩

/-! ### The rows of the retry -/

theorem mem_payouts (hp : p ∈ w.payouts) :
    p.blockHeight = w.retried.slot ∧ p.id ≠ safetySlashFinalizeCursorRowID := by
  obtain ⟨a, -, rfl⟩ := mem_map.1 hp
  exact ⟨rfl, releaseRecord_id_ne_cursor _ a⟩

theorem history_eq (hh : w.retried.slot ≤ h) :
    w.after.dbs.history account h .hive = w.besides account h +
      ((w.released.filter fun a => a.to_ = account).map (·.amount)).sum := by
  have hnodup : (w.payouts.map LedgerRecord.id).Nodup := nodup_payoutRows _ _ _
  set g : LedgerRecord → Int := fun r => if r.blockHeight ≤ h then r.moves account .hive else 0
    with hg
  have hvalue : ∀ p ∈ w.payouts, w.after.dbs.ledger.valueAt g p.id = p.moves account .hive := by
    intro p hp
    obtain ⟨hdate, hid⟩ := mem_payouts hp
    have hmem : p ∈ w.after.dbs.ledger :=
      mem_finalizeMaturedSafetySlashBurns w.promoted_once_ (mem_putAll_of_nodup hnodup hp) hid
    rw [valueAt_of_get?_eq_some (get?_of_mem hmem), hg]
    exact if_pos (hdate.trans_le hh)
  have hpayouts : (w.payouts.map fun p => p.moves account .hive).sum =
      ((w.released.filter fun a => a.to_ = account).map (·.amount)).sum := by
    rw [payouts, payoutRows, ← released, List.map_map]
    generalize w.released = actions
    induction actions with
    | nil => rfl
    | cons a actions ih =>
      rw [map_cons, sum_cons, ih]
      by_cases hto : a.to_ = account
      · rw [filter_cons_of_pos (by simpa using hto), map_cons, sum_cons]
        simp [releaseRecord, LedgerRecord.moves, isProtocolMetaLedgerType, hto]
      · rw [filter_cons_of_neg (by simpa using hto)]
        simp [releaseRecord, LedgerRecord.moves, hto]
  have hsum := w.after.dbs.ledger.sum_mem_keys g hnodup
  rw [List.map_map, Function.comp_def, map_congr_left hvalue, hpayouts] at hsum
  rw [← hsum, besides, LedgerDbs.history, upTo, upTo, ← sum_add]
  refine sum_congr fun r _ => ?_
  by_cases hid : r.id ∈ w.payouts.map LedgerRecord.id
  · simp [hid, hg]
  · simp [hid]

/-- A row is replaced by the retry only if it had landed and been counted. -/
theorem excess_recountsOf_payout (hp : p ∈ w.payouts) (account : String) (hh : w.retried.slot ≤ h) :
    Recount.excess ((⟨w.retried, []⟩ : Tally).recountsOf p.id) account .hive h =
      w.retried.dbs.ledger.valueAt (·.moves account .hive) p.id := by
  rw [recountsOf]
  cases hget : w.retried.dbs.ledger.get? p.id with
  | none =>
    rw [valueAt_of_get?_eq_none hget]
    rfl
  | some r =>
    rw [valueAt_of_get?_eq_some hget]
    obtain ⟨hmem, hid⟩ := get?_eq_some_iff.1 hget
    have hlanded := w.payouts_only p hp r hmem hid
    obtain ⟨-, b, hb, hacct, hheight⟩ := landed_counted hlanded
    have hdate := (blockHeight_landed hlanded).1
    have hbefore : b.blockHeight < w.retried.slot :=
      retried_reachable.sound.behind.lt_slot b hb
    obtain ⟨n, hn, hle⟩ := (LedgerDbs.exists_countedAt_iff hb hacct).2 (by omega)
    simp only [Recount.excess, hn, Option.toList_some, map_cons, map_nil,
      sum_cons, sum_nil, add_zero]
    exact if_pos (by omega)

end ReleaseRetry

theorem Tally.foldl_put (hnodup : (rows.map LedgerRecord.id).Nodup) (t : Tally) :
    rows.foldl put t =
      ⟨{ t.chain with dbs := { t.chain.dbs with ledger := t.chain.dbs.ledger.putAll rows } },
        t.recounted ++ rows.flatMap fun r => t.recountsOf r.id⟩ := by
  induction rows generalizing t with
  | nil => simp
  | cons r rows ih =>
    obtain ⟨hr, hnodup⟩ := nodup_cons.1 hnodup
    have hrest : ∀ x ∈ rows, (t.put r).recountsOf x.id = t.recountsOf x.id := by
      intro x hx
      have hne : r.id ≠ x.id := fun hid => hr (hid ▸ mem_map_of_mem hx)
      have hget : (t.chain.dbs.ledger.put r).get? x.id = t.chain.dbs.ledger.get? x.id :=
        get?_put_of_ne hne
      rw [recountsOf, recountsOf, ← hget]
      rfl
    rw [foldl_cons, ih hnodup, flatMap_cons, ← append_assoc]
    exact congrArg (mk _) (congrArg _ (flatMap_congr hrest))

theorem Tally.Sound.putAll {t : Tally} (ht : Tally.Sound t)
    (hpast : ∀ r ∈ rows, ∀ b ∈ t.chain.dbs.balances, b.blockHeight < r.blockHeight)
    (hcursor : ∀ r ∈ rows, r.id ≠ safetySlashFinalizeCursorRowID) :
    Tally.Sound (rows.foldl Tally.put t) := by
  induction rows generalizing t with
  | nil => exact ht
  | cons r rows ih =>
    refine ih (ht.put (hpast r mem_cons_self) (hcursor r mem_cons_self)) ?_ ?_
    · exact fun x hx => hpast x (mem_cons_of_mem _ hx)
    · exact fun x hx => hcursor x (mem_cons_of_mem _ hx)

namespace ReleaseRetry

variable {w : ReleaseRetry}

theorem sum_valueAt_payouts (account : String) :
    (w.payouts.map fun p => w.retried.dbs.ledger.valueAt (·.moves account .hive) p.id).sum =
      w.landedAmount account := by
  have hnodup : (w.payouts.map LedgerRecord.id).Nodup := nodup_payoutRows _ _ _
  set again := w.landed.filter fun r => r.id ∈ w.payouts.map (·.id) with hagain
  have hnodup' : (again.map LedgerRecord.id).Nodup :=
    (nodup_payoutRows _ _ _).sublist ((filter_sublist.trans (take_sublist _ _)).map _)
  have hkeys := w.retried.dbs.ledger.sum_mem_keys (·.moves account .hive) hnodup
  have hkeys' := w.retried.dbs.ledger.sum_mem_keys (·.moves account .hive) hnodup'
  rw [List.map_map, Function.comp_def] at hkeys hkeys'
  have hvalue : ∀ r ∈ again, w.retried.dbs.ledger.valueAt (·.moves account .hive) r.id =
      r.moves account .hive := fun r hr =>
    valueAt_of_get?_eq_some (get?_of_mem (landed_counted (List.mem_filter.1 hr).1).1) _
  rw [map_congr_left hvalue] at hkeys'
  rw [landedAmount, ← hagain, ← hkeys']
  refine hkeys.symm.trans (sum_congr fun r hr => ?_)
  have hiff : r.id ∈ w.payouts.map LedgerRecord.id ↔ r.id ∈ again.map LedgerRecord.id := by
    constructor
    · intro hid
      obtain ⟨p, hp, hpid⟩ := mem_map.1 hid
      refine mem_map_of_mem (List.mem_filter.2 ⟨w.payouts_only p hp r hr hpid.symm, ?_⟩)
      simpa using hid
    intro hid
    obtain ⟨r', hr', hrid⟩ := mem_map.1 hid
    rw [← hrid]
    simpa using (List.mem_filter.1 hr').2
  simp only [hiff]

theorem getBalance_eq (account : String) {h : ℕ} (hh : w.retried.slot ≤ h) :
    w.after.dbs.getBalance account h .hive =
      w.after.dbs.history account h .hive + w.landedAmount account := by
  have hsound := retried_reachable (w := w) |>.sound
  have hnodup : (w.payouts.map LedgerRecord.id).Nodup := nodup_payoutRows _ _ _
  have hpaid : Tally.Sound (w.payouts.foldl put ⟨w.retried, []⟩) :=
    (sound_nil hsound).putAll (fun p hp b hb => (mem_payouts hp).1 ▸ hsound.behind.lt_slot b hb)
      fun p hp => (mem_payouts hp).2
  rw [foldl_put hnodup, nil_append] at hpaid
  have hreleased : Chain.SoundWith
      (Recount.excess (w.payouts.flatMap fun r => (⟨w.retried, []⟩ : Tally).recountsOf r.id))
      { w.retried with dbs := releaseUnstakes w.retried.dbs w.env_ w.retried.slot } :=
    ⟨hpaid.chain.cursorOnly, hpaid.chain.behind, hpaid.chain.stepped, hpaid.chain.snapshot_eq⟩
  have hafter := (Chain.Step.settle
    { w.retried with dbs := releaseUnstakes w.retried.dbs w.env_ w.retried.slot } w.env_
    w.startBlock_ w.ended_ w.promoted_once_).soundWith hreleased
  have hbalance := hafter.getBalance_eq (show Asset.hive ∈ snapshotAssets by decide) account h
  refine hbalance.trans (congrArg _ ?_)
  rw [← sum_valueAt_payouts]
  have hflat : ∀ rows : List LedgerRecord, (∀ p ∈ rows, p ∈ w.payouts) →
      Recount.excess (rows.flatMap fun r => (⟨w.retried, []⟩ : Tally).recountsOf r.id) account
        .hive h =
      (rows.map fun p => w.retried.dbs.ledger.valueAt (·.moves account .hive) p.id).sum := by
    intro rows hrows
    induction rows with
    | nil => rfl
    | cons p rows ih =>
      rw [flatMap_cons, Recount.excess_append, ih fun x hx => hrows x (mem_cons_of_mem _ hx),
        excess_recountsOf_payout (hrows p mem_cons_self) account hh, map_cons,
        sum_cons]
  exact hflat w.payouts fun p hp => hp

/-- The balance of every recipient holds each released amount once exactly if nothing had
landed on a recipient that is paid out again. -/
theorem released_once_iff (w : ReleaseRetry) :
    w.ReleasedOnce ↔ ∀ a ∈ w.released, w.landedAmount a.to_ = 0 := by
  refine forall₂_congr fun a _ => ?_
  have hbalance : ∀ h, w.retried.slot ≤ h → w.after.dbs.getBalance a.to_ h .hive =
      w.besides a.to_ h + ((w.released.filter fun a' => a'.to_ = a.to_).map (·.amount)).sum +
        w.landedAmount a.to_ := fun h hh => by
    rw [getBalance_eq a.to_ hh, history_eq a.to_ hh]
  constructor
  · intro honce
    have heq := (hbalance _ le_rfl).symm.trans (honce _ le_rfl)
    exact add_eq_left.1 heq
  · intro hzero h hh
    rw [hbalance h hh, hzero, add_zero]

/-! ### A payout that is counted twice -/

def matured : Chain :=
  let unstake : OpLogEvent :=
    { id := "u", from_ := "hive:a", to_ := "hive:a", amount := 100, asset := .hive
      type := .consensusUnstake, params := { epoch := some 5 } }
  ⟨ingestOplog {} [unstake] 15, 20, 10⟩

theorem reachable_matured : matured.Reachable := by
  refine ⟨10, .tail (.tail .refl (.ingest (Chain.genesis 10) _ 15 ?_ ?_)) (.l1Block _ 20 ?_)⟩
  all_goals decide

def epochFive : SlotEnv := ⟨some 5, fun _ => false, fun _ => false, none⟩

/-- The payout lands in slot 10, but storing fails right after it; slot 20 retries. -/
def landedThenRetried : ReleaseRetry where
  before := matured
  reachable := reachable_matured
  env := epochFive
  cut := 1
  startBlock := 0
  ended := by decide
  start_zero _ := rfl
  once := by decide
  promoted_once := by decide
  retried := ⟨updateBalancesCut matured.dbs epochFive 1 0 10, 30, 20⟩
  run := .single (.l1Block _ 30 (by decide))
  env_ := epochFive
  startBlock_ := 10
  ended_ := by decide
  payouts_only := by decide
  promoted_once_ := by decide

/-- The balance holds the 100 HIVE twice. -/
theorem released_twice :
    (landedThenRetried.after.dbs.ledger.docs.filter fun r => r.owner = "hive:a" ∧ r.asset = .hive) =
        [⟨"u#out", 100, 20, "", "hive:a", .consensusUnstake, .hive, ""⟩] ∧
      landedThenRetried.after.dbs.getBalance "hive:a" 30 .hive = 200 ∧
      ¬ landedThenRetried.ReleasedOnce := by
  refine ⟨by decide, by decide, fun honce => ?_⟩
  have hdue : ∃ a ∈ landedThenRetried.released, a.to_ = "hive:a" := by decide
  obtain ⟨a, ha, hto⟩ := hdue
  have hbalance := honce a ha 30 (by decide)
  rw [hto] at hbalance
  exact absurd hbalance (by decide)

end ReleaseRetry

end VscNode
