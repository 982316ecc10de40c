import VscNode.Ledger.SlashCase

/-!
# Writes that a crash can cut

Rows are stored one after another, so a node that stops in the middle of a call
has stored a first part of the call's rows. This module says, for the calls that
slash, cancel, finalize and pay out, which rows they store and in which order; a
call then stores all of them, and a cut call the first few.
-/

namespace VscNode

open Text Collection List

/-! ## Rows of one slash -/

section Rows

variable {db : LedgerDb} {k : SlashKey} {x r : LedgerRecord}

theorem Shaped.put (h : Shaped db) (hx : ForeignRow x ∨ ∃ k p, k.Valid ∧ p.Plain ∧ SlashRow k p x) :
    Shaped (db.put x) := forall_mem_put hx h

theorem SlashRow.get?_put {q : SlashPart} (hx : SlashRow k q x) (hk : k.Valid) (hq : q.Plain)
    (p : SlashPart) (hp : p.Plain) :
    (db.put x).get? (k.rowID p) = if p = q then some x else db.get? (k.rowID p) := by
  rw [Collection.get?_put, hx.id]
  by_cases hpq : p = q
  · rw [hpq, if_pos rfl, if_pos rfl]
  · rw [if_neg fun hid => hpq (SlashKey.rowID_inj hk hk hid hq hp).2.symm, if_neg hpq]

theorem Shaped.key_of_type (h : Shaped db) (hr : r ∈ db) {q : SlashPart}
    (hq : q = .debit ∨ q = .pending) (htype : r.type = q.type) :
    ∃ k : SlashKey, k.Valid ∧ SlashRow k q r ∧ db.get? (k.rowID q) = some r := by
  rcases h r hr with hforeign | ⟨k, p, hk, hp, hrow⟩
  · rcases hq with rfl | rfl <;> rcases hforeign.type with ht | ht | ht <;>
      rw [ht] at htype <;> cases htype
  have hpart : p = q := by
    rw [hrow.type] at htype
    rcases hq with rfl | rfl <;> cases p <;> simp [SlashPart.type] at htype ⊢
  subst hpart
  exact ⟨k, hk, hrow, get?_eq_some_iff.2 ⟨hr, hrow.id⟩⟩

theorem slashRow_cancelRecords {b : ℕ} (hr : SlashRow k .pending r)
    (hscan : b ≤ maxLedgerScanHeight) :
    SlashRow k .cancelRelease (cancelReleaseRecord b r) ∧
      SlashRow k .finalized (finalizedMarkerRecord b r) ∧
      SlashRow k .cancelled (cancelledMarkerRecord b r) := by
  have hid := hr.id
  refine ⟨?_, ?_, ?_⟩ <;> exact ⟨congrArg (· ++ _) hid, rfl, rfl, rfl, hscan, nofun⟩

theorem slashRow_promotionRecords {e : ℕ} (hr : SlashRow k .pending r)
    (hscan : e ≤ maxLedgerScanHeight) :
    SlashRow k .release (pendingReleaseRecord e r) ∧
      SlashRow k .promoted (promotedReserveRecord e r) ∧
      SlashRow k .finalized (finalizedMarkerRecord e r) := by
  have hid := hr.id
  refine ⟨?_, ?_, ?_⟩ <;> exact ⟨congrArg (· ++ _) hid, rfl, rfl, rfl, hscan, nofun⟩

end Rows

/-- A slash as the transaction that carries it fixes it: a transaction has one height,
and ids, kinds and accounts have no separator in them. -/
@[mk_iff] structure CarriedSlash (txHeight : String → ℕ) (p : SafetySlashConsensusParams) : Prop where
  height : p.blockHeight = txHeight p.txID
  inScan : p.blockHeight ≤ maxLedgerScanHeight
  txFree : Free '#' p.txID
  kindFree : Free '#' p.evidenceKind
  acctFree : Free '#' (normalizeHiveConsensusAccount p.account)

instance (txHeight : String → ℕ) (p : SafetySlashConsensusParams) :
    Decidable (CarriedSlash txHeight p) := decidable_of_iff _ (carriedSlash_iff ..).symm

variable {p : SafetySlashConsensusParams} {acct : String} {s : LedgerDbs}

theorem CarriedSlash.valid {txHeight : String → ℕ} (hp : CarriedSlash txHeight p)
    (hacct : normalizeHiveConsensusAccount p.account = acct) : (p.slashKey acct).Valid := by
  have hfree := hp.acctFree
  rw [hacct] at hfree
  exact ⟨hp.txFree, hp.kindFree, hfree⟩

/-! ## Slashing -/

theorem slashWrites_of_recorded {debit : LedgerRecord}
    (hacct : normalizeHiveConsensusAccount p.account = acct)
    (hdebit : rowAt s.ledger acct p.blockHeight .hiveConsensus
      (slashDebitID p.txID p.evidenceKind acct) = some debit)
    (hcompanion : (slashCompanionRow s.ledger p acct).isSome) : slashWrites s p = [] := by
  rw [slashWrites, hacct]
  split
  · rfl
  split
  · rfl
  · simp only [hdebit]

/-! ## Cancelling -/

section

variable (db : LedgerDb) (blockHeight : ℕ) (p : CancelPendingSafetySlashBurnParams)

def cancelWrites : List LedgerRecord :=
  let slashedAcct := normalizeHiveConsensusAccount p.slashedAccount
  if trimSpace p.txID = "" ∨ trimSpace p.evidenceKind = "" then []
  else if slashedAcct = "" then []
  else
    let pendingID := safetySlashBaseID p.txID p.evidenceKind ++ "#hive_burn_pending#" ++ slashedAcct
    match pendingRow db p.blockHeight .safetySlashHiveBurnPending pendingID with
    | none => []
    | some r =>
      if (pendingRow db p.blockHeight .safetySlashHiveBurnPendingCancelled
          (pendingID ++ "#cancelled_marker")).isSome then []
      else if (pendingRow db p.blockHeight .safetySlashHiveBurnPendingFinalized
          (pendingID ++ "#finalized_marker")).isSome then []
      else cancelRecords p.blockHeight r

theorem cancelPendingSafetySlashBurn_eq :
    (cancelPendingSafetySlashBurn db p).1 = db.putAll (cancelWrites db p) := by
  simp only [cancelPendingSafetySlashBurn, cancelWrites]
  split
  · rfl
  split
  · rfl
  cases pendingRow db p.blockHeight .safetySlashHiveBurnPending _ with
  | none => rfl
  | some r =>
    dsimp only
    split
    · rfl
    · split <;> rfl

theorem cancelWrites_cases :
    cancelWrites db p = [] ∨
      ∃ r, pendingRow db p.blockHeight .safetySlashHiveBurnPending
          (slashPendingID (trimSpace p.txID) (trimSpace p.evidenceKind)
            (normalizeHiveConsensusAccount p.slashedAccount)) = some r ∧
        pendingRow db p.blockHeight .safetySlashHiveBurnPendingFinalized
          (slashPendingID (trimSpace p.txID) (trimSpace p.evidenceKind)
            (normalizeHiveConsensusAccount p.slashedAccount) ++ "#finalized_marker") = none ∧
        cancelWrites db p = cancelRecords p.blockHeight r := by
  simp only [cancelWrites]
  iterate 3
    split
    · exact .inl rfl
  rename_i r hr
  split
  · exact .inl rfl
  split
  · exact .inl rfl
  · rename_i hfin
    exact .inr ⟨r, hr, Option.not_isSome_iff_eq_none.1 hfin, rfl⟩

/-! ## Finalizing -/

def minUnfinalized : ℕ :=
  ((scannedPending db blockHeight).foldl
    (finalizePendingRow blockHeight (scannedDone db blockHeight)) (db, maxUint64)).2

theorem foldl_finalizePendingRow_snd (done : List String) (rows : List LedgerRecord)
    (acc : LedgerDb × ℕ) :
    (rows.foldl (finalizePendingRow blockHeight done) acc).2 =
      ((rows.filter (keptForLater blockHeight done)).map (·.blockHeight)).foldl min acc.2 := by
  induction rows generalizing acc with
  | nil => rfl
  | cons r rows ih =>
    rw [foldl_cons, ih, finalizePendingRow_eq, filter_cons]
    by_cases hk : keptForLater blockHeight done r = true
    · rw [if_pos hk, if_pos hk, map_cons, foldl_cons]
    · rw [if_neg hk, if_neg hk]

theorem minUnfinalized_spec :
    (minUnfinalized db blockHeight = maxUint64 ∨ ∃ r ∈ scannedPending db blockHeight,
        minUnfinalized db blockHeight = r.blockHeight) ∧
      ∀ r ∈ scannedPending db blockHeight,
        keptForLater blockHeight (scannedDone db blockHeight) r = true →
          minUnfinalized db blockHeight ≤ r.blockHeight := by
  rw [minUnfinalized, foldl_finalizePendingRow_snd]
  have hmin : (maxUint64 :: ((scannedPending db blockHeight).filter (keptForLater blockHeight
      (scannedDone db blockHeight))).map (·.blockHeight)).min? = some _ := min?_cons'
  obtain ⟨hmem, hle⟩ := min?_eq_some_iff.1 hmin
  constructor
  · refine (mem_cons.1 hmem).imp_right fun hin => ?_
    obtain ⟨r, hr, heq⟩ := mem_map.1 hin
    exact ⟨r, (mem_filter.1 hr).1, heq.symm⟩
  · exact fun r hr hk => hle _ (mem_cons_of_mem _
      (mem_map.2 ⟨r, mem_filter.2 ⟨hr, hk⟩, rfl⟩))

def newFinalizeCursor : ℕ :=
  nextFinalizeCursor blockHeight (scannedPending db blockHeight) (minUnfinalized db blockHeight)

end

theorem newFinalizeCursor_spec {blockHeight : ℕ} (hscan : blockHeight ≤ maxLedgerScanHeight) :
    newFinalizeCursor db blockHeight ≤ blockHeight + 1 ∧ ∀ r ∈ scannedPending db blockHeight,
        keptForLater blockHeight (scannedDone db blockHeight) r = true →
          newFinalizeCursor db blockHeight ≤ r.blockHeight := by
  have hwindow : ∀ r ∈ scannedPending db blockHeight, r.blockHeight ≤ blockHeight :=
    fun r hr => (LedgerDb.mem_getLedgerRange.1 hr).2.2.2.1
  obtain ⟨hcases, hle⟩ := minUnfinalized_spec db blockHeight
  have hmax : blockHeight < maxUint64 := hscan.trans_lt (by decide)
  rw [newFinalizeCursor, nextFinalizeCursor]
  split
  · rename_i hnone
    refine ⟨le_rfl, fun r hr hk => ?_⟩
    rcases hnone with hnil | hempty
    · rw [hnil] at hr
      exact absurd hr not_mem_nil
    have := hle r hr hk
    have := hwindow r hr
    omega
  rename_i hsome
  refine ⟨?_, hle⟩
  obtain ⟨r, hr, heq⟩ := hcases.resolve_left fun h => hsome (.inr h)
  have := hwindow r hr
  omega

section

variable (db : LedgerDb) (blockHeight : ℕ)

def cursorWrites : List LedgerRecord :=
  if readSafetySlashFinalizeCursor db < newFinalizeCursor db blockHeight then
    [finalizeCursorRecord blockHeight (newFinalizeCursor db blockHeight)]
  else []

def finalizeWrites : List LedgerRecord :=
  if blockHeight = 0 ∨ blockHeight < readSafetySlashFinalizeCursor db then []
  else (promotedRows db blockHeight).flatMap (promotionRecords blockHeight) ++
    cursorWrites db blockHeight

theorem finalizeMaturedSafetySlashBurns_eq_putAll :
    finalizeMaturedSafetySlashBurns db blockHeight = db.putAll (finalizeWrites db blockHeight) := by
  rw [finalizeMaturedSafetySlashBurns, finalizeWrites, promotedRows]
  by_cases hskip : blockHeight = 0 ∨ blockHeight < readSafetySlashFinalizeCursor db
  · simp [hskip]
  simp only [if_neg hskip, foldl_finalizePendingRow, putAll_append]
  change (if readSafetySlashFinalizeCursor db < newFinalizeCursor db blockHeight then _ else _) = _
  rw [cursorWrites]
  by_cases hlt : readSafetySlashFinalizeCursor db < newFinalizeCursor db blockHeight
  · rw [if_pos hlt, if_pos hlt]
    rfl
  · rw [if_neg hlt, if_neg hlt]
    rfl

end

end VscNode
