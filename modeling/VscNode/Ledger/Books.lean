import VscNode.Ledger.InFlight

/-!
# Rows that cancel

`totalHive` adds up every HIVE row, every bond row and every unstake that is still
owed. Each writer of the bond life cycle writes rows that cancel: the two legs of a
stake, an unstake and its action, the two legs of a slash, the release and the
promotion of a pending burn, the two rows of a payout. `Books` says that the rows
already stored under the same ids cancel as well, so that a repeated write changes
nothing either. `Keeps` is what each writer preserves: the books, and the total.
-/

namespace VscNode

open ActionRecord Collection LedgerDbs List Relation Text

/-- The HIVE a row stands for: spendable, bonded, or held by the protocol. -/
def LedgerRecord.value (r : LedgerRecord) : Int :=
  if r.asset = .hive ∨ r.asset = .hiveConsensus then r.amount else 0

/-- The HIVE an action still owes. -/
def ActionRecord.owed (a : ActionRecord) : Int :=
  if a.status = .pending ∧ a.type = .consensusUnstake then a.amount else 0

variable (s : LedgerDbs) (w : Carriers)

def LedgerDbs.totalHive : Int :=
  s.ledger.sum LedgerRecord.value + s.actions.sum ActionRecord.owed

def companionID (txID kind acct : String) : String :=
  if w.burnDelay (w.txHeight txID) = 0 then slashReserveID txID kind acct
  else slashPendingID txID kind acct

/-! ## Books that balance -/

def LedgerDbs.rowValue (id : String) : Int := s.ledger.valueAt LedgerRecord.value id

structure Books (w : Carriers) (s : LedgerDbs) : Prop where
  legs : ∀ {txID kind acct}, Free '#' kind → HiveAccount acct →
    s.rowValue (slashDebitID txID kind acct) + s.rowValue (companionID w txID kind acct) = 0
  settled : ∀ id, s.rowValue (id ++ "#pending_release") + s.rowValue (id ++ "#promoted_to_reserve") = 0
  marker : ∀ id, s.rowValue (id ++ "#finalized_marker") = 0
  paid : ∀ id, HiveAccount (w.payout id).1 → s.rowValue (id ++ "#reserve_payout#debit") +
      s.rowValue (id ++ "#reserve_payout#credit#" ++ (w.payout id).1) = 0
  cursor : s.rowValue safetySlashFinalizeCursorRowID = 0
  owed : ∀ a ∈ s.actions, a.status = .pending → a.type = .consensusUnstake →
    s.rowValue (a.id ++ "#out") = 0

theorem books_empty : Books w {} where
  legs := fun _ _ => rfl
  settled := fun _ => rfl
  marker := fun _ => rfl
  paid := fun _ _ => rfl
  cursor := rfl
  owed := fun a ha => absurd ha (not_mem_empty a)

theorem rowClass_companionID (txID : String) {kind acct : String} (hkind : Free '#' kind)
    (hacct : HiveAccount acct) : rowClass (companionID w txID kind acct) = .leg := by
  rw [companionID]
  split
  · exact rowClass_slashReserveID txID hkind hacct
  · exact rowClass_slashPendingID txID hkind hacct

section Write

variable {w : Carriers} {s : LedgerDbs} {rows : List LedgerRecord} {c : RowClass}

theorem rowValue_storeLedger_of_rowClass_ne (hrows : ∀ r ∈ rows, rowClass r.id = c) {id : String}
    (hid : rowClass id ≠ c) : (s.storeLedger rows).rowValue id = s.rowValue id := by
  refine valueAt_putAll_of_not_mem _ ?_
  rintro r hr rfl
  exact hid (hrows r hr)

theorem totalHive_storeLedger (hnodup : (rows.map (·.id)).Nodup) : (s.storeLedger rows).totalHive =
      s.totalHive + (rows.map fun r => r.value - s.rowValue r.id).sum := by
  rw [totalHive, totalHive, storeLedger_ledger,
    sum_putAll hnodup, storeLedger_actions]
  simp only [rowValue]
  abel

theorem Books.storeLedger (h : Books w s) (hrows : ∀ r ∈ rows, rowClass r.id = c)
    (hlegs : c = .leg → ∀ {txID kind acct}, Free '#' kind → HiveAccount acct →
      (s.storeLedger rows).rowValue (slashDebitID txID kind acct) +
        (s.storeLedger rows).rowValue (companionID w txID kind acct) = 0)
    (hsettled : c = .settlement → ∀ id, (s.storeLedger rows).rowValue (id ++ "#pending_release") +
        (s.storeLedger rows).rowValue (id ++ "#promoted_to_reserve") = 0 ∧
      (s.storeLedger rows).rowValue (id ++ "#finalized_marker") = 0)
    (hpaid : c = .payout → ∀ id, HiveAccount (w.payout id).1 →
      (s.storeLedger rows).rowValue (id ++ "#reserve_payout#debit") +
        (s.storeLedger rows).rowValue (id ++ "#reserve_payout#credit#" ++ (w.payout id).1) = 0)
    (hcursor : c = .plain → (s.storeLedger rows).rowValue safetySlashFinalizeCursorRowID = 0)
    (howed : c = .op → ∀ a ∈ s.actions, a.status = .pending → a.type = .consensusUnstake →
      (s.storeLedger rows).rowValue (a.id ++ "#out") = 0) :
    Books w (s.storeLedger rows) := by
  have hframe : ∀ {id : String} {c' : RowClass}, c ≠ c' → rowClass id = c' →
      (s.storeLedger rows).rowValue id = s.rowValue id := by
    rintro id _ hc rfl
    exact rowValue_storeLedger_of_rowClass_ne hrows hc.symm
  refine ⟨?_, ?_, ?_, ?_, ?_, ?_⟩
  · intro txID kind acct hkind hacct
    by_cases hc : c = .leg
    · exact hlegs hc hkind hacct
    rw [hframe hc (rowClass_slashDebitID txID hkind hacct),
      hframe hc (rowClass_companionID w txID hkind hacct)]
    exact h.legs hkind hacct
  · intro id
    by_cases hc : c = .settlement
    · exact (hsettled hc id).1
    rw [hframe hc (rowClass_settlement id).1, hframe hc (rowClass_settlement id).2.1]
    exact h.settled id
  · intro id
    by_cases hc : c = .settlement
    · exact (hsettled hc id).2
    · rw [hframe hc (rowClass_settlement id).2.2]
      exact h.marker id
  · intro id hid
    by_cases hc : c = .payout
    · exact hpaid hc id hid
    rw [hframe hc (rowClass_reservePayoutDebitID id),
      hframe hc (rowClass_reservePayoutCreditID id hid)]
    exact h.paid id hid
  · by_cases hc : c = .plain
    · exact hcursor hc
    · rw [hframe hc (rowClass_of_free (by decide))]
      exact h.cursor
  intro a ha hstatus htype
  by_cases hc : c = .op
  · exact howed hc a ha hstatus htype
  rw [hframe hc (rowClass_out a.id)]
  exact h.owed a ha hstatus htype

/-! ## Pairs of rows that cancel -/

variable {x y : LedgerRecord}

theorem rowValue_pair (id : String) : (s.storeLedger [x, y]).rowValue id =
      if y.id = id then y.value else if x.id = id then x.value else s.rowValue id := by
  simp only [rowValue, storeLedger_ledger, putAll_cons, putAll_nil, valueAt_put]

theorem rowValue_pair_eq_zero (hxy : x.id ≠ y.id) (hsum : x.value + y.value = 0) {id id' : String}
    (hold : s.rowValue id + s.rowValue id' = 0)
    (hids : id = x.id ∧ id' = y.id ∨ (id ≠ x.id ∧ id ≠ y.id) ∧ id' ≠ x.id ∧ id' ≠ y.id) :
    (s.storeLedger [x, y]).rowValue id + (s.storeLedger [x, y]).rowValue id' = 0 := by
  rw [rowValue_pair, rowValue_pair]
  rcases hids with ⟨rfl, rfl⟩ | ⟨⟨hx, hy⟩, hx', hy'⟩
  · rw [if_neg hxy.symm, if_pos rfl, if_pos rfl]
    exact hsum
  · rw [if_neg hy.symm, if_neg hx.symm, if_neg hy'.symm, if_neg hx'.symm]
    exact hold

theorem totalHive_pair (hxy : x.id ≠ y.id) (hsum : x.value + y.value = 0)
    (hold : s.rowValue x.id + s.rowValue y.id = 0) :
    (s.storeLedger [x, y]).totalHive = s.totalHive := by
  rw [totalHive_storeLedger (by simpa using hxy)]
  simp only [map_cons, map_nil, sum_cons, sum_nil]
  omega

theorem totalHive_zero (hx : x.value = 0) (hold : s.rowValue x.id = 0) :
    (s.storeLedger [x]).totalHive = s.totalHive := by
  rw [totalHive_storeLedger (by simp)]
  simp [hx, hold]

end Write

/-! ## Slashes -/

structure Keeps (w : Carriers) (s s' : LedgerDbs) : Prop where
  books : Books w s'
  total : s'.totalHive = s.totalHive

variable {w : Carriers}

theorem Keeps.trans {s s' s'' : LedgerDbs} (h : Keeps w s s') (h' : Keeps w s' s'') :
    Keeps w s s'' :=
  ⟨h'.books, h'.total.trans h.total⟩

section Slash

variable {w : Carriers} {s : LedgerDbs}
  {txID txID' kind kind' acct acct' : String} {head : ℕ} {p : SafetySlashConsensusParams}

theorem slashDebitID_ne_companionID (hkind : Free '#' kind) (hkind' : Free '#' kind')
    (hacct : Free '#' acct) (hacct' : Free '#' acct') :
    slashDebitID txID kind acct ≠ companionID w txID' kind' acct' := by
  rw [companionID]
  split
  · exact slashDebitID_ne_slashReserveID hkind hkind' hacct hacct'
  · exact slashDebitID_ne_slashPendingID hkind hkind' hacct hacct'

theorem companionID_inj (hkind : Free '#' kind) (hkind' : Free '#' kind') (hacct : Free '#' acct)
    (hacct' : Free '#' acct') (h : companionID w txID kind acct = companionID w txID' kind' acct') :
    txID = txID' ∧ kind = kind' ∧ acct = acct' := by
  rw [companionID, companionID] at h
  split at h <;> split at h
  · exact slashLegID_inj "reserve" (by rfl) (by decide) hkind hkind' hacct hacct' h
  · exact absurd h (slashReserveID_ne_slashPendingID hkind hkind' hacct hacct')
  · exact absurd h.symm (slashReserveID_ne_slashPendingID hkind' hkind hacct' hacct)
  · exact slashLegID_inj "hive_burn_pending" (by rfl) (by decide) hkind hkind' hacct hacct' h

theorem SlashCompanion.id_eq {acct : String} {amt : Int} {companion : LedgerRecord}
    (hp : SlashCarried w head p) (h : SlashCompanion p acct amt companion) :
    companion.id = companionID w p.txID p.evidenceKind acct ∧ companion.value = amt := by
  rw [companionID, hp.txHeight, ← hp.delay]
  cases h with
  | reserve hdelay => exact ⟨by rw [if_pos hdelay]; rfl, rfl⟩
  | pending maturity hdelay hle hmaturity => exact ⟨by rw [if_neg hdelay]; rfl, rfl⟩

theorem Books.slash (h : Books w s) (hp : SlashCarried w head p) :
    Keeps w s (safetySlashConsensusBond s p).1 := by
  have hout := safetySlashConsensusBond_outcome s p
  generalize safetySlashConsensusBond s p = res at hout
  cases hout with
  | refused msg => exact ⟨h, rfl⟩
  | replayed msg debit hdebit => exact ⟨h, rfl⟩
  | written msg amt companion hne hpos hle hamt htakes hcompanion =>
    obtain ⟨hid, hvalue⟩ := hcompanion.id_eq hp
    have hacct : HiveAccount (normalizeHiveConsensusAccount p.account) :=
      ⟨hp.acctFree, hasPrefix_normalizeHiveConsensusAccount hne⟩
    generalize normalizeHiveConsensusAccount p.account = acct at *
    have hxy : (slashDebitRecord p acct amt).id ≠ companion.id := by
      rw [hid]
      exact slashDebitID_ne_companionID hp.kindFree hp.kindFree hacct.1 hacct.1
    have hsum : (slashDebitRecord p acct amt).value + companion.value = 0 := by
      rw [hvalue]
      exact Int.add_left_neg amt
    have hold : s.rowValue (slashDebitRecord p acct amt).id + s.rowValue companion.id = 0 := by
      rw [hid]
      exact h.legs hp.kindFree hacct
    have hclass : ∀ r ∈ [slashDebitRecord p acct amt, companion], rowClass r.id = .leg :=
      forall_mem_pair (rowClass_slashDebitID p.txID hp.kindFree hacct)
        (hid ▸ rowClass_companionID w p.txID hp.kindFree hacct)
    refine ⟨h.storeLedger hclass ?_ (by simp) (by simp) (by simp) (by simp),
      totalHive_pair hxy hsum hold⟩
    intro _ txID kind acct' hkind hacct'
    refine rowValue_pair_eq_zero hxy hsum (h.legs hkind hacct') ?_
    rw [hid]
    by_cases hsame : txID = p.txID ∧ kind = p.evidenceKind ∧ acct' = acct
    · obtain ⟨rfl, rfl, rfl⟩ := hsame
      exact .inl ⟨rfl, rfl⟩
    refine .inr ⟨⟨?_, ?_⟩, ?_, ?_⟩
    · exact fun heq => hsame (slashDebitID_inj hkind hp.kindFree hacct'.1 hacct.1 heq)
    · exact slashDebitID_ne_companionID hkind hp.kindFree hacct'.1 hacct.1
    · exact (slashDebitID_ne_companionID hp.kindFree hkind hacct.1 hacct'.1).symm
    · exact fun heq => hsame (companionID_inj hkind hp.kindFree hacct'.1 hacct.1 heq)

end Slash

/-! ## Payouts -/

theorem Books.payout {s : LedgerDbs} (h : Books w s) {head : ℕ} {p : ReservePayoutParams}
    (hp : PayoutCarried w head p) :
    Keeps w s { s with ledger := (reservePayout s.ledger p).1 } := by
  rw [reservePayout_eq]
  rcases payoutWrites_cases s.ledger p with hnil | ⟨hrows, -, -, hne, -⟩
  · rw [hnil]
    exact ⟨h, rfl⟩
  rw [hrows]
  change Keeps w s (s.storeLedger [reservePayoutDebit p, reservePayoutCredit p])
  have hrecipient : HiveAccount (normalizeHiveConsensusAccount p.recipient) :=
    ⟨hp.recipientFree, hasPrefix_normalizeHiveConsensusAccount hne⟩
  have hpayout : (w.payout (trimSpace p.proposalID)).1 =
      normalizeHiveConsensusAccount p.recipient := by
    rw [hp.proposal]
  have hxy : (reservePayoutDebit p).id ≠ (reservePayoutCredit p).id :=
    reservePayoutDebitID_ne_creditID _ _ hrecipient
  have hsum : (reservePayoutDebit p).value + (reservePayoutCredit p).value = 0 :=
    Int.add_left_neg p.amount
  have hold : s.rowValue (reservePayoutDebit p).id + s.rowValue (reservePayoutCredit p).id = 0 := by
    have hpaid := h.paid (trimSpace p.proposalID) (by rw [hpayout]; exact hrecipient)
    rwa [hpayout] at hpaid
  have hclass : ∀ x ∈ [reservePayoutDebit p, reservePayoutCredit p], rowClass x.id = .payout :=
    fun x hx => rowClass_of_mem_reservePayout hrecipient hx
  refine ⟨h.storeLedger hclass (by simp) (by simp) ?_ (by simp) (by simp),
    totalHive_pair hxy hsum hold⟩
  intro _ id hid
  refine rowValue_pair_eq_zero hxy hsum (h.paid id hid) ?_
  rw [reservePayoutDebit_id, reservePayoutCredit_id]
  by_cases hsame : id = trimSpace p.proposalID
  · subst hsame
    exact .inl ⟨rfl, by rw [hpayout]⟩
  refine .inr ⟨⟨?_, reservePayoutDebitID_ne_creditID _ _ hrecipient⟩,
    (reservePayoutDebitID_ne_creditID _ _ hid).symm, ?_⟩
  · intro hdebit
    exact hsame (by simpa [← String.toList_inj] using hdebit)
  · intro hcredit
    exact hsame (reservePayoutCreditID_inj hid.1 hrecipient.1 hcredit).1

/-! ## The end of a slot -/

section SlotEnd

variable {w : Carriers} {s : LedgerDbs}

theorem storeLedger_append (s : LedgerDbs) (rows rows' : List LedgerRecord) :
    s.storeLedger (rows ++ rows') = (s.storeLedger rows).storeLedger rows' := by
  rw [storeLedger, storeLedger, putAll_append]
  rfl

theorem rowValue_single (x : LedgerRecord) (id : String) :
    (s.storeLedger [x]).rowValue id = if x.id = id then x.value else s.rowValue id := by
  simp only [rowValue, storeLedger_ledger, putAll_cons, putAll_nil, valueAt_put]

/-- Promoting a pending burn moves its amount to the reserve. -/
theorem Books.promotion (h : Books w s) (blockHeight : ℕ) (r : LedgerRecord) :
    Keeps w s (s.storeLedger (promotionRecords blockHeight r)) := by
  have hclass : ∀ x ∈ promotionRecords blockHeight r, rowClass x.id = .settlement :=
    fun x hx => rowClass_of_mem_promotionRecords hx
  -- The two rows that move the amount, and then the marker.
  obtain ⟨s', hs'⟩ : ∃ s', s' = s.storeLedger [pendingReleaseRecord blockHeight r,
    promotedReserveRecord blockHeight r] := ⟨_, rfl⟩
  have hsplit : s.storeLedger (promotionRecords blockHeight r) =
      s'.storeLedger [finalizedMarkerRecord blockHeight r] := by
    rw [hs']
    rfl
  have hxy := pendingRelease_ne_promoted r.id r.id
  have hsum : (pendingReleaseRecord blockHeight r).value +
      (promotedReserveRecord blockHeight r).value = 0 := Int.add_left_neg r.amount
  have hpair : ∀ id, s'.rowValue (id ++ "#pending_release") +
      s'.rowValue (id ++ "#promoted_to_reserve") = 0 := by
    intro id
    rw [hs']
    refine rowValue_pair_eq_zero hxy hsum (h.settled id) ?_
    rw [pendingReleaseRecord_id, promotedReserveRecord_id]
    by_cases hid : id = r.id
    · subst hid
      exact .inl ⟨rfl, rfl⟩
    exact .inr ⟨⟨fun heq => hid (append_right_cancel_iff.1 heq),
      pendingRelease_ne_promoted id r.id⟩, (pendingRelease_ne_promoted r.id id).symm,
      fun heq => hid (append_right_cancel_iff.1 heq)⟩
  have hmarker : ∀ id, s'.rowValue (id ++ "#finalized_marker") = 0 := by
    intro id
    rw [hs', rowValue_pair, pendingReleaseRecord_id, promotedReserveRecord_id,
      if_neg (finalizedMarker_ne_promoted id r.id).symm,
      if_neg (finalizedMarker_ne_pendingRelease id r.id).symm]
    exact h.marker id
  refine ⟨h.storeLedger hclass (by simp) ?_ (by simp) (by simp) (by simp), ?_⟩
  · intro _ id
    rw [hsplit, rowValue_single, rowValue_single, rowValue_single, finalizedMarkerRecord_id,
      if_neg (finalizedMarker_ne_pendingRelease r.id id),
      if_neg (finalizedMarker_ne_promoted r.id id)]
    refine ⟨hpair id, ?_⟩
    split
    · rfl
    · exact hmarker id
  · rw [hsplit, totalHive_zero rfl (hmarker r.id), hs', totalHive_pair hxy hsum (h.settled r.id)]

theorem Books.promotions (h : Books w s) (blockHeight : ℕ) (rows : List LedgerRecord) :
    Keeps w s (s.storeLedger (rows.flatMap (promotionRecords blockHeight))) := by
  induction rows generalizing s with
  | nil => exact ⟨h, rfl⟩
  | cons r rows ih =>
    have hstep := h.promotion blockHeight r
    rw [flatMap_cons, storeLedger_append]
    exact hstep.trans (ih hstep.books)

theorem Books.cursorRow (h : Books w s) (blockHeight scanFrom : ℕ) :
    Keeps w s (s.storeLedger [finalizeCursorRecord blockHeight scanFrom]) := by
  refine ⟨h.storeLedger (c := .plain) ?_ (by simp) (by simp) (by simp) ?_ (by simp),
    totalHive_zero rfl h.cursor⟩
  · intro r hr
    rw [mem_singleton.1 hr]
    exact rowClass_finalizeCursorRecord blockHeight scanFrom
  intro _
  rw [rowValue_single, if_pos (by rfl)]
  rfl

theorem Books.finalize (h : Books w s) (blockHeight : ℕ) :
    Keeps w s { s with ledger := finalizeMaturedSafetySlashBurns s.ledger blockHeight } := by
  obtain ⟨cursorRows, hcur, heq⟩ := finalizeMaturedSafetySlashBurns_eq s.ledger blockHeight
  rw [heq]
  change Keeps w s (s.storeLedger _)
  rw [storeLedger_append]
  have hprom := h.promotions blockHeight (promotedRows s.ledger blockHeight)
  rcases hcur with rfl | ⟨scanFrom, rfl⟩
  · exact hprom
  · exact hprom.trans (hprom.books.cursorRow blockHeight scanFrom)

def markPaid (s : LedgerDbs) (env : SlotEnv) : LedgerDbs :=
  { s with actions := s.actions.executeComplete ((releasedActions env s.actions).map (·.id)) }

theorem releaseUnstakes_eq (s : LedgerDbs) (env : SlotEnv) (endBlock : ℕ) :
    releaseUnstakes s env endBlock =
      (markPaid s env).storeLedger ((releasedActions env s.actions).map (releaseRecord endBlock)) :=
  rfl

theorem pending_of_mem_markPaid {env : SlotEnv} {a : ActionRecord}
    (ha : a ∈ (markPaid s env).actions) (hstatus : a.status = .pending) :
    a ∈ s.actions ∧ env.due a = false := by
  obtain ⟨b, hb, rfl⟩ := ActionDb.mem_executeComplete.1 ha
  split at hstatus
  · cases hstatus
  rename_i hid
  rw [if_neg hid]
  exact ⟨hb, by simpa using fun hdue => hid ((id_mem_releasedActions hb).2 hdue)⟩

theorem Books.markPaid (h : Books w s) (env : SlotEnv) : Books w (markPaid s env) where
  legs := h.legs
  settled := h.settled
  marker := h.marker
  paid := h.paid
  cursor := h.cursor
  owed := fun a ha hstatus htype =>
    h.owed a (pending_of_mem_markPaid ha hstatus).1 hstatus htype

theorem totalHive_markPaid (s : LedgerDbs) (env : SlotEnv) : (VscNode.markPaid s env).totalHive =
      s.totalHive - s.actions.sum fun a => if env.due a = true then a.amount else 0 := by
  have hactions : (VscNode.markPaid s env).actions.sum owed =
      s.actions.sum owed -
        s.actions.sum fun a => if env.due a = true then a.amount else 0 := by
    rw [VscNode.markPaid, ActionDb.executeComplete, sum_modify, eq_sub_iff_add_eq, ← sum_add]
    refine sum_congr fun a ha => ?_
    by_cases hdue : env.due a = true
    · obtain ⟨hstatus, htype⟩ := SlotEnv.pending_of_due hdue
      rw [if_pos ((id_mem_releasedActions ha).2 hdue), if_pos hdue]
      simp [owed, hstatus, htype]
    · rw [if_neg (fun hid => hdue ((id_mem_releasedActions ha).1 hid)), if_neg hdue, add_zero]
  rw [totalHive, hactions, totalHive]
  change s.ledger.sum _ + _ = _
  abel

theorem Books.release (h : Books w s) (env : SlotEnv) (endBlock : ℕ) :
    Keeps w s (releaseUnstakes s env endBlock) := by
  have hmarked := h.markPaid env
  rw [releaseUnstakes_eq]
  refine ⟨hmarked.storeLedger (c := .op) ?_ (by simp) (by simp) (by simp) (by simp) ?_, ?_⟩
  · intro r hr
    obtain ⟨a, -, rfl⟩ := mem_map.1 hr
    exact rowClass_out a.id
  · intro _ a ha hstatus htype
    rw [← hmarked.owed a ha hstatus htype]
    refine valueAt_putAll_of_not_mem _ ?_
    intro r hr hid
    obtain ⟨b, hb, rfl⟩ := mem_map.1 hr
    obtain ⟨hmem, hdue⟩ := mem_releasedActions.1 hb
    obtain ⟨hold, hnot⟩ := pending_of_mem_markPaid ha hstatus
    have hba : b.id = a.id := append_right_cancel_iff.1 hid
    rw [eq_of_key_eq hmem hold hba, hnot] at hdue
    cases hdue
  have hnodup : (((releasedActions env s.actions).map (releaseRecord endBlock)).map
      (·.id)).Nodup := by
    have hmap : ((releasedActions env s.actions).map (releaseRecord endBlock)).map (·.id) =
        ((releasedActions env s.actions).map (·.id)).map fun id => id ++ "#out" := by
      rw [List.map_map, List.map_map]
      rfl
    rw [hmap]
    exact (nodup_releasedActions env s.actions).map fun _ _ heq => append_right_cancel_iff.1 heq
  have hrows : (releasedActions env s.actions).map
      ((fun r => r.value - (VscNode.markPaid s env).rowValue r.id) ∘ releaseRecord endBlock) =
        (releasedActions env s.actions).map amount := by
    refine map_congr_left fun a ha => ?_
    obtain ⟨hact, hdue⟩ := mem_releasedActions.1 ha
    obtain ⟨hstatus, htype⟩ := SlotEnv.pending_of_due hdue
    change a.amount - s.rowValue (a.id ++ "#out") = a.amount
    rw [h.owed a hact hstatus htype, sub_zero]
  rw [totalHive_storeLedger hnodup, List.map_map, hrows, sum_releasedActions, totalHive_markPaid]
  abel

theorem Books.slotChange (h : Books w s) (env : SlotEnv) (startBlock endBlock : ℕ) :
    Keeps w s (updateBalances s env startBlock endBlock) := by
  have hrelease := h.release env endBlock
  have hfinal := hrelease.trans (hrelease.books.finalize endBlock)
  -- Snapshots are not part of the books.
  exact ⟨⟨hfinal.books.legs, hfinal.books.settled, hfinal.books.marker, hfinal.books.paid,
    hfinal.books.cursor, hfinal.books.owed⟩, hfinal.total⟩

end SlotEnd

/-! ## Ingesting events -/

section Ingest

variable {w : Carriers} {s : LedgerDbs} {v : OpLogEvent}

theorem ingestOplog_cons (s : LedgerDbs) (v : OpLogEvent) (oplog : List OpLogEvent)
    (endHeight : ℕ) :
    ingestOplog s (v :: oplog) endHeight =
      ingestOplog (ingestOplog s [v] endHeight) oplog endHeight := by
  simp only [ingestOplog, executeOplog, flatMap_cons, flatMap_nil, append_nil,
    map_append, putAll_append]

theorem ingestOplog_singleton (s : LedgerDbs) (v : OpLogEvent) (endHeight : ℕ) :
    ingestOplog s [v] endHeight =
      ({ s with actions := s.actions.putAll (opActionRecords v endHeight) } : LedgerDbs).storeLedger
        ((opLedgerRecords v endHeight).map (·.toRecord endHeight)) := by
  simp only [ingestOplog, executeOplog, flatMap_cons, flatMap_nil, append_nil]
  rfl

theorem sum_opRecords (hv : v.type = .consensusStake ∨ v.type = .consensusUnstake) (endHeight : ℕ) :
    (((opLedgerRecords v endHeight).map (·.toRecord endHeight)).map LedgerRecord.value).sum +
      ((opActionRecords v endHeight).map owed).sum = 0 := by
  rcases hv with hv | hv <;> cases hd : v.params.delegated <;>
    simp [opLedgerRecords, opActionRecords, hv, hd, LedgerUpdate.toRecord, LedgerRecord.value,
      owed]

theorem nodup_opLedgerRecords (v : OpLogEvent) (endHeight : ℕ) :
    (((opLedgerRecords v endHeight).map (·.toRecord endHeight)).map (·.id)).Nodup := by
  cases hv : v.type <;> cases hd : v.params.delegated <;>
    simp [opLedgerRecords, hv, hd, LedgerUpdate.toRecord]

theorem opActionRecords_cases (hv : v.type = .consensusStake ∨ v.type = .consensusUnstake)
    (endHeight : ℕ) :
    opActionRecords v endHeight = [] ∨
      v.type = .consensusUnstake ∧ ∃ a, opActionRecords v endHeight = [a] ∧ a.id = v.id := by
  rcases hv with hv | hv
  · exact .inl (by rw [opActionRecords, hv])
  · refine .inr ⟨hv, ?_⟩
    cases hd : v.params.delegated <;> simp [opActionRecords, hv, hd]

variable {endHeight : ℕ} {u : LedgerUpdate} {id : String}

theorem not_out_of_unstake (hv : v.type = .consensusUnstake) (hu : u ∈ opLedgerRecords v endHeight) :
    u.id ≠ v.id ++ "#out" := by
  cases hd : v.params.delegated <;>
    simp only [opLedgerRecords, hv, hd, if_true, if_false, Bool.false_eq_true, mem_cons,
      not_mem_nil, or_false] at hu
  · subst hu
    simp
  · rcases hu with rfl | rfl | rfl <;> simp

/-- An id of an event's row names the event. -/
theorem eq_of_id_eq_append {id t word : String} (hu : u ∈ opLedgerRecords v endHeight)
    (hv : Free '#' v.id) (hid : Free '#' id) (ht : t.toList = '#' :: word.toList)
    (h : u.id = id ++ t) : v.id = id := by
  have hrow : ∀ {s : String} (word' : String), s.toList = '#' :: word'.toList → u.id = v.id ++ s →
      v.id = id := by
    intro s word' hs heq
    have hf := congrArg (fields '#') (heq.symm.trans h)
    rw [fields_append hs, fields_append ht, fields_of_free hv, fields_of_free hid] at hf
    exact (cons.inj hf).1
  rcases id_of_mem_opLedgerRecords hu with heq | heq | heq | heq
  · exact hrow "in" (by rfl) heq
  · exact hrow "out" (by rfl) heq
  · exact hrow "edge" (by rfl) heq
  · exact hrow "total" (by rfl) heq

theorem eq_of_id_eq_out (hu : u ∈ opLedgerRecords v endHeight) (h : u.id = id ++ "#out") :
    v.id = id := by
  rcases id_of_mem_opLedgerRecords hu with heq | heq | heq | heq
  · exact absurd (heq.symm.trans h) (append_ne_append (by decide) _ _)
  · exact append_right_cancel_iff.1 (heq.symm.trans h)
  · exact absurd (heq.symm.trans h) (append_ne_append (by decide) _ _)
  · exact absurd (heq.symm.trans h) (append_ne_append (by decide) _ _)

theorem Books.ingestOne (h : Books w s)
    (hv : v.type = .consensusStake ∨ v.type = .consensusUnstake) (hunused : Unused s v.id)
    (endHeight : ℕ) : Keeps w s (ingestOplog s [v] endHeight) := by
  obtain ⟨s', hs'⟩ : ∃ s' : LedgerDbs, s' =
    { s with actions := s.actions.putAll (opActionRecords v endHeight) } := ⟨_, rfl⟩
  have hvalue : ∀ id, s'.rowValue id = s.rowValue id := by
    intro id
    rw [hs']
    rfl
  have hnew : ∀ a ∈ s'.actions, a ∈ s.actions ∧ a.id ≠ v.id ∨
      a.id = v.id ∧ v.type = .consensusUnstake := by
    intro a ha
    have hold : a ∈ s.actions → a ∈ s.actions ∧ a.id ≠ v.id := fun hmem =>
      ⟨hmem, get?_eq_none_iff.1 hunused.action a hmem⟩
    rw [hs'] at ha
    rcases opActionRecords_cases hv endHeight with hacts | ⟨htype, b, hacts, hb⟩
    · exact .inl (hold (by simpa [hacts] using ha))
    rcases mem_of_mem_putAll ha with hmem | hmem
    · rw [hacts, mem_singleton] at hmem
      exact .inr ⟨hmem ▸ hb, htype⟩
    · exact .inl (hold hmem)
  have hbooks : Books w s' := by
    refine ⟨?_, ?_, ?_, ?_, ?_, ?_⟩
    · simp only [hvalue]
      exact h.legs
    · simp only [hvalue]
      exact h.settled
    · simp only [hvalue]
      exact h.marker
    · simp only [hvalue]
      exact h.paid
    · rw [hvalue]
      exact h.cursor
    intro a ha hstatus htype
    rw [hvalue]
    rcases hnew a ha with ⟨hmem, -⟩ | ⟨hid, -⟩
    · exact h.owed a hmem hstatus htype
    · rw [hid]
      exact valueAt_of_get?_eq_none hunused.out _
  have hfresh : ∀ u ∈ opLedgerRecords v endHeight, s'.rowValue u.id = 0 := by
    intro u hu
    rw [hvalue]
    rcases id_of_mem_opLedgerRecords hu with hid | hid | hid | hid <;> rw [hid]
    · exact valueAt_of_get?_eq_none hunused.in_ _
    · exact valueAt_of_get?_eq_none hunused.out _
    · exact valueAt_of_get?_eq_none hunused.edge _
    · exact valueAt_of_get?_eq_none hunused.total _
  rw [ingestOplog_singleton, ← hs']
  refine ⟨hbooks.storeLedger (c := .op) ?_ (by simp) (by simp) (by simp) (by simp) ?_, ?_⟩
  · intro r hr
    obtain ⟨u, hu, rfl⟩ := mem_map.1 hr
    exact rowClass_of_mem_opLedgerRecords hu
  · intro _ a ha hstatus htype
    rw [← hbooks.owed a ha hstatus htype]
    refine valueAt_putAll_of_not_mem _ ?_
    intro r hr hid
    obtain ⟨u, hu, rfl⟩ := mem_map.1 hr
    rcases hnew a ha with ⟨-, hne⟩ | ⟨haid, hunstake⟩
    · exact hne (eq_of_id_eq_out hu hid).symm
    · rw [haid] at hid
      exact not_out_of_unstake hunstake hu hid
  have hrows : ((opLedgerRecords v endHeight).map (·.toRecord endHeight)).map
      (fun r => r.value - s'.rowValue r.id) =
        ((opLedgerRecords v endHeight).map (·.toRecord endHeight)).map LedgerRecord.value := by
    refine map_congr_left fun r hr => ?_
    obtain ⟨u, hu, rfl⟩ := mem_map.1 hr
    rw [LedgerUpdate.toRecord, hfresh u hu, sub_zero]
  have hactions : s'.actions.sum ActionRecord.owed = s.actions.sum ActionRecord.owed +
      ((opActionRecords v endHeight).map ActionRecord.owed).sum := by
    rw [hs']
    rcases opActionRecords_cases hv endHeight with hacts | ⟨-, b, hacts, hb⟩
    · simp [hacts]
    simp only [hacts, putAll_cons, putAll_nil, map_cons, map_nil, sum_cons,
      sum_nil, add_zero]
    exact sum_put_new (by rw [hb]; exact hunused.action)
  have hledger : s'.ledger = s.ledger := by rw [hs']
  have hzero := sum_opRecords hv endHeight
  rw [totalHive_storeLedger (nodup_opLedgerRecords v endHeight), hrows, totalHive,
    totalHive, hledger, hactions]
  omega

theorem Unused.ingestOne (h : Unused s id) (hid : Free '#' id)
    (hv : v.type = .consensusStake ∨ v.type = .consensusUnstake) (hfree : Free '#' v.id)
    (hne : v.id ≠ id) (endHeight : ℕ) : Unused (ingestOplog s [v] endHeight) id := by
  have hrow : ∀ {t : String} (word : String), t.toList = '#' :: word.toList →
      s.ledger.get? (id ++ t) = none →
      (ingestOplog s [v] endHeight).ledger.get? (id ++ t) = none := by
    intro t word ht hnone
    rw [ingestOplog_singleton, storeLedger_ledger, get?_putAll_of_not_mem]
    · exact hnone
    intro r hr heq
    obtain ⟨u, hu, rfl⟩ := mem_map.1 hr
    exact hne (eq_of_id_eq_append hu hfree hid ht heq)
  refine ⟨hrow "in" (by rfl) h.in_, hrow "out" (by rfl) h.out, hrow "edge" (by rfl) h.edge,
    hrow "total" (by rfl) h.total, ?_⟩
  rw [ingestOplog_singleton, storeLedger_actions, get?_putAll_of_not_mem]
  · exact h.action
  intro a ha
  rcases opActionRecords_cases hv endHeight with hacts | ⟨-, b, hacts, hb⟩
  · rw [hacts] at ha
    cases ha
  rw [hacts, mem_singleton] at ha
  rw [ha, hb]
  exact hne

theorem Books.ingest {oplog : List OpLogEvent} (h : Books w s) (hflight : InFlight s oplog)
    (endHeight : ℕ) : Keeps w s (ingestOplog s oplog endHeight) := by
  induction oplog generalizing s with
  | nil => exact ⟨h, rfl⟩
  | cons v oplog ih =>
    have htype := hflight.type v mem_cons_self
    have hfree := hflight.noHash v mem_cons_self
    have hstep := h.ingestOne htype (hflight.unused v mem_cons_self) endHeight
    have hnodup := hflight.nodup
    rw [map_cons, nodup_cons] at hnodup
    rw [ingestOplog_cons]
    refine hstep.trans (ih hstep.books ⟨hnodup.2, ?_, ?_, ?_⟩)
    · exact fun u hu => hflight.noHash u (mem_cons_of_mem _ hu)
    · exact fun u hu => hflight.type u (mem_cons_of_mem _ hu)
    intro u hu
    have hne : v.id ≠ u.id := fun heq => hnodup.1 (heq ▸ mem_map_of_mem hu)
    exact (hflight.unused u (mem_cons_of_mem _ hu)).ingestOne
      (hflight.noHash u (mem_cons_of_mem _ hu)) htype hfree hne endHeight

end Ingest

end VscNode
