import VscNode.Ledger.CutWrites
import VscNode.Ledger.History
import VscNode.Ledger.SlashResidual

/-!
# Slashed bond is not minted back

Slashes, reverse records, votes to restore a bond, finalizations at slot ends and
reserve payouts interleave freely. Each of them takes a slash from one stage to
another, so that what a slash has credited back, put in the reserve and still
holds pending stays within what it took.

One interleaving breaks this. A finalization reads markers up to the slot it
closes, while a block may cancel a pending burn at a later height; a burn that
matures in that slot is then promoted although it was cancelled.
-/

namespace VscNode

open Collection List Relation SlashPart SlashStage Text

variable {w : Carriers} {db : LedgerDb} {head slot : ℕ} {k : SlashKey} {amt : Int}

/-! ## Slashing -/

variable {p : SafetySlashConsensusParams} {b e : ℕ} {r debit : LedgerRecord}
  {acct : String} {carryingTxID : String}

def openedRow (debit companion : LedgerRecord) : SlashPart → LedgerRecord
  | .debit => debit
  | _ => companion

def closedRow (b : ℕ) (r : LedgerRecord) : SlashPart → LedgerRecord
  | .cancelRelease => cancelReleaseRecord b r
  | .cancelled => cancelledMarkerRecord b r
  | .release => pendingReleaseRecord b r
  | .promoted => promotedReserveRecord b r
  | _ => finalizedMarkerRecord b r

/-- The first rows of a slash take it to the reserve or make it live. -/
theorem SlashLedger.opened {companion : LedgerRecord} (h : SlashLedger w db head slot)
    (hp : SlashCarried w head p) (hk : (p.slashKey acct).Valid) (hscan : head ≤ maxLedgerScanHeight)
    (hpos : 0 < amt) {amt₀ : Int}
    (habsent : SlashCase w db head slot (p.slashKey acct) .absent amt₀)
    (hcompanion : SlashCompanion p acct amt companion) :
    SlashLedger w (db.putAll [slashDebitRecord p acct amt, companion]) head slot := by
  have hheight : p.blockHeight = w.txHeight p.txID := hp.height.trans hp.txHeight.symm
  have hdelay : w.burnDelay (w.txHeight p.txID) = p.burnDelayBlocks := by
    rw [hp.delay, hp.txHeight]
  have hscan' : p.blockHeight ≤ maxLedgerScanHeight := hp.height ▸ hscan
  cases hcompanion with
  | reserve hzero =>
    have hadv : Advances w head slot (p.slashKey acct) .absent .reserved amt
        (openedRow (slashDebitRecord p acct amt) (slashReserveRecord p acct amt))
        [.debit, .reserve] := by
      refine ⟨?_, by simp [parts], forall_mem_pair rfl rfl,
        forall_mem_pair (fun _ => hheight) fun _ => hheight, fun _ => hdelay.trans hzero,
        by simp [parts], by simp, by simp, by simp⟩
      exact forall_mem_pair ⟨rfl, rfl, rfl, rfl, rfl, hscan', by rintro ⟨⟩⟩
        ⟨rfl, rfl, rfl, rfl, rfl, hscan', by rintro ⟨⟩⟩
    exact h.filed hadv.filed hk
      ⟨_, _, habsent.advance h.shaped hk hadv (.inl rfl) hpos (by simp)⟩
  | pending maturity hdelayed hle hmaturity =>
    have hadv : Advances w head slot (p.slashKey acct) .absent .live amt
        (openedRow (slashDebitRecord p acct amt) (slashPendingRecord p acct amt maturity))
        [.debit, .pending] := by
      refine ⟨?_, by simp [parts], forall_mem_pair rfl rfl,
        forall_mem_pair (fun _ => hheight) fun _ => hheight, by simp, fun _ => hdelay ▸ hdelayed,
        by simp, by simp, by simp⟩
      exact forall_mem_pair ⟨rfl, rfl, rfl, rfl, rfl, hscan', by rintro ⟨⟩⟩
        ⟨rfl, rfl, rfl, rfl, rfl, hscan', by rintro ⟨⟩⟩
    exact h.filed hadv.filed hk
      ⟨_, _, habsent.advance h.shaped hk hadv (.inl rfl) hpos (by simp)⟩

theorem SlashCase.recorded {st : SlashStage}
    (hcase : SlashCase w db head slot (p.slashKey acct) st amt) (h : SlashLedger w db head slot)
    (hp : SlashCarried w head p) (hk : (p.slashKey acct).Valid) (hst : st ≠ .absent) :
    (∃ debit, rowAt db acct p.blockHeight .hiveConsensus
        (slashDebitID p.txID p.evidenceKind acct) = some debit) ∧
      (slashCompanionRow db p acct).isSome := by
  have hheight : w.txHeight p.txID = p.blockHeight := hp.txHeight.trans hp.height.symm
  have hrow : ∀ q ∈ [debit, .reserve, .pending], q ∈ st.parts →
      ∃ r, rowAt db (q.owner (p.slashKey acct)) p.blockHeight q.asset
        ((p.slashKey acct).rowID q) = some r := by
    intro q hq hmem
    obtain ⟨r, hr, -⟩ := hcase.has q hmem
    have hslash := h.shaped.slashRow hk hr (plain_of_mem hmem)
    have hat := rowAt_of_mem (get?_eq_some_iff.1 hr).1
    rw [hslash.owner, hcase.dated q hq r hr, hslash.asset, hslash.id] at hat
    exact ⟨r, hheight ▸ hat⟩
  have hdelay : p.burnDelayBlocks = w.burnDelay (w.txHeight p.txID) := by
    rw [hp.delay, hp.txHeight]
  refine ⟨hrow .debit (by simp) ?_, ?_⟩
  · cases st <;> simp [parts] at hst ⊢
  rw [slashCompanionRow]
  split
  · rename_i hzero
    refine Option.isSome_iff_exists.2 (hrow .reserve (by simp) ?_)
    have hpending := mt hcase.delayed (not_not.2 (hdelay.symm.trans hzero))
    cases st <;> simp [parts] at hst hpending ⊢
  rename_i hzero
  refine Option.isSome_iff_exists.2 (hrow .pending (by simp) ?_)
  have hreserved := mt hcase.undelayed (hdelay ▸ hzero)
  cases st <;> simp [parts] at hst hreserved ⊢

theorem SlashLedger.slash {s : LedgerDbs} (h : SlashLedger w s.ledger head slot)
    (hp : SlashCarried w head p) (hscan : head ≤ maxLedgerScanHeight) :
    SlashLedger w (safetySlashConsensusBond s p).1.ledger head slot := by
  obtain ⟨acct, hacct⟩ : ∃ acct, normalizeHiveConsensusAccount p.account = acct := ⟨_, rfl⟩
  have hfree : Free '#' acct := by rw [← hacct]; exact hp.acctFree
  have hk : (p.slashKey acct).Valid := ⟨hp.txFree, hp.kindFree, hfree⟩
  obtain ⟨st, amt, hcase⟩ := h.staged (p.slashKey acct) hk
  rw [safetySlashConsensusBond_eq]
  by_cases hst : st = .absent
  · subst hst
    rcases slashWrites_cases (s := s) hacct with
      hnil | ⟨amt', companion, hamt, -, hcompanion, -, hrows⟩
    · rw [hnil]
      exact h
    · rw [hrows]
      exact h.opened hp hk hscan hamt hcase hcompanion
  obtain ⟨⟨debit, hdebit⟩, hcompanion⟩ := hcase.recorded h hp hk hst
  rw [slashWrites_of_recorded hacct hdebit hcompanion]
  exact h

/-! ## Cancelling and crediting back -/

section

variable (h : SlashLedger w db head slot)
include h

theorem SlashLedger.cancel (hk : k.Valid) (hb : ∀ e, e + slotLength ≤ head → e ≤ b)
    (hscan : b ≤ maxLedgerScanHeight)
    (hr : pendingRow db b .safetySlashHiveBurnPending (k.rowID .pending) = some r)
    (hfin : pendingRow db b .safetySlashHiveBurnPendingFinalized (k.rowID .finalized) = none) :
    SlashLedger w (db.putAll (cancelRecords b r)) head slot ∧
      (db.putAll (cancelRecords b r)).get? (k.rowID .debit) = db.get? (k.rowID .debit) := by
  obtain ⟨hmem, hle, -, hid⟩ := pendingRow_eq_some hr
  have hget : db.get? (k.rowID .pending) = some r := get?_eq_some_iff.2 ⟨hmem, hid⟩
  obtain ⟨st, amt, hcase⟩ := h.staged k hk
  obtain ⟨hpending, hamt⟩ := hcase.mem_parts rfl hget
  have hdate := hcase.dated .pending (by simp) r hget
  have hrev : st ≠ .promoted → reversedAmount db k ≤ amt := by
    intro hst
    by_cases hc : st = .cancelled
    · exact hcase.reversed hc
    · rw [hcase.reversedAmount_eq_zero h.shaped hk hc]
      exact hcase.pos.le
  have hst : st = .live ∨ st = .cancelled := by
    cases st with
    | live => exact .inl rfl
    | cancelled => exact .inr rfl
    | promoted =>
      -- The marker of a promotion lies in a slot that has ended, so the cancellation sees it.
      obtain ⟨m, hm, -⟩ := hcase.has .finalized (by simp [parts])
      have hrow := h.shaped.slashRow hk hm trivial
      exact absurd hrow.id (pendingRow_eq_none hfin (get?_eq_some_iff.1 hm).1 hrow.owner
        (hb _ (hcase.closed rfl m hm).2) hrow.asset hrow.type)
    | absent => simp [parts] at hpending
    | reserved => simp [parts] at hpending
  have hadv : Advances w head slot k st .cancelled amt (closedRow b r)
      [.cancelRelease, .finalized, .cancelled] := by
    refine ⟨?_, ?_, forall_mem_triple (congrArg Neg.neg hamt) rfl rfl,
      forall_mem_triple (by simp) (by simp) (by simp), by simp, fun _ => hcase.delayed hpending,
      fun _ => hdate ▸ hle, by simp, fun _ => rfl⟩
    · intro q hq
      rcases mem_triple.1 hq with rfl | rfl | rfl <;>
        exact ⟨rfl, congrArg (· ++ _) hid, rfl, rfl, rfl, hscan, by rintro ⟨⟩⟩
    · intro q
      rcases hst with rfl | rfl <;> cases q <;> simp [parts]
  refine ⟨h.filed hadv.filed hk ⟨_, _, hcase.advance h.shaped hk hadv (.inr rfl) hcase.pos
    fun _ => hrev ?_⟩, hadv.filed.get?_putAll hk (q := .debit) trivial⟩
  rcases hst with rfl | rfl <;> simp

theorem SlashLedger.cancelPending {p : CancelPendingSafetySlashBurnParams} (hk : k.Valid)
    (hb : ∀ e, e + slotLength ≤ head → e ≤ p.blockHeight)
    (hscan : p.blockHeight ≤ maxLedgerScanHeight) (htx : trimSpace p.txID = k.txID)
    (hkind : trimSpace p.evidenceKind = k.kind)
    (hacct : normalizeHiveConsensusAccount p.slashedAccount = k.acct) :
    SlashLedger w (cancelPendingSafetySlashBurn db p).1 head slot ∧
      (cancelPendingSafetySlashBurn db p).1.get? (k.rowID .debit) = db.get? (k.rowID .debit) := by
  rw [cancelPendingSafetySlashBurn_eq]
  rcases cancelWrites_cases db p with hnil | ⟨r, hr, hfin, hrows⟩
  · rw [hnil]
    exact ⟨h, rfl⟩
  rw [htx, hkind, hacct] at hr hfin
  rw [hrows]
  exact h.cancel hk hb hscan hr hfin

theorem SlashLedger.credit {op : String} {x : LedgerRecord} (hk : k.Valid) (hop : Free '#' op)
    (hcase : SlashCase w db head slot k .cancelled amt) (hx : SlashRow k (.reverse op) x)
    (hle : reversedAmount db k + x.amount ≤ amt) : SlashLedger w (db.put x) head slot := by
  have hget : ∀ {k' : SlashKey}, k'.Valid → ∀ q : SlashPart, q.Plain → (k' = k → q ≠ .reverse op) →
      (db.put x).get? (k'.rowID q) = db.get? (k'.rowID q) := fun hk' =>
    hx.get?_put_other hk hop hk'
  have hold : ∀ {k' : SlashKey}, k'.Valid →
      0 ≤ db.valueAt k'.credited x.id ∧ (k' ≠ k → db.valueAt k'.credited x.id = 0) := by
    intro k' hk'
    cases hr : db.get? x.id with
    | none => simp [valueAt_of_get?_eq_none hr]
    | some r =>
      rw [valueAt_of_get?_eq_some hr]
      refine ⟨h.shaped.credited_nonneg hk' (get?_eq_some_iff.1 hr).1, fun hne => ?_⟩
      have hrow := h.shaped.slashRow hk (p := .reverse op) (hx.id ▸ hr) hop
      rw [hrow.credited_reverse hk hk' hop, if_neg (Ne.symm hne)]
  constructor
  · exact forall_mem_put (.inr ⟨k, .reverse op, hk, hop, hx⟩) h.shaped
  intro k' hk'
  by_cases hne : k' = k
  · subst hne
    refine ⟨.cancelled, amt, hcase.pos, ?_, ?_, ?_, by simp, hcase.delayed, ?_, by simp, ?_⟩
    · intro p hp
      rw [hget hk' p (plain_of_mem hp)]
      · exact hcase.has p hp
      · rintro - rfl
        simpa [isReverse] using isReverse_of_mem hp
    · intro p hp hmem hnot
      rw [hget hk' p hp]
      · exact hcase.lacks p hp hmem hnot
      · rintro - rfl
        exact hnot rfl rfl
    · intro p hp
      have hplain : p.Plain ∧ p ≠ .reverse op := by
        rcases mem_triple.1 hp with rfl | rfl | rfl <;> exact ⟨trivial, by simp⟩
      rw [hget hk' p hplain.1 fun _ => hplain.2]
      exact hcase.dated p hp
    · rw [hget hk' .finalized trivial (by simp)]
      exact hcase.marked
    intro _
    have hnonneg := (hold hk').1
    rw [reversedAmount, sum_put, hx.credited_reverse hk hk' hop, if_pos rfl]
    rw [reversedAmount] at hle
    omega
  obtain ⟨st, amt', hcase'⟩ := h.staged k' hk'
  refine ⟨st, amt', hcase'.frame (fun p hp => hget hk' p hp fun hc => absurd hc hne) ?_ le_rfl
    le_rfl⟩
  rw [reversedAmount, sum_put, hx.credited_reverse hk hk' hop, if_neg (Ne.symm hne),
    (hold hk').2 hne, reversedAmount]
  omega

theorem SlashLedger.debit_key {txID kind acct : String} (hmem : debit ∈ db)
    (htype : debit.type = .safetySlashConsensus) (hid : debit.id = slashDebitID txID kind acct) :
    ∃ k : SlashKey, k.Valid ∧ db.get? (k.rowID .debit) = some debit ∧ txID = k.txID ∧
      kind = k.kind ∧ acct = k.acct := by
  obtain ⟨k, hk, hrow, hget⟩ := h.shaped.key_of_type hmem (.inl rfl) htype
  exact ⟨k, hk, hget, hk.eq_of_slashDebitID (hid.symm.trans hrow.id)⟩

theorem SlashLedger.find {slashTxID evidenceKind slashedAccount : String}
    (hfind : findSafetySlashConsensusRow db slashTxID evidenceKind slashedAccount = some debit) :
    ∃ k : SlashKey, k.Valid ∧ db.get? (k.rowID .debit) = some debit ∧ slashTxID = k.txID ∧
      evidenceKind = k.kind ∧ normalizeHiveConsensusAccount slashedAccount = k.acct := by
  have hid := find?_some hfind
  obtain ⟨hmem, -, -, -, -, htype⟩ :=
    LedgerDb.mem_getLedgerRange.1 (mem_of_find?_eq_some hfind)
  exact h.debit_key hmem (by simpa using htype) (by simpa using hid)

theorem SlashLedger.applyReverseCredit {r : SafetySlashReverseRecord} (hk : k.Valid)
    (hdebit : db.get? (k.rowID .debit) = some debit) (hscan : b ≤ maxLedgerScanHeight)
    (hcarrying : Free '#' (trimSpace carryingTxID)) (htx : r.slashTxID = k.txID)
    (hkind : r.evidenceKind = k.kind) (htrim : trimSpace k.txID = k.txID)
    (htrim' : trimSpace k.kind = k.kind)
    (hacct : normalizeHiveConsensusAccount r.slashedAccount = k.acct) :
    SlashLedger w (applyReverseCredit db r (-debit.amount) carryingTxID b) head slot := by
  rcases applyReverseCredit_cases db r (-debit.amount) carryingTxID b with
    hsame | ⟨x, hput, hpos, hle, hid, hheight, hasset, howner, htype⟩
  · rw [hsame]
    exact h
  rw [hput]
  obtain ⟨st, amt, hcase⟩ := h.staged k hk
  obtain ⟨hparts, hamt⟩ := hcase.mem_parts rfl hdebit
  have hamt' : -debit.amount = amt := by rw [hamt, amount, neg_neg]
  rw [htx, hkind, h.alreadyReversedConsensusAmt_eq hacct, hamt'] at hle
  have hnonneg := h.shaped.reversedAmount_nonneg hk
  -- Outside the cancelled stage there is no headroom.
  have hst : st = .cancelled := by
    by_contra hst
    have hcommitted := hcase.le_committed h hk
      (fun hc => by rw [hc] at hparts; simp [parts] at hparts) hst
    omega
  subst hst
  have hfin := h.alreadyFinalizedToReserveAmt_nonneg hk
  have hres : 0 ≤ uncancelledPendingResidualAmt db k.txID k.kind := le_max_left _ _
  refine h.credit hk hcarrying hcase ⟨?_, htype, howner.trans hacct, hasset, hheight ▸ hscan,
    fun _ => hpos⟩ (by omega)
  rw [hid, htx, hkind, htrim, htrim', hacct, SlashKey.rowID_reverse]

theorem SlashLedger.reverse {proposal : SafetySlashReverseRecord}
    (hb : ∀ e, e + slotLength ≤ head → e ≤ b) (hscan : b ≤ maxLedgerScanHeight)
    (hcarrying : Free '#' (trimSpace carryingTxID)) :
    SlashLedger w (applySafetySlashReverse db proposal carryingTxID b) head slot := by
  rcases applySafetySlashReverse_cases db proposal carryingTxID b with
    hsame | ⟨debit, db', hfind, hdb', happly⟩
  · rw [hsame]
    exact h
  obtain ⟨k, hk, hdebit, htx, hkind, hacct⟩ := h.find hfind
  have htrim : trimSpace k.txID = k.txID := by rw [← htx]; exact trimSpace_trimSpace _
  have htrim' : trimSpace k.kind = k.kind := by rw [← hkind]; exact trimSpace_trimSpace _
  have htx' : trimSpace proposal.normalize.slashTxID = k.txID := by rw [htx, htrim]
  have hkind' : trimSpace proposal.normalize.evidenceKind = k.kind := by rw [hkind, htrim']
  generalize proposal.normalize = r at hfind hdb' happly htx hkind hacct htx' hkind'
  have hcancelled : SlashLedger w db' head slot ∧
      db'.get? (k.rowID .debit) = db.get? (k.rowID .debit) := by
    rcases hdb' with hdb' | hdb' <;> rw [hdb']
    · exact ⟨h, rfl⟩
    · exact h.cancelPending (p := ⟨_, _, _, b⟩) hk hb hscan htx' hkind' hacct
  rcases happly with happly | happly
  · rw [happly]
    exact hcancelled.1
  rw [happly]
  exact hcancelled.1.applyReverseCredit hk (hcancelled.2.trans hdebit) hscan hcarrying htx hkind
    htrim htrim' hacct

end

/-! ## Finalization -/

def LiveRow (w : Carriers) (db : LedgerDb) (head slot : ℕ) (r : LedgerRecord) : Prop :=
  ∃ k amt, k.Valid ∧ SlashCase w db head slot k .live amt ∧ db.get? (k.rowID .pending) = some r

theorem SlashLedger.promote (h : SlashLedger w db head slot) (hr : LiveRow w db head slot r)
    (hslot : e < slot) (hhead : e + slotLength ≤ head) (hscan : e ≤ maxLedgerScanHeight)
    (hle : r.blockHeight ≤ e) :
    SlashLedger w (db.putAll (promotionRecords e r)) head slot ∧
      ∀ x ≠ r, LiveRow w db head slot x →
        LiveRow w (db.putAll (promotionRecords e r)) head slot x := by
  obtain ⟨k, amt, hk, hcase, hget⟩ := hr
  have hid := (get?_eq_some_iff.1 hget).2
  have hamt := (hcase.mem_parts rfl hget).2
  have hadv : Advances w head slot k .live .promoted amt (closedRow e r)
      [.release, .promoted, .finalized] := by
    refine ⟨?_, ?_, forall_mem_triple (congrArg Neg.neg hamt) hamt rfl,
      forall_mem_triple (by simp) (by simp) (by simp), by simp,
      fun _ => hcase.delayed (by simp [parts]),
      fun _ => hcase.dated .pending (by simp) r hget ▸ hle, fun _ => ⟨by simp, hslot, hhead⟩, by simp⟩
    · intro q hq
      rcases mem_triple.1 hq with rfl | rfl | rfl <;>
        exact ⟨rfl, congrArg (· ++ _) hid, rfl, rfl, rfl, hscan, by rintro ⟨⟩⟩
    · intro q
      cases q <;> simp [parts]
  refine ⟨h.filed hadv.filed hk
    ⟨_, _, hcase.advance h.shaped hk hadv (.inr rfl) hcase.pos (by simp)⟩, ?_⟩
  rintro x hne ⟨k', amt', hk', hcase', hget'⟩
  have hkey : k' ≠ k := by
    rintro rfl
    rw [hget] at hget'
    exact hne (Option.some.inj hget').symm
  refine ⟨k', amt', hk', hcase'.filed_ne h.shaped hadv.filed hk hk' hkey, ?_⟩
  exact (hadv.filed.get?_putAll_of_ne hk hk' hkey (q := .pending) trivial).trans hget'

theorem SlashLedger.promoteAll (hslot : e < slot) (hhead : e + slotLength ≤ head)
    (hscan : e ≤ maxLedgerScanHeight) {rows : List LedgerRecord} (hnodup : rows.Nodup)
    (h : SlashLedger w db head slot) (hlive : ∀ r ∈ rows, LiveRow w db head slot r)
    (hle : ∀ r ∈ rows, r.blockHeight ≤ e) :
    SlashLedger w (db.putAll (rows.flatMap (promotionRecords e))) head slot := by
  induction rows generalizing db with
  | nil => exact h
  | cons r rows ih =>
    rw [nodup_cons] at hnodup
    obtain ⟨h', hlive'⟩ := h.promote (hlive r mem_cons_self) hslot hhead hscan
      (hle r mem_cons_self)
    rw [flatMap_cons, putAll_append]
    refine ih hnodup.2 h' (fun x hx => ?_) fun x hx => hle x (mem_cons_of_mem _ hx)
    have hne : x ≠ r := fun heq => hnodup.1 (heq ▸ hx)
    exact hlive' x hne (hlive x (mem_cons_of_mem _ hx))

theorem mem_scannedDone {m : LedgerRecord} (hm : m ∈ db) (hrow : SlashRow k .finalized m)
    (hlo : readSafetySlashFinalizeCursor db ≤ m.blockHeight) (hhi : m.blockHeight ≤ e) :
    k.rowID .pending ∈ scannedDone db e := by
  have hid : m.id = k.rowID .pending ++ "#finalized_marker" := hrow.id
  refine mem_map.2 ⟨m, mem_filter.2 ⟨LedgerDb.mem_getLedgerRange.2
    ⟨hm, hrow.owner, hlo, hhi, ?_, ?_⟩, ?_⟩, ?_⟩
  · rintro a ⟨⟩
    exact hrow.asset
  · exact .inr (mem_singleton.2 hrow.type)
  · rw [hid]
    exact hasSuffix_append _ _
  · rw [hid]
    exact trimSuffix_append _ _

def NoLateCancel (db : LedgerDb) (e : ℕ) : Prop :=
  ∀ r ∈ db, r.type = .safetySlashHiveBurnPending →
    ∀ maturity ∈ parseUint (trimSpace r.from_), maturity ≤ e →
      ∀ m ∈ db, m.id = r.id ++ "#finalized_marker" → m.blockHeight ≤ e
  deriving Decidable

theorem SlashLedger.liveRow_of_mem_promotedRows (h : SlashLedger w db head slot)
    (hlate : NoLateCancel db slot) (hr : r ∈ promotedRows db slot) :
    LiveRow w db head slot r ∧ r.blockHeight ≤ slot := by
  obtain ⟨hmem, howner, htype, hasset, hlo, hhi, -, hdone, maturity, hparse, hmature⟩ :=
    mem_promotedRows hr
  refine ⟨?_, hhi⟩
  obtain ⟨k, hk, hrow, hget⟩ := h.shaped.key_of_type hmem (.inr rfl) htype
  obtain ⟨st, amt, hcase⟩ := h.staged k hk
  have hdate := hcase.dated .pending (by simp) r hget
  -- A marker at or below the slot would have been seen.
  have hunseen : ∀ m, db.get? (k.rowID .finalized) = some m → ¬m.blockHeight ≤ slot := by
    intro m hm hle
    have hmarked := hcase.marked m hm
    refine hdone ?_
    rw [hrow.id]
    exact mem_scannedDone (get?_eq_some_iff.1 hm).1
      (h.shaped.slashRow hk hm trivial) (by omega) hle
  cases st with
  | live => exact ⟨k, amt, hk, hcase, hget⟩
  | absent => simpa [parts] using (hcase.mem_parts rfl hget).1
  | reserved => simpa [parts] using (hcase.mem_parts rfl hget).1
  | promoted =>
    obtain ⟨m, hm, -⟩ := hcase.has .finalized (by simp [parts])
    exact absurd (hcase.closed rfl m hm).1.le (hunseen m hm)
  | cancelled =>
    obtain ⟨m, hm, -⟩ := hcase.has .finalized (by simp [parts])
    obtain ⟨hmdb, hmid⟩ := get?_eq_some_iff.1 hm
    refine absurd (hlate r hmem htype maturity hparse hmature m hmdb ?_) (hunseen m hm)
    rw [hmid, hrow.id]
    rfl

theorem foreignRow_finalizeCursorRecord (e c : ℕ) : ForeignRow (finalizeCursorRecord e c) where
  id := by
    rw [show (finalizeCursorRecord e c).id = safetySlashFinalizeCursorRowID from rfl,
      fields_of_free (by decide)]
    simp
  type := .inr (.inr rfl)
  owner := show protocolSlashFinalizeCursorAccount ≠ protocolSlashPendingBurnAccount by decide

theorem SlashLedger.finalize {slot' : ℕ} (h : SlashLedger w db head slot) (hslot : slot < slot')
    (hhead : slot + slotLength ≤ head) (hscan : slot ≤ maxLedgerScanHeight)
    (hlate : NoLateCancel db slot) :
    SlashLedger w (finalizeMaturedSafetySlashBurns db slot) head slot' := by
  obtain ⟨cursorRows, hcur, heq⟩ := finalizeMaturedSafetySlashBurns_eq db slot
  rw [heq, putAll_append]
  have hrows := fun r hr => h.liveRow_of_mem_promotedRows hlate (r := r) hr
  refine SlashLedger.foreign (SlashLedger.promoteAll hslot hhead hscan (nodup_promotedRows db slot)
    (h.mono le_rfl hslot.le) ?_ fun r hr => (hrows r hr).2) ?_
  · intro r hr
    obtain ⟨k, amt, hk, hcase, hget⟩ := (hrows r hr).1
    exact ⟨k, amt, hk, hcase.frame (fun _ _ => rfl) rfl le_rfl hslot.le, hget⟩
  intro r hr
  rcases hcur with rfl | ⟨c, rfl⟩
  · simp at hr
  · rw [mem_singleton.1 hr]
    exact foreignRow_finalizeCursorRecord slot c

/-! ## Payouts -/

section Payouts

variable {p : ReservePayoutParams}

theorem foreignRow_reservePayoutDebit (hid : Free '#' (trimSpace p.proposalID)) :
    ForeignRow (reservePayoutDebit p) where
  id := by
    rw [reservePayoutDebit_id, fields_reservePayoutDebitID, fields_of_free hid]
    simp
  type := .inl rfl
  owner := show protocolSlashReserveAccount ≠ protocolSlashPendingBurnAccount by decide

theorem foreignRow_reservePayoutCredit (hid : Free '#' (trimSpace p.proposalID))
    (hne : normalizeHiveConsensusAccount p.recipient ≠ "") : ForeignRow (reservePayoutCredit p) where
  id := by
    rw [reservePayoutCredit_id, fields_creditID, fields_of_free hid]
    simp
  type := .inr (.inl rfl)
  owner := by
    intro (howner : normalizeHiveConsensusAccount p.recipient = _)
    have hpre := hasPrefix_normalizeHiveConsensusAccount hne
    rw [howner] at hpre
    exact absurd hpre (by decide)

theorem SlashLedger.payout (h : SlashLedger w db head slot) (hp : PayoutCarried w head p) :
    SlashLedger w (reservePayout db p).1 head slot := by
  rw [reservePayout_eq]
  rcases payoutWrites_cases db p with hnil | ⟨hrows, -, -, hne, -⟩
  · rw [hnil]
    exact h
  rw [hrows]
  exact h.foreign (forall_mem_pair (foreignRow_reservePayoutDebit hp.idFree)
    (foreignRow_reservePayoutCredit hp.idFree hne))

end Payouts

/-! ## Runs -/

/-- What happens to the slashes of a chain. -/
inductive SlashEvent
  | l1Block (height : ℕ)
  | snapshot (balances : BalanceDb)
  | slash (p : SafetySlashConsensusParams)
  | reverse (proposal : SafetySlashReverseRecord) (carryingTxID : String) (br1 : Int)
  | restore (proposal : SafetySlashReverseRecord) (txID : String)
      (creationBlock expiryBlocks : ℕ)
  | finalize
  | payout (p : ReservePayoutParams)

namespace Chain

def setLedger (c : Chain) (db : LedgerDb) : Chain := { c with dbs := { c.dbs with ledger := db } }

def applySlashEvent (c : Chain) : SlashEvent → Chain
  | .l1Block height => { c with head := height }
  | .snapshot balances => { c with dbs := { c.dbs with balances := balances } }
  | .slash p => { c with dbs := (safetySlashConsensusBond c.dbs p).1 }
  | .reverse proposal carryingTxID br1 =>
    c.setLedger (applySafetySlashReverse c.dbs.ledger proposal carryingTxID (brHeight br1))
  | .restore proposal txID _ _ =>
    c.setLedger (applySafetySlashReverse c.dbs.ledger proposal txID c.head)
  | .finalize =>
    { c.setLedger (finalizeMaturedSafetySlashBurns c.dbs.ledger c.slot) with
      slot := slotStart c.head }
  | .payout p => c.setLedger (reservePayout c.dbs.ledger p).1

def SlashEnabled (w : Carriers) (c : Chain) : SlashEvent → Prop
  | .l1Block height => c.head < height
  | .snapshot _ => True
  | .slash p => SlashCarried w c.head p
  | .reverse _ carryingTxID br1 =>
    isStale br1 c.head = false ∧ Free '#' (trimSpace carryingTxID)
  | .restore proposal txID creationBlock expiryBlocks =>
    proposal.action = .both ∧ Free '#' (trimSpace txID) ∧
      isExpired c.head creationBlock expiryBlocks
        (slashPendingMaturity c.dbs.ledger proposal.slashTxID proposal.evidenceKind) = false
  | .finalize => slotStart c.head ≠ c.slot
  | .payout p => PayoutCarried w c.head p

def InTime (c : Chain) : SlashEvent → Prop
  | .l1Block height => height ≤ maxLedgerScanHeight
  | .reverse _ _ br1 => brHeight br1 ≤ maxLedgerScanHeight
  | .finalize => NoLateCancel c.dbs.ledger c.slot
  | _ => True

instance (w : Carriers) (c : Chain) (e : SlashEvent) : Decidable (SlashEnabled w c e) := by
  cases e <;> unfold SlashEnabled <;> infer_instance

instance (c : Chain) (e : SlashEvent) : Decidable (InTime c e) := by
  cases e <;> unfold InTime <;> infer_instance

/-- What holds between the events of a run in time. -/
structure SlashSound (w : Carriers) (c : Chain) : Prop where
  ledger : SlashLedger w c.dbs.ledger c.head c.slot
  slot_mod : c.slot % slotLength = 0
  slot_le : c.slot ≤ slotStart c.head
  inScan : c.head ≤ maxLedgerScanHeight

theorem slashSound_genesis (w : Carriers) {head : ℕ} (h : head ≤ maxLedgerScanHeight) :
    SlashSound w (genesis head) where
  ledger := SlashLedger.empty w head (slotStart head)
  slot_mod := slotStart_mod head
  slot_le := le_rfl
  inScan := h

variable {c : Chain} {w : Carriers}

theorem SlashSound.setLedger (h : SlashSound w c) {db : LedgerDb}
    (hdb : SlashLedger w db c.head c.slot) : SlashSound w (c.setLedger db) :=
  ⟨hdb, h.slot_mod, h.slot_le, h.inScan⟩

theorem SlashSound.apply {e : SlashEvent} (h : SlashSound w c) (hok : SlashEnabled w c e)
    (hin : InTime c e) : SlashSound w (c.applySlashEvent e) := by
  have hslot : c.slot ≤ c.head := h.slot_le.trans (slotStart_le _)
  cases e with
  | l1Block height =>
    have hlt : c.head < height := hok
    exact ⟨h.ledger.mono hlt.le le_rfl, h.slot_mod, h.slot_le.trans (slotStart_mono hlt.le), hin⟩
  | snapshot balances => exact ⟨h.ledger, h.slot_mod, h.slot_le, h.inScan⟩
  | slash p =>
    have hledger := h.ledger.slash hok h.inScan
    rw [applySlashEvent]
    generalize (safetySlashConsensusBond c.dbs p).1 = dbs at hledger ⊢
    exact ⟨hledger, h.slot_mod, h.slot_le, h.inScan⟩
  | reverse proposal carryingTxID br1 =>
    rw [applySlashEvent]
    exact h.setLedger
      (h.ledger.reverse (fun e he => (lt_brHeight_of_not_isStale hok.1 he).le) hin hok.2)
  | restore proposal txID creationBlock expiryBlocks =>
    rw [applySlashEvent]
    exact h.setLedger (h.ledger.reverse (fun e he => by omega) h.inScan hok.2.1)
  | finalize =>
    have hended := add_slotLength_le_of_ne h.slot_mod h.slot_le hok
    have hlen : 0 < slotLength := by decide
    have hle := slotStart_le c.head
    have hledger : SlashLedger w (finalizeMaturedSafetySlashBurns c.dbs.ledger c.slot) c.head
        (slotStart c.head) :=
      h.ledger.finalize (by omega) (by omega) (hslot.trans h.inScan) hin
    rw [applySlashEvent]
    generalize finalizeMaturedSafetySlashBurns c.dbs.ledger c.slot = db at hledger ⊢
    exact ⟨hledger, slotStart_mod _, le_rfl, h.inScan⟩
  | payout p =>
    rw [applySlashEvent]
    exact h.setLedger (h.ledger.payout hok)

/-- In every run in time, a slash has never given out more than it took, and the
pending account is never overdrawn. -/
theorem slashed_not_minted {w : Carriers} {head : ℕ} (hhead : head ≤ maxLedgerScanHeight)
    {c : Chain}
    (hrun : ReflTransGen (Run.StepBy applySlashEvent fun c e => SlashEnabled w c e ∧ InTime c e)
      (genesis head) c) :
    0 ≤ pendingAccountTotal c.dbs.ledger ∧
      ∀ k : SlashKey, ∀ debit ∈ c.dbs.ledger, debit.type = .safetySlashConsensus →
        debit.id = k.rowID .debit →
        reversedAmount c.dbs.ledger k + k.inReserve c.dbs.ledger +
          k.liveResidual c.dbs.ledger ≤ -debit.amount := by
  have hsound : SlashSound w c := by
    refine Run.preserves ?_ hrun (slashSound_genesis w hhead)
    rintro c - ⟨e, ⟨hok, hin⟩, rfl⟩ hc
    exact hc.apply hok hin
  refine ⟨hsound.ledger.pendingAccountTotal_nonneg, ?_⟩
  intro k debit hmem htype hid
  obtain ⟨k', hk', hget, htx, hkind, hacct⟩ := hsound.ledger.debit_key hmem htype hid
  obtain rfl : k = k' := by cases k; cases k'; simp_all
  obtain ⟨st, amt, hcase⟩ := hsound.ledger.staged k hk'
  obtain ⟨hparts, hamt⟩ := hcase.mem_parts rfl hget
  have hbound := hcase.bound hsound.ledger.shaped hk'
    (fun hc => by rw [hc] at hparts; simp [parts] at hparts)
  rw [hamt, amount, neg_neg]
  exact hbound

/-! ### A slash of 100 that is reversed -/

/-- Every slash is carried at height 10 and matures five blocks later. -/
def shortWindow : Carriers := ⟨fun _ => 10, fun _ => 5, fun _ => ("", 0)⟩

def bondSnapshot : BalanceDb :=
  Collection.empty.put { account := "hive:a", blockHeight := 5, hiveConsensus := 1000 }

def slashOfTenth : List SlashEvent :=
  [.snapshot bondSnapshot,
    .slash { account := "a", slashBps := 1000, txID := "s", blockHeight := 10
             evidenceKind := "vsc_double_block_sign", burnDelayBlocks := 5 },
    .l1Block 20, .finalize]

def reverseAll : SafetySlashReverseRecord :=
  { slashTxID := "s", evidenceKind := "vsc_double_block_sign", slashedAccount := "hive:a"
    action := .both, amount := 100 }

def slashKeyOfTenth : SlashKey := ⟨"s", "vsc_double_block_sign", "hive:a"⟩

def debitOfTenth : LedgerRecord :=
  { id := slashKeyOfTenth.rowID .debit, txId := "s", blockHeight := 10, amount := -100
    asset := .hiveConsensus, owner := "hive:a", type := .safetySlashConsensus }

def reversedInSlot : Chain :=
  List.foldl applySlashEvent (genesis 10)
    (slashOfTenth ++ [.l1Block 21, .reverse reverseAll "b" 20, .l1Block 30, .finalize])

theorem slashed_not_minted_reversedInSlot :
    reversedAmount reversedInSlot.dbs.ledger slashKeyOfTenth = 100 ∧
      0 ≤ pendingAccountTotal reversedInSlot.dbs.ledger ∧
      reversedAmount reversedInSlot.dbs.ledger slashKeyOfTenth +
        slashKeyOfTenth.inReserve reversedInSlot.dbs.ledger +
        slashKeyOfTenth.liveResidual reversedInSlot.dbs.ledger ≤ 100 := by
  obtain ⟨htotal, hbound⟩ := slashed_not_minted (w := shortWindow) (c := reversedInSlot)
    (show 10 ≤ maxLedgerScanHeight by decide) (Run.foldl (by decide +kernel))
  exact ⟨by decide +kernel, htotal,
    hbound slashKeyOfTenth debitOfTenth (mem_docs.1 (by decide +kernel)) rfl rfl⟩

def reversedBeforeSlotChange : Chain :=
  List.foldl applySlashEvent (genesis 10)
    (slashOfTenth ++ [.l1Block 30, .reverse reverseAll "b" 30, .finalize])

/-- The bond is back, and the same amount is in the reserve. -/
theorem minted_reversedBeforeSlotChange :
    ReflTransGen (Run.StepBy applySlashEvent (SlashEnabled shortWindow)) (genesis 10)
        reversedBeforeSlotChange ∧
      (∃ debit ∈ reversedBeforeSlotChange.dbs.ledger,
        debit.type = .safetySlashConsensus ∧ debit.id = slashKeyOfTenth.rowID .debit ∧
          debit.amount = -100) ∧
      reversedAmount reversedBeforeSlotChange.dbs.ledger slashKeyOfTenth = 100 ∧
      slashKeyOfTenth.inReserve reversedBeforeSlotChange.dbs.ledger = 100 ∧
      pendingAccountTotal reversedBeforeSlotChange.dbs.ledger = -100 := by
  exact ⟨Run.foldl (by decide +kernel), ⟨debitOfTenth, mem_docs.1 (by decide +kernel), rfl, rfl, rfl⟩,
    by decide +kernel⟩

end Chain

end VscNode
