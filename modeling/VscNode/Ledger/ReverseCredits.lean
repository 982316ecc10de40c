import VscNode.Ledger.SlashCase

/-!
# Reverse records applied over and over

A reverse record credits bond back under a row id made of the slash and of the
carrying transaction, so that the same record applied again lands on the same
row. What it credits is the smaller of what it asks for and the headroom, and
the headroom has all recorded credits taken off, the one about to be replaced
among them. A credit of more than half of the headroom it found, but not of all of
it, is thus replaced by a smaller one when its record is applied again.

`Filed` is what is needed of the ledger the calls start on: each row is a part of
a slash, under that part's id, or has nothing to do with slashes.
`ReverseRun.accumulates_of_settles` says which runs only add credits, if an id is used
for one call and repeated only right after it.
-/

namespace VscNode

open Collection LedgerDb List SlashKey SlashPart Text

/-! ## Row ids under any carrying id -/

namespace SlashKey

variable {k k' : SlashKey} {p q : SlashPart}

theorem Valid.take_fields_rowID (hk : k.Valid) (p : SlashPart) :
    (fields '#' (k.rowID p)).take 5 = [k.txID, "safety_slash", k.kind, p.tag, k.acct] := by
  cases hp : p.isReverse with
  | false => rw [hk.fields_rowID (plain_of_not_isReverse hp)]; rfl
  | true =>
    cases p with
    | reverse op =>
      have hbase := hk.fields_rowID (p := .reverse "") (show Free '#' "" by decide)
      rw [rowID, if_pos rfl] at hbase
      rw [rowID]
      split
      · rw [hbase]; rfl
      have happ : (("#" : String) ++ op).toList = '#' :: op.toList := by simp
      rw [String.append_assoc, fields_append happ, hbase]
      rfl
    | _ => cases hp

theorem rowID_part (hk : k.Valid) (hk' : k'.Valid) (h : k.rowID p = k'.rowID q) :
    k = k' ∧ (p = q ∨ p.isReverse = true ∧ q.isReverse = true) := by
  have hfields := congrArg (fun s => (fields '#' s).take 5) h
  simp only [hk.take_fields_rowID, hk'.take_fields_rowID, cons.injEq, and_true,
    true_and] at hfields
  obtain ⟨htx, hkind, htag, hacct⟩ := hfields
  obtain rfl : k = k' := by
    cases k
    cases k'
    simp_all
  refine ⟨rfl, ?_⟩
  cases hp : p.isReverse <;> cases hq : q.isReverse
  · exact .inl (rowID_inj hk hk' h (plain_of_not_isReverse hp)
      (plain_of_not_isReverse hq)).2
  · cases p <;> cases q <;> simp [tag, isReverse] at htag hp hq
  · cases p <;> cases q <;> simp [tag, isReverse] at htag hp hq
  · exact .inr ⟨rfl, rfl⟩

end SlashKey

/-! ## Ledgers whose slash rows are under their ids -/

structure Unrelated (r : LedgerRecord) : Prop where
  id : ∀ k : SlashKey, k.Valid → ∀ p, r.id ≠ k.rowID p
  type : ∀ p : SlashPart, r.type ≠ p.type

def Filed (db : LedgerDb) : Prop :=
  ∀ r ∈ db, (∃ k p, k.Valid ∧ SlashRow k p r) ∨ Unrelated r

namespace Filed

variable {db : LedgerDb} {k : SlashKey} {p : SlashPart} {x y : LedgerRecord}

theorem put (h : Filed db) (hk : k.Valid) (hx : SlashRow k p x) : Filed (db.put x) :=
  forall_mem_put (.inl ⟨k, p, hk, hx⟩) h

theorem replaced (h : Filed db) (hk : k.Valid) (hx : SlashRow k p x) (hy : y ∈ db)
    (hid : y.id = x.id) :
    ∃ q, SlashRow k q y ∧ (q = p ∨ q.isReverse = true ∧ p.isReverse = true) := by
  rcases h y hy with ⟨k', q, hk', hrow⟩ | hother
  · obtain ⟨rfl, hpart⟩ := rowID_part hk' hk (hrow.id.symm.trans (hid.trans hx.id))
    exact ⟨q, hrow, hpart⟩
  · exact absurd (hid.trans hx.id) (hother.id k hk p)

theorem type_replaced (h : Filed db) (hk : k.Valid) (hx : SlashRow k p x) (hy : y ∈ db)
    (hid : y.id = x.id) : y.type = p.type := by
  obtain ⟨q, hrow, rfl | ⟨hq, hp⟩⟩ := h.replaced hk hx hy hid
  · exact hrow.type
  · rw [hrow.type]
    cases q <;> cases p <;> simp [isReverse, type] at hq hp ⊢

theorem getLedgerRange_put (h : Filed db) (hk : k.Valid) (hx : SlashRow k p x)
    {types : List LedgerType} (hne : types ≠ []) (hp : p.type ∉ types) (account : String)
    (start stop : ℕ) (asset : Option Asset) :
    getLedgerRange (db.put x) account start stop asset types =
      getLedgerRange db account start stop asset types := by
  refine congrArg _ (filter_docs_put ?_ fun y hy hid => ?_)
  · simp [hx.type, hp, hne]
  · simp [h.type_replaced hk hx hy hid, hp, hne]

end Filed

/-! ## A call -/

theorem normalizeHiveConsensusAccount_ne_empty {a : String}
    (h : normalizeHiveConsensusAccount a ≠ "") :
    normalizeHiveConsensusAccount (normalizeHiveConsensusAccount a) ≠ "" := by
  have htrim : trimSpace (normalizeHiveConsensusAccount a) ≠ "" :=
    trimSpace_ne_empty (by rfl) (by decide) (hasPrefix_normalizeHiveConsensusAccount h)
  generalize normalizeHiveConsensusAccount a = b at htrim ⊢
  rw [normalizeHiveConsensusAccount, if_neg htrim]
  split_ifs
  · exact htrim
  · simp [← String.toList_inj]

theorem cancelPendingSafetySlashBurn_of_key {db : LedgerDb} {p : CancelPendingSafetySlashBurnParams}
    {k : SlashKey} (htx : trimSpace p.txID = k.txID) (hkind : trimSpace p.evidenceKind = k.kind)
    (hacct : normalizeHiveConsensusAccount p.slashedAccount = k.acct)
    (hne : k.txID ≠ "" ∧ k.kind ≠ "" ∧ k.acct ≠ "") :
    (cancelPendingSafetySlashBurn db p).1 =
      match pendingRow db p.blockHeight .safetySlashHiveBurnPending (k.rowID .pending) with
      | none => db
      | some r =>
        if (pendingRow db p.blockHeight .safetySlashHiveBurnPendingCancelled
            (k.rowID .cancelled)).isSome then db
        else if (pendingRow db p.blockHeight .safetySlashHiveBurnPendingFinalized
            (k.rowID .finalized)).isSome then db
        else db.putAll (cancelRecords p.blockHeight r) := by
  have hid : safetySlashBaseID p.txID p.evidenceKind ++ "#hive_burn_pending#" ++ k.acct =
      k.rowID .pending := by
    rw [safetySlashBaseID, htx, hkind]
    rfl
  have hcancelled : k.rowID .pending ++ "#cancelled_marker" = k.rowID .cancelled := rfl
  have hfinalized : k.rowID .pending ++ "#finalized_marker" = k.rowID .finalized := rfl
  simp only [cancelPendingSafetySlashBurn, hacct, hid, hcancelled, hfinalized, htx, hkind, hne,
    or_self, if_false]
  cases pendingRow db p.blockHeight .safetySlashHiveBurnPending (k.rowID .pending) with
  | none => rfl
  | some r =>
    dsimp only
    split_ifs <;> rfl

seal trimSpace normalizeHiveConsensusAccount

structure ReverseCall where
  record : SafetySlashReverseRecord
  carryingTxID : String
  blockHeight : ℕ
  inScan : blockHeight ≤ maxLedgerScanHeight
  deriving DecidableEq

namespace ReverseCall

variable (c : ReverseCall) (db : LedgerDb)

def apply : LedgerDb := applySafetySlashReverse db c.record c.carryingTxID c.blockHeight

/-- The slash a call is about. -/
def key : SlashKey :=
  ⟨c.record.normalize.slashTxID, c.record.normalize.evidenceKind,
    normalizeHiveConsensusAccount c.record.normalize.slashedAccount⟩

def debit : Option LedgerRecord :=
  let r := c.record.normalize
  if r.slashTxID = "" ∨ r.evidenceKind = "" ∨ r.slashedAccount = "" then none
  else
    match r.action with
    | .other _ => none
    | _ =>
      (findSafetySlashConsensusRow db r.slashTxID r.evidenceKind r.slashedAccount).filter
        fun d => 0 < -d.amount

def cancelled : LedgerDb :=
  match c.debit db with
  | none => db
  | some _ =>
    if c.record.action = .reverse then db
    else
      (cancelPendingSafetySlashBurn db
        { txID := c.record.normalize.slashTxID, evidenceKind := c.record.normalize.evidenceKind
          slashedAccount := c.record.normalize.slashedAccount
          blockHeight := c.blockHeight }).1

/-- What a ledger has credited back for the slash of a call. -/
def reversed : Int :=
  alreadyReversedConsensusAmt db c.record.normalize.slashTxID c.record.normalize.evidenceKind
    c.record.normalize.slashedAccount

/-- What of a slash is neither credited back nor committed to the reserve. -/
def headroom (slashAmt : Int) : Int :=
  slashAmt - c.reversed db -
    (alreadyFinalizedToReserveAmt db c.record.normalize.slashTxID c.record.normalize.evidenceKind +
      uncancelledPendingResidualAmt db c.record.normalize.slashTxID c.record.normalize.evidenceKind)

def creditID : String := c.key.rowID (.reverse (trimSpace c.carryingTxID))

def creditRow (amount : Int) : LedgerRecord :=
  { id := c.creditID, txId := c.key.txID, blockHeight := c.blockHeight, amount
    asset := .hiveConsensus, owner := c.key.acct, type := .safetySlashConsensusReverse }

def credit : Option Int :=
  (c.debit db).bind fun d =>
    let headroom := c.headroom (c.cancelled db) (-d.amount)
    if c.record.action = .cancel ∨ c.record.amount ≤ 0 ∨ headroom ≤ 0 then none
    else some (min c.record.amount headroom)

theorem debit_eq_some {d : LedgerRecord} (h : c.debit db = some d) :
    findSafetySlashConsensusRow db c.key.txID c.key.kind c.record.normalize.slashedAccount = some d ∧
      c.record.normalize.slashTxID ≠ "" ∧ c.record.normalize.evidenceKind ≠ "" ∧
      c.record.normalize.slashedAccount ≠ "" := by
  simp only [debit] at h
  split at h
  · cases h
  rename_i hfields
  split at h
  · cases h
  obtain ⟨hfind, -⟩ := Option.filter_eq_some_iff.1 h
  simp only [not_or] at hfields
  exact ⟨hfind, hfields⟩

theorem trimSpace_txID : trimSpace c.record.normalize.slashTxID = c.record.normalize.slashTxID := by
  simp only [SafetySlashReverseRecord.normalize, trimSpace_trimSpace]

theorem trimSpace_kind :
    trimSpace c.record.normalize.evidenceKind = c.record.normalize.evidenceKind := by
  simp only [SafetySlashReverseRecord.normalize, trimSpace_trimSpace]

theorem applyReverseCredit_eq (slashAmt : Int) (htx : c.record.normalize.slashTxID ≠ "")
    (hkind : c.record.normalize.evidenceKind ≠ "")
    (hacct : c.record.normalize.slashedAccount ≠ "") :
    applyReverseCredit db c.record.normalize slashAmt c.carryingTxID c.blockHeight =
      if c.record.amount ≤ 0 ∨ c.headroom db slashAmt ≤ 0 then db
      else db.put (c.creditRow (min c.record.amount (c.headroom db slashAmt))) := by
  have hacct' : normalizeHiveConsensusAccount c.record.normalize.slashedAccount ≠ "" :=
    normalizeHiveConsensusAccount_ne_empty hacct
  have hamount : c.record.normalize.amount = c.record.amount := rfl
  rw [applyReverseCredit, hamount]
  by_cases hpos : c.record.amount ≤ 0
  · rw [if_pos hpos, if_pos (.inl hpos)]
  rw [if_neg hpos]
  change (if c.headroom db slashAmt ≤ 0 then db
    else (reverseSafetySlashConsensusDebit db ⟨c.key.txID, c.key.kind,
      c.record.normalize.slashedAccount, min c.record.amount (c.headroom db slashAmt),
      c.blockHeight, c.carryingTxID⟩).1) = _
  generalize c.headroom db slashAmt = room
  by_cases hroom : room ≤ 0
  · rw [if_pos hroom, if_pos (.inr hroom)]
  have hmin : ¬ min c.record.amount room ≤ 0 := by omega
  rw [if_neg hroom, if_neg (not_or.2 ⟨hpos, hroom⟩)]
  simp only [reverseSafetySlashConsensusDebit, safetySlashBaseID, key, trimSpace_txID,
    trimSpace_kind, htx, hkind, hacct', hmin, or_self, if_false, creditRow, creditID,
    rowID_reverse, slashReverseID]

theorem apply_eq : c.apply db =
    match c.credit db with
    | none => c.cancelled db
    | some amount => (c.cancelled db).put (c.creditRow amount) := by
  have haction : c.record.normalize.action = c.record.action := rfl
  simp only [apply, applySafetySlashReverse, credit, cancelled, debit, haction]
  by_cases hfields : c.record.normalize.slashTxID = "" ∨ c.record.normalize.evidenceKind = "" ∨
      c.record.normalize.slashedAccount = ""
  · rw [if_pos hfields, if_pos hfields]
    rfl
  rw [if_neg hfields, if_neg hfields]
  obtain ⟨htx, hfields⟩ := not_or.1 hfields
  obtain ⟨hkind, hacct⟩ := not_or.1 hfields
  cases hfind : findSafetySlashConsensusRow db c.record.normalize.slashTxID
    c.record.normalize.evidenceKind c.record.normalize.slashedAccount with
  | none => cases c.record.action <;> rfl
  | some d =>
    by_cases hpos : 0 < -d.amount
    · simp only [Option.filter_some, hpos, decide_true, if_true, if_neg (not_le.2 hpos)]
      cases c.record.action <;>
        simp only [c.applyReverseCredit_eq _ _ htx hkind hacct, if_true, if_false,
          reduceCtorEq, true_or, false_or, Option.bind_some]
      · split_ifs <;> rfl
      · split_ifs <;> rfl
      · rfl
    · simp only [Option.filter_some, hpos, decide_false, not_lt.1 hpos, if_true]
      cases c.record.action <;> rfl

/-! ## What a call leaves alone -/

section

variable {c db} {d : LedgerRecord}

theorem key_valid (h : Filed db) (hdebit : c.debit db = some d) : c.key.Valid := by
  obtain ⟨hfind, -⟩ := c.debit_eq_some db hdebit
  have hid := find?_some hfind
  obtain ⟨hmem, -, -, -, -, htype⟩ :=
    mem_getLedgerRange.1 (mem_of_find?_eq_some hfind)
  have htype : d.type = .safetySlashConsensus := by simpa using htype
  rcases h d hmem with ⟨k, p, hk, hrow⟩ | hother
  · obtain rfl : p = .debit := by
      rw [hrow.type] at htype
      cases p <;> simp [type] at htype ⊢
    have hid : d.id = slashDebitID c.key.txID c.key.kind c.key.acct := of_decide_eq_true hid
    obtain ⟨htx, hkind, hacct⟩ := hk.eq_of_slashDebitID (hid.symm.trans hrow.id)
    exact ⟨htx ▸ hk.txFree, hkind ▸ hk.kindFree, hacct ▸ hk.acctFree⟩
  · exact absurd htype (hother.type .debit)

variable {k : SlashKey} {p : SlashPart} {x : LedgerRecord}

theorem debit_put (h : Filed db) (hk : k.Valid) (hx : SlashRow k p x)
    (hp : p.type ≠ .safetySlashConsensus) : c.debit (db.put x) = c.debit db := by
  simp only [debit, findSafetySlashConsensusRow]
  rw [h.getLedgerRange_put hk hx (by simp) (by simpa using hp)]

theorem pendingRow_put (h : Filed db) (hk : k.Valid) (hx : SlashRow k p x) {type : LedgerType}
    (hp : p.type ≠ type) (b : ℕ) (id : String) :
    pendingRow (db.put x) b type id = pendingRow db b type id := by
  rw [pendingRow, h.getLedgerRange_put hk hx (by simp) (by simpa using hp), pendingRow]

theorem alreadyReversedConsensusAmt_put (h : Filed db) (hk : k.Valid) (hx : SlashRow k p x)
    (hp : p.isReverse = false) (tx kind acct : String) :
    alreadyReversedConsensusAmt (db.put x) tx kind acct =
      alreadyReversedConsensusAmt db tx kind acct := by
  have htype : p.type ≠ .safetySlashConsensusReverse := by
    cases p <;> simp [type, isReverse] at hp ⊢
  rw [alreadyReversedConsensusAmt, h.getLedgerRange_put hk hx (by simp) (by simpa using htype),
    alreadyReversedConsensusAmt]

end

/-- The call finds nothing to cancel. -/
def Quiet : Prop :=
  c.debit db = none ∨ c.record.action = .reverse ∨
    pendingRow db c.blockHeight .safetySlashHiveBurnPending (c.key.rowID .pending) = none ∨
    (pendingRow db c.blockHeight .safetySlashHiveBurnPendingCancelled
      (c.key.rowID .cancelled)).isSome ∨
    (pendingRow db c.blockHeight .safetySlashHiveBurnPendingFinalized
      (c.key.rowID .finalized)).isSome

theorem cancelPending_eq (hdebit : (c.debit db).isSome) : (cancelPendingSafetySlashBurn db
      ⟨c.record.normalize.slashTxID, c.record.normalize.evidenceKind,
        c.record.normalize.slashedAccount, c.blockHeight⟩).1 =
      match pendingRow db c.blockHeight .safetySlashHiveBurnPending (c.key.rowID .pending) with
      | none => db
      | some r =>
        if (pendingRow db c.blockHeight .safetySlashHiveBurnPendingCancelled
            (c.key.rowID .cancelled)).isSome then db
        else if (pendingRow db c.blockHeight .safetySlashHiveBurnPendingFinalized
            (c.key.rowID .finalized)).isSome then db
        else db.putAll (cancelRecords c.blockHeight r) := by
  obtain ⟨d, hd⟩ := Option.isSome_iff_exists.1 hdebit
  obtain ⟨-, htx, hkind, hacct⟩ := c.debit_eq_some db hd
  exact cancelPendingSafetySlashBurn_of_key (k := c.key) c.trimSpace_txID c.trimSpace_kind rfl
    ⟨htx, hkind, normalizeHiveConsensusAccount_ne_empty hacct⟩

theorem cancelled_of_quiet (h : c.Quiet db) : c.cancelled db = db := by
  rw [cancelled]
  cases hdebit : c.debit db with
  | none => rfl
  | some d =>
    dsimp only
    split_ifs with haction
    · rfl
    rw [c.cancelPending_eq db (by simp [hdebit])]
    rcases h with h | h | h | h | h
    · rw [hdebit] at h
      cases h
    · exact absurd h haction
    · rw [h]
    · split
      · rfl
      · rw [if_pos h]
    split
    · rfl
    · split_ifs <;> rfl

theorem cancelled_of_not_quiet (h : ¬ c.Quiet db) : ∃ d r, c.debit db = some d ∧
      pendingRow db c.blockHeight .safetySlashHiveBurnPending (c.key.rowID .pending) = some r ∧
      c.cancelled db = db.putAll (cancelRecords c.blockHeight r) := by
  simp only [Quiet, not_or, Option.not_isSome_iff_eq_none] at h
  obtain ⟨hdebit, haction, hpending, hcancelled, hfinalized⟩ := h
  obtain ⟨d, hd⟩ := Option.ne_none_iff_exists'.1 hdebit
  obtain ⟨r, hr⟩ := Option.ne_none_iff_exists'.1 hpending
  refine ⟨d, r, hd, hr, ?_⟩
  rw [cancelled, hd]
  dsimp only
  rw [if_neg haction, c.cancelPending_eq db (by simp [hd]), hr]
  dsimp only
  rw [hcancelled, hfinalized]
  rfl

/-! ## Calls keep the ledger filed -/

def cancelParts : List SlashPart := [.cancelRelease, .finalized, .cancelled]

variable {k : SlashKey} {x : LedgerRecord}
  {b : ℕ} {r : LedgerRecord} {p : SlashPart} {id : String} {op : String} {c' : ReverseCall}

theorem slashRow_of_mem_cancelRecords (hr : r.id = k.rowID .pending) (hb : b ≤ maxLedgerScanHeight)
    (hx : x ∈ cancelRecords b r) : ∃ p ∈ cancelParts, SlashRow k p x := by
  rcases mem_triple.1 hx with rfl | rfl | rfl
  · exact ⟨.cancelRelease, by simp [cancelParts],
      congrArg (· ++ "#cancel_release") hr, rfl, rfl, rfl, hb, nofun⟩
  · exact ⟨.finalized, by simp [cancelParts],
      congrArg (· ++ "#finalized_marker") hr, rfl, rfl, rfl, hb, nofun⟩
  · exact ⟨.cancelled, by simp [cancelParts],
      congrArg (· ++ "#cancelled_marker") hr, rfl, rfl, rfl, hb, nofun⟩

variable {db}

/-- What the reads of other calls find the same in two ledgers. -/
structure Framed (db db' : LedgerDb) : Prop where
  filed : Filed db'
  debit : ∀ c : ReverseCall, c.debit db' = c.debit db

theorem Framed.put {db₀ : LedgerDb} (h : Framed db₀ db) (hk : k.Valid) (hx : SlashRow k p x)
    (hp : p ∈ cancelParts ∨ p.isReverse = true) : Framed db₀ (db.put x) := by
  have htype : p.type ≠ .safetySlashConsensus := by
    cases p <;> simp [cancelParts, isReverse, type] at hp ⊢
  refine ⟨h.filed.put hk hx, fun c => ?_⟩
  rw [debit_put h.filed hk hx htype, h.debit]

theorem cancelled_induction {motive : LedgerDb → Prop} (h : Filed db) (hdb : motive db)
    (hput : ∀ db' p x, Framed db db' → c.key.Valid → p ∈ cancelParts → SlashRow c.key p x →
      motive db' → motive (db'.put x)) :
    Framed db (c.cancelled db) ∧ motive (c.cancelled db) := by
  have hframed : Framed db db := ⟨h, fun _ => rfl⟩
  by_cases hquiet : c.Quiet db
  · rw [c.cancelled_of_quiet db hquiet]
    exact ⟨hframed, hdb⟩
  obtain ⟨d, r, hdebit, hr, hcancelled⟩ := c.cancelled_of_not_quiet db hquiet
  have hk := key_valid h hdebit
  have hrows : ∀ x ∈ cancelRecords c.blockHeight r, ∃ p ∈ cancelParts, SlashRow c.key p x :=
    fun x hx => slashRow_of_mem_cancelRecords (pendingRow_eq_some hr).2.2.2 c.inScan hx
  have hall : ∀ rows : List LedgerRecord, (∀ x ∈ rows, ∃ p ∈ cancelParts, SlashRow c.key p x) →
      ∀ db', Framed db db' → motive db' →
        Framed db (db'.putAll rows) ∧ motive (db'.putAll rows) := by
    intro rows hrows
    induction rows with
    | nil => exact fun db' hframed hdb' => ⟨hframed, hdb'⟩
    | cons x rows ih =>
      intro db' hframed hdb'
      obtain ⟨p, hp, hx⟩ := hrows x mem_cons_self
      exact ih (fun y hy => hrows y (mem_cons_of_mem _ hy)) _
        (hframed.put hk hx (.inl hp)) (hput db' p x hframed hk hp hx hdb')
  rw [hcancelled]
  exact hall _ hrows db hframed hdb

theorem isReverse_of_mem_cancelParts (h : p ∈ cancelParts) : p.isReverse = false := by
  cases p <;> simp [cancelParts, isReverse] at h ⊢

section

variable (h : Filed db)
include h

theorem framed_cancelled : Framed db (c.cancelled db) :=
  (c.cancelled_induction (motive := fun _ => True) h trivial fun _ _ _ _ _ _ _ _ => trivial).1

theorem alreadyReversedConsensusAmt_cancelled (tx kind acct : String) :
    alreadyReversedConsensusAmt (c.cancelled db) tx kind acct =
      alreadyReversedConsensusAmt db tx kind acct := by
  refine (c.cancelled_induction (motive := fun db' => alreadyReversedConsensusAmt db' tx kind acct =
      alreadyReversedConsensusAmt db tx kind acct) h rfl ?_).2
  intro db' p x hframed hk hp hx hdb'
  rw [alreadyReversedConsensusAmt_put hframed.filed hk hx (isReverse_of_mem_cancelParts hp), hdb']

theorem get?_cancelled (hid : c.key.Valid → ∀ p ∈ cancelParts, c.key.rowID p ≠ id) :
    (c.cancelled db).get? id = db.get? id := by
  refine (c.cancelled_induction (motive := fun db' => db'.get? id = db.get? id) h rfl ?_).2
  intro db' p x _ hk hp hx hdb'
  rw [get?_put_of_ne (hx.id ▸ hid hk p hp), hdb']

theorem credit_eq_some {amount : Int} (hcredit : c.credit db = some amount) :
    c.key.Valid ∧ SlashRow c.key (.reverse (trimSpace c.carryingTxID)) (c.creditRow amount) := by
  cases hdebit : c.debit db with
  | none =>
    rw [credit, hdebit] at hcredit
    cases hcredit
  | some d =>
    rw [credit, hdebit, Option.bind_some] at hcredit
    dsimp only at hcredit
    split_ifs at hcredit with hnone
    have hpos : 0 < amount := by
      have := Option.some.inj hcredit
      omega
    exact ⟨key_valid h hdebit, rfl, rfl, rfl, rfl, c.inScan, fun _ => hpos⟩

theorem framed_apply : Framed db (c.apply db) := by
  rw [apply_eq]
  cases hcredit : c.credit db with
  | none => exact c.framed_cancelled h
  | some amount =>
    obtain ⟨hk, hrow⟩ := c.credit_eq_some h hcredit
    exact (c.framed_cancelled h).put hk hrow (.inr rfl)

end

/-! ## A repeated call cancels nothing -/

theorem isSome_pendingRow_iff {type : LedgerType} :
    (pendingRow db b type id).isSome ↔ ∃ r, db.get? id = some r ∧
      r.owner = protocolSlashPendingBurnAccount ∧ r.asset = .hive ∧ r.type = type ∧
      r.blockHeight ≤ b := by
  rw [Option.isSome_iff_exists]
  constructor
  · rintro ⟨r, hr⟩
    obtain ⟨hmem, howner, -, hheight, hasset, htype⟩ :=
      mem_getLedgerRange.1 (mem_of_find?_eq_some hr)
    have hid := (pendingRow_eq_some hr).2.2.2
    exact ⟨r, get?_eq_some_iff.2 ⟨hmem, hid⟩, howner, by simpa using hasset, by simpa using htype,
      hheight⟩
  rintro ⟨r, hget, howner, hasset, htype, hheight⟩
  obtain ⟨hmem, hid⟩ := get?_eq_some_iff.1 hget
  by_contra hnone
  exact pendingRow_eq_none (Option.not_isSome_iff_eq_none.1 (by
    rwa [Option.isSome_iff_exists])) hmem howner hheight hasset htype hid

theorem Quiet.put_credit (h : Filed db) (hquiet : c.Quiet db) (hk : k.Valid)
    (hx : SlashRow k (.reverse op) x) : c.Quiet (db.put x) := by
  have hsame : ∀ type, type ≠ .safetySlashConsensusReverse → ∀ id,
      pendingRow (db.put x) c.blockHeight type id = pendingRow db c.blockHeight type id :=
    fun type hne id => pendingRow_put h hk hx hne.symm _ _
  rw [Quiet, debit_put h hk hx nofun, hsame .safetySlashHiveBurnPending nofun,
    hsame .safetySlashHiveBurnPendingCancelled nofun,
    hsame .safetySlashHiveBurnPendingFinalized nofun]
  exact hquiet

theorem get?_cancelledMarker
    (hr : pendingRow db c.blockHeight .safetySlashHiveBurnPending (c.key.rowID .pending) = some r) :
    (db.putAll (cancelRecords c.blockHeight r)).get? (c.key.rowID .cancelled) =
      some (cancelledMarkerRecord c.blockHeight r) := by
  have hmarker : c.key.rowID .cancelled = (cancelledMarkerRecord c.blockHeight r).id :=
    (congrArg (· ++ "#cancelled_marker") (pendingRow_eq_some hr).2.2.2).symm
  rw [hmarker]
  exact get?_put_self _ _

theorem quiet_cancelled_self : c.Quiet (c.cancelled db) := by
  by_cases hquiet : c.Quiet db
  · rwa [c.cancelled_of_quiet db hquiet]
  obtain ⟨d, r, -, hr, hcancelled⟩ := c.cancelled_of_not_quiet db hquiet
  exact .inr (.inr (.inr (.inl (isSome_pendingRow_iff.2
    ⟨cancelledMarkerRecord c.blockHeight r, hcancelled ▸ c.get?_cancelledMarker hr, rfl, rfl, rfl,
      le_rfl⟩))))

theorem quiet_apply (h : Filed db) (hquiet : c.Quiet (c'.cancelled db)) :
    c.Quiet (c'.apply db) := by
  rw [apply_eq]
  cases hcredit : c'.credit db with
  | none => exact hquiet
  | some amount =>
    obtain ⟨hk, hrow⟩ := c'.credit_eq_some h hcredit
    exact hquiet.put_credit c (c'.framed_cancelled h).filed hk hrow

/-! ## What a call does to the credits -/

theorem alreadyReversedConsensusAmt_put_credit (h : Filed db) (hk : k.Valid)
    (hx : SlashRow k (.reverse op) x) (tx kind acct : String) :
    alreadyReversedConsensusAmt (db.put x) tx kind acct =
      alreadyReversedConsensusAmt db tx kind acct +
        if k.acct = normalizeHiveConsensusAccount acct ∧
            hasPrefix x.id (slashBaseID tx kind ++ "#consensus_reverse#") then
          x.amount - db.valueAt LedgerRecord.amount x.id
        else 0 := by
  have hcounted : ∀ {op' : String} {y : LedgerRecord}, SlashRow k (.reverse op') y → y.id = x.id →
      (if y.owner = normalizeHiveConsensusAccount acct ∧ 0 ≤ y.blockHeight ∧
          y.blockHeight ≤ maxLedgerScanHeight ∧ (∀ a ∈ some Asset.hiveConsensus, y.asset = a) ∧
          ([LedgerType.safetySlashConsensusReverse] = [] ∨
            y.type ∈ [LedgerType.safetySlashConsensusReverse]) then
        if hasPrefix y.id (slashBaseID tx kind ++ "#consensus_reverse#") then y.amount else 0
      else 0) =
        if k.acct = normalizeHiveConsensusAccount acct ∧
            hasPrefix x.id (slashBaseID tx kind ++ "#consensus_reverse#") then y.amount else 0 := by
    intro op' y hy hid
    have howner : y.owner = k.acct := hy.owner
    have hasset : y.asset = .hiveConsensus := hy.asset
    have htype : y.type = .safetySlashConsensusReverse := hy.type
    simp only [howner, hasset, htype, hid, hy.inScan, Nat.zero_le, ite_and]
    simp
  simp only [alreadyReversedConsensusAmt, sumWithPrefix, sum_getLedgerRange, sum_put]
  rw [hcounted hx rfl]
  cases hget : db.get? x.id with
  | none =>
    rw [valueAt_of_get?_eq_none hget, valueAt_of_get?_eq_none hget]
    split_ifs <;> omega
  | some y =>
    obtain ⟨hy, hid⟩ := get?_eq_some_iff.1 hget
    obtain ⟨q, hrow, hq⟩ := h.replaced hk hx hy hid
    obtain ⟨op', rfl⟩ : ∃ op', q = .reverse op' := by
      rcases hq with rfl | ⟨hq, -⟩
      · exact ⟨op, rfl⟩
      · cases q <;> simp [isReverse] at hq ⊢
    rw [valueAt_of_get?_eq_some hget, valueAt_of_get?_eq_some hget, hcounted hrow hid]
    split_ifs <;> omega

theorem hasPrefix_creditID :
    hasPrefix c.creditID (slashBaseID c.key.txID c.key.kind ++ "#consensus_reverse#") = true := by
  rw [hasPrefix_iff, creditID, rowID]
  split <;> simp [slashReverseID]

theorem get?_creditID_cancelled (h : Filed db) (hk : c'.key.Valid → c.key.Valid) :
    (c'.cancelled db).get? c.creditID = db.get? c.creditID := by
  refine c'.get?_cancelled h fun hk' p hp hid => ?_
  have hreverse := isReverse_of_mem_cancelParts hp
  rcases (rowID_part hk' (hk hk') hid).2 with rfl | ⟨hp, -⟩
  · cases hreverse
  · rw [hp] at hreverse
    cases hreverse

/-- A call whose id holds no credit lowers no total. -/
theorem le_apply (h : Filed db) (hnew : c.credit db ≠ none → db.get? c.creditID = none)
    (tx kind acct : String) : alreadyReversedConsensusAmt db tx kind acct ≤
      alreadyReversedConsensusAmt (c.apply db) tx kind acct := by
  rw [apply_eq]
  cases hcredit : c.credit db with
  | none => exact (c.alreadyReversedConsensusAmt_cancelled h tx kind acct).ge
  | some amount =>
    obtain ⟨hk, hrow⟩ := c.credit_eq_some h hcredit
    have hnone : (c.cancelled db).get? (c.creditRow amount).id = none :=
      (c.get?_creditID_cancelled h id).trans (hnew (by rw [hcredit]; exact Option.some_ne_none _))
    dsimp only
    rw [alreadyReversedConsensusAmt_put_credit (c.framed_cancelled h).filed hk hrow,
      c.alreadyReversedConsensusAmt_cancelled h, valueAt_of_get?_eq_none hnone]
    have hpos := hrow.credit rfl
    split_ifs <;> omega

theorem headroom_put_credit (h : Filed db) (hk : c.key.Valid)
    (hx : SlashRow c.key (.reverse op) x) (hid : x.id = c.creditID)
    (hnew : db.get? c.creditID = none) (slashAmt : Int) :
    c.headroom (db.put x) slashAmt = c.headroom db slashAmt - x.amount := by
  have hreversed : c.reversed (db.put x) = c.reversed db + x.amount := by
    rw [reversed, alreadyReversedConsensusAmt_put_credit h hk hx, hid,
      if_pos ⟨rfl, c.hasPrefix_creditID⟩, valueAt_of_get?_eq_none hnew, sub_zero]
    rfl
  rw [headroom, headroom, hreversed, alreadyFinalizedToReserveAmt, uncancelledPendingResidualAmt,
    h.getLedgerRange_put hk hx (by simp) (by simp [type]),
    h.getLedgerRange_put hk hx (by simp) (by simp [type]), ← alreadyFinalizedToReserveAmt,
    ← uncancelledPendingResidualAmt]
  omega

/-- The call asks for no less than the headroom it finds, or for no more than half of it. -/
def Settles (db : LedgerDb) : Prop :=
  ∀ d ∈ c.debit db, c.record.action ≠ .cancel →
    c.headroom (c.cancelled db) (-d.amount) ≤ c.record.amount ∨
      2 * c.record.amount ≤ c.headroom (c.cancelled db) (-d.amount)

/-- What a call credits when it is applied a second time: the headroom has lost the first
credit. -/
theorem credit_apply (h : Filed db) (hnew : db.get? c.creditID = none) {d : LedgerRecord}
    (hdebit : c.debit db = some d) {room : Int}
    (hroom : c.headroom (c.cancelled db) (-d.amount) = room) :
    c.credit (c.apply db) =
      if c.record.action = .cancel ∨ c.record.amount ≤ 0 ∨ room - (c.credit db).getD 0 ≤ 0 then none
      else some (min c.record.amount (room - (c.credit db).getD 0)) := by
  have hquiet : c.Quiet (c.apply db) := c.quiet_apply h c.quiet_cancelled_self
  have hless : c.headroom (c.apply db) (-d.amount) = room - (c.credit db).getD 0 := by
    rw [apply_eq, ← hroom]
    cases hcredit : c.credit db with
    | none => exact (sub_zero _).symm
    | some amount =>
      obtain ⟨hk, hrow⟩ := c.credit_eq_some h hcredit
      exact c.headroom_put_credit (c.framed_cancelled h).filed hk hrow rfl
        ((c.get?_creditID_cancelled h id).trans hnew) _
  rw [credit, (c.framed_apply h).debit, hdebit, Option.bind_some, c.cancelled_of_quiet _ hquiet,
    hless]

theorem apply_apply_eq (h : Filed db) : c.apply (c.apply db) =
    match c.credit (c.apply db) with
    | none => c.apply db
    | some amount => (c.apply db).put (c.creditRow amount) := by
  have hquiet : c.Quiet (c.apply db) := c.quiet_apply h c.quiet_cancelled_self
  rw [c.apply_eq (c.apply db), c.cancelled_of_quiet _ hquiet]

theorem put_creditRow {amount : Int} (hcredit : c.credit db = some amount) :
    (c.apply db).put (c.creditRow amount) = c.apply db := by
  rw [apply_eq, hcredit]
  exact put_of_mem (mem_put_self _ _)

/-- A call under a new id that asks for all of the headroom, or for at most half of it, changes
nothing when it is applied again. -/
theorem Settles.apply_apply (hsettles : c.Settles db) (h : Filed db)
    (hnew : c.key.Valid → db.get? c.creditID = none) : c.apply (c.apply db) = c.apply db := by
  rw [c.apply_apply_eq h]
  cases hdebit : c.debit db with
  | none =>
    have hnone : c.credit (c.apply db) = none := by
      rw [credit, (c.framed_apply h).debit, hdebit]
      rfl
    rw [hnone]
  | some d =>
    have hasked := hsettles d hdebit
    generalize hroom : c.headroom (c.cancelled db) (-d.amount) = room at hasked
    have hfirst : c.credit db =
        if c.record.action = .cancel ∨ c.record.amount ≤ 0 ∨ room ≤ 0 then none
        else some (min c.record.amount room) := by
      rw [← hroom, credit, hdebit, Option.bind_some]
    rw [c.credit_apply h (hnew (key_valid h hdebit)) hdebit hroom]
    split_ifs at hfirst with hnone
    · rw [hfirst, Option.getD_none, sub_zero, if_pos hnone]
    rw [hfirst, Option.getD_some]
    split_ifs with hspent
    · rfl
    · have hsame : min c.record.amount (room - min c.record.amount room) =
          min c.record.amount room := by
        have := hasked (not_or.1 hnone).1
        omega
      dsimp only
      rw [hsame, c.put_creditRow hfirst]

/-- A call leaves the credits under the ids of other calls alone. -/
theorem get?_creditID_apply_of_ne (h : Filed db) (hk : c.key.Valid)
    (hne : c'.creditID ≠ c.creditID) : (c'.apply db).get? c.creditID = db.get? c.creditID := by
  have hcancelled : (c'.cancelled db).get? c.creditID = db.get? c.creditID :=
    c.get?_creditID_cancelled h fun _ => hk
  rw [apply_eq]
  cases c'.credit db with
  | none => exact hcancelled
  | some amount => exact (get?_put_of_ne (x := c'.creditRow amount) hne).trans hcancelled

end ReverseCall

/-! ## Runs -/

structure ReverseRun where
  start : LedgerDb
  filed : Filed start
  calls : List ReverseCall

namespace ReverseRun

variable (w : ReverseRun)

variable (calls : List ReverseCall)

def after : LedgerDb := calls.foldl (fun db c => c.apply db) w.start

theorem after_concat (c : ReverseCall) : w.after (calls ++ [c]) = c.apply (w.after calls) := by
  rw [after, foldl_append]
  rfl

/-- No call lowers the bond credited back for any slash, and a call that was made before
leaves every row as it is. -/
def Accumulates : Prop :=
  ∀ done c rest, w.calls = done ++ c :: rest →
    (∀ tx kind acct, alreadyReversedConsensusAmt (w.after done) tx kind acct ≤
      alreadyReversedConsensusAmt (w.after (done ++ [c])) tx kind acct) ∧
    (c ∈ done → ∀ id, (w.after (done ++ [c])).get? id = (w.after done).get? id)

/-- The id of a call's credit is in no row of the start and not that of an earlier call. -/
def IsNew (done : List ReverseCall) (c : ReverseCall) : Prop :=
  w.start.get? c.creditID = none ∧ ∀ c' ∈ done, c'.creditID ≠ c.creditID

/-- An id is used for one call, which is repeated only right after itself. -/
def InTurn : Prop :=
  ∀ done c rest, w.calls = done ++ c :: rest →
    ∃ done' n, done = done' ++ replicate n c ∧ w.IsNew done' c

theorem filed_after : Filed (w.after calls) := by
  induction calls using reverseRecOn with
  | nil => exact w.filed
  | append_singleton calls c ih =>
    rw [after_concat]
    exact (c.framed_apply ih).filed

theorem IsNew.get?_after {done : List ReverseCall} {c : ReverseCall} (h : w.IsNew done c)
    (hk : c.key.Valid) : (w.after done).get? c.creditID = none := by
  obtain ⟨hstart, hne⟩ := h
  induction done using reverseRecOn with
  | nil => exact hstart
  | append_singleton done c' ih =>
    rw [after_concat, c.get?_creditID_apply_of_ne (w.filed_after done) hk (hne c' (by simp))]
    exact ih fun c' hc' => hne c' (by simp [hc'])

theorem after_replicate {done : List ReverseCall} {c : ReverseCall}
    (h : c.apply (c.apply (w.after done)) = c.apply (w.after done)) (n : ℕ) :
    w.after (done ++ replicate (n + 1) c) = c.apply (w.after done) := by
  induction n with
  | zero => exact w.after_concat done c
  | succ n ih => rw [replicate_succ', ← append_assoc, after_concat, ih, h]

/-- **Reverse credits accumulate** when an id is used for one call, which is repeated only right
after itself, and when each call that is repeated asked for all of the headroom it found, or for
at most half of it. -/
theorem accumulates_of_settles (hturn : w.InTurn) (hsettles : ∀ done c rest,
      w.calls = done ++ c :: c :: rest → w.IsNew done c → c.Settles (w.after done)) :
    w.Accumulates := by
  intro done c rest hcalls
  obtain ⟨done', n, rfl, hnew⟩ := hturn done c rest hcalls
  have hfiled := w.filed_after done'
  cases n with
  | zero =>
    rw [replicate_zero, append_nil, after_concat]
    refine ⟨c.le_apply hfiled fun hcredit => ?_, fun hc => absurd rfl (hnew.2 c hc)⟩
    obtain ⟨amount, hamount⟩ := Option.ne_none_iff_exists'.1 hcredit
    exact hnew.get?_after w (c.credit_eq_some hfiled hamount).1
  | succ n =>
    have hfirst : w.calls = done' ++ c :: c :: (replicate n c ++ rest) := by
      have hlast : replicate n c ++ [c] = c :: replicate n c := by
        rw [← replicate_succ', replicate_succ]
      rw [hcalls, append_assoc, replicate_succ, cons_append, append_cons (replicate n c), hlast,
        cons_append]
    have hagain := (hsettles done' c _ hfirst hnew).apply_apply c hfiled (hnew.get?_after w)
    rw [after_concat, w.after_replicate hagain, hagain]
    exact ⟨fun _ _ _ => le_rfl, fun _ _ => rfl⟩

def slashOfHundred : SafetySlashConsensusParams :=
  { account := "a", slashBps := 1000, txID := "s", blockHeight := 10, evidenceKind := "e"
    burnDelayBlocks := 50 }

/-- Cancel the burn and credit a part of the hundred back. -/
def creditBack (amount : Int) : ReverseCall where
  record := ⟨"s", "e", "a", .both, amount⟩
  carryingTxID := "t"
  blockHeight := 20
  inScan := by decide

def creditBackTwice (amount : Int) : ReverseRun where
  start := Collection.empty.putAll
    [slashDebitRecord slashOfHundred "hive:a" 100, slashPendingRecord slashOfHundred "hive:a" 100 60]
  filed := by
    have hk : (SlashKey.mk "s" "e" "hive:a").Valid := ⟨by decide, by decide, by decide⟩
    refine forall_mem_putAll (fun _ h => absurd h (not_mem_empty _)) fun r hr => .inl ?_
    rcases mem_pair.1 hr with rfl | rfl
    · exact ⟨_, .debit, hk, rfl, rfl, rfl, rfl, by decide, nofun⟩
    · exact ⟨_, .pending, hk, rfl, rfl, rfl, rfl, by decide, nofun⟩
  calls := replicate 2 (creditBack amount)

theorem accumulates_fortyBackTwice :
    (creditBackTwice 40).InTurn ∧ (creditBackTwice 40).Accumulates := by
  have hcall : ∀ {done c rest}, (creditBackTwice 40).calls = done ++ c :: rest →
      done = replicate done.length (creditBack 40) ∧ c = creditBack 40 := by
    intro done c rest hcalls
    have hall : ∀ y ∈ done ++ c :: rest, y = creditBack 40 := fun y hy =>
      eq_of_mem_replicate (hcalls ▸ hy)
    exact ⟨eq_replicate_iff.2 ⟨rfl, fun y hy => hall y (by simp [hy])⟩, hall c (by simp)⟩
  have hturn : (creditBackTwice 40).InTurn := by
    intro done c rest hcalls
    obtain ⟨hdone, rfl⟩ := hcall hcalls
    exact ⟨[], done.length, hdone, by decide +kernel, fun _ h => absurd h not_mem_nil⟩
  refine ⟨hturn, (creditBackTwice 40).accumulates_of_settles hturn fun done c rest hcalls _ => ?_⟩
  obtain ⟨-, rfl⟩ := hcall hcalls
  obtain rfl : done = [] := by
    have hlength := congrArg length hcalls
    rw [← length_eq_zero_iff]
    simp only [creditBackTwice, length_replicate, length_append, length_cons] at hlength
    omega
  intro d hd _
  obtain rfl : slashDebitRecord slashOfHundred "hive:a" 100 = d :=
    Option.some.inj ((show (creditBack 40).debit (creditBackTwice 40).start = some _ by
      decide +kernel).symm.trans hd)
  exact .inr (by decide +kernel)

/-- The second application finds forty of headroom and lowers the credit of sixty to forty. -/
theorem repeated_call_lowers_credit : ¬ (creditBackTwice 60).Accumulates ∧
      alreadyReversedConsensusAmt ((creditBackTwice 60).after [creditBack 60]) "s" "e" "a" = 60 ∧
      alreadyReversedConsensusAmt ((creditBackTwice 60).after [creditBack 60, creditBack 60])
        "s" "e" "a" = 40 := by
  have hfirst : alreadyReversedConsensusAmt ((creditBackTwice 60).after [creditBack 60])
      "s" "e" "a" = 60 := by
    decide +kernel
  have hsecond : alreadyReversedConsensusAmt
      ((creditBackTwice 60).after [creditBack 60, creditBack 60]) "s" "e" "a" = 40 := by
    decide +kernel
  refine ⟨fun h => ?_, hfirst, hsecond⟩
  have hle := (h [creditBack 60] (creditBack 60) [] rfl).1 "s" "e" "a"
  rw [hfirst] at hle
  exact absurd (hsecond ▸ hle) (by decide)

end ReverseRun

end VscNode
