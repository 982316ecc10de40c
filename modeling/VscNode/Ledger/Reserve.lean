import VscNode.Ledger.NoMint

/-!
# The insurance reserve

The reserve is credited by direct slashes and by promotions and debited by payouts.
A payout excludes its own debit from what it finds available, so that it can be
applied again, and is refused where it asks for more.

`ReserveBook` is what holds between any two writes: every credit of a slash has the
amount of the slash's debit, so that rewriting it changes nothing, and the credits
cover the payouts.
-/

namespace VscNode

open Collection List Option SlashPart Text

/-! ## What the rows say about the reserve -/

/-- What a row adds to the reserve. -/
def LedgerRecord.reserveEntry (r : LedgerRecord) : Int :=
  if r.type = .safetySlashReserve ∨ r.type = .reservePayoutDebit then r.amount else 0

variable (db : LedgerDb) (proposalID : String)

/-- The credits of the reserve less the payouts. -/
def reserveTotal : Int := db.sum (·.reserveEntry)

def payoutDebited : Int :=
  db.sum fun r => if r.type = .reservePayoutDebit ∧ r.txId = proposalID then -r.amount else 0

def payoutCredited : Int :=
  db.sum fun r => if r.type = .reservePayoutCredit ∧ r.txId = proposalID then r.amount else 0

/-- A payout whose rows stay apart from other rows and within the ledger scans. -/
structure PlainPayout (p : ReservePayoutParams) : Prop where
  inScan : p.blockHeight ≤ maxLedgerScanHeight
  idFree : Free '#' (trimSpace p.proposalID)

structure ValidPayout (p : ReservePayoutParams) : Prop extends PlainPayout p where
  id_ne : trimSpace p.proposalID ≠ ""
  recipient_ne : normalizeHiveConsensusAccount p.recipient ≠ ""
  amount_pos : 0 < p.amount

/-! ## The credits of one slash -/

def SlashPart.carrying : List SlashPart := [.pending, .reserve, .promoted]

theorem SlashPart.plain_of_mem_carrying {q : SlashPart} (h : q ∈ carrying) :
    q.Plain ∧ q ≠ .debit := by
  rcases mem_triple.1 h with rfl | rfl | rfl <;> exact ⟨trivial, nofun⟩

structure ReserveCase (txHeight : String → ℕ) (db : LedgerDb) (k : SlashKey) : Prop where
  debit : ∀ d, db.get? (k.rowID .debit) = some d → d.blockHeight = txHeight k.txID ∧ d.amount < 0
  carries : ∀ q ∈ SlashPart.carrying, ∀ r, db.get? (k.rowID q) = some r →
    ∃ d, db.get? (k.rowID .debit) = some d ∧ r.amount = -d.amount

section Case

variable {txHeight : String → ℕ} {db : LedgerDb} {k : SlashKey}

section

variable (h : ReserveCase txHeight db k)
include h

theorem ReserveCase.frame {db' : LedgerDb}
    (hsame : ∀ q : SlashPart, q.Plain → db'.get? (k.rowID q) = db.get? (k.rowID q)) :
    ReserveCase txHeight db' k where
  debit := by
    rw [hsame .debit trivial]
    exact h.debit
  carries := by
    intro q hq r hr
    rw [hsame q (plain_of_mem_carrying hq).1] at hr
    rw [hsame .debit trivial]
    exact h.carries q hq r hr

theorem ReserveCase.putDebit {x : LedgerRecord} (hk : k.Valid) (hx : SlashRow k .debit x)
    (hdate : x.blockHeight = txHeight k.txID) (hneg : x.amount < 0)
    (hsame : ∀ d, db.get? (k.rowID .debit) = some d → d.amount = x.amount) :
    ReserveCase txHeight (db.put x) k := by
  have hget : (db.put x).get? (k.rowID .debit) = some x := by
    rw [hx.get?_put hk trivial .debit trivial, if_pos rfl]
  constructor
  · intro d hd
    rw [hget, some.injEq] at hd
    subst hd
    exact ⟨hdate, hneg⟩
  intro q hq r hr
  obtain ⟨hplain, hne⟩ := plain_of_mem_carrying hq
  rw [hx.get?_put hk trivial q hplain, if_neg hne] at hr
  obtain ⟨d, hd, hamt⟩ := h.carries q hq r hr
  exact ⟨x, hget, by rw [hamt, hsame d hd]⟩

theorem ReserveCase.putRow {q : SlashPart} {x : LedgerRecord} (hk : k.Valid) (hx : SlashRow k q x)
    (hq : q.Plain) (hne : q ≠ .debit)
    (hamt : q ∈ carrying → ∃ d, db.get? (k.rowID .debit) = some d ∧ x.amount = -d.amount) :
    ReserveCase txHeight (db.put x) k := by
  have hdebit : (db.put x).get? (k.rowID .debit) = db.get? (k.rowID .debit) := by
    rw [hx.get?_put hk hq .debit trivial, if_neg hne.symm]
  constructor
  · rw [hdebit]
    exact h.debit
  intro q' hq' r hr
  rw [hx.get?_put hk hq q' (plain_of_mem_carrying hq').1] at hr
  rw [hdebit]
  by_cases hqq : q' = q
  · rw [if_pos hqq, some.injEq] at hr
    subst hr hqq
    exact hamt hq'
  · rw [if_neg hqq] at hr
    exact h.carries q' hq' r hr

end

theorem SlashRow.reserveEntry {q : SlashPart} {r : LedgerRecord} (h : SlashRow k q r) :
    r.reserveEntry = if q = .reserve ∨ q = .promoted then r.amount else 0 := by
  rw [LedgerRecord.reserveEntry, h.type]
  cases q <;> simp [SlashPart.type]

theorem reserveTotal_le_put {q : SlashPart} {x : LedgerRecord} (hshaped : Shaped db) (hk : k.Valid)
    (hq : q.Plain) (hx : SlashRow k q x) (hcase : ReserveCase txHeight db k)
    (hcase' : ReserveCase txHeight (db.put x) k) : reserveTotal db ≤ reserveTotal (db.put x) := by
  have hsum : reserveTotal (db.put x) =
      reserveTotal db + x.reserveEntry - db.valueAt (·.reserveEntry) (k.rowID q) := by
    rw [reserveTotal, sum_put, hx.id]
    rfl
  have hself : (db.put x).get? (k.rowID q) = some x := by
    rw [hx.get?_put hk hq q hq, if_pos rfl]
  rw [hsum, hx.reserveEntry]
  by_cases hcredit : q = .reserve ∨ q = .promoted
  · have hcarry : q ∈ carrying ∧ debit ≠ q := by
      rcases hcredit with rfl | rfl <;> exact ⟨by decide, nofun⟩
    obtain ⟨d, hd, hamt⟩ := hcase'.carries q hcarry.1 x hself
    have hneg := (hcase'.debit d hd).2
    rw [if_pos hcredit]
    cases hget : db.get? (k.rowID q) with
    | none =>
      rw [valueAt_of_get?_eq_none hget]
      omega
    | some r =>
      -- the old row and the new one both carry the amount of the debit
      obtain ⟨d', hd', hamt'⟩ := hcase.carries q hcarry.1 r hget
      rw [hx.get?_put hk hq .debit trivial, if_neg hcarry.2, hd', some.injEq] at hd
      subst hd
      rw [valueAt_of_get?_eq_some hget, (hshaped.slashRow hk hget hq).reserveEntry, if_pos hcredit]
      omega
  have hzero : db.valueAt (·.reserveEntry) (k.rowID q) = 0 := valueAt_eq_zero fun r hr hid => by
    rw [(hshaped.slashRow hk (get?_eq_some_iff.2 ⟨hr, hid⟩) hq).reserveEntry, if_neg hcredit]
  rw [if_neg hcredit, hzero, add_zero, sub_zero]

end Case

/-! ## The whole ledger -/

def PayoutRow (terms : String → Option (String × Int)) (db : LedgerDb) (r : LedgerRecord) : Prop :=
  ∃ p, ValidPayout p ∧
    terms (trimSpace p.proposalID) = some (normalizeHiveConsensusAccount p.recipient, p.amount) ∧
    (r = reservePayoutDebit p ∨ r = reservePayoutCredit p ∧
      ∃ d, db.get? (trimSpace p.proposalID ++ "#reserve_payout#debit") = some d)

theorem PayoutRow.put {terms : String → Option (String × Int)} {db : LedgerDb} {r x : LedgerRecord}
    (h : PayoutRow terms db r) : PayoutRow terms (db.put x) r := by
  obtain ⟨p, hp, hterm, hrow⟩ := h
  refine ⟨p, hp, hterm, hrow.imp_right (.imp_right (.rec fun d hd => ?_))⟩
  rw [get?_put]
  split
  · exact ⟨x, rfl⟩
  · exact ⟨d, hd⟩

/-- What holds of the reserve between two writes, where `terms` are the recipient and
the amount of each proposal. -/
structure ReserveBook (txHeight : String → ℕ) (terms : String → Option (String × Int))
    (db : LedgerDb) : Prop where
  shaped : Shaped db
  cursorRow : ∀ r ∈ db, r.type = .safetySlashBurnFinalizeCursor →
    r.id = safetySlashFinalizeCursorRowID
  payouts : ∀ r ∈ db, r.type = .reservePayoutDebit ∨ r.type = .reservePayoutCredit →
    PayoutRow terms db r
  cases : ∀ k : SlashKey, k.Valid → ReserveCase txHeight db k
  nonneg : 0 ≤ reserveTotal db

namespace ReserveBook

variable {txHeight : String → ℕ} {terms terms' : String → Option (String × Int)} {db : LedgerDb}
  {k : SlashKey}

theorem empty (txHeight : String → ℕ) (terms : String → Option (String × Int)) :
    ReserveBook txHeight terms Collection.empty where
  shaped := fun r hr => absurd hr (not_mem_empty r)
  cursorRow := fun r hr => absurd hr (not_mem_empty r)
  payouts := fun r hr => absurd hr (not_mem_empty r)
  cases := fun k _ => ⟨by simp, by simp⟩
  nonneg := le_rfl

/-- New proposals change nothing about the rows. -/
theorem mono (h : ReserveBook txHeight terms db)
    (hterms : ∀ id t, terms id = some t → terms' id = some t) : ReserveBook txHeight terms' db := by
  refine ⟨h.shaped, h.cursorRow, fun r hr htype => ?_, h.cases, h.nonneg⟩
  obtain ⟨p, hp, hterm, hrow⟩ := h.payouts r hr htype
  exact ⟨p, hp, hterms _ _ hterm, hrow⟩

/-! ### Reading the reserve -/

variable {r x : LedgerRecord} {id recipient : String} {p : ReservePayoutParams}

theorem slashRow_or_debit (h : ReserveBook txHeight terms db) (hr : r ∈ db)
    (hcounts : r.type = .safetySlashReserve ∨ r.type = .reservePayoutDebit) :
    (∃ k q, k.Valid ∧ q.Plain ∧ SlashRow k q r) ∨ ∃ p, PlainPayout p ∧ r = reservePayoutDebit p := by
  rcases h.shaped r hr with hforeign | hrow
  · have htype : r.type = .reservePayoutDebit := by
      rcases hforeign.type with ht | ht | ht <;> simp [ht] at hcounts ⊢
    obtain ⟨p, hp, -, rfl | ⟨rfl, -⟩⟩ := h.payouts r hr (.inl htype)
    · exact .inr ⟨p, hp.toPlainPayout, rfl⟩
    · cases htype
  · exact .inl hrow

/-- A row that counts lies where the scan of the reserve looks. -/
theorem reserveAvailable_eq (h : ReserveBook txHeight terms db) (id : String) :
    reserveAvailable db id = reserveTotal db - db.valueAt (·.reserveEntry) id := by
  rw [reserveTotal, ← sum_except, reserveAvailable, LedgerDb.sum_getLedgerRange]
  refine sum_congr fun r hr => ?_
  have hscan : (r.type = .safetySlashReserve ∨ r.type = .reservePayoutDebit) →
      r.owner = protocolSlashReserveAccount ∧ r.blockHeight ≤ maxLedgerScanHeight ∧
        r.asset = .hive := by
    intro htype
    rcases h.slashRow_or_debit hr htype with ⟨k, q, -, -, hrow⟩ | ⟨p, hp, rfl⟩
    · rw [hrow.owner, hrow.asset]
      rw [hrow.type] at htype
      cases q <;> simp [type] at htype <;> exact ⟨rfl, hrow.inScan, rfl⟩
    · exact ⟨rfl, hp.inScan, rfl⟩
  rw [LedgerRecord.reserveEntry]
  by_cases htype : r.type = .safetySlashReserve ∨ r.type = .reservePayoutDebit
  · obtain ⟨howner, hle, hasset⟩ := hscan htype
    simp [htype, howner, hle, hasset]
  · simp [htype]

/-! ### Rows of slashes -/

theorem putRow {q : SlashPart} (h : ReserveBook txHeight terms db) (hk : k.Valid)
    (hx : SlashRow k q x) (hq : q.Plain) (hcase : ReserveCase txHeight (db.put x) k) :
    ReserveBook txHeight terms (db.put x) := by
  have htype : x.type ≠ .reservePayoutDebit ∧ x.type ≠ .reservePayoutCredit ∧
      x.type ≠ .safetySlashBurnFinalizeCursor := by
    rw [hx.type]
    cases q <;> simp [type]
  refine ⟨h.shaped.put (.inr ⟨k, q, hk, hq, hx⟩), ?_, ?_, ?_, ?_⟩
  · exact forall_mem_put (fun hcur => absurd hcur htype.2.2) h.cursorRow
  · exact forall_mem_put (fun hpay => (hpay.elim htype.1 htype.2.1).elim)
      fun r hr hpay => (h.payouts r hr hpay).put
  · intro k' hk'
    by_cases hne : k' = k
    · rw [hne]
      exact hcase
    exact (h.cases k' hk').frame fun q' hq' =>
      hx.get?_put_other hk hq hk' q' hq' fun hkey => absurd hkey hne
  · exact h.nonneg.trans (reserveTotal_le_put h.shaped hk hq hx (h.cases k hk) hcase)

theorem slashTakes_eq {s : LedgerDbs} {p : SafetySlashConsensusParams} {acct : String} {amt : Int}
    (h : ReserveBook txHeight terms s.ledger) (hp : CarriedSlash txHeight p)
    (hk : (p.slashKey acct).Valid) (htakes : SlashTakes s p acct amt) {d : LedgerRecord}
    (hd : s.ledger.get? ((p.slashKey acct).rowID .debit) = some d) : d.amount = -amt := by
  have hrow := h.shaped.slashRow hk hd trivial
  obtain ⟨hdate, hneg⟩ := (h.cases _ hk).debit d hd
  have hat := rowAt_of_mem (get?_eq_some_iff.1 hd).1
  rw [hrow.owner, hdate, hrow.asset, hrow.id, show txHeight (p.slashKey acct).txID = p.blockHeight
    from hp.height.symm] at hat
  cases htakes with
  | recorded debit hdebit =>
    rw [show rowAt s.ledger acct p.blockHeight .hiveConsensus
      (slashDebitID p.txID p.evidenceKind acct) = some d from hat, some.injEq] at hdebit
    rw [hdebit, neg_neg]
  | computed hnone hbond =>
    have := hnone d hat
    omega

theorem slash {s : LedgerDbs} {p : SafetySlashConsensusParams}
    (h : ReserveBook txHeight terms s.ledger) (hp : CarriedSlash txHeight p) (n : ℕ) :
    ReserveBook txHeight terms (s.ledger.putAll ((slashWrites s p).take n)) := by
  obtain ⟨acct, hacct⟩ : ∃ acct, normalizeHiveConsensusAccount p.account = acct := ⟨_, rfl⟩
  have hk := hp.valid hacct
  rcases slashWrites_cases (s := s) hacct with
    hnil | ⟨amt, companion, hamt, htakes, hcompanion, -, hrows⟩
  · rw [hnil, take_nil]
    exact h
  have hdebit : SlashRow (p.slashKey acct) .debit (slashDebitRecord p acct amt) :=
    ⟨rfl, rfl, rfl, rfl, hp.inScan, by rintro ⟨⟩⟩
  have hsame : ∀ d, s.ledger.get? ((p.slashKey acct).rowID .debit) = some d → d.amount = -amt :=
    fun d hd => h.slashTakes_eq hp hk htakes hd
  have h₁ := h.putRow hk hdebit trivial
    ((h.cases _ hk).putDebit hk hdebit hp.height (neg_lt_zero.2 hamt) hsame)
  have hself : (s.ledger.put (slashDebitRecord p acct amt)).get?
      ((p.slashKey acct).rowID .debit) = some (slashDebitRecord p acct amt) := by
    rw [hdebit.get?_put hk trivial .debit trivial, if_pos rfl]
  have hcompany : ∃ q ∈ carrying, SlashRow (p.slashKey acct) q companion ∧
      companion.amount = amt := by
    cases hcompanion with
    | reserve _ => exact ⟨.reserve, by decide, ⟨rfl, rfl, rfl, rfl, hp.inScan, by rintro ⟨⟩⟩, rfl⟩
    | pending m _ _ _ => exact ⟨.pending, by decide, ⟨rfl, rfl, rfl, rfl, hp.inScan, by rintro ⟨⟩⟩, rfl⟩
  obtain ⟨q, hq, hrow, hcamt⟩ := hcompany
  obtain ⟨hplain, hne⟩ := plain_of_mem_carrying hq
  have h₂ := h₁.putRow hk hrow hplain ((h₁.cases _ hk).putRow hk hrow hplain hne fun _ =>
    ⟨_, hself, by rw [hcamt, slashDebitRecord, neg_neg]⟩)
  rw [hrows]
  rcases n with _ | _ | n
  · exact h
  · exact h₁
  · simpa using h₂

theorem putOther {q : SlashPart} (h : ReserveBook txHeight terms db) (hk : k.Valid)
    (hx : SlashRow k q x) (hq : q.Plain) (hne : q ∉ .debit :: carrying) :
    ReserveBook txHeight terms (db.put x) :=
  h.putRow hk hx hq ((h.cases k hk).putRow hk hx hq (fun hd => hne (hd ▸ mem_cons_self))
    fun hc => absurd (mem_cons_of_mem _ hc) hne)

theorem cancel {p : CancelPendingSafetySlashBurnParams} (h : ReserveBook txHeight terms db)
    (hscan : p.blockHeight ≤ maxLedgerScanHeight) (n : ℕ) :
    ReserveBook txHeight terms (db.putAll ((cancelWrites db p).take n)) := by
  rcases cancelWrites_cases db p with hnil | ⟨r, hpending, -, hrows⟩
  · rw [hnil, take_nil]
    exact h
  obtain ⟨hmem, -, htype, -⟩ := pendingRow_eq_some hpending
  obtain ⟨k, hk, hrow, -⟩ := h.shaped.key_of_type hmem (.inr rfl) htype
  obtain ⟨hrelease, hmarker, hcancelled⟩ := slashRow_cancelRecords hrow hscan
  rw [hrows, cancelRecords]
  have h₁ := h.putOther hk hrelease trivial (by decide)
  have h₂ := h₁.putOther hk hmarker trivial (by decide)
  have h₃ := h₂.putOther hk hcancelled trivial (by decide)
  match n with
  | 0 => exact h
  | 1 => exact h₁
  | 2 => exact h₂
  | n + 3 => simpa using h₃

def CarriedBy (db : LedgerDb) (r : LedgerRecord) : Prop :=
  ∃ k : SlashKey, k.Valid ∧ SlashRow k .pending r ∧
    ∃ d, db.get? (k.rowID .debit) = some d ∧ r.amount = -d.amount

theorem CarriedBy.put {q : SlashPart} (h : CarriedBy db r) (hk : k.Valid) (hx : SlashRow k q x)
    (hq : q.Plain) (hne : q ≠ .debit) : CarriedBy (db.put x) r := by
  obtain ⟨k', hk', hrow, d, hd, hamt⟩ := h
  exact ⟨k', hk', hrow, d, by
    rw [hx.get?_put_other hk hq hk' .debit trivial fun _ => hne.symm, hd], hamt⟩

theorem promoteAll {e : ℕ} (hscan : e ≤ maxLedgerScanHeight) (rows : List LedgerRecord)
    (h : ReserveBook txHeight terms db) (hrows : ∀ r ∈ rows, CarriedBy db r) (n : ℕ) :
    ReserveBook txHeight terms (db.putAll ((rows.flatMap (promotionRecords e)).take n)) := by
  induction rows generalizing db n with
  | nil => simpa using h
  | cons r rows ih =>
    obtain ⟨k, hk, hrow, d, hd, hamt⟩ := hrows r (by simp)
    obtain ⟨hrelease, hprom, hmarker⟩ := slashRow_promotionRecords hrow hscan
    have h₁ := h.putOther hk hrelease trivial (by decide)
    have hd₁ : (db.put (pendingReleaseRecord e r)).get? (k.rowID .debit) = some d := by
      rw [hrelease.get?_put_other hk trivial hk .debit trivial nofun, hd]
    have h₂ := h₁.putRow hk hprom trivial
      ((h₁.cases k hk).putRow hk hprom trivial nofun fun _ => ⟨d, hd₁, hamt⟩)
    have h₃ := h₂.putOther hk hmarker trivial (by decide)
    have hkeep : ∀ r' ∈ rows, CarriedBy (((db.put (pendingReleaseRecord e r)).put
        (promotedReserveRecord e r)).put (finalizedMarkerRecord e r)) r' := fun r' hr' =>
      (((hrows r' (mem_cons_of_mem _ hr')).put hk hrelease trivial nofun).put hk hprom trivial
        nofun).put hk hmarker trivial nofun
    rw [flatMap_cons, promotionRecords]
    match n with
    | 0 => exact h
    | 1 => exact h₁
    | 2 => exact h₂
    | n + 3 => exact ih h₃ hkeep n

/-! ### Rows of other kinds -/

section

variable (h : ReserveBook txHeight terms db)
include h

theorem valueAt_reserveEntry (hslash : (fields '#' id)[1]? ≠ some "safety_slash")
    (hdebit : (fields '#' id)[2]? ≠ some "debit") : db.valueAt (·.reserveEntry) id = 0 := by
  refine valueAt_eq_zero fun r hr hid => if_neg fun hcounts => ?_
  subst hid
  rcases h.slashRow_or_debit hr hcounts with ⟨k, q, hk, hq, hrow⟩ | ⟨p, hp, rfl⟩
  · rw [hrow.id, hk.fields_rowID hq] at hslash
    exact hslash rfl
  · rw [reservePayoutDebit_id, fields_reservePayoutDebitID, fields_of_free hp.idFree] at hdebit
    exact hdebit rfl

theorem putForeign (hx : ForeignRow x)
    (hcur : x.type = .safetySlashBurnFinalizeCursor → x.id = safetySlashFinalizeCursorRowID)
    (hpay : x.type = .reservePayoutDebit ∨ x.type = .reservePayoutCredit → PayoutRow terms (db.put
      x) x)
    (hcover : db.valueAt (·.reserveEntry) x.id ≤ reserveTotal db + x.reserveEntry) :
    ReserveBook txHeight terms (db.put x) := by
  refine ⟨h.shaped.put (.inl hx), ?_, ?_, ?_, ?_⟩
  · exact forall_mem_put hcur h.cursorRow
  · exact forall_mem_put hpay fun r hr htype => (h.payouts r hr htype).put
  · exact fun k hk => (h.cases k hk).frame fun q hq => get?_put_of_ne (hx.id_ne hk hq)
  · rw [reserveTotal, sum_put]
    exact sub_nonneg.2 hcover

theorem finalize {e : ℕ} (hscan : e ≤ maxLedgerScanHeight) (n : ℕ) :
    ReserveBook txHeight terms (db.putAll ((finalizeWrites db e).take n)) := by
  rw [finalizeWrites]
  split
  · rw [take_nil]
    exact h
  rw [take_append, putAll_append]
  have hprom := h.promoteAll hscan (promotedRows db e) (fun r hr => by
    obtain ⟨hmem, -, htype, -⟩ := mem_promotedRows hr
    obtain ⟨k, hk, hrow, hget⟩ := h.shaped.key_of_type hmem (.inr rfl) htype
    exact ⟨k, hk, hrow, (h.cases k hk).carries .pending (by decide) r hget⟩) n
  have hcursor : ∀ c, ReserveBook txHeight terms ((db.putAll (((promotedRows db e).flatMap
      (promotionRecords e)).take n)).put (finalizeCursorRecord e c)) := by
    intro c
    refine hprom.putForeign (foreignRow_finalizeCursorRecord e c) (fun _ => rfl)
      (by simp [finalizeCursorRecord]) ?_
    have hzero : (db.putAll (((promotedRows db e).flatMap (promotionRecords e)).take n)).valueAt
        (·.reserveEntry) (finalizeCursorRecord e c).id = 0 := hprom.valueAt_reserveEntry
      (show (fields '#' safetySlashFinalizeCursorRowID)[1]? ≠ _ by decide)
      (show (fields '#' safetySlashFinalizeCursorRowID)[2]? ≠ _ by decide)
    rw [hzero]
    simpa [LedgerRecord.reserveEntry, finalizeCursorRecord] using hprom.nonneg
  rw [cursorWrites]
  split
  · cases n - ((promotedRows db e).flatMap (promotionRecords e)).length with
    | zero => exact hprom
    | succ m => simpa using hcursor _
  · rw [take_nil]
    exact hprom

end

/-! ### Payouts -/

structure OnTerms (terms : String → Option (String × Int)) (p : ReservePayoutParams) : Prop extends
    PlainPayout p where
  term : terms (trimSpace p.proposalID) = some (normalizeHiveConsensusAccount p.recipient, p.amount)

section

variable (h : ReserveBook txHeight terms db)

include h

theorem payout (hp : OnTerms terms p) (n : ℕ) :
    ReserveBook txHeight terms (db.putAll ((payoutWrites db p).take n)) := by
  rcases payoutWrites_cases db p with hnil | ⟨hrows, hamt, hid, hrecipient, havail⟩
  · rw [hnil, take_nil]
    exact h
  have hvalid : ValidPayout p := ⟨hp.toPlainPayout, hid, hrecipient, hamt⟩
  rw [h.reserveAvailable_eq] at havail
  have hentry : (reservePayoutDebit p).reserveEntry = -p.amount := rfl
  have h₁ : ReserveBook txHeight terms (db.put (reservePayoutDebit p)) :=
    h.putForeign (foreignRow_reservePayoutDebit hp.idFree) (by simp [reservePayoutDebit])
      (fun _ => ⟨p, hvalid, hp.term, .inl rfl⟩) (by
        rw [hentry, reservePayoutDebit_id]
        omega)
  have h₂ : ReserveBook txHeight terms
      ((db.put (reservePayoutDebit p)).put (reservePayoutCredit p)) := by
    refine h₁.putForeign (foreignRow_reservePayoutCredit hp.idFree hrecipient)
      (by simp [reservePayoutCredit]) ?_ ?_
    · refine fun _ => ⟨p, hvalid, hp.term, .inr ⟨rfl, ?_⟩⟩
      have hget : ∃ d, (db.putAll [reservePayoutDebit p, reservePayoutCredit p]).get?
          (reservePayoutDebit p).id = some d :=
        exists_get?_putAll (.inr ⟨reservePayoutDebit p, by simp, rfl⟩)
      exact hget
    have hfields : fields '#' (reservePayoutCredit p).id = [trimSpace p.proposalID] ++
        ["reserve_payout"] ++ "credit" :: fields '#' (normalizeHiveConsensusAccount p.recipient) := by
      rw [reservePayoutCredit_id, fields_creditID, fields_of_free hp.idFree]
    rw [h₁.valueAt_reserveEntry (by rw [hfields]; simp) (by rw [hfields]; simp)]
    simpa [LedgerRecord.reserveEntry, reservePayoutCredit] using h₁.nonneg
  rw [hrows]
  rcases n with _ | _ | n
  · exact h
  · exact h₁
  · simpa using h₂

theorem payoutRow_of_fields (hr : r ∈ db)
    (hfields : (fields '#' r.id)[1]? = some "reserve_payout") : PayoutRow terms db r := by
  rcases h.shaped r hr with hforeign | ⟨k, q, hk, hq, hrow⟩
  · rcases hforeign.type with ht | ht | ht
    · exact h.payouts r hr (.inl ht)
    · exact h.payouts r hr (.inr ht)
    · rw [h.cursorRow r hr ht, fields_of_free (by decide)] at hfields
      cases hfields
  · rw [hrow.id, hk.fields_rowID hq] at hfields
    simp at hfields

section

variable (hfree : Free '#' id)
include hfree

theorem debit_row (hr : db.get? (id ++ "#reserve_payout#debit") = some r) :
    ∃ p, trimSpace p.proposalID = id ∧ r = reservePayoutDebit p ∧
      terms id = some (normalizeHiveConsensusAccount p.recipient, p.amount) ∧ ValidPayout p := by
  obtain ⟨hmem, hid⟩ := get?_eq_some_iff.1 hr
  have hfields : fields '#' r.id = [id, "reserve_payout", "debit"] := by
    rw [show r.id = id ++ "#reserve_payout#debit" from hid, fields_reservePayoutDebitID,
      fields_of_free hfree]
    rfl
  obtain ⟨p, hp, hterm, rfl | ⟨rfl, -⟩⟩ := h.payoutRow_of_fields hmem (by rw [hfields]; rfl)
  · rw [reservePayoutDebit_id, fields_reservePayoutDebitID, fields_of_free hp.idFree] at hfields
    obtain rfl : trimSpace p.proposalID = id := (cons.inj hfields).1
    exact ⟨p, rfl, rfl, hterm, hp⟩
  · rw [reservePayoutCredit_id, fields_creditID, fields_of_free hp.idFree] at hfields
    simp at hfields

theorem credit_row (hr : db.get? (id ++ "#reserve_payout#credit#" ++ recipient) = some r) :
    ∃ p, trimSpace p.proposalID = id ∧ r = reservePayoutCredit p ∧
      terms id = some (normalizeHiveConsensusAccount p.recipient, p.amount) ∧
      ∃ d, db.get? (id ++ "#reserve_payout#debit") = some d := by
  obtain ⟨hmem, hid⟩ := get?_eq_some_iff.1 hr
  have hfields : fields '#' r.id = [id] ++ ["reserve_payout"] ++ "credit" :: fields '#' recipient := by
    rw [show r.id = id ++ "#reserve_payout#credit#" ++ recipient from hid, fields_creditID,
      fields_of_free hfree]
  obtain ⟨p, hp, hterm, rfl | ⟨rfl, hd⟩⟩ := h.payoutRow_of_fields hmem (by rw [hfields]; rfl)
  · rw [reservePayoutDebit_id, fields_reservePayoutDebitID, fields_of_free hp.idFree] at hfields
    simp at hfields
  rw [reservePayoutCredit_id, fields_creditID, fields_of_free hp.idFree] at hfields
  obtain rfl : trimSpace p.proposalID = id := (cons.inj hfields).1
  exact ⟨p, rfl, rfl, hterm, hd⟩

/-- What a proposal has taken: nothing, or its amount. -/
theorem payoutDebited_eq {amt : Int} (hterm : terms id = some (recipient, amt)) :
    payoutDebited db id =
      if (db.get? (id ++ "#reserve_payout#debit")).isSome then amt else 0 := by
  rw [payoutDebited, sum_eq_valueAt (k := id ++ "#reserve_payout#debit")]
  · cases hget : db.get? (id ++ "#reserve_payout#debit") with
    | none => rw [valueAt_of_get?_eq_none hget]; rfl
    | some r =>
      obtain ⟨p, rfl, rfl, hterm', -⟩ := h.debit_row hfree hget
      rw [hterm, some.injEq, Prod.mk.injEq] at hterm'
      rw [valueAt_of_get?_eq_some hget]
      simp [reservePayoutDebit, hterm'.2]
  intro r hr hne
  refine if_neg fun ⟨htype, htx⟩ => hne ?_
  obtain ⟨p, -, -, rfl | ⟨rfl, -⟩⟩ := h.payouts r hr (.inl htype)
  · rw [← htx]
    rfl
  · cases htype

/-- What a proposal has paid: nothing, or its amount. -/
theorem payoutCredited_eq {amt : Int} (hterm : terms id = some (recipient, amt)) :
    payoutCredited db id =
      if (db.get? (id ++ "#reserve_payout#credit#" ++ recipient)).isSome then amt else 0 := by
  rw [payoutCredited, sum_eq_valueAt (k := id ++ "#reserve_payout#credit#" ++ recipient)]
  · cases hget : db.get? (id ++ "#reserve_payout#credit#" ++ recipient) with
    | none => rw [valueAt_of_get?_eq_none hget]; rfl
    | some r =>
      obtain ⟨p, rfl, rfl, hterm', -⟩ := h.credit_row hfree hget
      rw [hterm, some.injEq, Prod.mk.injEq] at hterm'
      rw [valueAt_of_get?_eq_some hget]
      simp [reservePayoutCredit, hterm'.2]
  intro r hr hne
  refine if_neg (mt (fun h => ?_) hne)
  obtain ⟨htype, htx⟩ := h
  obtain ⟨p, -, hterm', rfl | ⟨rfl, -⟩⟩ := h.payouts r hr (.inr htype)
  · cases htype
  rw [show trimSpace p.proposalID = id from htx, hterm, some.injEq,
    Prod.mk.injEq] at hterm'
  rw [hterm'.1, ← htx]
  rfl

/-- A proposal has paid no more than it has taken, and neither more than its amount. -/
theorem payout_once {amt : Int} (hterm : terms id = some (recipient, amt)) :
    (payoutDebited db id = 0 ∧ payoutCredited db id = 0) ∨
      payoutDebited db id = amt ∧ (payoutCredited db id = 0 ∨ payoutCredited db id = amt) := by
  rw [h.payoutDebited_eq hfree hterm, h.payoutCredited_eq hfree hterm]
  cases hcredit : db.get? (id ++ "#reserve_payout#credit#" ++ recipient) with
  | none =>
    cases hdebit : db.get? (id ++ "#reserve_payout#debit") with
    | none => exact .inl ⟨rfl, rfl⟩
    | some d => exact .inr ⟨rfl, .inl rfl⟩
  | some r =>
    obtain ⟨-, -, -, -, d, hd⟩ := h.credit_row hfree hcredit
    rw [hd]
    exact .inr ⟨rfl, .inr rfl⟩

end

theorem reservePayout_ok_of_debit (hp : OnTerms terms p)
    {d : LedgerRecord} (hd : db.get? (trimSpace p.proposalID ++ "#reserve_payout#debit") = some d) :
    (reservePayout db p).2.ok = true := by
  obtain ⟨p', hid, rfl, hterm', hvalid⟩ := h.debit_row hp.idFree hd
  rw [hp.term, some.injEq, Prod.mk.injEq] at hterm'
  have hparams : ¬(trimSpace p.proposalID = "" ∨ normalizeHiveConsensusAccount p.recipient = "") := by
    rw [hterm'.1, ← hid]
    exact not_or.2 ⟨hvalid.id_ne, hvalid.recipient_ne⟩
  have hamt : 0 < p.amount := hterm'.2 ▸ hvalid.amount_pos
  have havail : reserveAvailable db (trimSpace p.proposalID ++ "#reserve_payout#debit") =
      reserveTotal db + p.amount := by
    rw [h.reserveAvailable_eq, valueAt_of_get?_eq_some hd, hterm'.2]
    simp [LedgerRecord.reserveEntry, reservePayoutDebit]
  have hnonneg := h.nonneg
  simp only [reservePayout]
  rw [if_neg hparams, if_neg (by omega), havail, if_neg (by omega), if_neg (by omega)]

omit h in
theorem get?_reservePayout (hp : OnTerms terms p) (hok : (reservePayout db p).2.ok = true) :
    (reservePayout db p).1.get? (trimSpace p.proposalID ++ "#reserve_payout#debit") =
        some (reservePayoutDebit p) ∧
      (reservePayout db p).1.get? (trimSpace p.proposalID ++ "#reserve_payout#credit#" ++
        normalizeHiveConsensusAccount p.recipient) = some (reservePayoutCredit p) := by
  have hne : (reservePayoutCredit p).id ≠ (reservePayoutDebit p).id := by
    intro heq
    have hf := congrArg (fields '#') heq
    rw [reservePayoutCredit_id, reservePayoutDebit_id, fields_creditID,
      fields_reservePayoutDebitID, fields_of_free hp.idFree] at hf
    simp at hf
  rw [reservePayout_eq, payoutWrites, if_pos hok, putAll_cons, putAll_cons, putAll_nil,
    ← reservePayoutDebit_id, get?_put_of_ne hne]
  exact ⟨get?_put_self _ _, get?_put_self _ _⟩

/-- Where both rows of a payout stand, the payout succeeds, and it changes nothing exactly
when it is of the height of both. -/
theorem reservePayout_unchanged_iff (hp : OnTerms terms p) {d c : LedgerRecord}
    (hd : db.get? (trimSpace p.proposalID ++ "#reserve_payout#debit") = some d)
    (hc : db.get? (trimSpace p.proposalID ++ "#reserve_payout#credit#" ++
      normalizeHiveConsensusAccount p.recipient) = some c) :
    (reservePayout db p).2.ok = true ∧
      ((∀ id, (reservePayout db p).1.get? id = db.get? id) ↔
        d.blockHeight = p.blockHeight ∧ c.blockHeight = p.blockHeight) := by
  have hok := h.reservePayout_ok_of_debit hp hd
  obtain ⟨hdebit, hcredit⟩ := get?_reservePayout hp hok
  refine ⟨hok, fun hsame => ?_, fun hheights => ?_⟩
  · rw [hsame, hd, some.injEq] at hdebit
    rw [hsame, hc, some.injEq] at hcredit
    rw [hdebit, hcredit]
    exact ⟨rfl, rfl⟩
  obtain ⟨p₁, hid₁, rfl, hterm₁, -⟩ := h.debit_row hp.idFree hd
  obtain ⟨p₂, hid₂, rfl, hterm₂, -⟩ := h.credit_row hp.idFree hc
  rw [hp.term, some.injEq, Prod.mk.injEq] at hterm₁ hterm₂
  have hrow : reservePayoutDebit p = reservePayoutDebit p₁ := by
    rw [reservePayoutDebit, reservePayoutDebit, hid₁, hterm₁.2,
      show p.blockHeight = p₁.blockHeight from hheights.1.symm]
  have hrow' : reservePayoutCredit p = reservePayoutCredit p₂ := by
    rw [reservePayoutCredit, reservePayoutCredit, hid₂, hterm₂.1, hterm₂.2,
      show p.blockHeight = p₂.blockHeight from hheights.2.symm]
  intro id
  rw [reservePayout_eq, payoutWrites, if_pos hok, hrow, hrow', putAll_cons, putAll_cons, putAll_nil,
    put_of_mem (get?_eq_some_iff.1 hd).1, put_of_mem (get?_eq_some_iff.1 hc).1]

theorem reservePayout_settled (hp : OnTerms terms p) :
    payoutDebited (reservePayout db p).1 (trimSpace p.proposalID) =
        payoutCredited (reservePayout db p).1 (trimSpace p.proposalID) ∧
      ((reservePayout db p).2.ok = true →
        payoutDebited (reservePayout db p).1 (trimSpace p.proposalID) = p.amount) := by
  have hafter : ReserveBook txHeight terms (reservePayout db p).1 := by
    have hall := h.payout hp (payoutWrites db p).length
    rw [take_length, ← reservePayout_eq] at hall
    exact hall
  by_cases hok : (reservePayout db p).2.ok = true
  · obtain ⟨hdebit, hcredit⟩ := get?_reservePayout hp hok
    rw [hafter.payoutDebited_eq hp.idFree hp.term, hafter.payoutCredited_eq hp.idFree hp.term,
      hdebit, hcredit, isSome_some, isSome_some, if_pos rfl]
    exact ⟨rfl, fun _ => rfl⟩
  have hsame : (reservePayout db p).1 = db := by
    rw [reservePayout_eq, payoutWrites, if_neg hok, putAll_nil]
  have hnone : db.get? (trimSpace p.proposalID ++ "#reserve_payout#debit") = none := by
    by_contra hsome
    obtain ⟨d, hd⟩ := ne_none_iff_exists'.1 hsome
    exact hok (h.reservePayout_ok_of_debit hp hd)
  rw [hsame]
  refine ⟨?_, fun h => absurd h hok⟩
  rw [h.payoutDebited_eq hp.idFree hp.term, h.payoutCredited_eq hp.idFree hp.term, hnone]
  cases hcredit : db.get? (trimSpace p.proposalID ++ "#reserve_payout#credit#" ++
      normalizeHiveConsensusAccount p.recipient) with
  | none => rfl
  | some r =>
    obtain ⟨-, -, -, -, d, hd⟩ := h.credit_row hp.idFree hcredit
    rw [hnone] at hd
    cases hd

end

end ReserveBook

end VscNode
