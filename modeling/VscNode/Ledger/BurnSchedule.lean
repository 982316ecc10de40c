import VscNode.Ledger.NoMint

/-!
# Matured burns are promoted once

A finalization scans the pending rows between a stored cursor and its height,
skips those with a marker in that window, promotes the matured ones and moves the
cursor to the lowest row it kept. The rows of one call are stored one after
another and the cursor last, so a call can be cut anywhere and run again.

`BurnBook` is what holds between any two writes: the cursor is not above a row
without a marker, and a promoted row carries the height of the first call that
reached its maturity. Entering a call, promoting one row and moving the cursor
each keep it.
-/

namespace VscNode

open Collection LedgerDb List Option Relation SlashPart Text

/-- The height from which a pending row can be promoted. -/
def LedgerRecord.maturity (r : LedgerRecord) : Option ℕ := parseUint (trimSpace r.from_)

/-! ## The cursor -/

def CursorSound (db : LedgerDb) : Prop :=
  ∀ r ∈ db, r.type = .safetySlashBurnFinalizeCursor ∨ r.id = safetySlashFinalizeCursorRowID →
    ∃ h c, r = finalizeCursorRecord h c ∧ h ≤ maxLedgerScanHeight ∧ c < 2 ^ 64

namespace CursorSound

variable {db : LedgerDb}

section

variable (hsound : CursorSound db)
include hsound

theorem range_eq :
    (∀ r, db.get? safetySlashFinalizeCursorRowID = some r →
      db.getLedgerRange protocolSlashFinalizeCursorAccount 0 maxLedgerScanHeight (some .hive)
        [.safetySlashBurnFinalizeCursor] = [r]) ∧
    (db.get? safetySlashFinalizeCursorRowID = none →
      db.getLedgerRange protocolSlashFinalizeCursorAccount 0 maxLedgerScanHeight (some .hive)
        [.safetySlashBurnFinalizeCursor] = []) := by
  have hmem : ∀ r, r ∈ db.getLedgerRange protocolSlashFinalizeCursorAccount 0 maxLedgerScanHeight
      (some .hive) [.safetySlashBurnFinalizeCursor] →
      db.get? safetySlashFinalizeCursorRowID = some r := by
    intro r hr
    obtain ⟨hdb, -, -, -, -, htype⟩ := mem_getLedgerRange.1 hr
    obtain ⟨h, c, rfl, -, -⟩ := hsound r hdb (.inl (by simpa using htype))
    exact get?_of_mem hdb
  have hnodup : (db.getLedgerRange protocolSlashFinalizeCursorAccount 0 maxLedgerScanHeight
      (some .hive) [.safetySlashBurnFinalizeCursor]).Nodup := by
    rw [getLedgerRange, (perm_insertionSort _ _).nodup_iff]
    exact db.nodup_keys.of_map.filter _
  constructor
  · intro r hr
    obtain ⟨hdb, hid⟩ := get?_eq_some_iff.1 hr
    obtain ⟨h, c, rfl, hle, -⟩ := hsound r hdb (.inr hid)
    refine perm_singleton.1 ((perm_ext_iff_of_nodup hnodup (nodup_singleton _)).2 ?_)
    intro x
    rw [mem_singleton]
    constructor
    · intro hx
      have := hmem x hx
      rw [hr] at this
      exact (some.inj this).symm
    rintro rfl
    exact mem_getLedgerRange.2
      ⟨hdb, rfl, Nat.zero_le _, hle, by simp [finalizeCursorRecord], by simp [finalizeCursorRecord]⟩
  intro hnone
  refine eq_nil_iff_forall_not_mem.2 fun x hx => ?_
  have := hmem x hx
  rw [hnone] at this
  cases this

theorem read_of_none (hnone : db.get? safetySlashFinalizeCursorRowID = none) :
    readSafetySlashFinalizeCursor db = 0 := by
  rw [readSafetySlashFinalizeCursor, hsound.range_eq.2 hnone]
  rfl

theorem read_of_some {h c : ℕ}
    (hsome : db.get? safetySlashFinalizeCursorRowID = some (finalizeCursorRecord h c))
    (hc : c < 2 ^ 64) : readSafetySlashFinalizeCursor db = c := by
  rw [readSafetySlashFinalizeCursor, hsound.range_eq.1 _ hsome]
  simp only [foldl_cons, foldl_nil, Nat.not_lt_zero, if_false, finalizeCursorRecord,
    trimSpace_formatUint, parseUint_formatUint hc]

theorem read_congr {db' : LedgerDb} (hsound' : CursorSound db')
    (hget : db'.get? safetySlashFinalizeCursorRowID = db.get? safetySlashFinalizeCursorRowID) :
    readSafetySlashFinalizeCursor db' = readSafetySlashFinalizeCursor db := by
  cases hrow : db.get? safetySlashFinalizeCursorRowID with
  | none => rw [hsound.read_of_none hrow, hsound'.read_of_none (hget.trans hrow)]
  | some r =>
    obtain ⟨hdb, hid⟩ := get?_eq_some_iff.1 hrow
    obtain ⟨h, c, rfl, -, hc⟩ := hsound r hdb (.inr hid)
    rw [hsound.read_of_some hrow hc, hsound'.read_of_some (hget.trans hrow) hc]

end

end CursorSound

variable {p : SlashPart}

theorem SlashRow.not_cursor {k : SlashKey} (hk : k.Valid) (hp : p.Plain) {r : LedgerRecord}
    (h : SlashRow k p r) :
    r.type ≠ .safetySlashBurnFinalizeCursor ∧ r.id ≠ safetySlashFinalizeCursorRowID := by
  constructor
  · rw [h.type]
    cases p <;> simp [SlashPart.type]
  intro hid
  have hf := hk.fields_rowID hp
  rw [← h.id, hid, fields_of_free (by decide)] at hf
  simp at hf

/-! ## What holds of one burn -/

def FirstCall (calls : List ℕ) (m h : ℕ) : Prop :=
  h ∈ calls ∧ m ≤ h ∧ ∀ c ∈ calls, m ≤ c → h ≤ c

def Uncancelled (db : LedgerDb) (k : SlashKey) : Prop := db.get? (k.rowID .cancelRelease) = none

/-- The rows that follow a pending row. -/
def SlashPart.later : List SlashPart :=
  [.release, .promoted, .finalized, .cancelRelease, .cancelled]

theorem SlashPart.plain_of_mem_later (h : p ∈ later) : p.Plain ∧ p ≠ .debit ∧ p ≠ .pending := by
  simp only [later, mem_cons, not_mem_nil, or_false] at h
  rcases h with rfl | rfl | rfl | rfl | rfl <;> exact ⟨trivial, nofun, nofun⟩

/-- The state of one burn between two writes. -/
structure BurnCase (txHeight : String → ℕ) (db : LedgerDb) (calls : List ℕ) (unfinished : Bool)
    (k : SlashKey) : Prop where
  pending : ∀ r, db.get? (k.rowID .pending) = some r →
    r.blockHeight = txHeight k.txID ∧ 0 < r.amount ∧
      (∃ m, r.maturity = some m ∧ r.blockHeight < m) ∧
      ∃ d, db.get? (k.rowID .debit) = some d ∧ d.blockHeight = txHeight k.txID
  opened : db.get? (k.rowID .pending) = none → ∀ p ∈ SlashPart.later, db.get? (k.rowID p) = none
  promoted : Uncancelled db k → ∀ r m x, db.get? (k.rowID .pending) = some r →
    r.maturity = some m → db.get? (k.rowID .promoted) = some x →
    x.amount = r.amount ∧ FirstCall calls m x.blockHeight
  finalized : Uncancelled db k → ∀ y, db.get? (k.rowID .finalized) = some y →
    ∃ x, db.get? (k.rowID .promoted) = some x ∧ x.blockHeight = y.blockHeight
  complete : Uncancelled db k → ∀ r m, db.get? (k.rowID .pending) = some r →
    r.maturity = some m → ∀ c ∈ calls, m ≤ c →
      (∃ y, db.get? (k.rowID .finalized) = some y) ∨ (unfinished = true ∧ calls.head? = some c)
  cursor : Uncancelled db k → ∀ r, db.get? (k.rowID .pending) = some r →
    db.get? (k.rowID .finalized) = none → readSafetySlashFinalizeCursor db ≤ r.blockHeight

section Frame

variable {txHeight : String → ℕ} {db db' : LedgerDb} {calls : List ℕ} {unfinished : Bool}
  {k : SlashKey}

theorem BurnCase.frame (h : BurnCase txHeight db calls unfinished k)
    (hget : ∀ p : SlashPart, p.Plain → db'.get? (k.rowID p) = db.get? (k.rowID p))
    (hcur : Uncancelled db k → ∀ r, db.get? (k.rowID .pending) = some r →
      db.get? (k.rowID .finalized) = none → readSafetySlashFinalizeCursor db' ≤ r.blockHeight) :
    BurnCase txHeight db' calls unfinished k := by
  have hpending := hget .pending trivial
  have hdebit := hget .debit trivial
  have hpromoted := hget .promoted trivial
  have hfinalized := hget .finalized trivial
  have hcancel : Uncancelled db' k → Uncancelled db k := fun hc =>
    (hget .cancelRelease trivial).symm.trans hc
  constructor
  · rw [hpending, hdebit]
    exact h.pending
  · intro hnone p hp
    rw [hget p (plain_of_mem_later hp).1]
    exact h.opened (hpending ▸ hnone) p hp
  · rw [hpending, hpromoted]
    exact fun hc => h.promoted (hcancel hc)
  · rw [hfinalized, hpromoted]
    exact fun hc => h.finalized (hcancel hc)
  · rw [hpending, hfinalized]
    exact fun hc => h.complete (hcancel hc)
  · rw [hpending, hfinalized]
    exact fun hc => hcur (hcancel hc)

end Frame

/-- What holds of the whole ledger between two writes. -/
structure BurnBook (txHeight : String → ℕ) (db : LedgerDb) (calls : List ℕ) (unfinished : Bool) :
    Prop where
  shaped : Shaped db
  cursorSound : CursorSound db
  cursor_le : readSafetySlashFinalizeCursor db = 0 ∨
    ∃ c ∈ calls, readSafetySlashFinalizeCursor db ≤ c + 1
  cases : ∀ k : SlashKey, k.Valid → BurnCase txHeight db calls unfinished k

theorem BurnBook.empty (txHeight : String → ℕ) : BurnBook txHeight Collection.empty [] false where
  shaped := fun r hr => absurd hr (not_mem_empty r)
  cursorSound := fun r hr => absurd hr (not_mem_empty r)
  cursor_le := .inl rfl
  cases := fun k _ => ⟨by simp, by simp, by simp, by simp, by simp, by simp⟩

section Steps

variable {txHeight : String → ℕ} {db : LedgerDb} {calls : List ℕ} {unfinished : Bool} {k : SlashKey}
  {q : SlashPart} {x r : LedgerRecord} {p : SafetySlashConsensusParams} {m e : ℕ}

theorem CursorSound.put (h : CursorSound db) (hk : k.Valid) (hx : SlashRow k q x) (hq : q.Plain) :
    CursorSound (db.put x) ∧
      readSafetySlashFinalizeCursor (db.put x) = readSafetySlashFinalizeCursor db := by
  obtain ⟨htype, hid⟩ := hx.not_cursor hk hq
  have hsound : CursorSound (db.put x) :=
    forall_mem_put (fun hcur => (hcur.elim htype hid).elim) h
  exact ⟨hsound, h.read_congr hsound (get?_put_of_ne hid)⟩

theorem BurnBook.put (h : BurnBook txHeight db calls unfinished) (hk : k.Valid)
    (hx : SlashRow k q x) (hq : q.Plain) (hcase : BurnCase txHeight (db.put x) calls unfinished k) :
    BurnBook txHeight (db.put x) calls unfinished := by
  obtain ⟨hsound, hcur⟩ := h.cursorSound.put hk hx hq
  refine ⟨h.shaped.put (.inr ⟨k, q, hk, hq, hx⟩), hsound, by rw [hcur]; exact h.cursor_le,
    fun k' hk' => ?_⟩
  by_cases hne : k' = k
  · rw [hne]
    exact hcase
  exact (h.cases k' hk').frame
    (fun p hp => hx.get?_put_other hk hq hk' p hp fun hkey => absurd hkey hne)
    (by rw [hcur]; exact (h.cases k' hk').cursor)

theorem BurnCase.of_none (hnone : db.get? (k.rowID .pending) = none)
    (hparts : ∀ p ∈ later,
      db.get? (k.rowID p) = none) : BurnCase txHeight db calls unfinished k where
  pending := by simp [hnone]
  opened := fun _ => hparts
  promoted := by simp [hnone]
  finalized := by simp [hparts .finalized (by decide)]
  complete := by simp [hnone]
  cursor := by simp [hnone]

variable {db' : LedgerDb} {s : LedgerDbs} {c : ℕ}

theorem BurnCase.of_cancelled (h : BurnCase txHeight db calls unfinished k)
    (hr : db.get? (k.rowID .pending) = some r)
    (hpending : db'.get? (k.rowID .pending) = db.get? (k.rowID .pending))
    (hdebit : db'.get? (k.rowID .debit) = db.get? (k.rowID .debit)) (hcancel : ¬Uncancelled db' k) :
    BurnCase txHeight db' calls unfinished k where
  pending := by
    rw [hpending, hdebit]
    exact h.pending
  opened := by simp [hpending, hr]
  promoted := fun hc => absurd hc hcancel
  finalized := fun hc => absurd hc hcancel
  complete := fun hc => absurd hc hcancel
  cursor := fun hc => absurd hc hcancel

/-! ## Cancellations -/

theorem BurnBook.putCancel (h : BurnBook txHeight db calls unfinished) (hk : k.Valid)
    (hr : db.get? (k.rowID .pending) = some r) (hx : SlashRow k q x)
    (hq : q = .cancelRelease ∨ (q = .finalized ∨ q = .cancelled) ∧ ¬Uncancelled db k) :
    BurnBook txHeight (db.put x) calls unfinished ∧
      (db.put x).get? (k.rowID .pending) = some r ∧ ¬Uncancelled (db.put x) k := by
  have hplain : q.Plain := by
    rcases hq with rfl | ⟨rfl | rfl, -⟩ <;> trivial
  have hne : pending ≠ q ∧ debit ≠ q := by
    rcases hq with rfl | ⟨rfl | rfl, -⟩ <;> simp
  have hpending : (db.put x).get? (k.rowID .pending) = db.get? (k.rowID .pending) := by
    rw [hx.get?_put hk hplain .pending trivial, if_neg hne.1]
  have hdebit : (db.put x).get? (k.rowID .debit) = db.get? (k.rowID .debit) := by
    rw [hx.get?_put hk hplain .debit trivial, if_neg hne.2]
  have hcancel : ¬Uncancelled (db.put x) k := by
    rw [Uncancelled, hx.get?_put hk hplain .cancelRelease trivial]
    rcases hq with rfl | ⟨hq, hc⟩
    · simp
    · rw [if_neg (by rcases hq with rfl | rfl <;> simp)]
      exact hc
  exact ⟨h.put hk hx hplain ((h.cases k hk).of_cancelled hr hpending hdebit hcancel),
    hpending.trans hr, hcancel⟩

theorem BurnBook.cancel {p : CancelPendingSafetySlashBurnParams}
    (h : BurnBook txHeight db calls unfinished) (hscan : p.blockHeight ≤ maxLedgerScanHeight)
    (n : ℕ) : BurnBook txHeight (db.putAll ((cancelWrites db p).take n)) calls unfinished := by
  rcases cancelWrites_cases db p with hnil | ⟨r, hpending, -, hrows⟩
  · rw [hnil, take_nil]
    exact h
  obtain ⟨hmem, -, htype, -⟩ := pendingRow_eq_some hpending
  obtain ⟨k, hk, hrow, hr⟩ := h.shaped.key_of_type hmem (.inr rfl) htype
  obtain ⟨hrelease, hmarker, hcancelled⟩ := slashRow_cancelRecords hrow hscan
  rw [hrows, cancelRecords]
  obtain ⟨h₁, hr₁, hc₁⟩ := h.putCancel hk hr hrelease (.inl rfl)
  obtain ⟨h₂, hr₂, hc₂⟩ := h₁.putCancel hk hr₁ hmarker (.inr ⟨.inl rfl, hc₁⟩)
  obtain ⟨h₃, -, -⟩ := h₂.putCancel hk hr₂ hcancelled (.inr ⟨.inr rfl, hc₂⟩)
  match n with
  | 0 => exact h
  | 1 => exact h₁
  | 2 => exact h₂
  | n + 3 => simpa using h₃

/-! ## Slashes -/

structure DelayedSlash (txHeight : String → ℕ) (p : SafetySlashConsensusParams) : Prop extends
    CarriedSlash txHeight p where
  delayed : p.burnDelayBlocks ≠ 0

instance (p : SafetySlashConsensusParams) : Decidable (DelayedSlash txHeight p) :=
  decidable_of_iff (CarriedSlash txHeight p ∧ p.burnDelayBlocks ≠ 0)
    ⟨fun ⟨h, hd⟩ => ⟨h, hd⟩, fun h => ⟨h.toCarriedSlash, h.delayed⟩⟩

theorem BurnCase.slashWrites_eq_nil {acct : String}
    (hacct : normalizeHiveConsensusAccount p.account = acct)
    (hcase : BurnCase txHeight s.ledger calls unfinished (p.slashKey acct))
    (hshaped : Shaped s.ledger) (hp : DelayedSlash txHeight p) (hk : (p.slashKey acct).Valid)
    (hr : s.ledger.get? ((p.slashKey acct).rowID .pending) = some r) : slashWrites s p = [] := by
  obtain ⟨hdate, -, -, d, hd, hddate⟩ := hcase.pending r hr
  have hrow := hshaped.slashRow hk hr trivial
  have hdrow := hshaped.slashRow hk hd trivial
  have hat := rowAt_of_mem (get?_eq_some_iff.1 hr).1
  have hdat := rowAt_of_mem (get?_eq_some_iff.1 hd).1
  have hheight : txHeight (p.slashKey acct).txID = p.blockHeight := hp.height.symm
  rw [hrow.owner, hdate, hrow.asset, hrow.id, hheight] at hat
  rw [hdrow.owner, hddate, hdrow.asset, hdrow.id, hheight] at hdat
  refine slashWrites_of_recorded hacct hdat ?_
  rw [slashCompanionRow, if_neg hp.delayed]
  exact isSome_iff_exists.2 ⟨r, hat⟩

theorem BurnCase.of_fresh {d : LedgerRecord} (hr : db.get? (k.rowID .pending) = some r)
    (hdate : r.blockHeight = txHeight k.txID) (hamt : 0 < r.amount) (hm : r.maturity = some m)
    (hlt : r.blockHeight < m) (hd : db.get? (k.rowID .debit) = some d)
    (hddate : d.blockHeight = txHeight k.txID)
    (hparts : ∀ p ∈ later, db.get? (k.rowID p) = none)
    (habove : ∀ c ∈ calls, c < r.blockHeight)
    (hcur : readSafetySlashFinalizeCursor db = 0 ∨ ∃ c ∈ calls, readSafetySlashFinalizeCursor db ≤
      c + 1) :
    BurnCase txHeight db calls unfinished k where
  pending := by
    intro r' hr'
    rw [hr, some.injEq] at hr'
    subst hr'
    exact ⟨hdate, hamt, ⟨m, hm, hlt⟩, d, hd, hddate⟩
  opened := by simp [hr]
  promoted := by simp [hparts .promoted (by decide)]
  finalized := by simp [hparts .finalized (by decide)]
  complete := by
    intro _ r' m' hr' hm' c hc hle
    rw [hr, some.injEq] at hr'
    subst hr'
    rw [hm, some.injEq] at hm'
    subst hm'
    have := habove c hc
    omega
  cursor := by
    intro _ r' hr' _
    rw [hr, some.injEq] at hr'
    subst hr'
    rcases hcur with hzero | ⟨c, hc, hle⟩
    · omega
    · have := habove c hc
      omega

theorem slashPendingRecord_maturity (acct : String) (amt : Int) (hdelay : p.burnDelayBlocks ≠ 0)
    (hscan : p.blockHeight ≤ maxLedgerScanHeight)
    (hm : m = (p.blockHeight + min p.burnDelayBlocks maxSafetySlashBurnDelayBlocks) % 2 ^ 64) :
    (slashPendingRecord p acct amt m).maturity = some m ∧ p.blockHeight < m := by
  have hcap : maxSafetySlashBurnDelayBlocks = 3333333 := rfl
  have hmax : maxLedgerScanHeight = 2 ^ 63 - 1 := rfl
  have hwrap : m < 2 ^ 64 := by omega
  constructor
  · rw [LedgerRecord.maturity, slashPendingRecord, trimSpace_formatUint, parseUint_formatUint hwrap]
  · rw [hm, Nat.mod_eq_of_lt (by omega)]
    omega

theorem BurnBook.slash (h : BurnBook txHeight s.ledger calls unfinished)
    (hp : DelayedSlash txHeight p) (habove : ∀ c ∈ calls, c < p.blockHeight) (n : ℕ) :
    BurnBook txHeight (s.ledger.putAll ((slashWrites s p).take n)) calls unfinished := by
  obtain ⟨acct, hacct⟩ : ∃ acct, normalizeHiveConsensusAccount p.account = acct := ⟨_, rfl⟩
  have hk := hp.valid hacct
  have hcase := h.cases _ hk
  rcases slashWrites_cases (s := s) hacct with
    hnil | ⟨amt, companion, hamt, -, hcompanion, -, hrows⟩
  · rw [hnil, take_nil]
    exact h
  cases hcompanion with
  | reserve hzero => exact absurd hzero hp.delayed
  | pending maturity hdelay hle hmaturity =>
    -- a stored pending row would have made this a repetition
    have hnone : s.ledger.get? ((p.slashKey acct).rowID .pending) = none := by
      cases hr : s.ledger.get? ((p.slashKey acct).rowID .pending) with
      | none => rfl
      | some r =>
        rw [hcase.slashWrites_eq_nil hacct h.shaped hp hk hr] at hrows
        cases hrows
    have hdebit : SlashRow (p.slashKey acct) .debit (slashDebitRecord p acct amt) :=
      ⟨rfl, rfl, rfl, rfl, hp.inScan, by rintro ⟨⟩⟩
    have hpending : SlashRow (p.slashKey acct) .pending
        (slashPendingRecord p acct amt maturity) := ⟨rfl, rfl, rfl, rfl, hp.inScan, by rintro ⟨⟩⟩
    have hget₁ := @SlashRow.get?_put s.ledger _ _ .debit hdebit hk trivial
    have hget₂ := @SlashRow.get?_put (s.ledger.put (slashDebitRecord p acct amt)) _ _ .pending
      hpending hk trivial
    have hlater : ∀ q ∈ later,
        (s.ledger.put (slashDebitRecord p acct amt)).get? ((p.slashKey acct).rowID q) = none := by
      intro q hq
      obtain ⟨hplain, hne, -⟩ := plain_of_mem_later hq
      rw [hget₁ q hplain, if_neg hne]
      exact hcase.opened hnone q hq
    have h₁ := h.put hk hdebit trivial (.of_none ((hget₁ .pending trivial).trans hnone) hlater)
    obtain ⟨hparse, hlt⟩ := slashPendingRecord_maturity acct amt hdelay hp.inScan hmaturity
    have hcase₂ : BurnCase txHeight ((s.ledger.put (slashDebitRecord p acct amt)).put
        (slashPendingRecord p acct amt maturity)) calls unfinished (p.slashKey acct) := by
      refine .of_fresh (d := slashDebitRecord p acct amt) (hget₂ .pending trivial) hp.height
        hamt hparse hlt ((hget₂ .debit trivial).trans (hget₁ .debit trivial)) hp.height ?_ habove ?_
      · intro q hq
        obtain ⟨hplain, -, hne⟩ := plain_of_mem_later hq
        rw [hget₂ q hplain, if_neg hne]
        exact hlater q hq
      · rw [(h₁.cursorSound.put hk hpending trivial).2]
        exact h₁.cursor_le
    have h₂ := h₁.put hk hpending trivial hcase₂
    rw [hrows]
    rcases n with _ | _ | n
    · exact h
    · exact h₁
    · simpa using h₂

/-! ## Finalizations -/

theorem FirstCall.unique {a b : ℕ} (ha : FirstCall calls m a) (hb : FirstCall calls m b) : a = b :=
  le_antisymm (ha.2.2 b hb.1 hb.2.1) (hb.2.2 a ha.1 ha.2.1)

/-- The calls with a call at `e` begun; running the last call again adds none. -/
def enterCall (calls : List ℕ) (e : ℕ) : List ℕ := if calls.head? = some e then calls else e :: calls

theorem head?_enterCall (calls : List ℕ) (e : ℕ) : (enterCall calls e).head? = some e := by
  rw [enterCall]
  split
  · assumption
  · rfl

theorem mem_enterCall : c ∈ enterCall calls e ↔ c = e ∨ c ∈ calls := by
  rw [enterCall]
  split
  · rename_i hhead
    constructor
    · exact .inr
    rintro (rfl | hc)
    · exact mem_of_head? hhead
    · exact hc
  · exact mem_cons

theorem le_of_mem_enterCall (h : ∀ c ∈ calls, c ≤ e) : ∀ c ∈ enterCall calls e, c ≤ e := by
  intro c hc
  rcases mem_enterCall.1 hc with rfl | hc
  · exact le_rfl
  · exact h c hc

theorem BurnBook.enter (h : BurnBook txHeight db calls unfinished) (hle : ∀ c ∈ calls, c ≤ e)
    (hagain : unfinished = true → calls.head? = some e) :
    BurnBook txHeight db (enterCall calls e) true := by
  refine ⟨h.shaped, h.cursorSound, ?_, fun k hk => ?_⟩
  · exact h.cursor_le.imp_right fun ⟨c, hc, hcur⟩ => ⟨c, mem_enterCall.2 (.inr hc), hcur⟩
  have hcase := h.cases k hk
  refine ⟨hcase.pending, hcase.opened, ?_, hcase.finalized, ?_, hcase.cursor⟩
  · intro hc r m x hr hm hx
    obtain ⟨hamt, hin, hmx, hfirst⟩ := hcase.promoted hc r m x hr hm hx
    refine ⟨hamt, mem_enterCall.2 (.inr hin), hmx, fun c hc hmc => ?_⟩
    rcases mem_enterCall.1 hc with rfl | hc
    · exact hle _ hin
    · exact hfirst c hc hmc
  intro hc r m hr hm c hcall hmc
  rcases mem_enterCall.1 hcall with rfl | hcall
  · exact .inr ⟨rfl, head?_enterCall calls c⟩
  · refine (hcase.complete hc r m hr hm c hcall hmc).imp_right fun ⟨hun, hhead⟩ => ⟨rfl, ?_⟩
    rw [head?_enterCall, ← hagain hun, hhead]

theorem BurnCase.promote (h : BurnCase txHeight db calls true k)
    (hr : db.get? (k.rowID .pending) = some r)
    (hfirst : Uncancelled db k → ∃ m, r.maturity = some m ∧ FirstCall calls m e)
    (hsame : ∀ p ∈ [SlashPart.pending, .debit, .cancelRelease],
      db'.get? (k.rowID p) = db.get? (k.rowID p))
    (hpromoted : db'.get? (k.rowID .promoted) = db.get? (k.rowID .promoted) ∨
      db'.get? (k.rowID .promoted) = some (promotedReserveRecord e r))
    (hfinalized : db'.get? (k.rowID .finalized) = db.get? (k.rowID .finalized) ∨
      db'.get? (k.rowID .finalized) = some (finalizedMarkerRecord e r) ∧
        db'.get? (k.rowID .promoted) = some (promotedReserveRecord e r))
    (hcur : readSafetySlashFinalizeCursor db' = readSafetySlashFinalizeCursor db) :
    BurnCase txHeight db' calls true k := by
  have hpending := hsame .pending (by decide)
  have hdebit := hsame .debit (by decide)
  have hcancel : Uncancelled db' k → Uncancelled db k := fun hc =>
    (hsame .cancelRelease (by decide)).symm.trans hc
  constructor
  · rw [hpending, hdebit]
    exact h.pending
  · simp [hpending, hr]
  · intro hc r' m x hr' hm hx
    rw [hpending] at hr'
    rcases hpromoted with hold | hnew
    · rw [hold] at hx
      exact h.promoted (hcancel hc) r' m x hr' hm hx
    obtain ⟨m', hm', hfirst⟩ := hfirst (hcancel hc)
    rw [hr, some.injEq] at hr'
    rw [hnew, some.injEq] at hx
    subst hr' hx
    rw [hm, some.injEq] at hm'
    subst hm'
    exact ⟨rfl, hfirst⟩
  · intro hc y hy
    rcases hfinalized with hold | ⟨hnew, hprom⟩
    · rw [hold] at hy
      obtain ⟨x, hx, hxy⟩ := h.finalized (hcancel hc) y hy
      rcases hpromoted with hpold | hpnew
      · exact ⟨x, hpold.trans hx, hxy⟩
      -- both promotions are at the first call that reached the maturity
      obtain ⟨m, hm, hfirst⟩ := hfirst (hcancel hc)
      have hxfirst := (h.promoted (hcancel hc) r m x hr hm hx).2
      exact ⟨_, hpnew, (hfirst.unique hxfirst).trans hxy⟩
    rw [hnew, some.injEq] at hy
    subst hy
    exact ⟨_, hprom, rfl⟩
  · intro hc r' m hr' hm c hcall hmc
    rw [hpending] at hr'
    refine (h.complete (hcancel hc) r' m hr' hm c hcall hmc).imp_left ?_
    rintro ⟨y, hy⟩
    rcases hfinalized with hold | ⟨hnew, -⟩
    · exact ⟨y, hold.trans hy⟩
    · exact ⟨_, hnew⟩
  intro hc r' hr' hnone
  rw [hpending] at hr'
  rw [hcur]
  refine h.cursor (hcancel hc) r' hr' ?_
  rcases hfinalized with hold | ⟨hnew, -⟩
  · exact hold.symm.trans hnone
  · rw [hnew] at hnone
    cases hnone

def Promotes (db : LedgerDb) (calls : List ℕ) (e : ℕ) (r : LedgerRecord) : Prop :=
  ∃ k : SlashKey, k.Valid ∧ SlashRow k .pending r ∧ db.get? (k.rowID .pending) = some r ∧
    (Uncancelled db k → ∃ m, r.maturity = some m ∧ FirstCall calls m e)

/-- What `Promotes` says of the slash it is about. -/
def Promised (db : LedgerDb) (calls : List ℕ) (e : ℕ) (k : SlashKey) (r : LedgerRecord) : Prop :=
  db.get? (k.rowID .pending) = some r ∧
    (Uncancelled db k → ∃ m, r.maturity = some m ∧ FirstCall calls m e)

theorem Promised.put {k' : SlashKey} (h : Promised db calls e k' r) (hk' : k'.Valid) (hk : k.Valid)
    (hx : SlashRow k q x) (hq : q = .release ∨ q = .promoted ∨ q = .finalized) :
    Promised (db.put x) calls e k' r := by
  have hplain : q.Plain ∧ pending ≠ q ∧ cancelRelease ≠ q := by
    rcases hq with rfl | rfl | rfl <;> exact ⟨trivial, nofun, nofun⟩
  obtain ⟨hplain, hpending, hcancel⟩ := hplain
  rw [Promised, Uncancelled, hx.get?_put_other hk hplain hk' .pending trivial fun _ => hpending,
    hx.get?_put_other hk hplain hk' .cancelRelease trivial fun _ => hcancel]
  exact h

theorem Promotes.put (h : Promotes db calls e r) (hk : k.Valid) (hx : SlashRow k q x)
    (hq : q = .release ∨ q = .promoted ∨ q = .finalized) :
    Promotes (db.put x) calls e r := by
  obtain ⟨k', hk', hrow, hr⟩ := h
  exact ⟨k', hk', hrow, Promised.put hr hk' hk hx hq⟩

theorem BurnBook.putPromotion (h : BurnBook txHeight db calls true) (hk : k.Valid)
    (hr : db.get? (k.rowID .pending) = some r)
    (hfirst : Uncancelled db k → ∃ m, r.maturity = some m ∧ FirstCall calls m e)
    (hx : SlashRow k q x)
    (hq : q = .release ∨ (q = .promoted ∧ x = promotedReserveRecord e r) ∨ q = .finalized ∧ x =
      finalizedMarkerRecord e r ∧ db.get? (k.rowID .promoted) = some (promotedReserveRecord e r)) :
    BurnBook txHeight (db.put x) calls true := by
  have hplain : q.Plain ∧ q ∉ [SlashPart.pending, .debit, .cancelRelease] := by
    rcases hq with rfl | ⟨rfl, -⟩ | ⟨rfl, -⟩ <;> exact ⟨trivial, by decide⟩
  obtain ⟨hplain, hnot⟩ := hplain
  have hget := @SlashRow.get?_put db _ _ _ hx hk hplain
  refine h.put hk hx hplain ((h.cases k hk).promote hr hfirst ?_ ?_ ?_
    (h.cursorSound.put hk hx hplain).2)
  · intro p hp
    have hp' : p.Plain := by
      rcases mem_triple.1 hp with rfl | rfl | rfl <;> trivial
    rw [hget p hp', if_neg fun hpq : p = q => hnot (hpq ▸ hp)]
  · rw [hget .promoted trivial]
    rcases hq with rfl | ⟨rfl, rfl⟩ | ⟨rfl, -⟩ <;> simp
  · rw [hget .promoted trivial, hget .finalized trivial]
    rcases hq with rfl | ⟨rfl, -⟩ | ⟨rfl, rfl, hprom⟩ <;> simp [*]

theorem BurnBook.promoteRow (h : BurnBook txHeight db calls true) (hr : Promotes db calls e r)
    (hscan : e ≤ maxLedgerScanHeight) (n : ℕ) :
    BurnBook txHeight (db.putAll ((promotionRecords e r).take n)) calls true ∧
      ∀ r', Promotes db calls e r' →
        Promotes (db.putAll ((promotionRecords e r).take n)) calls e r' := by
  obtain ⟨k, hk, hrow, hr⟩ := hr
  obtain ⟨hrelease, hprom, hmarker⟩ := slashRow_promotionRecords hrow hscan
  -- each row keeps the pending row and the promise about its call
  have hr₁ := Promised.put hr hk hk hrelease (.inl rfl)
  have hr₂ := hr₁.put hk hk hprom (.inr (.inl rfl))
  have h₁ := h.putPromotion hk hr.1 hr.2 hrelease (.inl rfl)
  have h₂ := h₁.putPromotion hk hr₁.1 hr₁.2 hprom (.inr (.inl ⟨rfl, rfl⟩))
  have h₃ := h₂.putPromotion hk hr₂.1 hr₂.2 hmarker (.inr (.inr ⟨rfl, rfl, by
    rw [hprom.get?_put hk trivial .promoted trivial, if_pos rfl]⟩))
  match n with
  | 0 => exact ⟨h, fun r' hr' => hr'⟩
  | 1 => exact ⟨h₁, fun r' hr' => hr'.put hk hrelease (.inl rfl)⟩
  | 2 =>
    exact ⟨h₂, fun r' hr' => (hr'.put hk hrelease (.inl rfl)).put hk hprom (.inr (.inl rfl))⟩
  | n + 3 =>
    refine ⟨by simpa [promotionRecords] using h₃, fun r' hr' => ?_⟩
    simpa [promotionRecords] using ((hr'.put hk hrelease (.inl rfl)).put hk hprom
      (.inr (.inl rfl))).put hk hmarker (.inr (.inr rfl))

theorem BurnBook.promoteAll (hscan : e ≤ maxLedgerScanHeight) (rows : List LedgerRecord)
    (h : BurnBook txHeight db calls true) (hrows : ∀ r ∈ rows, Promotes db calls e r) (n : ℕ) :
    BurnBook txHeight (db.putAll ((rows.flatMap (promotionRecords e)).take n)) calls true := by
  induction rows generalizing db n with
  | nil => simpa using h
  | cons r rows ih =>
    obtain ⟨hbook, hkeep⟩ := h.promoteRow (hrows r (by simp)) hscan n
    rw [flatMap_cons, take_append, putAll_append]
    exact ih hbook (fun r' hr' => hkeep r' (hrows r' (mem_cons_of_mem _ hr'))) _

theorem BurnBook.promotes (h : BurnBook txHeight db calls true) (hle : ∀ c ∈ calls, c ≤ e)
    (hhead : calls.head? = some e) (hr : r ∈ promotedRows db e) : Promotes db calls e r := by
  obtain ⟨hmem, -, htype, -, hlo, hhi, -, hdone, m, hm, hme⟩ := mem_promotedRows hr
  obtain ⟨k, hk, hrow, hget⟩ := h.shaped.key_of_type hmem (.inr rfl) htype
  have hcase := h.cases k hk
  refine ⟨k, hk, hrow, hget, fun hc => ⟨m, hm, mem_of_head? hhead, hme, fun c hcall hmc => ?_⟩⟩
  rcases hcase.complete hc r m hget hm c hcall hmc with ⟨y, hy⟩ | ⟨-, hchead⟩
  · -- a marker would lie in the window of the scan
    obtain ⟨x, hx, hxy⟩ := hcase.finalized hc y hy
    obtain ⟨-, hxin, hmx, -⟩ := hcase.promoted hc r m x hget hm hx
    obtain ⟨-, -, ⟨m', hm', hlt⟩, -⟩ := hcase.pending r hget
    rw [show r.maturity = some m from hm, some.injEq] at hm'
    have hxe := hle _ hxin
    refine absurd ?_ hdone
    rw [hrow.id]
    exact mem_scannedDone (get?_eq_some_iff.1 hy).1
      (h.shaped.slashRow hk hy trivial) (by omega) (by omega)
  · rw [hhead, some.injEq] at hchead
    exact hchead.le

theorem get?_finalized_of_mem_scannedDone (hd : k.rowID .pending ∈ scannedDone db e) :
    ∃ y, db.get? (k.rowID .finalized) = some y := by
  obtain ⟨y, hy, hid⟩ := mem_map.1 hd
  obtain ⟨hyr, hsuffix⟩ := mem_filter.1 hy
  refine ⟨y, get?_eq_some_iff.2 ⟨(mem_getLedgerRange.1 hyr).1, ?_⟩⟩
  rw [← trimSuffix_append_cancel hsuffix, hid]
  rfl

theorem BurnBook.mem_scannedPending (h : BurnBook txHeight db calls unfinished) (hk : k.Valid)
    (hc : Uncancelled db k) (hr : db.get? (k.rowID .pending) = some r)
    (hnone : db.get? (k.rowID .finalized) = none) (hhi : r.blockHeight ≤ e) :
    r ∈ scannedPending db e ∧ r.id ∉ scannedDone db e ∧ 0 < r.amount := by
  have hcase := h.cases k hk
  have hrow := h.shaped.slashRow hk hr trivial
  refine ⟨mem_getLedgerRange.2 ⟨(get?_eq_some_iff.1 hr).1, hrow.owner,
    hcase.cursor hc r hr hnone, hhi, ?_, ?_⟩, fun hd => ?_, (hcase.pending r hr).2.1⟩
  · rintro a ⟨⟩
    exact hrow.asset
  · exact .inr (mem_singleton.2 hrow.type)
  rw [hrow.id] at hd
  obtain ⟨y, hy⟩ := get?_finalized_of_mem_scannedDone hd
  rw [hnone] at hy
  cases hy

theorem BurnBook.marked (h : BurnBook txHeight db calls unfinished) (hk : k.Valid)
    (hc : Uncancelled db k) (hr : db.get? (k.rowID .pending) = some r) (hm : r.maturity = some m)
    (hme : m ≤ e) :
    (∃ y, db.get? (k.rowID .finalized) = some y) ∨ r ∈ promotedRows db e := by
  cases hnone : db.get? (k.rowID .finalized) with
  | some y => exact .inl ⟨y, rfl⟩
  | none =>
    refine .inr ?_
    have hcase := h.cases k hk
    obtain ⟨-, -, ⟨m', hm', hlt⟩, -⟩ := hcase.pending r hr
    rw [hm, Option.some.injEq] at hm'
    have hcur := hcase.cursor hc r hr hnone
    obtain ⟨hscan, hdone, hamt⟩ := h.mem_scannedPending hk hc hr hnone (e := e) (by omega)
    rw [promotedRows, if_neg (by omega)]
    refine mem_filter.2 ⟨hscan, ?_⟩
    simp only [promotable, Bool.and_eq_true, decide_eq_true_eq, Bool.not_eq_true',
      contains_eq_mem, decide_eq_false_iff_not, Option.any_eq_true]
    exact ⟨⟨hamt, hdone⟩, m, hm, hme⟩

theorem BurnBook.finish (h : BurnBook txHeight db calls true) (hhead : calls.head? = some e)
    (hmarked : ∀ k : SlashKey, k.Valid → Uncancelled db k → ∀ r m, db.get? (k.rowID .pending) =
      some r → r.maturity = some m → m ≤ e → ∃ y, db.get? (k.rowID .finalized) = some y) :
    BurnBook txHeight db calls false := by
  refine ⟨h.shaped, h.cursorSound, h.cursor_le, fun k hk => ?_⟩
  have hcase := h.cases k hk
  refine ⟨hcase.pending, hcase.opened, hcase.promoted, hcase.finalized, ?_, hcase.cursor⟩
  intro hc r m hr hm c hcall hmc
  refine .inl ?_
  rcases hcase.complete hc r m hr hm c hcall hmc with hy | ⟨-, hchead⟩
  · exact hy
  · rw [hhead, some.injEq] at hchead
    exact hmarked k hk hc r m hr hm (by omega)

theorem BurnBook.moveCursor (h : BurnBook txHeight db calls unfinished) (hcall : e ∈ calls)
    (hscan : e ≤ maxLedgerScanHeight) (hc : c ≤ e + 1)
    (hbelow : ∀ k : SlashKey, k.Valid → Uncancelled db k → ∀ r,
      db.get? (k.rowID .pending) = some r → db.get? (k.rowID .finalized) = none →
        c ≤ r.blockHeight) :
    BurnBook txHeight (db.put (finalizeCursorRecord e c)) calls unfinished := by
  have hlt : c < 2 ^ 64 := by
    have : maxLedgerScanHeight = 2 ^ 63 - 1 := rfl
    omega
  have hforeign := foreignRow_finalizeCursorRecord e c
  have hsound : CursorSound (db.put (finalizeCursorRecord e c)) :=
    forall_mem_put (fun _ => ⟨e, c, rfl, hscan, hlt⟩) h.cursorSound
  have hread : readSafetySlashFinalizeCursor (db.put (finalizeCursorRecord e c)) = c := by
    refine hsound.read_of_some (h := e) ?_ hlt
    exact get?_of_mem (mem_put_self db (finalizeCursorRecord e c))
  refine ⟨h.shaped.put (.inl hforeign), hsound, .inr ⟨e, hcall, hread.trans_le hc⟩,
    fun k hk => ?_⟩
  refine (h.cases k hk).frame (fun p hp => get?_put_of_ne (hforeign.id_ne hk hp)) ?_
  rw [hread]
  exact hbelow k hk

theorem take_cursorWrites_eq_nil {n : ℕ} (h : n < (cursorWrites db e).length) :
    (cursorWrites db e).take n = [] := by
  rw [cursorWrites] at h ⊢
  split at h
  · rw [if_pos ‹_›]
    obtain rfl : n = 0 := by simpa using h
    rfl
  · simp at h

theorem Shaped.promotion_id_ne (h : Shaped db) (hscan : e ≤ maxLedgerScanHeight) (hk : k.Valid)
    {p : SlashPart} (hp : p = .pending ∨ p = .cancelRelease)
    (hx : x ∈ (promotedRows db e).flatMap (promotionRecords e)) : x.id ≠ k.rowID p := by
  obtain ⟨r, hr, hx⟩ := mem_flatMap.1 hx
  obtain ⟨hmem, -, htype, -⟩ := mem_promotedRows hr
  obtain ⟨k', hk', hrow, -⟩ := h.key_of_type hmem (.inr rfl) htype
  obtain ⟨hrelease, hprom, hmarker⟩ := slashRow_promotionRecords hrow hscan
  have hne : ∀ {q : SlashPart}, SlashRow k' q x → q.Plain → q ≠ .pending → q ≠ .cancelRelease →
      x.id ≠ k.rowID p := by
    intro q hqx hq hpending hcancel hid
    rw [hqx.id] at hid
    rcases hp with rfl | rfl
    · exact hpending (SlashKey.rowID_inj hk' hk hid hq trivial).2
    · exact hcancel (SlashKey.rowID_inj hk' hk hid hq trivial).2
  rcases mem_triple.1 hx with rfl | rfl | rfl
  · exact hne hrelease trivial nofun nofun
  · exact hne hprom trivial nofun nofun
  · exact hne hmarker trivial nofun nofun

theorem BurnBook.afterPromotions (h : BurnBook txHeight db calls unfinished)
    (hscan : e ≤ maxLedgerScanHeight) (hk : k.Valid)
    (hdb : db' = db.putAll ((promotedRows db e).flatMap (promotionRecords e)))
    (hc : Uncancelled db' k) (hr : db'.get? (k.rowID .pending) = some r) :
    (∀ m, r.maturity = some m → m ≤ e → ∃ y, db'.get? (k.rowID .finalized) = some y) ∧
      (db'.get? (k.rowID .finalized) = none → newFinalizeCursor db e ≤ r.blockHeight) := by
  subst hdb
  have hsame : ∀ {p : SlashPart}, (p = .pending ∨ p = .cancelRelease) →
      (db.putAll ((promotedRows db e).flatMap (promotionRecords e))).get? (k.rowID p) =
        db.get? (k.rowID p) :=
    fun hp => get?_putAll_of_not_mem fun x hx => h.shaped.promotion_id_ne hscan hk hp hx
  rw [Uncancelled, hsame (.inr rfl)] at hc
  rw [hsame (.inl rfl)] at hr
  have hmarked : ∀ m, r.maturity = some m → m ≤ e →
      ∃ y, (db.putAll ((promotedRows db e).flatMap (promotionRecords e))).get?
        (k.rowID .finalized) = some y := by
    intro m hm hme
    refine exists_get?_putAll ((h.marked hk hc hr hm hme).imp_right fun hprom => ?_)
    refine ⟨finalizedMarkerRecord e r, mem_flatMap.2 ⟨r, hprom, by simp [promotionRecords]⟩, ?_⟩
    rw [finalizedMarkerRecord_id, (h.shaped.slashRow hk hr trivial).id]
    rfl
  refine ⟨hmarked, fun hnone => ?_⟩
  obtain ⟨hcur, hkept⟩ := @newFinalizeCursor_spec db _ hscan
  obtain ⟨-, -, ⟨m, hm, hlt⟩, -⟩ := (h.cases k hk).pending r hr
  have hme : e < m := by
    by_contra hme
    obtain ⟨y, hy⟩ := hmarked m hm (not_lt.1 hme)
    rw [hnone] at hy
    cases hy
  have hnone' : db.get? (k.rowID .finalized) = none := by
    cases hy : db.get? (k.rowID .finalized) with
    | none => rfl
    | some y =>
      have hkeep : ∃ y, (db.putAll ((promotedRows db e).flatMap (promotionRecords e))).get?
          (k.rowID .finalized) = some y := exists_get?_putAll (.inl ⟨y, hy⟩)
      simp [hnone] at hkeep
  by_cases hin : r.blockHeight ≤ e
  · obtain ⟨hmem, hdone, hamt⟩ := h.mem_scannedPending hk hc hr hnone' hin
    refine hkept r hmem ?_
    simp only [keptForLater, Bool.and_eq_true, decide_eq_true_eq, Bool.not_eq_true',
      contains_eq_mem, decide_eq_false_iff_not, Option.any_eq_true]
    exact ⟨⟨hamt, hdone⟩, m, hm, hme⟩
  · omega

theorem BurnBook.finalize (h : BurnBook txHeight db calls unfinished)
    (hscan : e ≤ maxLedgerScanHeight) (hle : ∀ c ∈ calls, c ≤ e)
    (hagain : unfinished = true → calls.head? = some e) (n : ℕ) :
    BurnBook txHeight (db.putAll ((finalizeWrites db e).take n)) (enterCall calls e)
      (decide (n < (finalizeWrites db e).length)) := by
  have henter := h.enter hle hagain
  have hhead := head?_enterCall calls e
  have hpart := henter.promoteAll hscan _ fun r hr =>
    henter.promotes (le_of_mem_enterCall hle) hhead hr
  obtain ⟨db', hdb⟩ : ∃ db', db' = db.putAll ((promotedRows db e).flatMap (promotionRecords e)) :=
    ⟨_, rfl⟩
  -- with all promotions stored the call is over, the cursor apart
  have hover : BurnBook txHeight db' (enterCall calls e) false := by
    have hfull := hpart ((promotedRows db e).flatMap (promotionRecords e)).length
    rw [take_length, ← hdb] at hfull
    exact hfull.finish hhead fun k hk hc r m hr hm hme =>
      (henter.afterPromotions hscan hk hdb hc hr).1 m hm hme
  by_cases hskip : e = 0 ∨ e < readSafetySlashFinalizeCursor db
  · have hnil : promotedRows db e = [] := by rw [promotedRows, if_pos hskip]
    rw [finalizeWrites, if_pos hskip]
    rw [hdb, hnil] at hover
    simpa using hover
  rw [finalizeWrites, if_neg hskip, take_append, putAll_append, length_append]
  by_cases hcut : n < ((promotedRows db e).flatMap (promotionRecords e)).length +
      (cursorWrites db e).length
  · have hnil : (cursorWrites db e).take
        (n - ((promotedRows db e).flatMap (promotionRecords e)).length) = [] := by
      by_cases hn : n < ((promotedRows db e).flatMap (promotionRecords e)).length
      · rw [Nat.sub_eq_zero_of_le hn.le, take_zero]
      · exact take_cursorWrites_eq_nil (by omega)
    rw [decide_eq_true hcut, hnil, putAll_nil]
    exact hpart n
  rw [decide_eq_false hcut, take_of_length_le (by omega), take_of_length_le (by omega),
    ← hdb, cursorWrites]
  split
  · refine hover.moveCursor (mem_enterCall.2 (.inl rfl)) hscan
      (newFinalizeCursor_spec hscan).1 fun k hk hc r hr hnone => ?_
    exact (henter.afterPromotions hscan hk hdb hc hr).2 hnone
  · exact hover

end Steps

/-! ## Runs -/

/-- The stores of a node, the heights of its finalizations, latest first, and whether
the latest was cut. -/
structure BurnLog where
  dbs : LedgerDbs := {}
  calls : List ℕ := []
  unfinished : Bool := false

/-- A call whose first `landed` rows are stored, or a new snapshot. -/
inductive BurnEvent
  | snapshot (balances : BalanceDb)
  | slash (p : SafetySlashConsensusParams) (landed : ℕ)
  | cancel (p : CancelPendingSafetySlashBurnParams) (landed : ℕ)
  | finalize (height landed : ℕ)

namespace BurnLog

variable (txHeight : String → ℕ) (s : BurnLog)

def apply : BurnEvent → BurnLog
  | .snapshot balances => { s with dbs := { s.dbs with balances := balances } }
  | .slash p landed => { s with dbs := s.dbs.storeLedger ((slashWrites s.dbs p).take landed) }
  | .cancel p landed => { s with dbs := s.dbs.storeLedger ((cancelWrites s.dbs.ledger p).take landed) }
  | .finalize height landed =>
    { dbs := s.dbs.storeLedger ((finalizeWrites s.dbs.ledger height).take landed)
      calls := enterCall s.calls height
      unfinished := decide (landed < (finalizeWrites s.dbs.ledger height).length) }

theorem apply_whole : (∀ p landed, (slashWrites s.dbs p).length ≤ landed →
      (s.apply (.slash p landed)).dbs = (safetySlashConsensusBond s.dbs p).1) ∧
    (∀ p landed, (cancelWrites s.dbs.ledger p).length ≤ landed →
      (s.apply (.cancel p landed)).dbs.ledger = (cancelPendingSafetySlashBurn s.dbs.ledger p).1) ∧
    ∀ height landed, (finalizeWrites s.dbs.ledger height).length ≤ landed →
      (s.apply (.finalize height landed)).dbs.ledger =
        finalizeMaturedSafetySlashBurns s.dbs.ledger height := by
  refine ⟨fun p landed h => ?_, fun p landed h => ?_, fun height landed h => ?_⟩
  · rw [safetySlashConsensusBond_eq, apply, take_of_length_le h]
  · rw [cancelPendingSafetySlashBurn_eq, apply, take_of_length_le h]
    rfl
  · rw [finalizeMaturedSafetySlashBurns_eq_putAll, apply, take_of_length_le h]
    rfl

def Enabled : BurnEvent → Prop
  | .snapshot _ => True
  | .slash p _ => DelayedSlash txHeight p ∧ ∀ c ∈ s.calls, c < p.blockHeight
  | .cancel p _ => p.blockHeight ≤ maxLedgerScanHeight
  | .finalize height _ => height ≤ maxLedgerScanHeight ∧ (∀ c ∈ s.calls, c ≤ height) ∧
      (s.unfinished = true → s.calls.head? = some height)

instance (txHeight : String → ℕ) (s : BurnLog) (e : BurnEvent) : Decidable (s.Enabled txHeight e) := by
  cases e <;> unfold Enabled <;> infer_instance

def Sound : Prop :=
  BurnBook txHeight s.dbs.ledger s.calls s.unfinished

variable {txHeight : String → ℕ}

theorem Sound.apply {s : BurnLog} (h : s.Sound txHeight) {e : BurnEvent}
    (hok : s.Enabled txHeight e) : (s.apply e).Sound txHeight := by
  cases e with
  | snapshot balances => exact h
  | slash p landed => exact BurnBook.slash h hok.1 hok.2 landed
  | cancel p landed => exact BurnBook.cancel h hok landed
  | finalize height landed => exact BurnBook.finalize h hok.1 hok.2.1 hok.2.2 landed

/-- In every run, an uncancelled pending row is in the reserve once a call that
reached its maturity is over, it was put there by the first such call and is put
there by no other, and the cursor is not above it before. -/
theorem promoted_once {s : BurnLog}
    (hrun : ReflTransGen (Run.StepBy apply (Enabled txHeight)) {} s) {r : LedgerRecord} {m : ℕ}
    (hr : r ∈ s.dbs.ledger) (htype : r.type = .safetySlashHiveBurnPending)
    (hm : r.maturity = some m)
    (huncancelled : s.dbs.ledger.get? (r.id ++ "#cancel_release") = none) :
    (s.unfinished = false → ∀ c ∈ s.calls, m ≤ c →
      ∃ x ∈ s.dbs.ledger, x.id = r.id ++ "#promoted_to_reserve" ∧ x.amount = r.amount ∧
        x.owner = protocolSlashReserveAccount ∧ x.type = .safetySlashReserve) ∧
    (∀ x ∈ s.dbs.ledger, x.id = r.id ++ "#promoted_to_reserve" →
      FirstCall s.calls m x.blockHeight) ∧
    (∀ height landed, s.Enabled txHeight (.finalize height landed) →
      r ∈ promotedRows s.dbs.ledger height → m ≤ height ∧ ∀ c ∈ s.calls, m ≤ c → c = height) ∧
    ((∀ x ∈ s.dbs.ledger, x.id ≠ r.id ++ "#promoted_to_reserve") →
      readSafetySlashFinalizeCursor s.dbs.ledger ≤ r.blockHeight) := by
  have hsound : s.Sound txHeight := by
    refine Run.preserves ?_ hrun (BurnBook.empty txHeight)
    rintro s - ⟨e, hok, rfl⟩ hs
    exact hs.apply hok
  obtain ⟨k, hk, hrow, hget⟩ := hsound.shaped.key_of_type hr (.inr rfl) htype
  have hcase := hsound.cases k hk
  have hc : Uncancelled s.dbs.ledger k := by
    rw [hrow.id] at huncancelled
    exact huncancelled
  have hpromID : r.id ++ "#promoted_to_reserve" = k.rowID .promoted := by
    rw [hrow.id]
    rfl
  rw [hpromID]
  refine ⟨fun hdone c hcall hmc => ?_, fun x hx hid => ?_, fun height landed hok hprom => ?_,
    fun hnone => ?_⟩
  · obtain ⟨y, hy⟩ := (hcase.complete hc r m hget hm c hcall hmc).resolve_right (by simp [hdone])
    obtain ⟨x, hx, -⟩ := hcase.finalized hc y hy
    have hxrow := hsound.shaped.slashRow hk hx trivial
    exact ⟨x, (get?_eq_some_iff.1 hx).1, hxrow.id, (hcase.promoted hc r m x hget hm hx).1,
      hxrow.owner, hxrow.type⟩
  · exact (hcase.promoted hc r m x hget hm (get?_eq_some_iff.2 ⟨hx, hid⟩)).2
  · obtain ⟨k', hk', hrow', -, hfirst⟩ := (BurnBook.enter hsound hok.2.1 hok.2.2).promotes
      (le_of_mem_enterCall hok.2.1) (head?_enterCall s.calls height) hprom
    obtain rfl : k = k' :=
      (SlashKey.rowID_inj hk hk' (hrow.id.symm.trans hrow'.id) trivial trivial).1
    obtain ⟨m', hm', hfirst⟩ := hfirst hc
    rw [hm, some.injEq] at hm'
    subst hm'
    exact ⟨hfirst.2.1, fun c hcall hmc => le_antisymm (hok.2.1 c hcall)
      (hfirst.2.2 c (mem_enterCall.2 (.inr hcall)) hmc)⟩
  refine hcase.cursor hc r hget ?_
  cases hy : s.dbs.ledger.get? (k.rowID .finalized) with
  | none => rfl
  | some y =>
    obtain ⟨x, hx, -⟩ := hcase.finalized hc y hy
    obtain ⟨hxmem, hxid⟩ := get?_eq_some_iff.1 hx
    exact absurd hxid (hnone x hxmem)

/-! ### A slash of 100 whose promotion is cut -/

/-- The burn of a slash at height 10 is not matured at 12; the call at 15 promotes
it, stops before the marker and is run again. -/
def cutPromotion : BurnLog :=
  List.foldl apply {} ([.snapshot Chain.bondSnapshot,
    .slash { account := "a", slashBps := 1000, txID := "s", blockHeight := 10
             evidenceKind := "vsc_double_block_sign", burnDelayBlocks := 5 } 2,
    .finalize 12 1, .finalize 15 2, .finalize 15 4])

def pendingOfTenth : LedgerRecord :=
  { id := Chain.slashKeyOfTenth.rowID .pending, txId := "s", blockHeight := 10, amount := 100
    asset := .hive, owner := protocolSlashPendingBurnAccount, from_ := "15"
    type := .safetySlashHiveBurnPending }

theorem promoted_once_cutPromotion :
    cutPromotion.calls = [15, 12] ∧ cutPromotion.unfinished = false ∧
      ∃ x ∈ cutPromotion.dbs.ledger, x.id = pendingOfTenth.id ++ "#promoted_to_reserve" ∧
        x.amount = 100 ∧ x.owner = protocolSlashReserveAccount ∧ x.type = .safetySlashReserve := by
  have hrun : ReflTransGen (Run.StepBy apply (Enabled fun _ => 10)) {} cutPromotion :=
    Run.foldl (by decide)
  have h := promoted_once (m := 15) (r := pendingOfTenth) hrun (mem_docs.1 (by decide)) rfl
    (by decide) (by decide)
  exact ⟨by decide, by decide, h.1 (by decide) 15 (by decide) le_rfl⟩

end BurnLog

end VscNode
