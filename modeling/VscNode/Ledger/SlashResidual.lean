import VscNode.Ledger.SlashCase

/-!
# What is still committed to the reserve

The amount a reverse record may credit is the slashed amount minus what has been
credited, minus what reached the reserve, minus what is still pending. The code
adds the last two over all rows of a transaction and kind. Each release row takes
back one pending row, and no pending row is taken back twice, so these sums are
at least what a single slash has committed, and the pending account as a whole
never goes below zero.
-/

namespace VscNode

open Collection List SlashKey SlashPart SlashStage Text

variable (k : SlashKey) (db : LedgerDb)

def pendingAccountTotal : Int :=
  db.sum fun r => if r.owner = protocolSlashPendingBurnAccount ∧ r.asset = .hive then r.amount else 0

def SlashKey.inReserve : Int :=
  db.valueAt (·.amount) (k.rowID .reserve) + db.valueAt (·.amount) (k.rowID .promoted)

def SlashKey.liveResidual : Int :=
  max 0 (db.valueAt (·.amount) (k.rowID .pending) + db.valueAt (·.amount) (k.rowID .release) +
    db.valueAt (·.amount) (k.rowID .cancelRelease))

/-- The rows a pending burn and its releases move hive with. -/
def SlashPart.isResidual : SlashPart → Bool
  | pending => true
  | release => true
  | cancelRelease => true
  | _ => false

/-- The rows that put hive in the reserve. -/
def SlashPart.isReserve : SlashPart → Bool
  | reserve => true
  | promoted => true
  | _ => false

section

variable {w : Carriers} {db : LedgerDb} {head slot : ℕ} {k : SlashKey} {st : SlashStage} {amt : Int}

structure Releases (db : LedgerDb) (k : SlashKey) (x y : LedgerRecord) : Prop where
  valid : k.Valid
  release : SlashRow k .release x ∨ SlashRow k .cancelRelease x
  pending : db.get? (k.rowID .pending) = some y
  amount : y.amount = -x.amount

variable {x r : LedgerRecord} {p : SlashPart}

theorem SlashLedger.exists_releases (h : SlashLedger w db head slot) (hx : x ∈ db) (hk : k.Valid)
    (hrow : SlashRow k p x) (hp : p.isResidual = true) (hneg : x.amount < 0) :
    ∃ y, Releases db k x y := by
  obtain ⟨st, amt, hcase⟩ := h.staged k hk
  have hget : db.get? (k.rowID p) = some x := hrow.id ▸ get?_of_mem hx
  have hpos := hcase.pos
  have hpending : .pending ∈ st.parts → x.amount = -amt →
      (SlashRow k .release x ∨ SlashRow k .cancelRelease x) → ∃ y, Releases db k x y := by
    intro hmem hamt hrel
    obtain ⟨y, hy, hyamt⟩ := hcase.has .pending hmem
    exact ⟨y, hk, hrel, hy, by rw [hyamt, hamt]; simp [amount]⟩
  cases p with
  | pending =>
    have hamt := (hcase.mem_parts rfl hget).2
    simp only [amount] at hamt
    omega
  | release =>
    obtain ⟨hmem, hamt⟩ := hcase.mem_parts rfl hget
    refine hpending ?_ hamt (.inl hrow)
    cases st <;> simp [parts] at hmem ⊢
  | cancelRelease =>
    obtain ⟨hmem, hamt⟩ := hcase.mem_parts rfl hget
    refine hpending ?_ hamt (.inr hrow)
    cases st <;> simp [parts] at hmem ⊢
  | _ => cases hp

variable {k' : SlashKey} {g : LedgerRecord → Int} {only : SlashKey → Bool}

theorem SlashLedger.releases_unique (h : SlashLedger w db head slot) {x' y : LedgerRecord}
    (hx : x ∈ db) (hx' : x' ∈ db) (hr : Releases db k x y) (hr' : Releases db k' x' y) :
    x = x' := by
  have hid := (get?_eq_some_iff.1 hr.pending).2
  have hid' := (get?_eq_some_iff.1 hr'.pending).2
  obtain ⟨rfl, -⟩ := rowID_inj hr.valid hr'.valid (hid.symm.trans hid') trivial trivial
  obtain ⟨st, amt, hcase⟩ := h.staged k hr.valid
  have hboth : ∀ {a b : LedgerRecord}, a ∈ db → b ∈ db → SlashRow k .release a →
      SlashRow k .cancelRelease b → False := by
    intro a b ha hb harow hbrow
    have hrel := (hcase.mem_parts rfl (harow.id ▸ get?_of_mem ha)).1
    have hcan := (hcase.mem_parts rfl (hbrow.id ▸ get?_of_mem hb)).1
    cases st <;> simp [parts] at hrel hcan
  rcases hr.release with hrow | hrow <;> rcases hr'.release with hrow' | hrow'
  · exact eq_of_key_eq hx hx' (hrow.id.trans hrow'.id.symm)
  · exact (hboth hx hx' hrow hrow').elim
  · exact (hboth hx' hx hrow' hrow).elim
  · exact eq_of_key_eq hx hx' (hrow.id.trans hrow'.id.symm)

/-- A weight that counts the pending burns and releases of some slashes. -/
structure CountsResidual (db : LedgerDb) (only : SlashKey → Bool) (g : LedgerRecord → Int) :
    Prop where
  foreign : ∀ r, ForeignRow r → g r = 0
  row : ∀ k p r, k.Valid → p.Plain → r ∈ db → SlashRow k p r →
    g r = if p.isResidual && only k then r.amount else 0

/-- A row of negative weight releases a row of the opposite weight. -/
theorem CountsResidual.exists_releases (hg : CountsResidual db only g)
    (h : SlashLedger w db head slot) (hx : x ∈ db) (hneg : g x < 0) :
    ∃ y k, Releases db k x y ∧ y ∈ db ∧ g y = -g x := by
  rcases h.shaped x hx with hforeign | ⟨k, p, hk, hp, hrow⟩
  · have := hg.foreign x hforeign
    omega
  have hgx := hg.row k p x hk hp hx hrow
  by_cases hcount : (p.isResidual && only k) = true
  · rw [if_pos hcount] at hgx
    rw [Bool.and_eq_true] at hcount
    obtain ⟨y, hrel⟩ := h.exists_releases hx hk hrow hcount.1 (by omega)
    have hy := (get?_eq_some_iff.1 hrel.pending).1
    refine ⟨y, k, hrel, hy, ?_⟩
    rw [hg.row k .pending y hk trivial hy (h.shaped.slashRow hk hrel.pending trivial),
      if_pos (by simp [isResidual, hcount.2]), hrel.amount, hgx]
  · rw [if_neg hcount] at hgx
    omega

theorem CountsResidual.kept_le_sum (hg : CountsResidual db only g) (h : SlashLedger w db head slot)
    (kept : List LedgerRecord) (hkept : kept.Nodup)
    (hlive : ∀ y ∈ kept, ∃ k amt, k.Valid ∧ SlashCase w db head slot k .live amt ∧
      db.get? (k.rowID .pending) = some y) :
    (kept.map g).sum ≤ db.sum g := by
  have hex : ∀ x, x ∈ db → g x < 0 → ∃ y, (∃ k, Releases db k x y) ∧ y ∈ db ∧ g y = -g x := by
    intro x hx hneg
    obtain ⟨y, k, hrel, hy⟩ := hg.exists_releases h hx hneg
    exact ⟨y, ⟨k, hrel⟩, hy⟩
  choose! partner hpartner using hex
  refine le_sum_of_matched partner (fun x hx hneg => (hpartner x hx hneg).2) ?_ hkept ?_ ?_
  · intro x hx x' hx' hneg hneg' heq
    obtain ⟨⟨k, hrel⟩, -⟩ := hpartner x hx hneg
    obtain ⟨⟨k', hrel'⟩, -⟩ := hpartner x' hx' hneg'
    exact h.releases_unique hx hx' hrel (heq ▸ hrel')
  · intro y hy
    obtain ⟨k, amt, hk, hcase, hget⟩ := hlive y hy
    obtain ⟨hmem, hamt⟩ := hcase.mem_parts rfl hget
    have hydb := (get?_eq_some_iff.1 hget).1
    refine ⟨hydb, ?_⟩
    rw [hg.row k .pending y hk trivial hydb (h.shaped.slashRow hk hget trivial), hamt]
    have := hcase.pos
    split
    · exact this.le
    · exact le_rfl
  intro x hx hneg hmem
  obtain ⟨⟨k, hrel⟩, -⟩ := hpartner x hx hneg
  obtain ⟨k', amt, hk', hcase, hget⟩ := hlive _ hmem
  -- A live slash has no release rows.
  obtain ⟨rfl, -⟩ := rowID_inj hrel.valid hk'
    ((get?_eq_some_iff.1 hrel.pending).2.symm.trans (get?_eq_some_iff.1 hget).2) trivial trivial
  rcases hrel.release with hrow | hrow
  · have := (hcase.mem_parts rfl (hrow.id ▸ get?_of_mem hx)).1
    simp [parts] at this
  · have := (hcase.mem_parts rfl (hrow.id ▸ get?_of_mem hx)).1
    simp [parts] at this

/-! ## The sums of the code -/

section

variable (h : SlashLedger w db head slot)
include h

theorem SlashLedger.amount_marker (hp : p = .finalized ∨ p = .cancelled) (hk : k.Valid)
    (hr : r ∈ db) (hrow : SlashRow k p r) : r.amount = 0 := by
  obtain ⟨st, amt, hcase⟩ := h.staged k hk
  rcases hp with rfl | rfl
  · exact (hcase.mem_parts rfl (hrow.id ▸ get?_of_mem hr)).2
  · exact (hcase.mem_parts rfl (hrow.id ▸ get?_of_mem hr)).2

theorem SlashLedger.countsResidual_total :
    CountsResidual db (fun _ => true) fun r =>
      if r.owner = protocolSlashPendingBurnAccount ∧ r.asset = .hive then r.amount else 0 where
  foreign := fun r hr => if_neg fun hc => hr.owner hc.1
  row := by
    intro k p r hk hp hr hrow
    have hmarker := fun hq => h.amount_marker hq hk hr hrow
    rw [hrow.owner, hrow.asset]
    cases p <;>
      simp [owner, asset, isResidual, protocolSlashReserveAccount,
        protocolSlashPendingBurnAccount] at hmarker ⊢
    all_goals exact hmarker

theorem SlashLedger.pendingAccountTotal_nonneg : 0 ≤ pendingAccountTotal db :=
  h.countsResidual_total.kept_le_sum h [] nodup_nil (by simp)

end

section

variable (db : LedgerDb) (txID kind : String)

def residualOf (r : LedgerRecord) : Int :=
  if r.owner = protocolSlashPendingBurnAccount ∧ r.blockHeight ≤ maxLedgerScanHeight ∧
      r.asset = .hive ∧ (r.type = .safetySlashHiveBurnPending ∨
        r.type = .safetySlashHiveBurnPendingRelease) ∧
      hasPrefix r.id (slashBaseID txID kind ++ "#") then r.amount else 0

theorem uncancelledPendingResidualAmt_eq :
    uncancelledPendingResidualAmt db txID kind = max 0 (db.sum (residualOf txID kind)) := by
  rw [uncancelledPendingResidualAmt, sumWithPrefix, LedgerDb.sum_getLedgerRange]
  refine congrArg (max 0) (sum_congr fun r _ => ?_)
  rw [residualOf, ← ite_and]
  refine if_congr ?_ rfl rfl
  simp [and_assoc]

def reserveOf (r : LedgerRecord) : Int :=
  if r.owner = protocolSlashReserveAccount ∧ r.blockHeight ≤ maxLedgerScanHeight ∧
      r.asset = .hive ∧ r.type = .safetySlashReserve ∧
      hasPrefix r.id (slashBaseID txID kind ++ "#") then r.amount else 0

theorem alreadyFinalizedToReserveAmt_eq :
    alreadyFinalizedToReserveAmt db txID kind = db.sum (reserveOf txID kind) := by
  rw [alreadyFinalizedToReserveAmt, sumWithPrefix, LedgerDb.sum_getLedgerRange]
  refine sum_congr fun r _ => ?_
  rw [reserveOf, ← ite_and]
  refine if_congr ?_ rfl rfl
  simp [and_assoc]

end

theorem SlashLedger.alreadyReversedConsensusAmt_eq (h : SlashLedger w db head slot)
    {account : String} (hacct : normalizeHiveConsensusAccount account = k.acct) :
    alreadyReversedConsensusAmt db k.txID k.kind account = reversedAmount db k := by
  rw [alreadyReversedConsensusAmt, sumWithPrefix, LedgerDb.sum_getLedgerRange, hacct]
  refine sum_congr fun r hr => ?_
  rw [credited, ← ite_and]
  rcases h.shaped r hr with hforeign | ⟨k', p, hk', hp, hrow⟩
  · rw [if_neg, if_neg]
    all_goals
      intro hc
      rcases hforeign.type with ht | ht | ht <;> simp [ht] at hc
  refine if_congr ?_ rfl rfl
  have hscan := hrow.inScan
  have hasset := hrow.asset
  have htype := hrow.type
  constructor
  · rintro ⟨⟨howner, -, -, -, ht⟩, hpre⟩
    exact ⟨by simpa using ht, howner, hpre⟩
  rintro ⟨ht, howner, hpre⟩
  refine ⟨⟨howner, Nat.zero_le _, hscan, ?_, by simp [ht]⟩, hpre⟩
  rw [ht] at htype
  cases p <;> simp [type, asset] at htype hasset ⊢
  exact hasset

theorem countsResidual_residualOf (db : LedgerDb) (hk : k.Valid) :
    CountsResidual db (fun k' => k'.txID = k.txID ∧ k'.kind = k.kind)
      (residualOf k.txID k.kind) where
  foreign := fun r hr => if_neg fun hc => hr.owner hc.1
  row := by
    intro k' p r hk' hp hr hrow
    rw [residualOf]
    refine if_congr ?_ rfl rfl
    rw [hrow.owner, hrow.asset, hrow.type, hrow.id, hk'.hasPrefix_rowID hk hp]
    cases p <;>
      simp [owner, asset, type, isResidual, hrow.inScan]

theorem SlashRow.reserveOf (hk : k.Valid) (hk' : k'.Valid) (hp : p.Plain) (hrow : SlashRow k' p r) :
    reserveOf k.txID k.kind r =
      if p.isReserve ∧ k'.txID = k.txID ∧ k'.kind = k.kind then r.amount else 0 := by
  rw [VscNode.reserveOf]
  refine if_congr ?_ rfl rfl
  rw [hrow.owner, hrow.asset, hrow.type, hrow.id, hk'.hasPrefix_rowID hk hp]
  cases p <;>
    simp [SlashPart.owner, SlashPart.asset, SlashPart.type, SlashPart.isReserve, hrow.inScan]

section

variable (h : SlashLedger w db head slot) (hk : k.Valid)
include h hk

theorem SlashLedger.reserveOf_nonneg (hr : r ∈ db) : 0 ≤ reserveOf k.txID k.kind r := by
  rcases h.shaped r hr with hforeign | ⟨k', p, hk', hp, hrow⟩
  · rw [reserveOf, if_neg]
    rintro ⟨-, -, -, ht, -⟩
    rcases hforeign.type with ht' | ht' | ht' <;> simp [ht'] at ht
  rw [hrow.reserveOf hk hk' hp]
  split
  · rename_i hc
    obtain ⟨st, amt, hcase⟩ := h.staged k' hk'
    have hpos := hcase.pos
    have hget : db.get? (k'.rowID p) = some r := hrow.id ▸ get?_of_mem hr
    cases p with
    | reserve => exact (hcase.mem_parts rfl hget).2 ▸ hpos.le
    | promoted => exact (hcase.mem_parts rfl hget).2 ▸ hpos.le
    | _ => exact absurd hc.1 (by simp [isReserve])
  · exact le_rfl

theorem SlashLedger.alreadyFinalizedToReserveAmt_nonneg :
    0 ≤ alreadyFinalizedToReserveAmt db k.txID k.kind := by
  rw [alreadyFinalizedToReserveAmt_eq]
  apply sum_nonneg
  intro x hx
  obtain ⟨r, hr, rfl⟩ := mem_map.1 hx
  exact h.reserveOf_nonneg hk hr

theorem SlashLedger.le_alreadyFinalizedToReserveAmt (hp : p.isReserve = true)
    (hr : db.get? (k.rowID p) = some r) :
    r.amount ≤ alreadyFinalizedToReserveAmt db k.txID k.kind := by
  have hplain : p.Plain := by cases p <;> trivial
  have hmem := (get?_eq_some_iff.1 hr).1
  have hrow := (h.shaped.slashRow hk hr hplain).reserveOf hk hk hplain
  rw [if_pos ⟨hp, rfl, rfl⟩] at hrow
  rw [alreadyFinalizedToReserveAmt_eq, ← hrow]
  refine single_le_sum ?_ _ (mem_map_of_mem hmem)
  intro x hx
  obtain ⟨r', hr', rfl⟩ := mem_map.1 hx
  exact h.reserveOf_nonneg hk hr'

theorem SlashCase.le_uncancelledPendingResidualAmt (hcase : SlashCase w db head slot k .live amt) :
    amt ≤ uncancelledPendingResidualAmt db k.txID k.kind := by
  obtain ⟨r, hr, hamt⟩ := hcase.has .pending (by simp [parts])
  have hcount := countsResidual_residualOf db hk
  have hle := hcount.kept_le_sum h [r] (nodup_singleton r)
    (by simpa using ⟨k, hk, ⟨amt, hcase⟩, hr⟩)
  have hrow := hcount.row k .pending r hk trivial (get?_eq_some_iff.1 hr).1
    (h.shaped.slashRow hk hr trivial)
  simp only [isResidual, and_self, decide_true, Bool.and_self, if_true] at hrow
  rw [map_singleton, sum_singleton, hrow, hamt] at hle
  rw [uncancelledPendingResidualAmt_eq]
  exact hle.trans (le_max_right _ _)

theorem SlashCase.le_committed (hcase : SlashCase w db head slot k st amt) (habsent : st ≠ .absent)
    (hst : st ≠ .cancelled) :
    amt ≤ alreadyFinalizedToReserveAmt db k.txID k.kind +
      uncancelledPendingResidualAmt db k.txID k.kind := by
  have hfin := h.alreadyFinalizedToReserveAmt_nonneg hk
  have hres : 0 ≤ uncancelledPendingResidualAmt db k.txID k.kind := le_max_left _ _
  cases st with
  | absent => exact absurd rfl habsent
  | cancelled => exact absurd rfl hst
  | live =>
    have := hcase.le_uncancelledPendingResidualAmt h hk
    omega
  | reserved =>
    obtain ⟨r, hr, hamt⟩ := hcase.has .reserve (by simp [parts])
    have hle := h.le_alreadyFinalizedToReserveAmt hk rfl hr
    simp only [amount] at hamt
    omega
  | promoted =>
    obtain ⟨r, hr, hamt⟩ := hcase.has .promoted (by simp [parts])
    have hle := h.le_alreadyFinalizedToReserveAmt hk rfl hr
    simp only [amount] at hamt
    omega

end

theorem SlashCase.bound (hcase : SlashCase w db head slot k st amt) (hshaped : Shaped db)
    (hk : k.Valid) (habsent : st ≠ .absent) :
    reversedAmount db k + k.inReserve db + k.liveResidual db ≤ amt := by
  have hpos := hcase.pos
  have hvalue : ∀ p : SlashPart, p.isReverse = false →
      db.valueAt (·.amount) (k.rowID p) = if p ∈ st.parts then p.amount amt else 0 := by
    intro p hp
    split
    · rename_i hmem
      obtain ⟨r, hr, hamt⟩ := hcase.has p hmem
      rw [valueAt_of_get?_eq_some hr, hamt]
    rename_i hmem
    exact valueAt_of_get?_eq_none (hcase.lacks p (plain_of_not_isReverse hp) hmem
      (by simp [hp])) _
  have hrev : reversedAmount db k ≤ if st = .cancelled then amt else 0 := by
    split
    · rename_i hst
      exact hcase.reversed hst
    · rename_i hst
      exact (hcase.reversedAmount_eq_zero hshaped hk hst).le
  rw [inReserve, liveResidual, hvalue _ rfl, hvalue _ rfl, hvalue _ rfl,
    hvalue _ rfl, hvalue _ rfl]
  cases st with
  | absent => exact absurd rfl habsent
  | _ =>
    simp [parts, amount] at hrev ⊢
    omega

end

end VscNode
