import VscNode.Ledger.BondCycle

/-!
# How much a slash takes

A slash is computed from the last snapshot of the account and debited from its
current balance. The two differ by the rows past the snapshot, so the debit stays
within the slashed share of the balance exactly when the snapshot does not exceed
the balance by more than rounding gives back, or the slash was recorded before.

The debit replaces no other row: along every run, a row with the id of a debit is
the debit of that slash (`LegRows`).
-/

namespace VscNode

open Collection LedgerDbs List Relation Text

/-! ## Rows with the ids of slash legs -/

structure LegRow (w : Carriers) (r : LedgerRecord) : Prop where
  debit : ∀ {txID kind acct}, Free '#' kind → HiveAccount acct →
    r.id = slashDebitID txID kind acct →
      r.owner = acct ∧ r.asset = .hiveConsensus ∧ r.type = .safetySlashConsensus ∧
        r.amount < 0 ∧ r.blockHeight = w.txHeight txID
  companion : ∀ {txID kind acct}, Free '#' kind → HiveAccount acct →
    r.id = slashReserveID txID kind acct ∨ r.id = slashPendingID txID kind acct → r.asset = .hive

theorem legRow_of_rowClass_ne {r : LedgerRecord} (h : rowClass r.id ≠ .leg) (w : Carriers) :
    LegRow w r where
  debit := by
    intro txID kind acct hkind hacct hid
    rw [hid, rowClass_slashDebitID txID hkind hacct] at h
    exact absurd rfl h
  companion := by
    rintro txID kind acct hkind hacct (hid | hid)
    · rw [hid, rowClass_slashReserveID txID hkind hacct] at h
      exact absurd rfl h
    · rw [hid, rowClass_slashPendingID txID hkind hacct] at h
      exact absurd rfl h

section Legs

variable {w : Carriers} {head : ℕ} {p : SafetySlashConsensusParams} {acct : String} {amt : Int}

theorem legRow_slashDebitRecord (hp : SlashCarried w head p) (hacct : Free '#' acct)
    (hamt : 0 < amt) : LegRow w (slashDebitRecord p acct amt) where
  debit := by
    intro txID kind acct' hkind hacct' hid
    obtain ⟨rfl, rfl, rfl⟩ := slashDebitID_inj hp.kindFree hkind hacct hacct'.1 hid
    refine ⟨rfl, rfl, rfl, ?_, hp.height.trans hp.txHeight.symm⟩
    change -amt < 0
    omega
  companion := by
    rintro txID kind acct' hkind hacct' (hid | hid)
    · exact absurd hid (slashDebitID_ne_slashReserveID hp.kindFree hkind hacct hacct'.1)
    · exact absurd hid (slashDebitID_ne_slashPendingID hp.kindFree hkind hacct hacct'.1)

theorem legRow_slashCompanion (hp : SlashCarried w head p) (hacct : Free '#' acct)
    {companion : LedgerRecord} (hc : SlashCompanion p acct amt companion) :
    LegRow w companion := by
  cases hc with
  | reserve hdelay =>
    refine ⟨fun {txID kind acct'} hkind hacct' hid => ?_, fun _ _ _ => rfl⟩
    exact absurd hid.symm (slashDebitID_ne_slashReserveID hkind hp.kindFree hacct'.1 hacct)
  | pending maturity hdelay hle hmaturity =>
    refine ⟨fun {txID kind acct'} hkind hacct' hid => ?_, fun _ _ _ => rfl⟩
    exact absurd hid.symm (slashDebitID_ne_slashPendingID hkind hp.kindFree hacct'.1 hacct)

end Legs

/-! ## Runs keep the legs -/

structure Node.LegsKept (w : Carriers) (n : Node) : Prop where
  legs : ∀ r ∈ n.dbs.ledger, LegRow w r
  behind : SnapshotsBehind n.dbs.balances n.head n.slot

namespace Node.LegsKept

variable {w : Carriers} {n : Node}

theorem genesis (w : Carriers) (head : ℕ) : LegsKept w (Node.genesis head) where
  legs := fun r hr => absurd hr (not_mem_empty r)
  behind := SnapshotsBehind.empty head

theorem closed {dbs : LedgerDbs} (hlegs : ∀ r ∈ dbs.ledger, LegRow w r)
    (hbehind : SnapshotsBehind dbs.balances n.head (slotStart n.head)) :
    LegsKept w { n.setDbs dbs with slot := slotStart n.head } :=
  ⟨hlegs, hbehind⟩

theorem setDbs {dbs : LedgerDbs} (hlegs : ∀ r ∈ dbs.ledger, LegRow w r)
    (hbehind : SnapshotsBehind dbs.balances n.head n.slot) : LegsKept w (n.setDbs dbs) :=
  ⟨hlegs, hbehind⟩

theorem storeLedger (h : LegsKept w n) {rows : List LedgerRecord} (hrows : ∀ r ∈ rows, LegRow w r) :
    LegsKept w (n.setDbs (n.dbs.storeLedger rows)) :=
  setDbs (forall_mem_putAll h.legs hrows) h.behind

theorem slash (h : LegsKept w n) {p : SafetySlashConsensusParams} (hp : SlashCarried w n.head p) :
    LegsKept w (n.setDbs (safetySlashConsensusBond n.dbs p).1) := by
  rw [safetySlashConsensusBond_eq]
  refine h.storeLedger ?_
  rcases slashWrites_cases (s := n.dbs) (p := p) rfl with
    hnil | ⟨amt, companion, hamt, -, hcompanion, -, hrows⟩
  · simp [hnil]
  rw [hrows]
  exact forall_mem_pair (legRow_slashDebitRecord hp hp.acctFree hamt)
    (legRow_slashCompanion hp hp.acctFree hcompanion)

theorem apply (h : LegsKept w n) {e : Event} (he : Enabled w n e) : LegsKept w (n.apply e) := by
  cases e with
  | l1Block height => exact ⟨h.legs, h.behind.next he⟩
  | store rows =>
    refine h.storeLedger fun r hr => legRow_of_rowClass_ne ?_ w
    rw [rowClass_of_free (he r hr).2.1]
    decide
  | batch txs =>
    refine ⟨?_, ?_⟩
    · rw [Node.dbs_apply_batch]
      exact h.legs
    · rw [Node.dbs_apply_batch]
      exact h.behind
  | block bh br1 =>
    refine ⟨forall_mem_putAll h.legs ?_, h.behind⟩
    intro r hr
    obtain ⟨u, hu, rfl⟩ := mem_map.1 hr
    obtain ⟨v, -, hv⟩ := mem_flatMap.1 hu
    refine legRow_of_rowClass_ne ?_ w
    rw [LedgerUpdate.toRecord, rowClass_of_mem_opLedgerRecords hv]
    decide
  | slash p => exact h.slash he
  | payout p =>
    refine setDbs ?_ h.behind
    rw [reservePayout_eq]
    rcases payoutWrites_cases n.dbs.ledger p with hnil | ⟨hrows, -, -, hrecipient, -⟩
    · rw [hnil]
      exact h.legs
    rw [hrows]
    refine forall_mem_putAll h.legs fun r hr => legRow_of_rowClass_ne ?_ w
    rw [rowClass_of_mem_reservePayout
      ⟨he.recipientFree, hasPrefix_normalizeHiveConsensusAccount hrecipient⟩ hr]
    decide
  | slotChange env startBlock =>
    have hbehind := h.behind.slotChange env startBlock he
    obtain ⟨cursorRows, hcur, heq⟩ := updateBalances_ledger n.dbs env startBlock n.slot
    refine closed ?_ hbehind
    rw [heq]
    refine forall_mem_putAll h.legs fun r hr => legRow_of_rowClass_ne ?_ w
    rcases mem_append.1 hr with hr | hr
    · rcases rowClass_of_mem_slotRows hr with hclass | hclass <;> (rw [hclass]; decide)
    rcases hcur with rfl | ⟨c, rfl⟩
    · simp at hr
    · rw [mem_singleton.1 hr, rowClass_finalizeCursorRecord]
      decide

end Node.LegsKept

theorem Node.Reachable.legsKept {w : Carriers} {n : Node} (h : Reachable w n) : LegsKept w n := by
  obtain ⟨head, hrun⟩ := h
  refine Run.preserves ?_ hrun (LegsKept.genesis w head)
  rintro s t ⟨e, he, rfl⟩ hs
  exact hs.apply he

/-! ## The balance before and after a slash -/

section Balance

variable {w : Carriers} {head : ℕ} {s : LedgerDbs} {p : SafetySlashConsensusParams} {acct : String}
  {amt : Int} {companion : LedgerRecord}

theorem between_put_companion (hlegs : ∀ r ∈ s.ledger, LegRow w r) (hp : SlashCarried w head p)
    (hacct : HiveAccount acct) (hc : SlashCompanion p acct amt companion) (start stop : ℕ) :
    (s.ledger.put companion).between (·.blockHeight) (·.moves acct .hiveConsensus) start stop =
      s.ledger.between (·.blockHeight) (·.moves acct .hiveConsensus) start stop := by
  have hid : companion.id = slashReserveID p.txID p.evidenceKind acct ∨
      companion.id = slashPendingID p.txID p.evidenceKind acct := by
    cases hc with
    | reserve => exact .inl rfl
    | pending => exact .inr rfl
  have hzero : ∀ r : LedgerRecord, r.asset = .hive → r.moves acct .hiveConsensus = 0 :=
    fun r hr => LedgerRecord.moves_of_asset_ne (by rw [hr]; decide) acct
  have hself : companion.asset = .hive := by cases hc <;> rfl
  rw [between, sum_put, hzero companion hself, valueAt_eq_zero fun r hr hkey => ?_, ite_self,
    add_zero, sub_zero, between]
  rw [hzero r ((hlegs r hr).companion hp.kindFree hacct (hid.imp hkey.trans hkey.trans)), ite_self]

theorem moves_slashDebitRecord :
    (slashDebitRecord p acct amt).moves acct .hiveConsensus = -amt := by
  simp [LedgerRecord.moves, slashDebitRecord, isProtocolMetaLedgerType]

theorem getBalance_storeSlash (hlegs : ∀ r ∈ s.ledger, LegRow w r) (hp : SlashCarried w head p)
    (hbehind : ∀ r ∈ s.balances, r.blockHeight < p.blockHeight) (hacct : HiveAccount acct)
    (hamt : 0 < amt) (hc : SlashCompanion p acct amt companion) :
    (s.storeLedger [slashDebitRecord p acct amt, companion]).getBalance acct p.blockHeight
        .hiveConsensus =
      s.getBalance acct p.blockHeight .hiveConsensus - amt -
        s.ledger.valueAt (·.amount) (slashDebitID p.txID p.evidenceKind acct) := by
  have hasset : Asset.hiveConsensus ∈ snapshotAssets := by decide
  rw [getBalance_eq hasset, getBalance_eq hasset]
  simp only [storeLedger_balances, storeLedger_ledger, putAll_cons, putAll_nil]
  generalize hstart : (s.balances.getBalanceRecord acct p.blockHeight).elim 0
    (fun r => r.blockHeight + 1) = start
  have hle : start ≤ p.blockHeight := by
    rw [← hstart]
    cases hrec : s.balances.getBalanceRecord acct p.blockHeight with
    | none => exact Nat.zero_le _
    | some r => exact hbehind r (BalanceDb.getBalanceRecord_eq_some hrec).1
  have hlegs' : ∀ r ∈ (s.storeLedger [slashDebitRecord p acct amt]).ledger, LegRow w r :=
    forall_mem_putAll hlegs fun r hr => by
      rw [mem_singleton.1 hr]
      exact legRow_slashDebitRecord hp hacct.1 hamt
  have hcomp := between_put_companion hlegs' hp hacct hc start p.blockHeight
  simp only [storeLedger_ledger, putAll_cons, putAll_nil] at hcomp
  have hnew : (if start ≤ (slashDebitRecord p acct amt).blockHeight ∧
      (slashDebitRecord p acct amt).blockHeight ≤ p.blockHeight then
        (slashDebitRecord p acct amt).moves acct .hiveConsensus else 0) = -amt := by
    rw [if_pos ⟨hle, le_rfl⟩, moves_slashDebitRecord]
  have hold : s.ledger.valueAt (fun r =>
        if start ≤ r.blockHeight ∧ r.blockHeight ≤ p.blockHeight then
          r.moves acct .hiveConsensus else 0) (slashDebitRecord p acct amt).id =
      s.ledger.valueAt (·.amount) (slashDebitID p.txID p.evidenceKind acct) := by
    change s.ledger.valueAt _ (slashDebitID p.txID p.evidenceKind acct) = _
    cases hget : s.ledger.get? (slashDebitID p.txID p.evidenceKind acct) with
    | none => rw [valueAt_of_get?_eq_none hget, valueAt_of_get?_eq_none hget]
    | some r =>
      obtain ⟨hr, hkey⟩ := get?_eq_some_iff.1 hget
      obtain ⟨howner, hass, htype, -, hheight⟩ := (hlegs r hr).debit hp.kindFree hacct hkey
      rw [hp.txHeight, ← hp.height] at hheight
      rw [valueAt_of_get?_eq_some hget, valueAt_of_get?_eq_some hget]
      simp [LedgerRecord.moves, howner, hass, htype, hheight, hle, isProtocolMetaLedgerType]
  rw [hcomp, between, sum_put, hnew, hold, ← between]
  abel

end Balance

/-! ## When a slash stays within the bond -/

def SlashWithinBond (before after slashBps : Int) : Prop :=
  (0 ≤ before → 0 ≤ after) ∧ 10000 * (before - after) ≤ slashBps * max before 0
  deriving Decidable

def snapshotBond (s : LedgerDbs) (acct : String) (blockHeight : ℕ) : Int :=
  (s.balances.getBalanceRecord acct blockHeight).elim 0 (·.hiveConsensus)

def SlashRecorded (s : LedgerDbs) (p : SafetySlashConsensusParams) : Prop :=
  ∃ r ∈ s.ledger,
    r.id = slashDebitID p.txID p.evidenceKind (normalizeHiveConsensusAccount p.account)

/-- The split computation is the share of the bond, rounded down. -/
theorem slashAmount_eq {bond slashBps : Int} (hbond : 0 < bond) (hle : slashBps ≤ 10000) :
    slashAmount bond slashBps = bond * slashBps / 10000 := by
  have hsplit : bond / 10000 * slashBps + bond % 10000 * slashBps / 10000 =
      bond * slashBps / 10000 := by
    have hbond' : bond * slashBps =
        bond % 10000 * slashBps + 10000 * (bond / 10000 * slashBps) := by
      rw [← mul_assoc, ← add_mul, Int.emod_add_mul_ediv]
    rw [hbond', Int.add_mul_ediv_left _ _ (by decide), add_comm]
  have hcap : bond * slashBps / 10000 ≤ bond := by
    have hmul : bond * slashBps ≤ bond * 10000 := mul_le_mul_of_nonneg_left hle hbond.le
    omega
  rw [slashAmount, hsplit, min_eq_left hcap]

theorem slashWithinBond_sub_iff {bal snap slashBps : Int} (hle : slashBps ≤ 10000) :
    SlashWithinBond bal (bal - snap * slashBps / 10000) slashBps ↔
      slashBps * (snap - max bal 0) ≤ snap * slashBps % 10000 := by
  have hdiv := Int.emod_add_mul_ediv (snap * slashBps) 10000
  have hmul : slashBps * (snap - max bal 0) = snap * slashBps - slashBps * max bal 0 := by
    rw [mul_sub, mul_comm]
  have hshare : slashBps * max bal 0 ≤ 10000 * max bal 0 :=
    mul_le_mul_of_nonneg_right hle (le_max_right _ _)
  rw [SlashWithinBond, hmul]
  constructor
  · rintro ⟨-, hdebit⟩
    omega
  intro h
  refine ⟨?_, by omega⟩
  intro hbal
  rw [max_eq_left hbal] at h hshare
  omega

theorem slashBondRecord_eq {s : LedgerDbs} {acct : String} {h : ℕ}
    (hbehind : ∀ r ∈ s.balances, r.blockHeight < h) :
    slashBondRecord s acct h = s.balances.getBalanceRecord acct h := by
  rw [slashBondRecord]
  split
  · rename_i hzero
    rw [BalanceDb.getBalanceRecord, BalanceDb.getBalanceRecord]
    congr 1
    apply filter_congr
    intro r hr
    have := hbehind r hr
    have hiff : r.blockHeight ≤ h - 1 ↔ r.blockHeight ≤ h := by omega
    simp only [hiff]
  · rfl

theorem slashBps_pos_of_ok {s : LedgerDbs} {p : SafetySlashConsensusParams}
    (h : (safetySlashConsensusBond s p).2.ok = true) : 0 < p.slashBps := by
  by_contra hneg
  rw [safetySlashConsensusBond] at h
  split at h
  · cases h
  · rw [if_pos (.inl (not_lt.1 hneg))] at h
    cases h

/-- In every reachable ledger, a slash that succeeds stays within the bond exactly
when its debit is already recorded, or the snapshot it is computed from exceeds the
balance by no more than rounding down gives back. -/
theorem slashWithinBond_iff {w : Carriers} {n : Node} (hn : n.Reachable w)
    {p : SafetySlashConsensusParams} (hp : SlashCarried w n.head p)
    (hok : (safetySlashConsensusBond n.dbs p).2.ok = true) :
    SlashWithinBond
        (n.dbs.getBalance (normalizeHiveConsensusAccount p.account) n.head .hiveConsensus)
        ((n.apply (.slash p)).dbs.getBalance (normalizeHiveConsensusAccount p.account) n.head
          .hiveConsensus) p.slashBps ↔
      SlashRecorded n.dbs p ∨
        p.slashBps * (snapshotBond n.dbs (normalizeHiveConsensusAccount p.account) n.head -
            max (n.dbs.getBalance (normalizeHiveConsensusAccount p.account) n.head
              .hiveConsensus) 0) ≤
          snapshotBond n.dbs (normalizeHiveConsensusAccount p.account) n.head * p.slashBps %
            10000 := by
  have hkept := hn.legsKept
  have hbehind : ∀ r ∈ n.dbs.balances, r.blockHeight < p.blockHeight := by
    intro r hr
    rw [hp.height]
    exact hkept.behind.lt_head hr
  have hunchanged : ∀ bal : Int, 0 < p.slashBps → SlashWithinBond bal bal p.slashBps := by
    intro bal hpos
    have := mul_nonneg hpos.le (le_max_right bal 0)
    exact ⟨id, by omega⟩
  have hout := safetySlashConsensusBond_outcome n.dbs p
  rw [Node.apply_slash, Node.dbs_setDbs]
  have hbps := slashBps_pos_of_ok hok
  generalize safetySlashConsensusBond n.dbs p = res at hout hok ⊢
  rw [← hp.height]
  cases hout with
  | refused msg => cases hok
  | replayed msg debit hdebit =>
    have hrow := rowAt_eq_some hdebit
    exact iff_of_true (hunchanged _ hbps) (.inl ⟨debit, hrow.1, hrow.2.2.2.2⟩)
  | written msg amt companion hne hpos hle hamt htakes hcompanion =>
    have hacct : HiveAccount (normalizeHiveConsensusAccount p.account) :=
      ⟨hp.acctFree, hasPrefix_normalizeHiveConsensusAccount hne⟩
    rw [getBalance_storeSlash hkept.legs hp hbehind hacct hamt hcompanion]
    cases hget : n.dbs.ledger.get? (slashDebitID p.txID p.evidenceKind
        (normalizeHiveConsensusAccount p.account)) with
    | some debit =>
      obtain ⟨hr, hid⟩ := get?_eq_some_iff.1 hget
      obtain ⟨howner, hasset, -, hneg, hheight⟩ :=
        (hkept.legs debit hr).debit hp.kindFree hacct hid
      rw [hp.txHeight, ← hp.height] at hheight
      have hamount : amt = -debit.amount := by
        cases htakes with
        | recorded debit' hdebit =>
          obtain ⟨hr', -, -, -, hid'⟩ := rowAt_eq_some hdebit
          rw [eq_of_key_eq hr' hr (hid'.trans hid.symm)]
        | computed hnone hbond =>
          cases hrow : rowAt n.dbs.ledger (normalizeHiveConsensusAccount p.account)
              p.blockHeight .hiveConsensus (slashDebitID p.txID p.evidenceKind
                (normalizeHiveConsensusAccount p.account)) with
          | none => exact absurd hid (rowAt_eq_none hrow hr howner hheight hasset)
          | some debit' =>
            have hge := hnone debit' hrow
            obtain ⟨hr', -, -, -, hid'⟩ := rowAt_eq_some hrow
            rw [eq_of_key_eq hr' hr (hid'.trans hid.symm)] at hge
            omega
      have hsame : ∀ bal : Int, bal - amt - debit.amount = bal := by omega
      simp only [valueAt_of_get?_eq_some hget, hsame]
      exact iff_of_true (hunchanged _ hpos) (.inl ⟨debit, hr, hid⟩)
    | none =>
      have hfresh : ¬ SlashRecorded n.dbs p := by
        rintro ⟨r, hr, hid⟩
        exact get?_eq_none_iff.1 hget r hr hid
      cases htakes with
      | recorded debit hdebit =>
        have hrow := rowAt_eq_some hdebit
        exact absurd ⟨debit, hrow.1, hrow.2.2.2.2⟩ hfresh
      | computed hnone hbond =>
        rw [slashBondRecord_eq hbehind] at hbond
        rw [slashBondRecord_eq hbehind, slashAmount_eq hbond hle,
          valueAt_of_get?_eq_none hget, sub_zero, or_iff_right hfresh]
        exact slashWithinBond_sub_iff hle

def stakedNode : Node :=
  [.store [{ id := "d", amount := 1000, blockHeight := 10, owner := "hive:a", type := .deposit
             asset := .hive }],
    .batch [[.stake ⟨"s", "hive:a", "hive:a", 1000, 10, 0, false⟩]], .block 10 10, .l1Block 20,
    .slotChange ⟨none, fun _ => false, fun _ => false, none⟩ 0].foldl Node.apply (Node.genesis 10)

def oneSlashCarriers : Carriers := ⟨fun _ => 21, fun _ => 100, fun _ => ("", 0)⟩

/-- A tenth of the account's bond. -/
def oneSlash : SafetySlashConsensusParams := ⟨"a", 1000, "tx", 21, "vsc_double_block_sign", 100⟩

theorem reachable_stakedNode : stakedNode.Reachable oneSlashCarriers :=
  ⟨10, Run.foldl (by decide)⟩

theorem slashWithinBond_stakedNode :
    (safetySlashConsensusBond (stakedNode.apply (.l1Block 21)).dbs oneSlash).2.ok = true ∧
      SlashWithinBond ((stakedNode.apply (.l1Block 21)).dbs.getBalance "hive:a" 21 .hiveConsensus)
        (((stakedNode.apply (.l1Block 21)).apply (.slash oneSlash)).dbs.getBalance "hive:a" 21
          .hiveConsensus) 1000 := by
  have hn : (stakedNode.apply (.l1Block 21)).Reachable oneSlashCarriers :=
    reachable_stakedNode.imp fun _ hrun => hrun.tail ⟨.l1Block 21, by decide, rfl⟩
  have hok : (safetySlashConsensusBond (stakedNode.apply (.l1Block 21)).dbs oneSlash).2.ok = true := by
    decide
  exact ⟨hok, (slashWithinBond_iff hn (p := oneSlash) (by decide) hok).2 (.inr (by decide))⟩

/-! ## A bond that is unstaked between its snapshot and the slash -/

def unstakedNode : Node :=
  [.batch [[.unstake ⟨"u", "hive:a", "hive:a", 950, 20, 1, false⟩]], .block 20 20,
    .l1Block 21].foldl Node.apply stakedNode

theorem reachable_unstakedNode : unstakedNode.Reachable oneSlashCarriers :=
  reachable_stakedNode.imp fun _ hrun => hrun.trans (Run.foldl (by decide))

/-- The slash takes 100 from a bond of 50. -/
theorem not_slashWithinBond_unstakedNode : unstakedNode.Reachable oneSlashCarriers ∧
      SlashCarried oneSlashCarriers unstakedNode.head oneSlash ∧
      (safetySlashConsensusBond unstakedNode.dbs oneSlash).2.ok = true ∧
      unstakedNode.dbs.getBalance "hive:a" 21 .hiveConsensus = 50 ∧
      (unstakedNode.apply (.slash oneSlash)).dbs.getBalance "hive:a" 21 .hiveConsensus = -50 ∧
      ¬ SlashWithinBond 50 (-50) oneSlash.slashBps :=
  ⟨reachable_unstakedNode, by decide, by decide, by decide, by decide, by decide⟩

end VscNode
