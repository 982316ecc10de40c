import VscNode.Ledger.CutWrites

/-!
# A slash that is repeated

A node that stops in the middle of a slash meets the same evidence again and
repeats the call. By then the debit may have landed without its second leg, and a
slot change may have folded it into the snapshot that the slash is computed from.
The call therefore looks for its own rows first: with both it does nothing, with
the debit alone it takes the amount from the debit, and only without it from the
snapshot.

`slash_converges` is what this comes to: however often the call is repeated,
wherever it is cut, and whatever is folded in between, an uncut call leaves the
two rows that it would have written at once.
-/

namespace VscNode

open BalanceDb Collection Relation Text Option

/-! ## What a slash reads -/

/-- The bond of an account in its latest snapshot up to a height. -/
def consensusAt (db : BalanceDb) (acct : String) (blockHeight : ℕ) : Int :=
  (db.getBalanceRecord acct blockHeight).elim 0 (·.hiveConsensus)

/-- The id of the second leg. -/
def slashCompanionID (p : SafetySlashConsensusParams) (acct : String) : String :=
  if p.burnDelayBlocks = 0 then slashReserveID p.txID p.evidenceKind acct
  else slashPendingID p.txID p.evidenceKind acct

section Reads

variable {s s' : LedgerDbs} {p : SafetySlashConsensusParams} {acct : String}

theorem slashBondRecord_congr
    (h : ∀ height, consensusAt s'.balances acct height = consensusAt s.balances acct height) :
    (slashBondRecord s' acct p.blockHeight).elim 0 (·.hiveConsensus) =
      (slashBondRecord s acct p.blockHeight).elim 0 (·.hiveConsensus) := by
  have hread : ∀ t : LedgerDbs, (slashBondRecord t acct p.blockHeight).elim 0 (·.hiveConsensus) =
      if consensusAt t.balances acct p.blockHeight ≤ 0 ∧ 0 < p.blockHeight then
        consensusAt t.balances acct (p.blockHeight - 1)
      else consensusAt t.balances acct p.blockHeight :=
    fun t => apply_ite (fun r : Option BalanceRecord => r.elim 0 (·.hiveConsensus)) _ _ _
  rw [hread, hread, h, h]

variable {asset : Asset} {db : LedgerDb} {height : ℕ} {id : String} {owner : String} {amt : Int}
  {companion : LedgerRecord}

theorem rowAt_eq_some_iff {r : LedgerRecord} : rowAt db owner height asset id = some r ↔
      db.get? id = some r ∧ r.owner = owner ∧ r.blockHeight = height ∧ r.asset = asset := by
  constructor
  · intro h
    obtain ⟨hr, howner, hheight, hasset, hid⟩ := rowAt_eq_some h
    exact ⟨get?_eq_some_iff.2 ⟨hr, hid⟩, howner, hheight, hasset⟩
  rintro ⟨hget, rfl, rfl, rfl⟩
  obtain ⟨hr, rfl⟩ := get?_eq_some_iff.1 hget
  exact rowAt_of_mem hr

theorem rowAt_eq_none_of_get? (h : db.get? id = none) : rowAt db owner height asset id = none := by
  cases hrow : rowAt db owner height asset id with
  | none => rfl
  | some r =>
    rw [(rowAt_eq_some_iff.1 hrow).1] at h
    cases h

theorem slashWrites_congr (hacct : normalizeHiveConsensusAccount p.account = acct)
    (hs : s.ledger.get? (slashDebitID p.txID p.evidenceKind acct) = none)
    (hs' : s'.ledger.get? (slashDebitID p.txID p.evidenceKind acct) = none)
    (h : ∀ height, consensusAt s'.balances acct height = consensusAt s.balances acct height) :
    slashWrites s' p = slashWrites s p := by
  simp only [slashWrites, hacct, rowAt_eq_none_of_get? hs, rowAt_eq_none_of_get? hs',
    computeSlashWrites, slashBondRecord_congr h]

def SlashRefused (p : SafetySlashConsensusParams) (acct : String) : Prop :=
  (acct = "" ∨ trimSpace p.txID = "" ∨ trimSpace p.evidenceKind = "") ∨
    (p.slashBps ≤ 0 ∨ 10000 < p.slashBps)

section

variable (hacct : normalizeHiveConsensusAccount p.account = acct)

include hacct

theorem slashWrites_of_refused (h : SlashRefused p acct) : slashWrites s p = [] := by
  rw [slashWrites, hacct]
  rcases h with hparams | hbps
  · rw [if_pos hparams]
  · rw [if_pos hbps, ite_self]

theorem not_slashRefused {r : LedgerRecord} {rows : List LedgerRecord}
    (h : slashWrites s p = r :: rows) : ¬ SlashRefused p acct := by
  intro hrefused
  rw [slashWrites_of_refused hacct hrefused] at h
  cases h

theorem slashWrites_of_debit (hallowed : ¬ SlashRefused p acct) (hamt : 0 < amt)
    (hdebit : s.ledger.get? (slashDebitID p.txID p.evidenceKind acct) =
      some (slashDebitRecord p acct amt))
    (hcompanion : s.ledger.get? (slashCompanionID p acct) = none) :
    slashWrites s p = (slashRecords p acct amt).getD [] := by
  obtain ⟨hparams, hbps⟩ := not_or.1 hallowed
  have hrow : rowAt s.ledger acct p.blockHeight .hiveConsensus
      (slashDebitID p.txID p.evidenceKind acct) = some (slashDebitRecord p acct amt) :=
    rowAt_eq_some_iff.2 ⟨hdebit, rfl, rfl, rfl⟩
  have hnone : slashCompanionRow s.ledger p acct = none := by
    rw [slashCompanionID] at hcompanion
    rw [slashCompanionRow]
    split_ifs at hcompanion ⊢ <;> exact rowAt_eq_none_of_get? hcompanion
  have hneg : -(slashDebitRecord p acct amt).amount = amt := neg_neg amt
  simp only [slashWrites, hacct, if_neg hparams, if_neg hbps, hrow, hnone, hneg, if_pos hamt,
    isSome_none, Bool.false_eq_true, if_false]

end

theorem SlashCompanion.id_eq_slashCompanionID (h : SlashCompanion p acct amt companion) :
    companion.id = slashCompanionID p acct := by
  cases h with
  | reserve hdelay => rw [slashCompanionID, if_pos hdelay]; rfl
  | pending maturity hdelay => rw [slashCompanionID, if_neg hdelay]; rfl

theorem slashWrites_of_legs (hacct : normalizeHiveConsensusAccount p.account = acct)
    (hcomp : SlashCompanion p acct amt companion)
    (hdebit : s.ledger.get? (slashDebitID p.txID p.evidenceKind acct) =
      some (slashDebitRecord p acct amt))
    (hcompanion : s.ledger.get? (slashCompanionID p acct) = some companion) :
    slashWrites s p = [] := by
  refine slashWrites_of_recorded hacct (rowAt_eq_some_iff.2 ⟨hdebit, rfl, rfl, rfl⟩) ?_
  rw [slashCompanionID] at hcompanion
  rw [slashCompanionRow, isSome_iff_exists]
  cases hcomp with
  | reserve hdelay =>
    rw [if_pos hdelay] at hcompanion ⊢
    exact ⟨_, rowAt_eq_some_iff.2 ⟨hcompanion, rfl, rfl, rfl⟩⟩
  | pending maturity hdelay =>
    rw [if_neg hdelay] at hcompanion ⊢
    exact ⟨_, rowAt_eq_some_iff.2 ⟨hcompanion, rfl, rfl, rfl⟩⟩

theorem slashDebitID_ne_slashCompanionID :
    slashDebitID p.txID p.evidenceKind acct ≠ slashCompanionID p acct := by
  rw [slashCompanionID]
  split_ifs <;> simp [slashDebitID, slashReserveID, slashPendingID, ← String.toList_inj]

end Reads

/-! ## Folding into the snapshots -/

def foldSnapshots (s : LedgerDbs) (lastClaim : Option ℕ) (stBlock endBlock : ℕ) : LedgerDbs :=
  { s with
    balances := s.balances.putAll
      ((slotAccounts s stBlock endBlock).filterMap (foldAccount s lastClaim endBlock)) }

/-! ## Repeated calls -/

/-- A call that stops behind its first `n` rows. -/
def slashCut (s : LedgerDbs) (p : SafetySlashConsensusParams) (n : ℕ) : LedgerDbs :=
  s.storeLedger ((slashWrites s p).take n)

/-- What may happen between two calls: anything that leaves the two rows alone and, as long
as the debit has not landed, the account's bond in the snapshots. -/
structure Between (p : SafetySlashConsensusParams) (acct : String) (s s' : LedgerDbs) : Prop where
  debit : s'.ledger.get? (slashDebitID p.txID p.evidenceKind acct) =
    s.ledger.get? (slashDebitID p.txID p.evidenceKind acct)
  companion : s'.ledger.get? (slashCompanionID p acct) = s.ledger.get? (slashCompanionID p acct)
  bond : s.ledger.get? (slashDebitID p.txID p.evidenceKind acct) = none →
    ∀ height, consensusAt s'.balances acct height = consensusAt s.balances acct height

/-- The slot change may fold a debit that has landed. -/
theorem between_foldSnapshots {s : LedgerDbs} {p : SafetySlashConsensusParams} {acct : String}
    (hlanded : s.ledger.get? (slashDebitID p.txID p.evidenceKind acct) ≠ none)
    (lastClaim : Option ℕ) (stBlock endBlock : ℕ) :
    Between p acct s (foldSnapshots s lastClaim stBlock endBlock) :=
  ⟨rfl, rfl, fun hnone => absurd hnone hlanded⟩

inductive ReplayStep (p : SafetySlashConsensusParams) : LedgerDbs → LedgerDbs → Prop
  | call (s : LedgerDbs) (n : ℕ) : ReplayStep p s (slashCut s p n)
  | between {s s' : LedgerDbs} (h : Between p (normalizeHiveConsensusAccount p.account) s s') :
      ReplayStep p s s'

/-- How far a slash got that was first called on `start`: nothing landed and the bond reads
the same, or the debit landed, with or without the second leg. -/
inductive Landed (start : LedgerDbs) (p : SafetySlashConsensusParams) (acct : String)
    (s : LedgerDbs) : Prop
  | nothing
      (hdebit : s.ledger.get? (slashDebitID p.txID p.evidenceKind acct) = none)
      (hcompanion : s.ledger.get? (slashCompanionID p acct) = none)
      (hbond : ∀ height, consensusAt s.balances acct height = consensusAt start.balances acct height)
  | debit {amt : Int} {companion : LedgerRecord}
      (hallowed : ¬ SlashRefused p acct) (hamt : 0 < amt)
      (hcomp : SlashCompanion p acct amt companion)
      (hrecords : slashRecords p acct amt = some [slashDebitRecord p acct amt, companion])
      (hwrites : slashWrites start p = [slashDebitRecord p acct amt, companion])
      (hdebit : s.ledger.get? (slashDebitID p.txID p.evidenceKind acct) =
        some (slashDebitRecord p acct amt))
      (hcompanion : s.ledger.get? (slashCompanionID p acct) = none ∨
        s.ledger.get? (slashCompanionID p acct) = some companion)

section Replay

variable {start s s' : LedgerDbs} {p : SafetySlashConsensusParams} {acct : String}
  {amt : Int} {companion : LedgerRecord}

theorem get?_legs (db : LedgerDb) (hcomp : SlashCompanion p acct amt companion) :
    ((db.put (slashDebitRecord p acct amt)).put companion).get?
        (slashDebitID p.txID p.evidenceKind acct) = some (slashDebitRecord p acct amt) ∧
      ((db.put (slashDebitRecord p acct amt)).put companion).get? (slashCompanionID p acct) =
        some companion := by
  constructor
  · rw [get?_put_of_ne]
    · exact get?_put_self _ _
    · rw [hcomp.id_eq_slashCompanionID]
      exact slashDebitID_ne_slashCompanionID.symm
  · rw [← hcomp.id_eq_slashCompanionID]
    exact get?_put_self _ _

theorem Landed.store (h : Landed start p acct s) (hallowed : ¬ SlashRefused p acct) (hamt : 0 < amt)
    (hcomp : SlashCompanion p acct amt companion)
    (hrecords : slashRecords p acct amt = some [slashDebitRecord p acct amt, companion])
    (hwrites : slashWrites start p = [slashDebitRecord p acct amt, companion])
    (hcompanion : s.ledger.get? (slashCompanionID p acct) = none) (n : ℕ) :
    Landed start p acct (s.storeLedger ([slashDebitRecord p acct amt, companion].take n)) := by
  have hlegs := get?_legs s.ledger hcomp
  match n with
  | 0 => exact h
  | 1 =>
    have hother : (s.ledger.put (slashDebitRecord p acct amt)).get? (slashCompanionID p acct) =
        none :=
      (get?_put_of_ne (x := slashDebitRecord p acct amt) slashDebitID_ne_slashCompanionID).trans hcompanion
    exact .debit hallowed hamt hcomp hrecords hwrites (get?_put_self _ _) (.inl hother)
  | n + 2 =>
    rw [List.take_of_length_le (by simp)]
    exact .debit hallowed hamt hcomp hrecords hwrites hlegs.1 (.inr hlegs.2)

theorem Landed.cut (hacct : normalizeHiveConsensusAccount p.account = acct)
    (hfresh : start.ledger.get? (slashDebitID p.txID p.evidenceKind acct) = none)
    (h : Landed start p acct s) (n : ℕ) : Landed start p acct (slashCut s p n) := by
  have hlanded := h
  cases h with
  | nothing hdebit hcompanion hbond =>
    have hsame := slashWrites_congr hacct hfresh hdebit hbond
    rcases slashWrites_cases (s := s) hacct with
      hnone | ⟨amt, companion, hamt, -, hcomp, hrec, hw⟩
    · rw [slashCut, hnone, List.take_nil]
      exact hlanded
    · rw [hw] at hrec
      rw [slashCut, hw]
      exact hlanded.store (not_slashRefused hacct hw) hamt hcomp hrec (hsame ▸ hw) hcompanion n
  | debit hallowed hamt hcomp hrec hwrites hdebit hcompanion =>
    rcases hcompanion with hcompanion | hcompanion
    · rw [slashCut, slashWrites_of_debit hacct hallowed hamt hdebit hcompanion, hrec,
        getD_some]
      exact hlanded.store hallowed hamt hcomp hrec hwrites hcompanion n
    · rw [slashCut, slashWrites_of_legs hacct hcomp hdebit hcompanion, List.take_nil]
      exact hlanded

theorem Landed.between (h : Landed start p acct s) (hbetween : Between p acct s s') :
    Landed start p acct s' := by
  cases h with
  | nothing hdebit hcompanion hbond =>
    exact .nothing (hbetween.debit.trans hdebit) (hbetween.companion.trans hcompanion)
      fun height => (hbetween.bond hdebit height).trans (hbond height)
  | debit hallowed hamt hcomp hrec hwrites hdebit hcompanion =>
    exact .debit hallowed hamt hcomp hrec hwrites (hbetween.debit.trans hdebit)
      (hcompanion.imp hbetween.companion.trans hbetween.companion.trans)

/-- An uncut call behind any of them leaves the rows of the first. -/
theorem Landed.complete (hacct : normalizeHiveConsensusAccount p.account = acct)
    (hfresh : start.ledger.get? (slashDebitID p.txID p.evidenceKind acct) = none)
    (hfresh' : start.ledger.get? (slashCompanionID p acct) = none)
    (h : Landed start p acct s) {id : String}
    (hid : id = slashDebitID p.txID p.evidenceKind acct ∨ id = slashCompanionID p acct) :
    (safetySlashConsensusBond s p).1.ledger.get? id =
      (safetySlashConsensusBond start p).1.ledger.get? id := by
  rw [safetySlashConsensusBond_eq, safetySlashConsensusBond_eq]
  have hboth : ∀ {amt : Int} {companion : LedgerRecord}, SlashCompanion p acct amt companion →
      slashWrites s p = [slashDebitRecord p acct amt, companion] →
      slashWrites start p = [slashDebitRecord p acct amt, companion] →
      (s.storeLedger (slashWrites s p)).ledger.get? id =
        (start.storeLedger (slashWrites start p)).ledger.get? id := by
    intro amt companion hcomp hw hw'
    have hs := get?_legs s.ledger hcomp
    have hstart := get?_legs start.ledger hcomp
    rw [hw, hw']
    rcases hid with rfl | rfl
    · exact hs.1.trans hstart.1.symm
    · exact hs.2.trans hstart.2.symm
  cases h with
  | nothing hdebit hcompanion hbond =>
    have hsame := slashWrites_congr hacct hfresh hdebit hbond
    rcases slashWrites_cases (s := s) hacct with hnone | ⟨amt, companion, -, -, hcomp, -, hw⟩
    · rw [← hsame, hnone]
      rcases hid with rfl | rfl
      · exact hdebit.trans hfresh.symm
      · exact hcompanion.trans hfresh'.symm
    exact hboth hcomp hw (hsame ▸ hw)
  | debit hallowed hamt hcomp hrec hwrites hdebit hcompanion =>
    rcases hcompanion with hcompanion | hcompanion
    · have hw := slashWrites_of_debit hacct hallowed hamt hdebit hcompanion
      rw [hrec, getD_some] at hw
      exact hboth hcomp hw hwrites
    rw [slashWrites_of_legs hacct hcomp hdebit hcompanion, hwrites]
    have hstart := get?_legs start.ledger hcomp
    rcases hid with rfl | rfl
    · exact hdebit.trans hstart.1.symm
    · exact hcompanion.trans hstart.2.symm

/-- **A slash converges**: behind any calls that were cut, and anything that happened in
between, one call leaves the debit and the second leg, with the amount and the maturity, of
a first call that is not interrupted. -/
theorem slash_converges (hfresh : start.ledger.get?
      (slashDebitID p.txID p.evidenceKind (normalizeHiveConsensusAccount p.account)) = none)
    (hfresh' : start.ledger.get?
      (slashCompanionID p (normalizeHiveConsensusAccount p.account)) = none)
    (hrun : ReflTransGen (ReplayStep p) start s) {id : String}
    (hid : id = slashDebitID p.txID p.evidenceKind (normalizeHiveConsensusAccount p.account) ∨
      id = slashCompanionID p (normalizeHiveConsensusAccount p.account)) :
    (safetySlashConsensusBond s p).1.ledger.get? id =
      (safetySlashConsensusBond start p).1.ledger.get? id := by
  refine Landed.complete rfl hfresh hfresh' ?_ hid
  refine Run.preserves (fun t t' hstep ht => ?_) hrun (.nothing hfresh hfresh' fun _ => rfl)
  cases hstep with
  | call n => exact ht.cut rfl hfresh n
  | between h => exact ht.between h

end Replay

def bondOfThousand : LedgerDbs :=
  { balances := Collection.empty.put { account := "hive:a", blockHeight := 5, hiveConsensus := 1000 } }

def tenthAtTen : SafetySlashConsensusParams :=
  { account := "a", slashBps := 1000, txID := "s", blockHeight := 10, evidenceKind := "e"
    burnDelayBlocks := 50 }

/-- The first call stops behind the debit, and the slot change at the height of the slash
folds it: the snapshot then shows nine hundred. -/
def debitFolded : LedgerDbs := foldSnapshots (slashCut bondOfThousand tenthAtTen 1) none 0 10

/-- The repeated call still slashes a hundred, a tenth of the thousand. -/
theorem slash_converges_debitFolded : consensusAt debitFolded.balances "hive:a" 10 = 900 ∧
      (safetySlashConsensusBond debitFolded tenthAtTen).1.ledger.get? "s#safety_slash#e#hive_burn_pending#hive:a" =
        some (slashPendingRecord tenthAtTen "hive:a" 100 60) ∧
      (safetySlashConsensusBond debitFolded tenthAtTen).1.ledger.get? "s#safety_slash#e#hive_burn_pending#hive:a" =
        (safetySlashConsensusBond bondOfThousand tenthAtTen).1.ledger.get?
          "s#safety_slash#e#hive_burn_pending#hive:a" := by
  have hfold : Between tenthAtTen "hive:a" (slashCut bondOfThousand tenthAtTen 1) debitFolded :=
    between_foldSnapshots (by decide +kernel) none 0 10
  refine ⟨by decide +kernel, by decide +kernel, slash_converges (by decide) (by decide) ?_
    (.inr (by decide))⟩
  exact .tail (.single (.call _ 1)) (.between hfold)

end VscNode
