import VscNode.Ledger.Balance

/-!
# The bond inclusion window

The stake of a witness counts in an election once it has been held for a window of
blocks. `maturedConsensusStake` samples the bond over the window and takes the
minimum, so stake that arrived inside the window does not raise it. A reversed slash
would keep its account low for a whole window, so the amount of every reverse is added
to the samples before it.

`BondHistory` says which slash each reverse belongs to. The bond with the reversed
slashes undone, `restoredBond`, is what the samples are meant to show. They show more:
a reverse is also added to the samples before the slash that it undoes. The last
theorem says when that does not matter.
-/

namespace VscNode

open List hiding sum_eq_zero
open Collection

/-- The types of rows that move a bond. -/
def hiveConsensusLedgerOps : List LedgerType :=
  [.consensusStake, .consensusUnstake, .safetySlashConsensus, .safetySlashConsensusReverse,
    .remediationCredit]

variable (s : LedgerDbs) (account : String)

namespace LedgerDbs

def getConsensusBalanceAt (blockHeight : ℕ) : Int :=
  let balRecord := s.balances.getBalanceRecord account blockHeight
  let recordHeight := balRecord.elim 0 fun r => r.blockHeight + 1
  balRecord.elim 0 (·.hiveConsensus) +
    ((s.ledger.getLedgerRange account recordHeight blockHeight (some .hiveConsensus)
      hiveConsensusLedgerOps).map (·.amount)).sum

def consensusReverseCreditsInRange (start stop : ℕ) : List LedgerRecord :=
  s.ledger.getLedgerRange account start stop (some .hiveConsensus) [.safetySlashConsensusReverse]

end LedgerDbs

namespace ElectionProposer

variable (electionHeight w : ℕ)

/-- The start of the window, zero while the chain is shorter than it. -/
def maturityWindowStart : ℕ :=
  if w = 0 ∨ electionHeight ≤ w then 0 else electionHeight - w

/-- Append a height that is not there yet. -/
def addSample (out : List ℕ) (bh : ℕ) : List ℕ := if bh ∈ out then out else out ++ [bh]

/-- The `i`-th height of a window, kept inside it. -/
def sampleHeight (start stop step i : ℕ) : ℕ :=
  let bh := if stop < start + step * i then stop else start + step * i
  if bh ≤ start then start + 1 else bh

def sampleMaturityWindow (start stop count : ℕ) : List ℕ :=
  if stop = 0 then []
  else if count < 2 ∨ stop ≤ start + 1 then [stop]
  else
    let width := stop - start
    let step := if width / (count - 1) = 0 then 1 else width / (count - 1)
    addSample (((List.range count).map (sampleHeight start stop step)).foldl addSample []) stop

variable (reverses : List LedgerRecord) (sampleCount : Int) (read : ℕ → Int) (bh : ℕ) (v : Int)

def addReverses : Int :=
  reverses.foldl (fun v rc => if bh < rc.blockHeight ∧ 0 < rc.amount then v + rc.amount else v) v

/-- The loop that keeps the smallest value read so far. -/
def minOver (read : ℕ → Int) : Option Int → List ℕ → Option Int
  | best, [] => best
  | best, bh :: samples =>
    match best with
    | none => minOver read (some (read bh)) samples
    | some min => minOver read (if read bh < min then some (read bh) else some min) samples

/-- The heights at which the bond is read. -/
def maturitySamples : List ℕ :=
  if electionHeight = 0 then []
  else if w = 0 then [electionHeight]
  else
    let count := if sampleCount < 2 then 2 else sampleCount.toNat
    sampleMaturityWindow (maturityWindowStart electionHeight w) electionHeight count

def maturedConsensusStake : Int :=
  if electionHeight = 0 then 0
  else if w = 0 then
    -- The gate is off: the bond as it is.
    let v := s.getConsensusBalanceAt account electionHeight
    if v < 0 then 0 else v
  else
    let windowStart := maturityWindowStart electionHeight w
    let reverses := s.consensusReverseCreditsInRange account windowStart electionHeight
    let read := fun bh => addReverses reverses bh (s.getConsensusBalanceAt account bh)
    match minOver read none (maturitySamples electionHeight w sampleCount) with
    | none => 0
    | some min => if min < 0 then 0 else min

/-! ## Samples and minima -/

theorem minOver_some (samples : List ℕ) (m : Int) :
    ∃ n, minOver read (some m) samples = some n ∧ n ≤ m ∧ (∀ bh ∈ samples, n ≤ read bh) ∧
      (n = m ∨ ∃ bh ∈ samples, n = read bh) := by
  induction samples generalizing m with
  | nil => exact ⟨m, rfl, le_rfl, by simp, .inl rfl⟩
  | cons bh samples ih =>
    obtain ⟨n, hn, hle, hall, hfrom⟩ := ih (if read bh < m then read bh else m)
    have hloop : minOver read (some m) (bh :: samples) = some n := by
      rw [← hn, minOver]
      split <;> rfl
    refine ⟨n, hloop, hle.trans ?_, ?_, ?_⟩
    · split <;> omega
    · intro x hx
      rcases mem_cons.1 hx with rfl | hx
      · refine hle.trans ?_
        split <;> omega
      · exact hall x hx
    rcases hfrom with hfrom | ⟨x, hx, hnx⟩
    · split at hfrom
      · exact .inr ⟨bh, mem_cons_self, hfrom⟩
      · exact .inl hfrom
    · exact .inr ⟨x, mem_cons_of_mem _ hx, hnx⟩

theorem minOver_none {samples : List ℕ} (hne : samples ≠ []) :
    ∃ bh ∈ samples, minOver read none samples = some (read bh) ∧
      ∀ x ∈ samples, read bh ≤ read x := by
  cases samples with
  | nil => exact absurd rfl hne
  | cons first samples =>
    obtain ⟨n, hn, hle, hall, hfrom⟩ := minOver_some read samples (read first)
    have hmin : ∀ x ∈ first :: samples, n ≤ read x := by
      intro x hx
      rcases mem_cons.1 hx with rfl | hx
      · exact hle
      · exact hall x hx
    rw [minOver, hn]
    rcases hfrom with rfl | ⟨x, hx, rfl⟩
    · exact ⟨first, mem_cons_self, rfl, hmin⟩
    · exact ⟨x, mem_cons_of_mem _ hx, rfl, hmin⟩

theorem mem_addSample {out : List ℕ} {bh x : ℕ} : x ∈ addSample out bh ↔ x ∈ out ∨ x = bh := by
  rw [addSample]
  split
  · rename_i hmem
    exact ⟨.inl, fun h => h.elim id fun h => h ▸ hmem⟩
  · simp

theorem mem_foldl_addSample {heights out : List ℕ} {x : ℕ} :
    x ∈ heights.foldl addSample out ↔ x ∈ out ∨ x ∈ heights := by
  induction heights generalizing out with
  | nil => simp
  | cons bh heights ih => rw [foldl_cons, ih, mem_addSample, mem_cons, or_assoc]

theorem sampleHeight_mem {start stop : ℕ} (hlt : start < stop) (step i : ℕ) :
    start < sampleHeight start stop step i ∧ sampleHeight start stop step i ≤ stop := by
  simp only [sampleHeight]
  split <;> split <;> omega

theorem mem_sampleMaturityWindow {start stop : ℕ} (hlt : start < stop) (count : ℕ) :
    stop ∈ sampleMaturityWindow start stop count ∧
      ∀ bh ∈ sampleMaturityWindow start stop count, start < bh ∧ bh ≤ stop := by
  rw [sampleMaturityWindow, if_neg (by omega)]
  split
  · simp [hlt]
  refine ⟨mem_addSample.2 (.inr rfl), fun bh hbh => ?_⟩
  rcases mem_addSample.1 hbh with hbh | rfl
  · obtain ⟨i, -, rfl⟩ := mem_map.1 ((mem_foldl_addSample.1 hbh).resolve_left (by simp))
    exact sampleHeight_mem hlt _ i
  · exact ⟨hlt, le_rfl⟩

theorem maturityWindowStart_lt {electionHeight w : ℕ} (h : electionHeight ≠ 0) (hw : w ≠ 0) :
    maturityWindowStart electionHeight w < electionHeight := by
  rw [maturityWindowStart]
  split <;> omega

theorem addReverses_eq :
    addReverses reverses bh v =
      v + (reverses.map fun rc => if bh < rc.blockHeight ∧ 0 < rc.amount then rc.amount else 0).sum := by
  induction reverses generalizing v with
  | nil => simp [addReverses]
  | cons rc reverses ih =>
    have hcons : addReverses (rc :: reverses) bh v = addReverses reverses bh
        (if bh < rc.blockHeight ∧ 0 < rc.amount then v + rc.amount else v) := rfl
    rw [hcons, ih, map_cons, sum_cons]
    split <;> ring

/-! ## Bonds and their slashes -/

def BondRow (type : LedgerType) (r : LedgerRecord) : Prop :=
  r.owner = account ∧ r.asset = .hiveConsensus ∧ r.type = type
  deriving Decidable

theorem BondRow.moves {account : String} {r : LedgerRecord} {type : LedgerType}
    (h : BondRow account type r) (htype : isProtocolMetaLedgerType type = false) :
    r.moves account .hiveConsensus = r.amount :=
  if_pos ⟨h.1, h.2.1, by rw [h.2.2]; exact htype⟩

structure BondHistory (s : LedgerDbs) (account : String) where
  ops : ∀ r ∈ s.ledger, r.owner = account → r.asset = .hiveConsensus →
    r.type ∈ hiveConsensusLedgerOps
  snapshots : ∀ b ∈ s.balances, b.account = account →
    b.hiveConsensus = s.history account b.blockHeight .hiveConsensus
  /-- The slash that a reverse belongs to. -/
  slashOf : LedgerRecord → LedgerRecord
  slash_mem : ∀ r ∈ s.ledger, BondRow account .safetySlashConsensusReverse r →
    slashOf r ∈ s.ledger ∧ BondRow account .safetySlashConsensus (slashOf r) ∧
      (slashOf r).blockHeight ≤ r.blockHeight
  reverse_pos : ∀ r ∈ s.ledger, BondRow account .safetySlashConsensusReverse r → 0 < r.amount
  capped : ∀ q ∈ s.ledger, BondRow account .safetySlashConsensus q →
    (s.ledger.sum fun r => if BondRow account .safetySlashConsensusReverse r ∧ slashOf r = q then
      r.amount else 0) ≤ -q.amount

namespace BondHistory

variable {s : LedgerDbs} {account : String} (H : BondHistory s account)

def reversedPart (e : ℕ) (q : LedgerRecord) : Int :=
  s.ledger.sum fun r =>
    if BondRow account .safetySlashConsensusReverse r ∧ H.slashOf r = q ∧ r.blockHeight ≤ e then
      r.amount
    else 0

def unslashed (e : ℕ) (r : LedgerRecord) : Int :=
  if BondRow account .safetySlashConsensusReverse r then 0
  else if BondRow account .safetySlashConsensus r then r.amount + H.reversedPart e r
  else r.moves account .hiveConsensus

/-- The bond at `h` if the part of every slash that is reversed by height `e` had never
been taken. -/
def restoredBond (e h : ℕ) : Int := s.ledger.upTo (·.blockHeight) (H.unslashed e) h

def ReversedAfter (e h : ℕ) : Prop :=
  ∃ r ∈ s.ledger, BondRow account .safetySlashConsensusReverse r ∧ r.blockHeight ≤ e ∧
    h < (H.slashOf r).blockHeight

/-- What is added to a sample for slashes that come after it. -/
def early (e h : ℕ) : Int :=
  s.ledger.sum fun r =>
    if BondRow account .safetySlashConsensusReverse r ∧ r.blockHeight ≤ e ∧
      h < (H.slashOf r).blockHeight then r.amount else 0

include H

theorem getConsensusBalanceAt_eq (h : ℕ) :
    s.getConsensusBalanceAt account h = s.history account h .hiveConsensus := by
  have hrange : ∀ start, ((s.ledger.getLedgerRange account start h (some .hiveConsensus)
      hiveConsensusLedgerOps).map (·.amount)).sum =
        s.ledger.between (·.blockHeight) (·.moves account .hiveConsensus) start h := by
    intro start
    rw [LedgerDb.sum_getLedgerRange, between]
    refine sum_congr fun r hr => ?_
    by_cases hrow : r.owner = account ∧ r.asset = .hiveConsensus
    · have htype := H.ops r hr hrow.1 hrow.2
      have hmeta : isProtocolMetaLedgerType r.type = false := by
        simp only [hiveConsensusLedgerOps, mem_cons, not_mem_nil, or_false] at htype
        rcases htype with h | h | h | h | h <;> rw [h] <;> rfl
      by_cases hw : start ≤ r.blockHeight ∧ r.blockHeight ≤ h <;>
        simp [LedgerRecord.moves, hrow, htype, hmeta, hw]
    have hmoves : r.moves account .hiveConsensus = 0 :=
      if_neg fun h => hrow ⟨h.1, h.2.1⟩
    rw [hmoves, ite_self]
    exact if_neg fun h => hrow ⟨h.1, by simpa using h.2.2.2.1⟩
  have hread := LedgerDbs.getBalance_eq (show Asset.hiveConsensus ∈ snapshotAssets by decide) s
    account h
  rw [← LedgerDbs.getBalance_eq_history (show Asset.hiveConsensus ∈ snapshotAssets by decide)
    (fun b hb hacct => H.snapshots b hb hacct), hread, LedgerDbs.getConsensusBalanceAt, hrange]
  rfl

variable (e h : ℕ)

theorem sum_reversedPart :
    (s.ledger.sum fun q => if BondRow account .safetySlashConsensus q ∧ q.blockHeight ≤ h then
      H.reversedPart e q else 0) =
    s.ledger.sum fun r => if BondRow account .safetySlashConsensusReverse r ∧ r.blockHeight ≤ e ∧
      (H.slashOf r).blockHeight ≤ h then r.amount else 0 := by
  have hswap : (s.ledger.sum fun q => if BondRow account .safetySlashConsensus q ∧
      q.blockHeight ≤ h then H.reversedPart e q else 0) = s.ledger.sum fun q => s.ledger.sum fun r =>
      if H.slashOf r = q then (if BondRow account .safetySlashConsensusReverse r ∧
        r.blockHeight ≤ e ∧ BondRow account .safetySlashConsensus q ∧ q.blockHeight ≤ h then
        r.amount else 0) else 0 := by
    refine sum_congr fun q _ => ?_
    by_cases hq : BondRow account .safetySlashConsensus q ∧ q.blockHeight ≤ h
    · rw [if_pos hq, reversedPart]
      refine sum_congr fun r _ => ?_
      by_cases hslash : H.slashOf r = q <;> simp [hslash, hq]
    rw [if_neg hq]
    refine (sum_eq_zero fun r _ => ?_).symm
    split
    · exact if_neg fun h => hq h.2.2
    · rfl
  rw [hswap, sum_comm]
  refine sum_congr fun r hr => ?_
  by_cases hrev : BondRow account .safetySlashConsensusReverse r
  · obtain ⟨hmem, hslash, -⟩ := H.slash_mem r hr hrev
    rw [sum_ite_eq _ s.ledger hmem]
    simp [hrev, hslash]
  · simp only [hrev, false_and, if_false, ite_self]
    exact sum_eq_zero fun _ _ => rfl

theorem restoredBond_add :
    H.restoredBond e h + (s.ledger.sum fun r => if BondRow account .safetySlashConsensusReverse r ∧
      r.blockHeight ≤ h then r.amount else 0) =
    s.history account h .hiveConsensus + s.ledger.sum fun q =>
      if BondRow account .safetySlashConsensus q ∧ q.blockHeight ≤ h then H.reversedPart e q
      else 0 := by
  rw [restoredBond, LedgerDbs.history, upTo, upTo, ← sum_add, ← sum_add]
  refine sum_congr fun r _ => ?_
  by_cases hle : r.blockHeight ≤ h
  · by_cases hrev : BondRow account .safetySlashConsensusReverse r
    · have hslash : ¬BondRow account .safetySlashConsensus r := by
        rintro ⟨-, -, htype⟩
        rw [hrev.2.2] at htype
        cases htype
      simp [unslashed, hle, hrev, hslash, hrev.moves (by rfl)]
    by_cases hslash : BondRow account .safetySlashConsensus r
    · simp [unslashed, hle, hrev, hslash, hslash.moves (by rfl)]
    · simp [unslashed, hle, hrev, hslash]
  · simp [hle]

theorem sum_reverses_split {e h : ℕ} (he : h ≤ e) :
    (s.ledger.sum fun r => if BondRow account .safetySlashConsensusReverse r ∧
      h < r.blockHeight ∧ r.blockHeight ≤ e then r.amount else 0) +
    (s.ledger.sum fun r => if BondRow account .safetySlashConsensusReverse r ∧
      r.blockHeight ≤ h then r.amount else 0) =
    (s.ledger.sum fun r => if BondRow account .safetySlashConsensusReverse r ∧
      r.blockHeight ≤ e ∧ (H.slashOf r).blockHeight ≤ h then r.amount else 0) +
    H.early e h := by
  rw [early, ← sum_add, ← sum_add]
  refine sum_congr fun r _ => ?_
  by_cases hrev : BondRow account .safetySlashConsensusReverse r
  · simp only [hrev, true_and]
    split_ifs <;> omega
  · simp [hrev]

theorem addReverses_eq_restoredBond_add {start e h : ℕ} (hstart : start ≤ h) (he : h ≤ e) :
    addReverses (s.consensusReverseCreditsInRange account start e) h
        (s.getConsensusBalanceAt account h) = H.restoredBond e h + H.early e h := by
  have hadded : ((s.consensusReverseCreditsInRange account start e).map fun rc =>
      if h < rc.blockHeight ∧ 0 < rc.amount then rc.amount else 0).sum =
      s.ledger.sum fun r => if BondRow account .safetySlashConsensusReverse r ∧
        h < r.blockHeight ∧ r.blockHeight ≤ e then r.amount else 0 := by
    rw [LedgerDbs.consensusReverseCreditsInRange, LedgerDb.sum_getLedgerRange]
    refine sum_congr fun r hr => ?_
    have hread : (r.owner = account ∧ start ≤ r.blockHeight ∧ r.blockHeight ≤ e ∧
        (∀ a ∈ some Asset.hiveConsensus, r.asset = a) ∧
        ([LedgerType.safetySlashConsensusReverse] = [] ∨
          r.type ∈ [LedgerType.safetySlashConsensusReverse])) ↔
        BondRow account .safetySlashConsensusReverse r ∧ start ≤ r.blockHeight ∧
          r.blockHeight ≤ e := by
      simp only [BondRow, Option.mem_some_iff, forall_eq', mem_singleton, reduceCtorEq,
        false_or]
      tauto
    simp only [hread]
    by_cases hrev : BondRow account .safetySlashConsensusReverse r
    · have hpos := H.reverse_pos r hr hrev
      simp only [hrev, true_and]
      split_ifs <;> omega
    · simp [hrev]
  have hsplit := H.sum_reverses_split he
  have hrestored := H.restoredBond_add e h
  rw [H.sum_reversedPart] at hrestored
  rw [addReverses_eq, hadded, H.getConsensusBalanceAt_eq]
  linarith

theorem early_term_nonneg : ∀ v ∈ s.ledger.docs.map (fun r =>
    if BondRow account .safetySlashConsensusReverse r ∧ r.blockHeight ≤ e ∧
      h < (H.slashOf r).blockHeight then r.amount else 0), 0 ≤ v := by
  intro v hv
  obtain ⟨r, hr, rfl⟩ := mem_map.1 hv
  split
  · rename_i hrev
    exact (H.reverse_pos r hr hrev.1).le
  · rfl

theorem early_nonneg : 0 ≤ H.early e h := sum_nonneg (H.early_term_nonneg e h)

theorem early_eq_zero_iff : H.early e h = 0 ↔ ¬H.ReversedAfter e h := by
  constructor
  · rintro hzero ⟨r, hr, hrev, hle, hlt⟩
    have hterm := single_le_sum (H.early_term_nonneg e h) _ (mem_map_of_mem hr)
    rw [if_pos ⟨hrev, hle, hlt⟩] at hterm
    exact absurd (H.reverse_pos r hr hrev) (not_lt.2 (hterm.trans_eq hzero))
  · intro hnone
    exact sum_eq_zero fun r hr => if_neg fun hc => hnone ⟨r, hr, hc.1, hc.2.1, hc.2.2⟩

theorem restoredBond_self (e : ℕ) :
    H.restoredBond e e = s.history account e .hiveConsensus ∧ ¬H.ReversedAfter e e := by
  have hlate : ¬H.ReversedAfter e e := by
    rintro ⟨r, hr, hrev, hle, hlt⟩
    have := (H.slash_mem r hr hrev).2.2
    omega
  refine ⟨?_, hlate⟩
  have hrestored := H.restoredBond_add e e
  have hsplit := H.sum_reverses_split (le_refl e)
  have hnone : (s.ledger.sum fun r => if BondRow account .safetySlashConsensusReverse r ∧
      e < r.blockHeight ∧ r.blockHeight ≤ e then r.amount else 0) = 0 :=
    sum_eq_zero fun r _ => if_neg (by omega)
  rw [H.sum_reversedPart] at hrestored
  rw [hnone, (H.early_eq_zero_iff e e).2 hlate] at hsplit
  linarith

end BondHistory

def boundHeights (electionHeight w : ℕ) (sampleCount : Int) : List ℕ :=
  electionHeight :: maturitySamples electionHeight w sampleCount

theorem mem_maturitySamples {electionHeight : ℕ} (hpos : electionHeight ≠ 0) (w : ℕ)
    (sampleCount : Int) :
    electionHeight ∈ maturitySamples electionHeight w sampleCount ∧
      ∀ bh ∈ maturitySamples electionHeight w sampleCount,
        maturityWindowStart electionHeight w ≤ bh ∧ bh ≤ electionHeight := by
  rw [maturitySamples, if_neg hpos]
  split
  · rename_i hw
    simp [maturityWindowStart, hw]
  rename_i hw
  obtain ⟨hmem, hall⟩ := mem_sampleMaturityWindow (maturityWindowStart_lt hpos hw)
    (if sampleCount < 2 then 2 else sampleCount.toNat)
  exact ⟨hmem, fun bh hbh => ⟨(hall bh hbh).1.le, (hall bh hbh).2⟩⟩

section Matured

variable {s : LedgerDbs} {account : String} (H : BondHistory s account)

include H

theorem exists_sample_eq_matured {electionHeight : ℕ} (hpos : electionHeight ≠ 0) (w : ℕ)
    (sampleCount : Int) :
    ∃ bh ∈ maturitySamples electionHeight w sampleCount,
      maturedConsensusStake s account electionHeight w sampleCount =
        max 0 (H.restoredBond electionHeight bh + H.early electionHeight bh) ∧
      ∀ x ∈ maturitySamples electionHeight w sampleCount,
        H.restoredBond electionHeight bh + H.early electionHeight bh ≤
          H.restoredBond electionHeight x + H.early electionHeight x := by
  obtain ⟨hmem, hwindow⟩ := mem_maturitySamples hpos w sampleCount
  obtain ⟨hself, hlate⟩ := H.restoredBond_self electionHeight
  by_cases hw : w = 0
  · have hone : maturitySamples electionHeight w sampleCount = [electionHeight] := by
      rw [maturitySamples, if_neg hpos, if_pos hw]
    refine ⟨electionHeight, hmem, ?_, by simp [hone]⟩
    rw [maturedConsensusStake, if_neg hpos, if_pos hw, hself, (H.early_eq_zero_iff _ _).2 hlate,
      H.getConsensusBalanceAt_eq]
    simp only
    split <;> omega
  obtain ⟨bh, hbh, hmin, hall⟩ := minOver_none (fun bh =>
    addReverses (s.consensusReverseCreditsInRange account (maturityWindowStart electionHeight w)
      electionHeight) bh (s.getConsensusBalanceAt account bh)) (ne_nil_of_mem hmem)
  have hread := fun x hx => H.addReverses_eq_restoredBond_add (hwindow x hx).1 (hwindow x hx).2
  refine ⟨bh, hbh, ?_, fun x hx => ?_⟩
  · rw [maturedConsensusStake, if_neg hpos, if_neg hw]
    simp only
    rw [hmin]
    simp only
    rw [hread bh hbh]
    split <;> omega
  · rw [← hread bh hbh, ← hread x hx]
    exact hall x hx

/-- The matured stake is at most the bond and at most the restored bond at every sample
if and only if the smallest restored bond among them is not negative and is found at a
height after which no slash is reversed before the election. -/
theorem matured_le_restoredBond_iff (electionHeight w : ℕ) (sampleCount : Int) :
    (maturedConsensusStake s account electionHeight w sampleCount ≤
        s.getConsensusBalanceAt account electionHeight ∧
      ∀ bh ∈ maturitySamples electionHeight w sampleCount,
        maturedConsensusStake s account electionHeight w sampleCount ≤
          H.restoredBond electionHeight bh) ↔
    ∃ bh ∈ boundHeights electionHeight w sampleCount, 0 ≤ H.restoredBond electionHeight bh ∧
      (∀ x ∈ boundHeights electionHeight w sampleCount,
        H.restoredBond electionHeight bh ≤ H.restoredBond electionHeight x) ∧
      ¬H.ReversedAfter electionHeight bh := by
  obtain ⟨hself, hlate⟩ := H.restoredBond_self electionHeight
  rw [H.getConsensusBalanceAt_eq, ← hself, boundHeights]
  by_cases hpos : electionHeight = 0
  · subst hpos
    simp [maturitySamples, maturedConsensusStake, hlate]
  obtain ⟨hmem, -⟩ := mem_maturitySamples hpos w sampleCount
  obtain ⟨bh, hbh, hmatured, hmin⟩ := exists_sample_eq_matured H hpos w sampleCount
  rw [hmatured]
  constructor
  · rintro ⟨hbond, hsamples⟩
    -- The smallest sample is bounded by its own restored bond, so it holds nothing early.
    have hown := hsamples bh hbh
    have hearly := H.early_nonneg electionHeight bh
    refine ⟨bh, mem_cons_of_mem _ hbh, by omega, fun x hx => ?_,
      (H.early_eq_zero_iff _ _).1 (by omega)⟩
    rcases mem_cons.1 hx with rfl | hx
    · omega
    · have := hsamples x hx
      omega
  rintro ⟨low, hlow, hnonneg, hsmallest, hnone⟩
  have hzero := (H.early_eq_zero_iff _ _).2 hnone
  have hlow' : low ∈ maturitySamples electionHeight w sampleCount := by
    rcases mem_cons.1 hlow with rfl | hlow
    · exact hmem
    · exact hlow
  have hle := hmin low hlow'
  refine ⟨?_, fun x hx => ?_⟩
  · have := hsmallest electionHeight mem_cons_self
    omega
  · have := hsmallest x (mem_cons_of_mem _ hx)
    omega

end Matured

/-! ## A top-up before a reversed slash -/

def bondStake (id : String) (amount : Int) (height : ℕ) : LedgerRecord :=
  { id := id, amount := amount, blockHeight := height, owner := "hive:a", type := .consensusStake
    asset := .hiveConsensus }

def topUpSlash : LedgerRecord :=
  { id := "slash", amount := -2, blockHeight := 400, owner := "hive:a"
    type := .safetySlashConsensus, asset := .hiveConsensus }

def topUpReverse : LedgerRecord :=
  { id := "reverse", amount := 2, blockHeight := 500, owner := "hive:a"
    type := .safetySlashConsensusReverse, asset := .hiveConsensus }

/-- A bond of 10, raised to 20 inside the window, then slashed by 2 and restored. -/
def toppedUp : LedgerDbs where
  ledger := Collection.empty.putAll
    [bondStake "stake" 10 100, bondStake "topup" 10 300, topUpSlash, topUpReverse]

def toppedUpHistory : BondHistory toppedUp "hive:a" where
  ops := by
    have h : ∀ r ∈ toppedUp.ledger.docs, r.owner = "hive:a" → r.asset = .hiveConsensus →
        r.type ∈ hiveConsensusLedgerOps := by decide
    exact h
  snapshots := fun b hb => absurd hb (not_mem_empty b)
  slashOf := fun _ => topUpSlash
  slash_mem := by
    have h : ∀ r ∈ toppedUp.ledger.docs, BondRow "hive:a" .safetySlashConsensusReverse r →
        topUpSlash ∈ toppedUp.ledger.docs ∧ BondRow "hive:a" .safetySlashConsensus topUpSlash ∧
          topUpSlash.blockHeight ≤ r.blockHeight := by decide
    exact h
  reverse_pos := by
    have h : ∀ r ∈ toppedUp.ledger.docs, BondRow "hive:a" .safetySlashConsensusReverse r →
        0 < r.amount := by decide
    exact h
  capped := by
    have h : ∀ q ∈ toppedUp.ledger.docs, BondRow "hive:a" .safetySlashConsensus q →
        (toppedUp.ledger.sum fun r => if BondRow "hive:a" .safetySlashConsensusReverse r ∧
          topUpSlash = q then r.amount else 0) ≤ -q.amount := by decide
    exact h

/-- With a window of 800 blocks before height 1000 the bond counts as 12, although no more
than 10 was there at the first sample and nothing had been slashed by then. -/
theorem matured_toppedUp : maturedConsensusStake toppedUp "hive:a" 1000 800 2 = 12 ∧
      201 ∈ maturitySamples 1000 800 2 ∧ toppedUpHistory.restoredBond 1000 201 = 10 := by
  decide

/-- With a window of 550 blocks the first sample is after the slash, and the restored bond
of 20 counts in full. -/
theorem matured_le_restoredBond_toppedUp : maturedConsensusStake toppedUp "hive:a" 1000 550 2 = 20 ∧
      maturedConsensusStake toppedUp "hive:a" 1000 550 2 ≤
        toppedUp.getConsensusBalanceAt "hive:a" 1000 := by
  refine ⟨by decide, ?_⟩
  have h := (matured_le_restoredBond_iff toppedUpHistory 1000 550 2).2
  refine (h ⟨1000, by decide, by decide, by decide, ?_⟩).1
  rintro ⟨r, hr, hrev, hle, hlt⟩
  exact absurd hlt (by show ¬(1000 < 400); decide)

end ElectionProposer

end VscNode
