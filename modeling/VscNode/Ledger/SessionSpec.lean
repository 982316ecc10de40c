import VscNode.Ledger.SessionView
import VscNode.Ledger.Nesting

/-!
# Sessions without a cache

A session reads each balance once and keeps it. `SessionSpec` is what that is to
come to: balances as a function, a verdict that reads them, and a log. At heights
that read the same balances a session refines it (`Refines.execute`), so the cache
cannot be seen there: a refused operation changes nothing that is read later, and
an accepted one moves the balances by the rows of its event.
-/

namespace VscNode

open LedgerUpdate List OpLogEvent ProRata SessionOp Text

namespace SessionOp

/-- The height an operation reads at. -/
def height : SessionOp → ℕ
  | transfer event _ => event.blockHeight
  | withdraw p => p.blockHeight
  | stake p _ => p.blockHeight
  | unstake p => p.blockHeight
  | consensus op => op.params.blockHeight

/-- What an operation comes to on given balances: the event it logs, or why it is
refused. -/
def verdict (balance : String × Asset → Int) : SessionOp → Except String OpLogEvent
  | transfer event exclusion =>
    if event.amount ≤ 0 then .error "invalid amount"
    else if event.to_ = event.from_ then .error "cannot send to self"
    else if hasPrefix event.to_ "system:" then .error "invalid destination"
    else if event.asset ∉ transferableAssetTypes then .error "invalid asset"
    else if balance (event.from_, event.asset) - exclusion < event.amount then
      .error "insufficient balance"
    else .ok { event with type := .transfer }
  | withdraw p =>
    if p.amount ≤ 0 then .error "invalid amount"
    else
      match withdrawDest p.asset p.to_ with
      | .error msg => .error msg
      | .ok dest =>
        if balance (p.from_, p.asset) < p.amount then .error "insufficient balance"
        else
          .ok { id := p.id, from_ := p.from_, to_ := dest, amount := p.amount, asset := p.asset
                memo := p.memo, type := .withdraw }
  | stake p exclusion =>
    if p.InvalidAmount then .error "invalid amount"
    else if p.asset ≠ .hbd then .error "invalid asset"
    else if balance (p.from_, .hbd) - exclusion < p.amount then .error "insufficient balance"
    else
      .ok { id := p.id, from_ := p.from_, to_ := p.to_, asset := p.asset, amount := p.amount
            memo := p.memo, type := .stake }
  | unstake p =>
    if p.InvalidAmount then .error "invalid amount"
    else if p.asset ≠ .hbd ∧ p.asset ≠ .hbdSavings then .error "invalid asset"
    else if balance (p.from_, .hbdSavings) < p.amount then .error "insufficient balance"
    else
      .ok { id := p.id, from_ := p.from_, to_ := p.to_, asset := p.asset, amount := p.amount
            memo := p.memo, type := .unstake }
  | consensus (.stake p) =>
    if p.amount ≤ 0 then .error "invalid amount"
    else if balance (p.from_, .hive) < p.amount then .error "insufficient balance"
    else
      .ok { id := p.id, from_ := p.from_, to_ := p.to_, blockHeight := p.blockHeight
            amount := p.amount, asset := .hive, type := .consensusStake
            params := { delegated := p.delegated } }
  | consensus (.unstake p) =>
    if p.amount ≤ 0 then .error "invalid amount"
    else if p.delegated then
      if balance (delegationEdgeKey p.from_ p.to_, .delegation) < p.amount then
        .error "amount exceeds delegated stake"
      else
        .ok { id := p.id, from_ := p.from_, to_ := p.to_, blockHeight := p.blockHeight
              amount := p.amount, asset := .hive, type := .consensusUnstake
              params := { epoch := some p.electionEpoch, delegated := true
                          released := some (payout (balance (p.to_, .hiveConsensus))
                            (balance (p.to_, .delegationTotal)) p.amount) } }
    else if balance (p.from_, .hiveConsensus) < p.amount then .error "insufficient balance"
    else
      .ok { id := p.id, from_ := p.from_, to_ := p.to_, blockHeight := p.blockHeight
            amount := p.amount, asset := .hive, type := .consensusUnstake
            params := { epoch := some p.electionEpoch } }

end SessionOp

structure SessionSpec where
  balance : String × Asset → Int
  log : SessionLog

namespace SessionSpec

def append (t : SessionSpec) (event : OpLogEvent) : SessionSpec where
  balance k := t.balance k + netOf event.updates k.1 k.2
  log := t.log.append event

def settle (t : SessionSpec) : Except String OpLogEvent → SessionSpec × LedgerResult
  | .error msg => (t, ⟨false, msg⟩)
  | .ok event => (t.append event, ⟨true, "success"⟩)

def execute (t : SessionSpec) (op : SessionOp) : SessionSpec × LedgerResult :=
  t.settle (op.verdict t.balance)

end SessionSpec

/-! ## Sessions refine it -/

namespace LedgerSession

structure Refines (H : Set ℕ) (se : LedgerSession) (t : SessionSpec) : Prop where
  shows : ∀ k, se.Shows H k (t.balance k)
  log_eq : se.log = t.log

section Refines

variable {H : Set ℕ} {se : LedgerSession} {t : SessionSpec} {h : ℕ}

theorem Refines.read (hr : Refines H se t) (account : String) (hh : h ∈ H) (asset : Asset) :
    (se.getBalance account h asset).1 = t.balance (account, asset) :=
  hr.shows (account, asset) h hh

theorem Refines.getBalance (hr : Refines H se t) (account : String) (hh : h ∈ H) (asset : Asset) :
    Refines H (se.getBalance account h asset).2 t :=
  ⟨fun k => (hr.shows k).getBalance account hh asset,
    ((reads_getBalance se account h asset).log_eq).trans hr.log_eq⟩

variable {event : OpLogEvent}

theorem Refines.appendOplog (hr : Refines H se t)
    (hu : ∀ u ∈ opLedgerRecords { event with id := se.eventId event.id } event.blockHeight,
      Settled se H u) :
    Refines H (se.appendOplog event) (t.append event) :=
  ⟨fun k => (hr.shows k).appendOplog hu, by
    rw [log_appendOplog, hr.log_eq]
    rfl⟩

theorem Refines.appendOplog_of_mem (hr : Refines H se t) (hh : event.blockHeight ∈ H) :
    Refines H (se.appendOplog event) (t.append event) :=
  hr.appendOplog fun u hu => .inl (by
    rw [blockHeight_of_mem_opLedgerRecords hu]
    exact hh)

structure Answers (H : Set ℕ) (r : LedgerSession × LedgerResult)
    (r' : SessionSpec × LedgerResult) : Prop where
  result : r.2 = r'.2
  refines : Refines H r.1 r'.1

section

variable (hr : Refines H se t)

include hr

theorem Refines.slashAdjustedRelease (hh : h ∈ H) {g : Int} (hg : 0 < g) (node : String) :
    (se.slashAdjustedRelease g node h).1 =
        payout (t.balance (node, .hiveConsensus)) (t.balance (node, .delegationTotal)) g ∧
      Refines H (se.slashAdjustedRelease g node h).2 t := by
  rw [slashAdjustedRelease_eq se hg, hr.shows _ h hh, hr.shows _ h hh]
  exact ⟨rfl, (hr.getBalance node hh .delegationTotal).getBalance node hh .hiveConsensus⟩

theorem Refines.appendOplog_read {account : String} {asset : Asset} (hh : h ∈ H)
    (hrow : ∀ id, ∃ u, opLedgerRecords { event with id := id } event.blockHeight = [u] ∧
      u.owner = account ∧ u.asset = asset) :
    Refines H ((se.getBalance account h asset).2.appendOplog event) (t.append event) := by
  refine (hr.getBalance account hh asset).appendOplog fun u hu => .inr ?_
  obtain ⟨u', hrows, howner, hasset⟩ := hrow ((se.getBalance account h asset).2.eventId event.id)
  rw [hrows, mem_singleton] at hu
  rw [hu, key, howner, hasset, getBalance_snd_balances, Function.update_self]
  rfl

theorem Refines.executeTransfer (event : OpLogEvent) (exclusion : Int)
    (hh : event.blockHeight ∈ H) :
    Answers H (se.executeTransfer event exclusion) (t.execute (.transfer event exclusion)) := by
  have hr' := hr.getBalance event.from_ hh event.asset
  simp only [LedgerSession.executeTransfer, SessionSpec.execute, verdict,
    hr.read event.from_ hh]
  split_ifs
  · exact ⟨rfl, hr⟩
  · exact ⟨rfl, hr⟩
  · exact ⟨rfl, hr⟩
  · exact ⟨rfl, hr'⟩
  · exact ⟨rfl, hr'.appendOplog_of_mem hh⟩
  · exact ⟨rfl, hr⟩

theorem Refines.withdraw (p : WithdrawParams) (hh : p.blockHeight ∈ H) :
    Answers H (se.withdraw p) (t.execute (.withdraw p)) := by
  simp only [LedgerSession.withdraw, SessionSpec.execute, verdict, hr.read p.from_ hh]
  cases withdrawDest p.asset p.to_ with
  | error msg => split_ifs <;> exact ⟨rfl, hr⟩
  | ok dest =>
    dsimp only
    split_ifs
    · exact ⟨rfl, hr⟩
    · exact ⟨rfl, hr.getBalance p.from_ hh p.asset⟩
    · exact ⟨rfl, hr.appendOplog_read hh fun id => ⟨_, rfl, rfl, rfl⟩⟩

theorem Refines.stake (p : StakeOp) (exclusion : Int) (hh : p.blockHeight ∈ H) :
    Answers H (se.stake p exclusion) (t.execute (.stake p exclusion)) := by
  simp only [LedgerSession.stake, SessionSpec.execute, verdict, hr.read p.from_ hh]
  split_ifs
  · exact ⟨rfl, hr⟩
  · exact ⟨rfl, hr⟩
  · exact ⟨rfl, hr.getBalance p.from_ hh .hbd⟩
  · exact ⟨rfl, hr.appendOplog_read hh fun id => ⟨_, rfl, rfl, rfl⟩⟩

theorem Refines.unstake (p : StakeOp) (hh : p.blockHeight ∈ H) :
    Answers H (se.unstake p) (t.execute (.unstake p)) := by
  simp only [LedgerSession.unstake, SessionSpec.execute, verdict, hr.read p.from_ hh]
  split_ifs
  · exact ⟨rfl, hr⟩
  · exact ⟨rfl, hr⟩
  · exact ⟨rfl, hr.getBalance p.from_ hh .hbdSavings⟩
  · exact ⟨rfl, hr.appendOplog_read hh fun id => ⟨_, rfl, rfl, rfl⟩⟩

theorem Refines.consensusStake (p : ConsensusParams) (hh : p.blockHeight ∈ H) :
    Answers H (se.consensusStake p) (t.execute (.consensus (.stake p))) := by
  have hr' := hr.getBalance p.from_ hh .hive
  simp only [LedgerSession.consensusStake, SessionSpec.execute, verdict,
    hr.read p.from_ hh]
  split_ifs
  · exact ⟨rfl, hr⟩
  · exact ⟨rfl, hr'⟩
  · exact ⟨rfl, hr'.appendOplog_of_mem hh⟩

theorem Refines.consensusUnstake (p : ConsensusParams) (hh : p.blockHeight ∈ H) :
    Answers H (se.consensusUnstake p) (t.execute (.consensus (.unstake p))) := by
  have hedge := hr.getBalance (delegationEdgeKey p.from_ p.to_) hh .delegation
  have hbond := hr.getBalance p.from_ hh .hiveConsensus
  simp only [LedgerSession.consensusUnstake, SessionSpec.execute, verdict, hr.read _ hh]
  split_ifs with hpos
  · exact ⟨rfl, hr⟩
  · exact ⟨rfl, hedge⟩
  · obtain ⟨hreleased, hr'⟩ := hedge.slashAdjustedRelease hh (not_le.1 hpos) p.to_
    rw [hreleased]
    exact ⟨rfl, hr'.appendOplog_of_mem hh⟩
  · exact ⟨rfl, hbond⟩
  · exact ⟨rfl, hbond.appendOplog_of_mem hh⟩

theorem Refines.execute {op : SessionOp} (hh : op.height ∈ H) :
    Answers H (op.execute se) (t.execute op) := by
  cases op with
  | transfer event exclusion => exact hr.executeTransfer event exclusion hh
  | withdraw p => exact hr.withdraw p hh
  | stake p exclusion => exact hr.stake p exclusion hh
  | unstake p => exact hr.unstake p hh
  | consensus op =>
    cases op with
    | stake p => exact hr.consensusStake p hh
    | unstake p => exact hr.consensusUnstake p hh

end

end Refines

end LedgerSession

/-! ## Nobody is overdrawn -/

structure Borne (balance : String × Asset → Int) (rows : List LedgerUpdate) : Prop where
  nodup : (rows.map (·.key)).Nodup
  bears : ∀ u ∈ rows, 0 ≤ u.amount ∨ 0 ≤ balance u.key + u.amount

variable {balance : String × Asset → Int} {k : String × Asset}

theorem borne_singleton {u : LedgerUpdate} (h : 0 ≤ balance u.key + u.amount) : Borne balance [u] :=
  ⟨nodup_singleton _, fun _ hu => .inr (mem_singleton.1 hu ▸ h)⟩

theorem Borne.nonneg {rows : List LedgerUpdate} (h : Borne balance rows) (hk : 0 ≤ balance k) :
    0 ≤ balance k + netOf rows k.1 k.2 := by
  obtain ⟨hnodup, hbears⟩ := h
  induction rows with
  | nil => simpa [netOf] using hk
  | cons u rows ih =>
    obtain ⟨hmem, hnodup⟩ := nodup_cons.1 hnodup
    obtain ⟨hu, hbears⟩ := forall_mem_cons.1 hbears
    rw [← singleton_append, netOf_append, LedgerSession.netOf_singleton]
    rcases eq_or_ne k u.key with rfl | hne
    · have hrest : netOf rows u.key.1 u.key.2 = 0 := by
        rw [netOf, filter_eq_nil_iff.2]
        · rfl
        intro u' hu' heq
        have hkey : u'.key = u.key := Prod.ext_iff.2 (of_decide_eq_true heq)
        exact hmem (mem_map.2 ⟨u', hu', hkey⟩)
      rw [if_pos rfl, hrest, add_zero]
      exact hu.elim (add_nonneg hk) fun hbear => hbear
    · rw [if_neg hne, zero_add]
      exact ih hnodup hbears

namespace SessionOp

def Within (balance : String × Asset → Int) : SessionOp → Prop
  | transfer _ exclusion => 0 ≤ exclusion
  | stake _ exclusion => 0 ≤ exclusion
  | consensus (.unstake p) => p.delegated = true → p.amount ≤ balance (p.to_, .delegationTotal)
  | _ => True

variable {balance : String × Asset → Int} {event : OpLogEvent}

theorem borne_consensus {op : ConsensusOp} (hw : Within balance (.consensus op))
    (hv : verdict balance (.consensus op) = .ok event) : Borne balance event.updates := by
  cases op with
  | stake p =>
    simp only [verdict] at hv
    split_ifs at hv with hpos hbal
    cases hv
    cases p.delegated <;>
      simp only [updates, opLedgerRecords, if_true, if_false, Bool.false_eq_true,
        append_nil, cons_append, nil_append]
    · refine ⟨by simp [key], ?_⟩
      simp only [forall_mem_cons, key]
      exact ⟨.inr (by omega), .inl (by omega), by simp⟩
    refine ⟨by simp [key], ?_⟩
    simp only [forall_mem_cons, key]
    exact ⟨.inr (by omega), .inl (by omega), .inl (by omega), .inl (by omega), by simp⟩
  | unstake p =>
    simp only [verdict] at hv
    split_ifs at hv with hpos hd hedge hbal
    · cases hv
      have htotal := hw hd
      -- The bond pays no more than it holds.
      have hbond := payout_le_max (not_le.1 hpos) htotal (balance (p.to_, .hiveConsensus))
      simp only [updates, opLedgerRecords, if_true, opReleased, Option.getD_some]
      refine ⟨by simp [key], ?_⟩
      simp only [forall_mem_cons, key]
      exact ⟨by omega, .inr (by omega), .inr (by omega), by simp⟩
    · cases hv
      exact borne_singleton (by simp only [key]; omega)

theorem Within.borne {op : SessionOp} (hw : op.Within balance)
    (hv : op.verdict balance = .ok event) :
    Borne balance event.updates := by
  cases op with
  | transfer event exclusion =>
    simp only [verdict] at hv
    split_ifs at hv with hpos hself hdest hasset hbal
    cases hv
    have hw : 0 ≤ exclusion := hw
    have hne : event.from_ ≠ event.to_ := fun h => hself h.symm
    refine ⟨by simp [updates, opLedgerRecords, key, hne], ?_⟩
    simp only [updates, opLedgerRecords, forall_mem_cons, key]
    exact ⟨.inr (by omega), .inl (by omega), by simp⟩
  | withdraw p =>
    simp only [verdict] at hv
    cases hdest : withdrawDest p.asset p.to_ with
    | error msg =>
      simp only [hdest] at hv
      split_ifs at hv
    | ok dest =>
      simp only [hdest] at hv
      split_ifs at hv with hpos hbal
      cases hv
      exact borne_singleton (by simp only [key]; omega)
  | stake p exclusion =>
    simp only [verdict] at hv
    split_ifs at hv with hpos hasset hbal
    cases hv
    have hw : 0 ≤ exclusion := hw
    exact borne_singleton (by simp only [key]; omega)
  | unstake p =>
    simp only [verdict] at hv
    split_ifs at hv with hpos hasset hbal
    cases hv
    exact borne_singleton (by simp only [key]; omega)
  | consensus op => exact borne_consensus hw hv

end SessionOp

theorem SessionSpec.nonneg_execute {t : SessionSpec} {op : SessionOp} (hw : op.Within t.balance)
    (hk : 0 ≤ t.balance k) : 0 ≤ (t.execute op).1.balance k := by
  rw [execute]
  cases hv : op.verdict t.balance with
  | error msg => exact hk
  | ok event => exact (hw.borne hv).nonneg hk

end VscNode
