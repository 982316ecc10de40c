import VscNode.Ledger.Delivery
import VscNode.Lib.ProRata

/-!
# What a session shows

`shown` is the balance a session answers with at a height. The session caches a
balance at the height of its first read, so later reads at other heights repeat it.
`Shows` is a balance that reads the same at all heights in question, `Steady` one
that does so before and after the session hands its updates over to the ledger
state. An appended event moves it by the event's rows.
-/

namespace VscNode

open Function List ProRata

/-- The balance a row moves. -/
def LedgerUpdate.key (u : LedgerUpdate) : String × Asset := (u.owner, u.asset)

namespace LedgerSession

variable (se : LedgerSession)

variable (k : String × Asset) (h : ℕ)

/-- The balance a session shows at a height. -/
def shown : Int := (se.getBalance k.1 h k.2).1

theorem shown_eq : se.shown k h = (se.balances k).getD (se.state.snapshotForAccount k.1 h k.2) := by
  rw [shown, getBalance]
  cases se.balances k <;> rfl

theorem shown_done : se.done.shown k h =
      se.state.snapshotForAccount k.1 h k.2 + netOf se.ledgerOps k.1 k.2 := by
  rw [shown_eq]
  change se.state.dbs.getBalance k.1 h k.2 + netOf (se.state.virtualLedger ++ se.ledgerOps) _ _ = _
  rw [netOf_append, ← add_assoc]
  rfl

variable {k : String × Asset}

theorem shown_of_cached {se : LedgerSession} {v : Int} (hk : se.balances k = some v) (h : ℕ) :
    se.shown k h = v := by
  rw [shown_eq, hk, Option.getD_some]

theorem shown_congr {se se' : LedgerSession} (hstate : se'.state = se.state)
    (hk : se'.balances k = se.balances k) (h : ℕ) : se'.shown k h = se.shown k h := by
  rw [shown_eq, shown_eq, hk, hstate]

theorem getBalance_snd_balances (account : String) (h : ℕ) (asset : Asset) :
    (se.getBalance account h asset).2.balances =
      update se.balances (account, asset) (some (se.shown (account, asset) h)) := by
  rw [shown_eq, getBalance]
  cases hk : se.balances (account, asset) with
  | none => rfl
  | some bal => exact (update_eq_self_iff.2 (by rw [hk]; rfl)).symm

theorem slashAdjustedRelease_eq {g : Int} (hg : 0 < g) (node : String) (h : ℕ) :
    se.slashAdjustedRelease g node h =
      (payout (se.shown (node, .hiveConsensus) h) (se.shown (node, .delegationTotal) h) g,
        ((se.getBalance node h .delegationTotal).2.getBalance node h .hiveConsensus).2) := by
  have hbond : ((se.getBalance node h .delegationTotal).2.getBalance node h .hiveConsensus).1 =
      se.shown (node, .hiveConsensus) h := by
    refine shown_congr (k := (node, .hiveConsensus)) (reads_getBalance se ..).state ?_ h
    rw [getBalance_snd_balances, update_of_ne (by simp)]
  have htotal : (se.getBalance node h .delegationTotal).1 = se.shown (node, .delegationTotal) h :=
    rfl
  rw [slashAdjustedRelease, if_neg (not_le.2 hg), payout]
  simp only [hbond, htotal]
  split_ifs <;> rfl

section

variable (H : Set ℕ) (u : LedgerUpdate) (k : String × Asset)

theorem appendLedger_balances :
    (se.appendLedger u).balances =
      update se.balances u.key (some (se.shown u.key u.blockHeight + u.amount)) := by
  change update (se.getBalance u.owner u.blockHeight u.asset).2.balances _ _ = _
  rw [getBalance_snd_balances, update_idem]
  rfl

theorem netOf_singleton : netOf [u] k.1 k.2 = if k = u.key then u.amount else 0 := by
  rcases eq_or_ne k u.key with rfl | hne
  · simp [netOf, LedgerUpdate.key]
  · have hmiss : ¬(u.owner = k.1 ∧ u.asset = k.2) := fun h => hne (Prod.ext h.1.symm h.2.symm)
    simp [netOf, hne, hmiss]

theorem blockHeight_of_mem_opLedgerRecords {w : OpLogEvent} {endBlock : ℕ} {u : LedgerUpdate}
    (hu : u ∈ opLedgerRecords w endBlock) : u.blockHeight = endBlock := by
  cases hw : w.type <;> cases hd : w.params.delegated <;>
    simp only [opLedgerRecords, hw, hd] at hu <;> grind

theorem netOf_withId (w : OpLogEvent) (id : String) (endBlock : ℕ) (account : String)
    (asset : Asset) :
    netOf (opLedgerRecords { w with id := id } endBlock) account asset =
      netOf (opLedgerRecords w endBlock) account asset := by
  cases hw : w.type <;> cases hd : w.params.delegated <;>
    simp only [opLedgerRecords, opReleased, hw, hd, netOf, filter_cons, filter_nil, if_true,
      if_false, Bool.false_eq_true, append_nil, cons_append, nil_append] <;>
    split_ifs <;> rfl

/-! ## Balances that do not depend on the height -/

def Shows (v : Int) : Prop :=
  ∀ h ∈ H, se.shown k h = v

/-- The row is read at one of the heights, or its balance has been read before. -/
def Settled : Prop :=
  u.blockHeight ∈ H ∨ (se.balances u.key).isSome

end

section Shows

variable {se : LedgerSession} {H : Set ℕ} {k : String × Asset} {v : Int}

theorem Shows.congr {se' : LedgerSession} (hs : Shows se H k v) (hstate : se'.state = se.state)
    (hbal : se'.balances = se.balances) : Shows se' H k v :=
  fun h hh => (shown_congr hstate (congrFun hbal k) h).trans (hs h hh)

theorem Shows.getBalance (hs : Shows se H k v) (account : String) {h : ℕ} (hh : h ∈ H)
    (asset : Asset) : Shows (se.getBalance account h asset).2 H k v := by
  intro h' hh'
  rcases eq_or_ne k (account, asset) with rfl | hne
  · rw [shown_of_cached (v := v)]
    rw [getBalance_snd_balances, update_self, hs h hh]
  · refine (shown_congr (reads_getBalance se account h asset).state ?_ h').trans (hs h' hh')
    rw [getBalance_snd_balances, update_of_ne hne]

variable {u : LedgerUpdate}

theorem Settled.appendLedger (hu : Settled se H u) (u' : LedgerUpdate) :
    Settled (se.appendLedger u') H u := by
  refine hu.imp_right fun hcached => ?_
  rw [appendLedger_balances, update_apply]
  split_ifs
  · rfl
  · exact hcached

theorem Shows.appendLedger (hs : Shows se H k v) (hu : Settled se H u) :
    Shows (se.appendLedger u) H k (v + netOf [u] k.1 k.2) := by
  intro h hh
  rw [netOf_singleton]
  rcases eq_or_ne k u.key with rfl | hne
  · have hread : se.shown u.key u.blockHeight = v := by
      rcases hu with hmem | hcached
      · exact hs _ hmem
      · obtain ⟨bal, hbal⟩ := Option.isSome_iff_exists.1 hcached
        rw [shown_of_cached hbal, ← hs h hh, shown_of_cached hbal]
    rw [if_pos rfl, ← hread]
    exact shown_of_cached (by rw [appendLedger_balances, update_self]) h
  rw [if_neg hne, add_zero, ← hs h hh]
  refine shown_congr (sameLog_appendLedger se u).state ?_ h
  rw [appendLedger_balances, update_of_ne hne]

theorem Shows.foldl_appendLedger {updates : List LedgerUpdate} (hs : Shows se H k v)
    (hu : ∀ u ∈ updates, Settled se H u) :
    Shows (updates.foldl LedgerSession.appendLedger se) H k (v + netOf updates k.1 k.2) := by
  induction updates generalizing se v with
  | nil => simpa [netOf] using hs
  | cons u updates ih =>
    have hstep := ih (hs.appendLedger (hu u mem_cons_self))
      fun u' hu' => (hu u' (mem_cons_of_mem _ hu')).appendLedger u
    rwa [add_assoc, ← netOf_append] at hstep

theorem Shows.appendOplog (hs : Shows se H k v) {event : OpLogEvent}
    (hu : ∀ u ∈ opLedgerRecords { event with id := se.eventId event.id } event.blockHeight,
      Settled se H u) :
    Shows (se.appendOplog event) H k
      (v + netOf (opLedgerRecords event event.blockHeight) k.1 k.2) := by
  have hcount : Shows
      { se with idCache := update se.idCache event.id (se.idCache event.id + 1) } H k v :=
    hs.congr rfl rfl
  have hrows := hcount.foldl_appendLedger hu
  rw [netOf_withId] at hrows
  exact hrows.congr rfl rfl

end Shows

structure Steady (se : LedgerSession) (H : Set ℕ) (k : String × Asset) (v : Int) : Prop where
  shown : se.Shows H k v
  done : se.done.Shows H k v

section Steady

variable {se : LedgerSession} {H : Set ℕ} {k : String × Asset} {v : Int}

/-- A session that has done nothing shows steady balances at one height. -/
theorem steady_singleton (st : LedgerState) (k : String × Asset) (h : ℕ) :
    Steady { state := st } {h} k (st.snapshotForAccount k.1 h k.2) where
  shown := by
    rintro _ rfl
    exact shown_eq ..
  done := by
    rintro _ rfl
    rw [shown_done]
    exact add_zero _

theorem Steady.handOver (hs : Steady se H k v) : Steady se.done H k v where
  shown := hs.done
  done := by
    intro h hh
    rw [shown_done, ← hs.done h hh, shown_eq]
    exact add_zero _

theorem Steady.getBalance (hs : Steady se H k v) (account : String) {h : ℕ} (hh : h ∈ H)
    (asset : Asset) : Steady (se.getBalance account h asset).2 H k v where
  shown := hs.shown.getBalance account hh asset
  done := by
    intro h' hh'
    have hreads := reads_getBalance se account h asset
    rw [shown_done, hreads.state, hreads.ledgerOps, ← shown_done]
    exact hs.done h' hh'

theorem Steady.appendOplog (hs : Steady se H k v) {event : OpLogEvent}
    (hh : event.blockHeight ∈ H) :
    Steady (se.appendOplog event) H k
      (v + netOf (opLedgerRecords event event.blockHeight) k.1 k.2) where
  shown := hs.shown.appendOplog fun u hu => .inl (by
    rw [blockHeight_of_mem_opLedgerRecords hu]
    exact hh)
  done := by
    intro h hh'
    rw [shown_done, ledgerOps_appendOplog, netOf_append, netOf_withId,
      (appended_appendOplog (.refl se) event).state, ← add_assoc, ← shown_done, hs.done h hh']

end Steady

end LedgerSession

end VscNode
