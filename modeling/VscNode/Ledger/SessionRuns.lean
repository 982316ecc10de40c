import VscNode.Ledger.SessionSpec

/-!
# Runs of a session with savepoints

A session executes operations, reads balances, takes savepoints and restores them.
The open savepoints form a stack; restoring one closes those taken after it.
`SavedSession` keeps, for each open savepoint, the session as it was when the
savepoint was taken. Operations only append to the log, so what a savepoint holds is
enough to get that session back (`Stacked.restore`).

Along a run at heights that read the same balances the session follows the
specification, savepoints included (`Follows.apply`).
-/

namespace VscNode

open LedgerSession List Relation

namespace LedgerSession

/-- A later point of the same session: the log has grown. -/
structure Extends (se s : LedgerSession) : Prop where
  state : se.state = s.state
  oplog : s.oplog <+: se.oplog
  ledgerOps : s.ledgerOps <+: se.ledgerOps

theorem Extends.refl (se : LedgerSession) : se.Extends se :=
  ⟨rfl, prefix_rfl, prefix_rfl⟩

theorem Extends.trans {se se' se'' : LedgerSession} (h : se.Extends se') (h' : se'.Extends se'') :
    se.Extends se'' :=
  ⟨h.state.trans h'.state, h'.oplog.trans h.oplog, h'.ledgerOps.trans h.ledgerOps⟩

theorem Reads.grown {se se' : LedgerSession} (h : se.Reads se') : se'.Extends se :=
  ⟨h.state, h.oplog ▸ prefix_rfl, h.ledgerOps ▸ prefix_rfl⟩

theorem extends_appendOplog (se : LedgerSession) (event : OpLogEvent) :
    (se.appendOplog event).Extends se where
  state := (appended_appendOplog (.refl se) event).state
  oplog := (appended_appendOplog (.refl se) event).oplog ▸ prefix_append ..
  ledgerOps := ledgerOps_appendOplog se event ▸ prefix_append ..

theorem extends_execute (op : SessionOp) (se : LedgerSession) : (op.execute se).1.Extends se := by
  have hends := op.execute_cases se
  generalize op.execute se = result at hends ⊢
  cases hends with
  | refused msg hreads => exact hreads.grown
  | logged hreads hlogs => exact (extends_appendOplog _ _).trans hreads.grown

theorem Extends.restoreSavepoint {se s : LedgerSession} (h : se.Extends s) :
    se.restoreSavepoint s.savepoint = s := by
  obtain ⟨state, oplog, ledgerOps, balances, idCache⟩ := s
  simp only [LedgerSession.restoreSavepoint, savepoint, if_pos h.oplog.length_le,
    if_pos h.ledgerOps.length_le, h.state, prefix_iff_eq_take.1 h.oplog |>.symm,
    prefix_iff_eq_take.1 h.ledgerOps |>.symm]

end LedgerSession

/-! ## The stack of savepoints -/

/-- A session, and what it was at each open savepoint, the newest first. -/
structure SavedSession where
  current : LedgerSession
  saved : List LedgerSession := []

inductive SessionStep
  | execute (op : SessionOp)
  | getBalance (account : String) (blockHeight : ℕ) (asset : Asset)
  | savepoint
  /-- Forget the `n` newest savepoints. -/
  | drop (n : ℕ)
  /-- Restore the savepoint that `n` open ones were taken after. -/
  | restoreSavepoint (n : ℕ)
  deriving DecidableEq

namespace SavedSession

def apply (m : SavedSession) : SessionStep → SavedSession
  | .execute op => { m with current := (op.execute m.current).1 }
  | .getBalance account blockHeight asset =>
    { m with current := (m.current.getBalance account blockHeight asset).2 }
  | .savepoint => { m with saved := m.current :: m.saved }
  | .drop n => { m with saved := m.saved.drop n }
  | .restoreSavepoint n =>
    match m.saved.drop n with
    | [] => m
    | s :: saved => ⟨m.current.restoreSavepoint s.savepoint, s :: saved⟩

/-- Every open savepoint was taken before the ones above it. -/
def Stacked (m : SavedSession) : Prop :=
  (m.current :: m.saved).Pairwise LedgerSession.Extends

variable {m : SavedSession}

variable {s : LedgerSession}

section

variable (h : m.Stacked)
include h

theorem Stacked.grown (hs : s ∈ m.saved) : m.current.Extends s :=
  (pairwise_cons.1 h).1 s hs

theorem Stacked.advance {se : LedgerSession} (hse : se.Extends m.current) :
    Stacked { m with current := se } :=
  pairwise_cons.2 ⟨fun _ hs => hse.trans (h.grown hs), (pairwise_cons.1 h).2⟩

theorem Stacked.restore {n : ℕ} {saved : List LedgerSession} (hs : m.saved.drop n = s :: saved) :
    m.apply (.restoreSavepoint n) = ⟨s, s :: saved⟩ := by
  have hmem : s ∈ m.saved := mem_of_mem_drop (hs ▸ mem_cons_self)
  simp only [apply, hs, (h.grown hmem).restoreSavepoint]

theorem Stacked.apply (step : SessionStep) : (m.apply step).Stacked := by
  cases step with
  | execute op => exact h.advance (extends_execute op _)
  | getBalance account blockHeight asset =>
    exact h.advance (reads_getBalance ..).grown
  | savepoint => exact pairwise_cons.2 ⟨forall_mem_cons.2 ⟨.refl _, fun _ hs => h.grown hs⟩, h⟩
  | drop n => exact h.sublist ((drop_sublist n _).cons_cons _)
  | restoreSavepoint n =>
    cases hs : m.saved.drop n with
    | nil => simpa only [SavedSession.apply, hs] using h
    | cons s saved =>
      rw [h.restore hs]
      have hsaved : (s :: saved).Pairwise LedgerSession.Extends :=
        hs ▸ (pairwise_cons.1 h).2.sublist (drop_sublist n _)
      exact pairwise_cons.2
        ⟨forall_mem_cons.2 ⟨.refl _, (pairwise_cons.1 hsaved).1⟩, hsaved⟩

theorem Stacked.run (steps : List SessionStep) : (steps.foldl SavedSession.apply m).Stacked := by
  induction steps generalizing m with
  | nil => exact h
  | cons step steps ih => exact ih (h.apply step)

end

end SavedSession

/-! ## Following the specification -/

/-- The specification with its savepoints. -/
structure SavedSpec where
  current : SessionSpec
  saved : List SessionSpec := []

def SavedSpec.apply (t : SavedSpec) : SessionStep → SavedSpec
  | .execute op => { t with current := (t.current.execute op).1 }
  | .getBalance .. => t
  | .savepoint => { t with saved := t.current :: t.saved }
  | .drop n => { t with saved := t.saved.drop n }
  | .restoreSavepoint n =>
    match t.saved.drop n with
    | [] => t
    | s :: saved => ⟨s, s :: saved⟩

namespace SessionStep

def At (H : Set ℕ) : SessionStep → Prop
  | execute op => op.height ∈ H
  | getBalance _ blockHeight _ => blockHeight ∈ H
  | _ => True

def Within (m : SavedSession) : SessionStep → Prop
  | execute op => op.Within fun k => m.current.shown k op.height
  | _ => True

end SessionStep

namespace SavedSession

/-- A session whose open savepoints and balances are those of the specification. -/
structure Follows (H : Set ℕ) (m : SavedSession) (t : SavedSpec) : Prop where
  stacked : m.Stacked
  current : m.current.Refines H t.current
  saved : List.Forall₂ (LedgerSession.Refines H) m.saved t.saved

variable {H : Set ℕ} {m m' : SavedSession} {t : SavedSpec}

theorem Follows.apply (hf : Follows H m t) {step : SessionStep} (hstep : step.At H) :
    Follows H (m.apply step) (t.apply step) := by
  have hstacked := hf.stacked.apply step
  cases step with
  | execute op => exact ⟨hstacked, (hf.current.execute hstep).refines, hf.saved⟩
  | getBalance account blockHeight asset =>
    exact ⟨hstacked, hf.current.getBalance account hstep asset, hf.saved⟩
  | savepoint => exact ⟨hstacked, hf.current, .cons hf.current hf.saved⟩
  | drop n => exact ⟨hstacked, hf.current, forall₂_drop n hf.saved⟩
  | restoreSavepoint n =>
    have hdrop := forall₂_drop n hf.saved
    cases hs : m.saved.drop n with
    | nil =>
      rw [hs] at hdrop
      have ht := forall₂_nil_left_iff.1 hdrop
      simpa only [SavedSession.apply, SavedSpec.apply, hs, ht] using hf
    | cons s saved =>
      rw [hs] at hdrop
      obtain ⟨r, saved', hr, hsaved, ht⟩ := forall₂_cons_left_iff.1 hdrop
      rw [hf.stacked.restore hs] at hstacked ⊢
      simp only [SavedSpec.apply, ht]
      exact ⟨hstacked, hr, .cons hr hsaved⟩

theorem Follows.run (hf : Follows H m t) {steps : List SessionStep}
    (hsteps : ∀ step ∈ steps, step.At H) :
    Follows H (steps.foldl SavedSession.apply m) (steps.foldl SavedSpec.apply t) := by
  induction steps generalizing m t with
  | nil => exact hf
  | cons step steps ih =>
    obtain ⟨hhead, htail⟩ := forall_mem_cons.1 hsteps
    exact ih (hf.apply hhead) htail

theorem Follows.shown_eq (hf : Follows H m t) (hf' : Follows H m' t) (k : String × Asset) {h : ℕ}
    (hh : h ∈ H) : m'.current.shown k h = m.current.shown k h := by
  rw [hf.current.shows k h hh, hf'.current.shows k h hh]

/-! ## No overdraft, no trace of a refusal, exact restores -/

end SavedSession

/-- A balance that is not negative now and was not at any open savepoint. -/
structure SavedSpec.Nonneg (t : SavedSpec) (k : String × Asset) : Prop where
  current : 0 ≤ t.current.balance k
  saved : ∀ s ∈ t.saved, 0 ≤ s.balance k

theorem SavedSpec.Nonneg.apply {t : SavedSpec} {k : String × Asset} (hn : t.Nonneg k)
    {step : SessionStep} (hw : ∀ op, step = .execute op → op.Within t.current.balance) :
    (t.apply step).Nonneg k := by
  cases step with
  | execute op => exact ⟨t.current.nonneg_execute (hw op rfl) hn.current, hn.saved⟩
  | getBalance => exact hn
  | savepoint => exact ⟨hn.current, forall_mem_cons.2 ⟨hn.current, hn.saved⟩⟩
  | drop n => exact ⟨hn.current, fun s hs => hn.saved s (mem_of_mem_drop hs)⟩
  | restoreSavepoint n =>
    cases hs : t.saved.drop n with
    | nil => simpa only [SavedSpec.apply, hs] using hn
    | cons s saved =>
      have hsaved : ∀ r ∈ s :: saved, 0 ≤ r.balance k :=
        fun r hr => hn.saved r (mem_of_mem_drop (hs ▸ hr))
      simp only [SavedSpec.apply, hs]
      exact ⟨hsaved s mem_cons_self, hsaved⟩

namespace SavedSession

variable {H : Set ℕ} {m : SavedSession} {t : SavedSpec}

theorem Follows.within (hf : Follows H m t) {op : SessionOp} (hh : op.height ∈ H)
    (hw : SessionStep.Within m (.execute op)) : op.Within t.current.balance := by
  have heq : (fun k => m.current.shown k op.height) = t.current.balance :=
    funext fun k => hf.current.shows k _ hh
  rw [← heq]
  exact hw

theorem Follows.nonneg_run (hf : Follows H m t) {steps : List SessionStep}
    (hsteps : ∀ step ∈ steps, step.At H)
    (hwithin : Run.AllAlong SavedSession.apply SessionStep.Within m steps) {k : String × Asset}
    (hn : t.Nonneg k) : (steps.foldl SavedSpec.apply t).Nonneg k := by
  induction steps generalizing m t with
  | nil => exact hn
  | cons step steps ih =>
    obtain ⟨hhead, htail⟩ := forall_mem_cons.1 hsteps
    refine ih (hf.apply hhead) htail hwithin.2 (hn.apply ?_)
    rintro op rfl
    exact hf.within hhead hwithin.1

end SavedSession

variable {op : SessionOp}

theorem SessionSpec.execute_of_refused {t : SessionSpec} (h : (t.execute op).2.ok = false) :
    (t.execute op).1 = t := by
  rw [execute] at h ⊢
  cases hv : op.verdict t.balance with
  | error msg => rfl
  | ok event =>
    rw [hv] at h
    cases h

theorem LedgerSession.reads_of_refused {se : LedgerSession} (h : (op.execute se).2.ok = false) :
    se.Reads (op.execute se).1 := by
  have hends := op.execute_cases se
  generalize op.execute se = result at hends h ⊢
  cases hends with
  | refused msg hreads => exact hreads
  | logged => cases h

/-- A session at heights that read the same balances. Along every run in which the
delegated unstakes stay within the gross totals, a balance that is not negative at
first is never negative. A refused operation leaves the events and the updates as
they are, and no balance read later in the run shows it. And whatever happens in
between, restoring an open savepoint gives back the session it was taken of. -/
theorem session_operations_clean {se : LedgerSession} {H : Set ℕ} {balance : String × Asset → Int}
    (hshows : ∀ k, se.Shows H k (balance k)) :
    (∀ steps : List SessionStep, (∀ step ∈ steps, step.At H) →
      Run.AllAlong SavedSession.apply SessionStep.Within ⟨se, []⟩ steps →
      ∀ k, ∀ h ∈ H, 0 ≤ se.shown k h →
        0 ≤ (steps.foldl SavedSession.apply ⟨se, []⟩).current.shown k h) ∧
    (∀ before later : List SessionStep, (∀ step ∈ before ++ later, step.At H) →
      ∀ op : SessionOp, op.height ∈ H →
      let m := before.foldl SavedSession.apply ⟨se, []⟩
      (op.execute m.current).2.ok = false → (op.execute m.current).1.oplog = m.current.oplog ∧
        (op.execute m.current).1.ledgerOps = m.current.ledgerOps ∧
        ∀ k, ∀ h ∈ H, (later.foldl SavedSession.apply (m.apply (.execute op))).current.shown k h =
            (later.foldl SavedSession.apply m).current.shown k h) ∧
    (∀ (steps : List SessionStep) (n : ℕ) (s : LedgerSession),
      let m := steps.foldl SavedSession.apply ⟨se, []⟩
      m.saved[n]? = some s → m.current.restoreSavepoint s.savepoint = s) := by
  have hstacked : SavedSession.Stacked ⟨se, []⟩ := pairwise_singleton ..
  have hf : SavedSession.Follows H ⟨se, []⟩ ⟨⟨balance, se.log⟩, []⟩ :=
    ⟨hstacked, ⟨hshows, rfl⟩, .nil⟩
  refine ⟨?_, ?_, ?_⟩
  · intro steps hsteps hwithin k h hh hk
    rw [hshows k h hh] at hk
    have hrun := (hf.run hsteps).current.shows k h hh
    rw [hrun]
    exact (hf.nonneg_run hsteps hwithin ⟨hk, by simp⟩).current
  · intro before later hsteps op hop m hrefused
    obtain ⟨hbefore, hlater⟩ := forall_mem_append.1 hsteps
    have hm := hf.run hbefore
    have hreads := reads_of_refused hrefused
    refine ⟨hreads.oplog, hreads.ledgerOps, fun k h hh => ?_⟩
    -- The specification does not move when an operation is refused.
    have hspec := SessionSpec.execute_of_refused ((hm.current.execute hop).result ▸ hrefused)
    have hat : SessionStep.At H (.execute op) := hop
    have hm' := hm.apply hat
    simp only [SavedSpec.apply, hspec] at hm'
    exact (hm.run hlater).shown_eq (hm'.run hlater) k hh
  · intro steps n s m hs
    exact ((hstacked.run steps).grown (mem_of_getElem? hs)).restoreSavepoint

def aliceSends : List SessionStep :=
  [.execute (Desk.sends 4), .savepoint, .execute (Desk.sends 7), .execute (Desk.sends 6),
    .restoreSavepoint 0]

theorem session_operations_clean_aliceSends :
    0 ≤ (aliceSends.foldl SavedSession.apply ⟨{ state := { dbs := Desk.aliceHive } }, []⟩).current.shown
      ("hive:alice", .hive) 5 := by
  refine (session_operations_clean (H := {5}) fun k =>
    (steady_singleton { dbs := Desk.aliceHive } k 5).shown).1 aliceSends ?_ ?_ _ 5 rfl ?_
  · simp only [aliceSends, forall_mem_cons, SessionStep.At]
    exact ⟨rfl, trivial, rfl, rfl, trivial, by simp⟩
  · exact ⟨le_refl 0, trivial, le_refl 0, le_refl 0, trivial, trivial⟩
  · decide

def edgeOnly : LedgerDbs where
  ledger := Collection.empty.put
    { id := "edge", amount := 5, blockHeight := 1, owner := "hive:alice::hive:node"
      type := .consensusStake, asset := .delegation }

/-- An edge that is no part of the gross total lets a delegated unstake overdraw the
node. And a withdrawal refused at one height shows in a read at another: alice's
deposit at height 1 is not seen at height 5. -/
theorem session_overdraws_and_refusal_shows :
    (let se : LedgerSession := { state := { dbs := edgeOnly } }
      let unstake : SessionOp :=
        .consensus (.unstake ⟨"u", "hive:alice", "hive:node", 5, 10, 1, true⟩)
      se.shown ("hive:node", .hiveConsensus) 10 = 0 ∧ (unstake.execute se).2.ok = true ∧
        (unstake.execute se).1.shown ("hive:node", .hiveConsensus) 10 = -5) ∧
    (let se : LedgerSession := { state := { dbs := Desk.aliceHive } }
      let withdraw : SessionOp :=
        .withdraw { id := "w", from_ := "hive:alice", to_ := "bob", amount := 1, asset := .hive
                    blockHeight := 0 }
      (withdraw.execute se).2.ok = false ∧ se.shown ("hive:alice", .hive) 5 = 10 ∧
        (withdraw.execute se).1.shown ("hive:alice", .hive) 5 = 0) := by
  decide

end VscNode
