import VscNode.Ledger.Session
import VscNode.Lib.Journal

/-!
# What sessions promise and what the oplog delivers

Any number of sessions work on one ledger state. Each collects events and the
ledger updates they stand for; `done` hands both over, the events to the oplog
and the updates to the virtual ledger, and a savepoint cuts both back. A `Desk`
holds the ledger state with its sessions and the savepoints they took, and a run
of it that restores only open savepoints keeps the two lists together
(`Sound`). So the virtual ledger holds, for every account and asset, what
`executeOplog` later derives from the events, and the balance an account sees
while the events are in flight is the one it has when they are ingested.

A savepoint is open until its session ends or drops its transaction, or an
earlier savepoint is restored. Nothing in the code checks that a restored
savepoint is open: it cuts the two lists by two lengths that may come from
another transaction.
-/

namespace VscNode

open Collection Function Journal List OpLogEvent Relation

/-! ## Updates by account and asset -/

def netOf (updates : List LedgerUpdate) (account : String) (asset : Asset) : Int :=
  ((updates.filter fun v => v.owner = account ∧ v.asset = asset).map (·.amount)).sum

theorem netOf_append (updates updates' : List LedgerUpdate) (account : String) (asset : Asset) :
    netOf (updates ++ updates') account asset =
      netOf updates account asset + netOf updates' account asset := by
  simp [netOf]

/-- The height an event is executed at shows in the heights of its rows only. -/
theorem netOf_opLedgerRecords (v : OpLogEvent) (endBlock endBlock' : ℕ) (account : String)
    (asset : Asset) :
    netOf (opLedgerRecords v endBlock) account asset =
      netOf (opLedgerRecords v endBlock') account asset := by
  cases hv : v.type <;> cases hd : v.params.delegated <;>
    simp only [opLedgerRecords, hv, hd, netOf, filter_cons, filter_nil, if_true, if_false,
      Bool.false_eq_true, append_nil, cons_append, nil_append] <;> split_ifs <;> rfl

theorem netOf_flatMap_updates (oplog : List OpLogEvent) (endBlock : ℕ) (account : String)
    (asset : Asset) :
    netOf (oplog.flatMap updates) account asset =
      netOf (executeOplog oplog endBlock).1 account asset := by
  induction oplog with
  | nil => rfl
  | cons v oplog ih =>
    rw [flatMap_cons, netOf_append, ih]
    simp only [executeOplog, flatMap_cons, netOf_append]
    rw [updates, netOf_opLedgerRecords v v.blockHeight endBlock]

theorem LedgerState.snapshotForAccount_eq (st : LedgerState) (account : String) (h : ℕ)
    (asset : Asset) :
    st.snapshotForAccount account h asset =
      st.dbs.getBalance account h asset + netOf st.virtualLedger account asset := rfl

structure LedgerUpdate.Regular (u : LedgerUpdate) : Prop where
  asset : u.asset ∈ snapshotAssets ∨ (u.asset = .delegation ∨ u.asset = .delegationTotal) ∧
    u.type ∈ [.consensusStake, .consensusUnstake]
  counted : isProtocolMetaLedgerType u.type = false

variable {u : LedgerUpdate} {st : LedgerState}

theorem LedgerUpdate.Regular.ne_other (h : u.Regular) (name : String) : u.asset ≠ .other name := by
  intro hother
  have hasset := h.asset
  simp [hother, snapshotAssets] at hasset

theorem netOf_other {updates : List LedgerUpdate} (h : ∀ u ∈ updates, u.Regular)
    (account name : String) : netOf updates account (.other name) = 0 := by
  have hnone : updates.filter (fun v => v.owner = account ∧ v.asset = .other name) = [] := by
    rw [filter_eq_nil_iff]
    intro u hu
    simp [(h u hu).ne_other name]
  rw [netOf, hnone]
  rfl

variable {endBlock : ℕ} {se : LedgerSession}

theorem regular_of_mem_opLedgerRecords {v : OpLogEvent}
    (hasset : v.type = .transfer ∨ v.type = .withdraw → v.asset ∈ snapshotAssets)
    (hu : u ∈ opLedgerRecords v endBlock) : u.Regular := by
  cases hv : v.type <;> cases hd : v.params.delegated <;>
    simp only [opLedgerRecords, hv, hd, if_true, if_false, Bool.false_eq_true, append_nil,
      mem_append, mem_cons, not_mem_nil, or_false] at hu hasset
  all_goals
    rcases hu with (rfl | rfl) | rfl | rfl <;>
      constructor <;> simp_all [snapshotAssets, isProtocolMetaLedgerType]

/-! ## Sound sessions -/

structure LedgerState.Sound (st : LedgerState) : Prop where
  follows : Follows OpLogEvent.updates st.oplog st.virtualLedger
  regular : ∀ u ∈ st.virtualLedger, u.Regular

def NoOther (balances : String × Asset → Option Int) : Prop :=
  ∀ account name b, balances (account, .other name) = some b → b = 0

structure LedgerSession.Sound (se : LedgerSession) : Prop where
  follows : Follows OpLogEvent.updates se.oplog se.ledgerOps
  regular : ∀ u ∈ se.ledgerOps, u.Regular
  cached : NoOther se.balances

theorem LedgerState.Sound.snapshot_other (h : st.Sound) (account : String) (height : ℕ)
    (name : String) : st.snapshotForAccount account height (.other name) = 0 := by
  rw [snapshotForAccount_eq, netOf_other h.regular]
  rfl

namespace LedgerSession

variable {se : LedgerSession}

theorem Sound.of_reads {se' : LedgerSession} (hst : se.state.Sound) (h : se.Sound)
    (hreads : se.Reads se') : se'.Sound where
  follows := by
    rw [hreads.oplog, hreads.ledgerOps]
    exact h.follows
  regular := by
    rw [hreads.ledgerOps]
    exact h.regular
  cached := by
    intro account name b hb
    rcases hreads.balances (account, .other name) with heq | ⟨height, heq⟩
    · exact h.cached account name b (heq.symm.trans hb)
    rw [heq, Option.some.injEq] at hb
    rw [← hb]
    exact hst.snapshot_other account height name

theorem Sound.getBalance_other (hst : se.state.Sound) (h : se.Sound) (account : String)
    (height : ℕ) (name : String) :
    (se.getBalance account height (.other name)).1 = 0 := by
  rw [getBalance]
  split
  · rename_i b hb
    exact h.cached account name b hb
  · exact hst.snapshot_other account height name

variable {event : OpLogEvent}

theorem Sound.asset_of_logs (hst : se.state.Sound) (h : se.Sound) {op : SessionOp}
    (hlogs : op.Logs se event) (htype : event.type = .transfer ∨ event.type = .withdraw) :
    event.asset ∈ snapshotAssets := by
  cases hlogs with
  | transfer event exclusion hpos hself hdest hasset hbal =>
    simp only [transferableAssetTypes, mem_cons, not_mem_nil, or_false] at hasset
    simp only [snapshotAssets, mem_cons, not_mem_nil, or_false]
    tauto
  | withdraw p dest hpos hdest hbal =>
    rw [withdrawDest] at hdest
    split at hdest
    · rename_i hasset
      simp only [snapshotAssets, mem_cons, not_mem_nil, or_false]
      tauto
    split at hdest
    · -- No balance is kept in eth or usdc, so such a withdrawal is refused.
      rename_i hasset
      rcases hasset with hasset | hasset <;>
        · rw [hasset, h.getBalance_other hst] at hbal
          omega
    · cases hdest
  | stake => simp at htype
  | unstake => simp at htype
  | consensus op event hlogs => cases hlogs <;> simp at htype

theorem Sound.appendOplog (h : se.Sound)
    (hasset : event.type = .transfer ∨ event.type = .withdraw → event.asset ∈ snapshotAssets) :
    (se.appendOplog event).Sound := by
  have hregular : ∀ u ∈ opLedgerRecords { event with id := se.eventId event.id } event.blockHeight,
      u.Regular := by
    intro u hu
    exact regular_of_mem_opLedgerRecords (v := { event with id := se.eventId event.id }) hasset hu
  refine ⟨?_, ?_, ?_⟩
  · rw [ledgerOps_appendOplog, (appended_appendOplog (.refl se) event).oplog]
    exact h.follows.concat _
  · rw [ledgerOps_appendOplog]
    intro u hu
    rcases mem_append.1 hu with hu | hu
    · exact h.regular u hu
    · exact hregular u hu
  intro account name b hb
  refine h.cached account name b ?_
  rw [← hb]
  exact (balances_appendOplog (k := (account, .other name))
    fun u hu => (hregular u hu).ne_other name).symm

theorem Sound.execute (hst : se.state.Sound) (h : se.Sound) (op : SessionOp) :
    (op.execute se).1.Sound := by
  have hcases := op.execute_cases se
  generalize op.execute se = out at hcases
  cases hcases with
  | refused msg hreads => exact h.of_reads hst hreads
  | logged hreads hlogs => exact (h.of_reads hst hreads).appendOplog (h.asset_of_logs hst hlogs)

theorem Sound.nil (st : LedgerState) (idCache : String → ℕ) :
    Sound { state := st, idCache := idCache } :=
  ⟨follows_nil, by simp, by simp [NoOther]⟩

end LedgerSession

/-! ## Savepoints of a session -/

/-- The lengths a savepoint remembers. -/
def LedgerSavepoint.mark (sp : LedgerSavepoint) : Mark := ⟨sp.oplogLen, sp.ledgerOpsLen⟩

/-- The savepoints a session took, in order, and which of them are open. -/
structure Saved where
  taken : List LedgerSavepoint := []
  isOpen : List ℕ := []

namespace Saved

def take (s : Saved) (sp : LedgerSavepoint) : Saved :=
  ⟨s.taken ++ [sp], s.taken.length :: s.isOpen⟩

/-- Restoring a savepoint closes the later ones. -/
def restore (s : Saved) (n : ℕ) : Saved := ⟨s.taken, s.isOpen.filter (· ≤ n)⟩

/-- The end of a transaction closes all of them. -/
def close (s : Saved) : Saved := ⟨s.taken, []⟩

/-- The open savepoints point into the events of the session, the later ones
further along. -/
structure Sound (s : Saved) (oplog : List OpLogEvent) : Prop where
  lt : ∀ n ∈ s.isOpen, n < s.taken.length
  points : ∀ n ∈ s.isOpen, ∀ sp, s.taken[n]? = some sp → Points OpLogEvent.updates oplog sp.mark
  ordered : ∀ n ∈ s.isOpen, ∀ n' ∈ s.isOpen, n ≤ n' → ∀ sp sp', s.taken[n]? = some sp →
    s.taken[n']? = some sp' → sp.oplogLen ≤ sp'.oplogLen
  cached : ∀ sp ∈ s.taken, NoOther sp.balances

theorem Sound.empty (oplog : List OpLogEvent) : Sound {} oplog := by
  constructor <;> simp

variable {oplog : List OpLogEvent} {s : Saved}

theorem Sound.close (h : s.Sound oplog) (oplog' : List OpLogEvent) : s.close.Sound oplog' where
  lt := by simp [Saved.close]
  points := by simp [Saved.close]
  ordered := by simp [Saved.close]
  cached := h.cached

theorem Sound.append (h : s.Sound oplog) (events : List OpLogEvent) :
    s.Sound (oplog ++ events) where
  lt := h.lt
  points := fun n hn sp hsp => (h.points n hn sp hsp).append events
  ordered := h.ordered
  cached := h.cached

theorem Sound.take {se : LedgerSession} (h : s.Sound se.oplog) (hse : se.Sound) :
    (s.take se.savepoint).Sound se.oplog := by
  have hold : ∀ n ∈ s.isOpen, (s.taken ++ [se.savepoint])[n]? = s.taken[n]? :=
    fun n hn => getElem?_append_left (h.lt n hn)
  have hnew : (s.taken ++ [se.savepoint])[s.taken.length]? = some se.savepoint := by simp
  refine ⟨?_, ?_, ?_, ?_⟩
  · intro n hn
    rw [Saved.take, length_append, length_singleton]
    rcases mem_cons.1 hn with rfl | hn
    · omega
    · have := h.lt n hn
      omega
  · intro n hn sp hsp
    rcases mem_cons.1 hn with rfl | hn
    · obtain rfl : se.savepoint = sp := Option.some.inj (hnew.symm.trans hsp)
      exact points_here hse.follows
    · exact h.points n hn sp ((hold n hn).symm.trans hsp)
  · intro n hn n' hn' hle sp sp' hsp hsp'
    rcases mem_cons.1 hn with rfl | hn
    · rcases mem_cons.1 hn' with rfl | hn'
      · obtain rfl : sp = sp' := Option.some.inj (hsp.symm.trans hsp')
        exact le_refl _
      · exact absurd (h.lt n' hn') (not_lt.2 hle)
    rcases mem_cons.1 hn' with rfl | hn'
    · obtain rfl : se.savepoint = sp' := Option.some.inj (hnew.symm.trans hsp')
      exact (h.points n hn sp ((hold n hn).symm.trans hsp)).le
    · exact h.ordered n hn n' hn' hle sp sp' ((hold n hn).symm.trans hsp)
        ((hold n' hn').symm.trans hsp')
  intro sp hsp
  rcases mem_append.1 hsp with hsp | hsp
  · exact h.cached sp hsp
  · rw [mem_singleton.1 hsp]
    exact hse.cached

theorem Sound.restore (h : s.Sound oplog) {n : ℕ} (hn : n ∈ s.isOpen) {sp : LedgerSavepoint}
    (hsp : s.taken[n]? = some sp) :
    (s.restore n).Sound (oplog.take sp.oplogLen) where
  lt := fun m hm => h.lt m (mem_of_mem_filter hm)
  points := by
    intro m hm sp' hsp'
    obtain ⟨hm, hle⟩ := mem_filter.1 hm
    have hmark : sp'.mark.events ≤ sp.mark.events :=
      h.ordered m hm n hn (of_decide_eq_true hle) sp' sp hsp' hsp
    exact (h.points m hm sp' hsp').cut hmark
  ordered := fun m hm m' hm' =>
    h.ordered m (mem_of_mem_filter hm) m' (mem_of_mem_filter hm')
  cached := h.cached

end Saved

theorem LedgerSession.Sound.restoreSavepoint (h : se.Sound) {sp : LedgerSavepoint}
    (hsp : Points updates se.oplog sp.mark) (hcached : NoOther sp.balances) :
    (se.restoreSavepoint sp).Sound ∧ (se.restoreSavepoint sp).oplog = se.oplog.take sp.oplogLen := by
  have hoplog : (se.restoreSavepoint sp).oplog = se.oplog.take sp.oplogLen := if_pos hsp.le
  have hops : (se.restoreSavepoint sp).ledgerOps = se.ledgerOps.take sp.ledgerOpsLen :=
    if_pos (hsp.rows_le h.follows)
  refine ⟨⟨?_, ?_, hcached⟩, hoplog⟩
  · rw [hoplog, hops]
    exact h.follows.cut hsp
  · rw [hops]
    exact fun u hu => h.regular u (mem_of_mem_take hu)

/-! ## Sessions on one ledger state -/

def LedgerSession.on (se : LedgerSession) (st : LedgerState) : LedgerSession :=
  ⟨st, se.oplog, se.ledgerOps, se.balances, se.idCache⟩

theorem LedgerSession.Sound.on (h : se.Sound) (st : LedgerState) :
    (se.on st).Sound := ⟨h.follows, h.regular, h.cached⟩

structure Desk (ι : Type*) where
  state : LedgerState
  session : ι → LedgerSession
  saved : ι → Saved

inductive DeskEvent (ι : Type*)
  | execute (i : ι) (op : SessionOp)
  | done (i : ι)
  | revert (i : ι)
  | savepoint (i : ι)
  | restoreSavepoint (i : ι) (n : ℕ)

namespace Desk

variable {ι : Type*}

/-- Nothing is in flight and every session is new. -/
def opened (dbs : LedgerDbs) : Desk ι := ⟨⟨dbs, [], []⟩, fun _ => { state := ⟨dbs, [], []⟩ }, fun _ => {}⟩

def view (d : Desk ι) (i : ι) : LedgerSession := (d.session i).on d.state

variable [DecidableEq ι]

def leave (d : Desk ι) (i : ι) (se : LedgerSession) (saved : Saved) : Desk ι :=
  ⟨se.state, Function.update d.session i se, Function.update d.saved i saved⟩

def apply (d : Desk ι) : DeskEvent ι → Desk ι
  | .execute i op => d.leave i (op.execute (d.view i)).1 (d.saved i)
  | .done i => d.leave i (d.view i).done (d.saved i).close
  | .revert i => d.leave i (d.view i).revert (d.saved i).close
  | .savepoint i => d.leave i (d.view i) ((d.saved i).take (d.view i).savepoint)
  | .restoreSavepoint i n =>
    match (d.saved i).taken[n]? with
    | none => d
    | some sp => d.leave i ((d.view i).restoreSavepoint sp) ((d.saved i).restore n)

def Nested (d : Desk ι) : DeskEvent ι → Prop
  | .restoreSavepoint i n => n ∈ (d.saved i).isOpen
  | _ => True

instance (d : Desk ι) (e : DeskEvent ι) : Decidable (d.Nested e) := by
  cases e <;> unfold Nested <;> infer_instance

structure Sound (d : Desk ι) : Prop where
  state : d.state.Sound
  session : ∀ i, (d.session i).Sound
  saved : ∀ i, (d.saved i).Sound (d.session i).oplog

omit [DecidableEq ι] in
theorem sound_opened (dbs : LedgerDbs) : (opened dbs : Desk ι).Sound where
  state := ⟨follows_nil, by simp [opened]⟩
  session := fun _ => .nil _ _
  saved := fun _ => .empty _

section

variable (d : Desk ι) (i : ι) (se : LedgerSession) (saved : Saved)

@[simp] theorem session_leave_self : (d.leave i se saved).session i = se := update_self ..

@[simp] theorem saved_leave_self : (d.leave i se saved).saved i = saved := update_self ..

end

variable {i j : ι} {d : Desk ι}

theorem session_leave_of_ne (d : Desk ι) (hj : j ≠ i) (se : LedgerSession) (saved : Saved) :
    (d.leave i se saved).session j = d.session j := update_of_ne hj ..

theorem saved_leave_of_ne (d : Desk ι) (hj : j ≠ i) (se : LedgerSession) (saved : Saved) :
    (d.leave i se saved).saved j = d.saved j := update_of_ne hj ..

theorem Sound.leave (h : d.Sound) (i : ι) {se : LedgerSession} {saved : Saved}
    (hst : se.state.Sound) (hse : se.Sound) (hsaved : saved.Sound se.oplog) :
    (d.leave i se saved).Sound where
  state := hst
  session := by
    intro j
    by_cases hj : j = i
    · subst hj
      rw [session_leave_self]
      exact hse
    · rw [session_leave_of_ne d hj]
      exact h.session j
  saved := by
    intro j
    by_cases hj : j = i
    · subst hj
      rw [session_leave_self, saved_leave_self]
      exact hsaved
    · rw [session_leave_of_ne d hj, saved_leave_of_ne d hj]
      exact h.saved j

theorem Sound.apply (h : d.Sound) {e : DeskEvent ι} (he : d.Nested e) : (d.apply e).Sound := by
  have hview : ∀ i, (d.view i).Sound := fun i => (h.session i).on d.state
  cases e with
  | execute i op =>
    have hse := (hview i).execute h.state op
    have hcases := op.execute_cases (d.view i)
    rw [Desk.apply]
    generalize op.execute (d.view i) = out at hse hcases
    cases hcases with
    | refused msg hreads =>
      refine h.leave i (hreads.state ▸ h.state) hse ?_
      rw [hreads.oplog]
      exact h.saved i
    | @logged se' event hreads hlogs =>
      have happ := LedgerSession.appended_appendOplog hreads.toSameLog event
      refine h.leave i (happ.state ▸ h.state) hse ?_
      rw [happ.oplog]
      exact (h.saved i).append _
  | done i =>
    refine h.leave i ⟨h.state.follows.append (h.session i).follows, ?_⟩ (.nil _ _)
      ((h.saved i).close _)
    intro u hu
    rcases mem_append.1 hu with hu | hu
    · exact h.state.regular u hu
    · exact (h.session i).regular u hu
  | revert i => exact h.leave i h.state (.nil _ _) ((h.saved i).close _)
  | savepoint i =>
    have hsaved : (d.saved i).Sound (d.view i).oplog := h.saved i
    exact h.leave i h.state (hview i) (hsaved.take (hview i))
  | restoreSavepoint i n =>
    have hn : n ∈ (d.saved i).isOpen := he
    obtain ⟨sp, hsp⟩ : ∃ sp, (d.saved i).taken[n]? = some sp :=
      ⟨_, getElem?_eq_getElem ((h.saved i).lt n hn)⟩
    have hse := (hview i).restoreSavepoint ((h.saved i).points n hn sp hsp)
      ((h.saved i).cached sp (mem_of_getElem? hsp))
    rw [Desk.apply, hsp]
    refine h.leave i h.state hse.1 ?_
    rw [hse.2]
    exact (h.saved i).restore hn hsp

theorem Sound.run {d d' : Desk ι} (h : ReflTransGen (Run.StepBy Desk.apply Nested) d d') (hd : d.Sound) :
    d'.Sound :=
  Run.preserves (fun _ _ ⟨_, he, heq⟩ hs => heq ▸ hs.apply he) h hd

end Desk

/-! ## From the virtual ledger to stored balances -/

section Ingest

variable {updates : List LedgerUpdate} {endHeight : ℕ} {account : String} {asset : Asset}

theorem netOf_eq_sum (updates : List LedgerUpdate) (account : String) (asset : Asset) :
    netOf updates account asset =
      (updates.map fun u => if u.owner = account ∧ u.asset = asset then u.amount else 0).sum := by
  induction updates with
  | nil => rfl
  | cons u updates ih =>
    rw [← singleton_append, netOf_append, ih, map_append, sum_append]
    by_cases hu : u.owner = account ∧ u.asset = asset <;> simp [netOf, hu]

theorem sum_putAll_updates {db : LedgerDb} (hnodup : (updates.map (·.id)).Nodup)
    (hnew : ∀ u ∈ updates, db.get? u.id = none) {g : LedgerRecord → Int}
    (hg : ∀ u ∈ updates, g (u.toRecord endHeight) =
      if u.owner = account ∧ u.asset = asset then u.amount else 0) :
    (db.putAll (updates.map (·.toRecord endHeight))).sum g =
      db.sum g + netOf updates account asset := by
  have hids : ((updates.map (·.toRecord endHeight)).map (·.id)).Nodup := by
    rw [List.map_map]
    exact hnodup
  rw [sum_putAll hids, List.map_map, netOf_eq_sum]
  congr 2
  refine map_congr_left fun u hu => ?_
  have hvalue : db.valueAt g (u.toRecord endHeight).id = 0 := valueAt_of_get?_eq_none (hnew u hu) g
  rw [comp_apply, hvalue, sub_zero, hg u hu]

theorem LedgerDbs.getBalance_putAll_updates {s : LedgerDbs} (hnodup : (updates.map (·.id)).Nodup)
    (hnew : ∀ u ∈ updates, s.ledger.get? u.id = none) (hregular : ∀ u ∈ updates, u.Regular)
    {height : ℕ} (hheight : endHeight ≤ height)
    (hsnap : ∀ r ∈ s.balances, r.account = account → r.blockHeight ≤ height →
      r.blockHeight < endHeight) (asset : Asset) (actions : ActionDb) :
    LedgerDbs.getBalance
        ⟨s.ledger.putAll (updates.map (·.toRecord endHeight)), s.balances, actions⟩ account height
        asset =
      s.getBalance account height asset + netOf updates account asset := by
  by_cases hasset : asset ∈ snapshotAssets
  · rw [getBalance_eq hasset, getBalance_eq hasset, add_assoc]
    congr 1
    refine sum_putAll_updates hnodup hnew fun u hu => ?_
    have hstart : ((s.balances.getBalanceRecord account height).elim 0 fun r => r.blockHeight + 1) ≤
        endHeight := by
      cases hr : s.balances.getBalanceRecord account height with
      | none => exact Nat.zero_le _
      | some r =>
        obtain ⟨hmem, hacct, hle, -⟩ := BalanceDb.getBalanceRecord_eq_some hr
        exact hsnap r hmem hacct hle
    rw [if_pos ⟨hstart, hheight⟩]
    simp [LedgerRecord.moves, LedgerUpdate.toRecord, (hregular u hu).counted]
  cases asset with
  | other name => rw [netOf_other hregular]; rfl
  | delegation | delegationTotal =>
    simp only [getBalance]
    rw [LedgerDb.sum_getLedgerRange, LedgerDb.sum_getLedgerRange]
    refine sum_putAll_updates hnodup hnew fun u hu => ?_
    have htype := (hregular u hu).asset
    simp only [LedgerUpdate.toRecord]
    by_cases hu' : u.asset = .delegation ∨ u.asset = .delegationTotal
    · have htype' : u.type ∈ [LedgerType.consensusStake, .consensusUnstake] := by
        rcases htype with htype | htype
        · rcases hu' with hu' | hu' <;> simp [hu', snapshotAssets] at htype
        · exact htype.2
      simp [hheight, htype']
    · push Not at hu'
      simp [hu']
  | hive | hbd | hbdSavings | hiveConsensus => simp [snapshotAssets] at hasset

end Ingest

/-- The events in flight have ids of their own that no stored row has. -/
structure LedgerState.FreshIds (st : LedgerState) : Prop where
  nodup : (st.oplog.map (·.id)).Nodup
  new : ∀ v ∈ st.oplog, ∀ u ∈ v.updates, st.dbs.ledger.get? u.id = none

theorem map_id_opLedgerRecords (v : OpLogEvent) (endBlock endBlock' : ℕ) :
    (opLedgerRecords v endBlock).map (·.id) = (opLedgerRecords v endBlock').map (·.id) := by
  cases hv : v.type <;> cases hd : v.params.delegated <;> simp [opLedgerRecords, hv, hd]

theorem LedgerState.FreshIds.get?_eq_none (h : st.FreshIds)
    (hu : u ∈ (executeOplog st.oplog endBlock).1) : st.dbs.ledger.get? u.id = none := by
  obtain ⟨v, hv, hu⟩ := mem_flatMap.1 hu
  have hid : u.id ∈ v.updates.map (·.id) := by
    rw [updates, map_id_opLedgerRecords v v.blockHeight endBlock]
    exact mem_map_of_mem hu
  obtain ⟨u', hu', heq⟩ := mem_map.1 hid
  rw [← heq]
  exact h.new v hv u' hu'

theorem LedgerState.Sound.regular_executeOplog (h : st.Sound)
    (hu : u ∈ (executeOplog st.oplog endBlock).1) : u.Regular := by
  obtain ⟨v, hv, hu⟩ := mem_flatMap.1 hu
  refine regular_of_mem_opLedgerRecords (fun htype => ?_) hu
  -- The first row of a transfer or withdrawal in the virtual ledger has its asset.
  have hmem : ∀ u' ∈ v.updates, u'.Regular := fun u' hu' =>
    h.regular u' (h.follows ▸ mem_flatMap.2 ⟨v, hv, hu'⟩)
  have hfirst : ∃ u' ∈ v.updates, u'.asset = v.asset ∧
      u'.type ∉ [LedgerType.consensusStake, .consensusUnstake] := by
    rcases htype with htype | htype <;> simp [updates, opLedgerRecords, htype]
  obtain ⟨u', hu', hasset, hnot⟩ := hfirst
  rcases (hmem u' hu').asset with hin | hin
  · exact hasset ▸ hin
  · exact absurd hin.2 hnot

theorem LedgerState.dbs_applyOplog {bh : ℕ} (hbh : ∀ v ∈ st.oplog, v.blockHeight ≤ bh)
    (endHeight selfHeight : ℕ) :
    ∃ actions, (st.applyOplog bh endHeight selfHeight).dbs =
      ⟨st.dbs.ledger.putAll ((executeOplog st.oplog endHeight).1.map (·.toRecord endHeight)),
        st.dbs.balances, actions⟩ := by
  have hall : st.compile bh = st.oplog :=
    filter_eq_self.2 fun v hv => decide_eq_true (hbh v hv)
  have hrows : (executeOplog (st.oplog.map fun v => { v with blockHeight := selfHeight })
      endHeight).1 = (executeOplog st.oplog endHeight).1 := by
    simp only [executeOplog, flatMap_map]
    rfl
  refine ⟨(st.applyOplog bh endHeight selfHeight).dbs.actions, ?_⟩
  simp only [applyOplog, hall, ingestOplog, hrows]

namespace Desk

variable {ι : Type*} [DecidableEq ι]

/-- After every run that restores open savepoints only, the virtual ledger moves
each account as the rows of the oplog do, and the balance an account sees in
flight is the one it has once the oplog is ingested. -/
theorem promised_eq_delivered {dbs : LedgerDbs} {d : Desk ι}
    (h : ReflTransGen (Run.StepBy apply Nested) (opened dbs) d) :
    (∀ endBlock account asset, netOf d.state.virtualLedger account asset =
        netOf (executeOplog d.state.oplog endBlock).1 account asset) ∧
      ∀ bh endHeight selfHeight, (∀ v ∈ d.state.oplog, v.blockHeight ≤ bh) → d.state.FreshIds →
        ∀ account height asset, endHeight ≤ height →
          (∀ r ∈ d.state.dbs.balances, r.account = account → r.blockHeight ≤ height →
            r.blockHeight < endHeight) →
          (d.state.applyOplog bh endHeight selfHeight).dbs.getBalance account height asset =
            d.state.snapshotForAccount account height asset := by
  have hsound := (Sound.run h (sound_opened dbs)).state
  have hnet : ∀ endBlock account asset, netOf d.state.virtualLedger account asset =
      netOf (executeOplog d.state.oplog endBlock).1 account asset := by
    intro endBlock account asset
    rw [← netOf_flatMap_updates, ← hsound.follows]
  refine ⟨hnet, ?_⟩
  intro bh endHeight selfHeight hbh hfresh account height asset hheight hsnap
  obtain ⟨actions, hdbs⟩ := LedgerState.dbs_applyOplog hbh endHeight selfHeight
  rw [hdbs, LedgerDbs.getBalance_putAll_updates (nodup_id_executeOplog hfresh.nodup endHeight)
    (fun u hu => hfresh.get?_eq_none hu) (fun u hu => hsound.regular_executeOplog hu) hheight hsnap,
    ← hnet endHeight, LedgerState.snapshotForAccount_eq]

def aliceHive : LedgerDbs where
  ledger := Collection.empty.put
    { id := "deposit", amount := 10, blockHeight := 1, owner := "hive:alice", type := .deposit
      asset := .hive }

def delegates (amount : Int) : SessionOp :=
  .consensus (.stake ⟨"tx-2", "hive:alice", "hive:node", amount, 5, 0, true⟩)

def sends (amount : Int) : SessionOp :=
  .transfer { id := "tx-1", from_ := "hive:alice", to_ := "hive:bob", amount := amount
              asset := .hive, type := .transfer, blockHeight := 5 } 0

/-- Two sessions; one undoes its stake before both end. -/
def twoSessions : List (DeskEvent Bool) :=
  [.execute true (sends 1), .savepoint true, .execute true (delegates 2), .restoreSavepoint true 0,
    .execute false (delegates 3), .done false, .done true]

theorem promised_eq_delivered_twoSessions :
    let d := twoSessions.foldl apply (opened aliceHive)
    netOf d.state.virtualLedger "hive:alice" .hive =
        netOf (executeOplog d.state.oplog 10).1 "hive:alice" .hive ∧
      (d.state.applyOplog 10 10 11).dbs.getBalance "hive:alice" 12 .hive = 6 := by
  have hrun : Run.AllAlong apply Nested (opened aliceHive) twoSessions := by decide
  obtain ⟨hnet, hbal⟩ := promised_eq_delivered (Run.foldl hrun)
  refine ⟨hnet 10 _ _, (hbal 10 10 11 (by decide) ⟨by decide, by decide⟩ _ _ _ (by decide) ?_).trans
    (by decide)⟩
  exact fun r hr => absurd hr (not_mem_empty r)

/-- A savepoint within a transaction that an earlier savepoint has undone is
restored after a delegated stake: the event stays, two of its updates go. -/
theorem promised_ne_delivered :
    let events : List (DeskEvent Unit) :=
      [.savepoint (), .execute () (sends 1), .savepoint (), .restoreSavepoint () 0,
        .execute () (delegates 3), .restoreSavepoint () 1, .done ()]
    let d := events.foldl apply (opened aliceHive)
    netOf d.state.virtualLedger "hive:node" .delegationTotal = 0 ∧
      netOf (executeOplog d.state.oplog 10).1 "hive:node" .delegationTotal = 3 := by
  decide

end Desk

end VscNode
