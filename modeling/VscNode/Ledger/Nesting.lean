import VscNode.Ledger.Session

/-!
# Nested savepoints

A contract that tries a call takes a savepoint first and restores it when the call
fails, so the open savepoints of a session form a stack (`Nests`). A restored
savepoint gives back the events, the updates and the id counts of the moment it
was taken at. What holds of these three and survives an appended event therefore
holds after every such step (`Nested.step`).
-/

namespace VscNode

open Relation List

structure SessionLog where
  oplog : List OpLogEvent
  ledgerOps : List LedgerUpdate
  idCache : String → ℕ

def LedgerSession.log (se : LedgerSession) : SessionLog := ⟨se.oplog, se.ledgerOps, se.idCache⟩

namespace SessionLog

variable (l : SessionLog)

def stamped (event : OpLogEvent) : OpLogEvent :=
  { event with
    id := if 0 < l.idCache event.id then event.id ++ ":" ++ Text.formatUint (l.idCache event.id)
      else event.id }

def append (event : OpLogEvent) : SessionLog where
  oplog := l.oplog ++ [l.stamped event]
  ledgerOps := l.ledgerOps ++ opLedgerRecords (l.stamped event) event.blockHeight
  idCache := Function.update l.idCache event.id (l.idCache event.id + 1)

def cut (sp : LedgerSavepoint) : SessionLog :=
  ⟨l.oplog.take sp.oplogLen, l.ledgerOps.take sp.ledgerOpsLen, sp.idCache⟩

structure Reaches (l : SessionLog) (sp : LedgerSavepoint) : Prop where
  oplog : sp.oplogLen ≤ l.oplog.length
  ledgerOps : sp.ledgerOpsLen ≤ l.ledgerOps.length

variable {l : SessionLog} {sp : LedgerSavepoint}

theorem Reaches.append (h : l.Reaches sp) (event : OpLogEvent) : (l.append event).Reaches sp where
  oplog := h.oplog.trans (by simp [SessionLog.append])
  ledgerOps := h.ledgerOps.trans (by simp [SessionLog.append])

theorem cut_append (h : l.Reaches sp) (event : OpLogEvent) :
    (l.append event).cut sp = l.cut sp := by
  simp only [cut, SessionLog.append, take_append_of_le_length h.oplog,
    take_append_of_le_length h.ledgerOps]

end SessionLog

/-- A savepoint that lies at or before another one. -/
structure LedgerSavepoint.Below (sp sp' : LedgerSavepoint) : Prop where
  oplog : sp.oplogLen ≤ sp'.oplogLen
  ledgerOps : sp.ledgerOpsLen ≤ sp'.ledgerOpsLen

namespace SessionLog

variable {l : SessionLog} {sp sp' : LedgerSavepoint}

theorem Reaches.cut (h : l.Reaches sp) (hle : sp.Below sp') : (l.cut sp').Reaches sp where
  oplog := by
    rw [SessionLog.cut, length_take]
    exact le_min hle.oplog h.oplog
  ledgerOps := by
    rw [SessionLog.cut, length_take]
    exact le_min hle.ledgerOps h.ledgerOps

theorem cut_cut (hle : sp.Below sp') : (l.cut sp').cut sp = l.cut sp := by
  simp only [cut, take_take, min_eq_left hle.oplog, min_eq_left hle.ledgerOps]

end SessionLog

namespace LedgerSession

theorem Reads.log_eq {se se' : LedgerSession} (h : se.Reads se') : se'.log = se.log := by
  rw [log, log, h.oplog, h.ledgerOps, h.idCache]

variable (se : LedgerSession)

theorem log_appendOplog (event : OpLogEvent) :
    (se.appendOplog event).log = se.log.append event := by
  have h := appended_appendOplog (.refl se) event
  rw [log, h.oplog, ledgerOps_appendOplog, h.idCache]
  rfl

theorem log_restoreSavepoint {se : LedgerSession} {sp : LedgerSavepoint}
    (h : se.log.Reaches sp) : (se.restoreSavepoint sp).log = se.log.cut sp := by
  have hoplog : sp.oplogLen ≤ se.oplog.length := h.oplog
  have hops : sp.ledgerOpsLen ≤ se.ledgerOps.length := h.ledgerOps
  simp only [log, restoreSavepoint, SessionLog.cut, if_pos hoplog, if_pos hops]

theorem cut_savepoint : se.log.cut se.savepoint = se.log := by
  simp [SessionLog.cut, savepoint, log]

/-! ## Steps of a session with open savepoints -/

inductive Nests (ok : OpLogEvent → Prop) :
    LedgerSession × List LedgerSavepoint → LedgerSession × List LedgerSavepoint → Prop
  | reads {se se' : LedgerSession} {sps : List LedgerSavepoint} (h : se.Reads se') :
      Nests ok (se, sps) (se', sps)
  | logged {se se' : LedgerSession} {sps : List LedgerSavepoint} {event : OpLogEvent}
      (h : se.Reads se') (hok : ok event) : Nests ok (se, sps) (se'.appendOplog event, sps)
  | saved {se : LedgerSession} {sps : List LedgerSavepoint} :
      Nests ok (se, sps) (se, se.savepoint :: sps)
  | dropped {se : LedgerSession} {sps sps' : List LedgerSavepoint} (h : sps' <:+ sps) :
      Nests ok (se, sps) (se, sps')
  | restored {se : LedgerSession} {sp : LedgerSavepoint} {sps sps' : List LedgerSavepoint}
      (h : sp :: sps' <:+ sps) : Nests ok (se, sps) (se.restoreSavepoint sp, sps')

variable {ok : OpLogEvent → Prop} {s s' : LedgerSession × List LedgerSavepoint}

theorem Nests.mono {ok' : OpLogEvent → Prop} (h : ∀ event, ok event → ok' event)
    (hs : Nests ok s s') : Nests ok' s s' := by
  cases hs with
  | reads hreads => exact .reads hreads
  | logged hreads hok => exact .logged hreads (h _ hok)
  | saved => exact .saved
  | dropped hsub => exact .dropped hsub
  | restored hsub => exact .restored hsub

theorem Nests.state_eq (h : Nests ok s s') : s'.1.state = s.1.state := by
  cases h with
  | reads h => exact h.state
  | logged h => exact (appended_appendOplog h.toSameLog _).state
  | _ => rfl

structure Nested (P : SessionLog → Prop) (s : LedgerSession × List LedgerSavepoint) : Prop where
  now : P s.1.log
  reaches : ∀ sp ∈ s.2, s.1.log.Reaches sp
  saved : ∀ sp ∈ s.2, P (s.1.log.cut sp)
  stacked : s.2.Pairwise fun sp sp' => sp'.Below sp

section Nested

variable {P : SessionLog → Prop} {ok : OpLogEvent → Prop}

variable {se : LedgerSession} {s : LedgerSession × List LedgerSavepoint}
  {sps : List LedgerSavepoint}

theorem nested_nil (h : P se.log) : Nested P (se, []) :=
  ⟨h, by simp, by simp, List.Pairwise.nil⟩

theorem Nested.imp {Q : SessionLog → Prop} (h : Nested P s) (hPQ : ∀ l, P l → Q l) : Nested Q s :=
  ⟨hPQ _ h.now, h.reaches, fun sp hsp => hPQ _ (h.saved sp hsp), h.stacked⟩

theorem Nested.congr {se' : LedgerSession} (h : Nested P (se, sps)) (hlog : se'.log = se.log) :
    Nested P (se', sps) where
  now := hlog ▸ h.now
  reaches := hlog ▸ h.reaches
  saved := hlog ▸ h.saved
  stacked := h.stacked

theorem Nested.suffix {sps' : List LedgerSavepoint} (h : Nested P (se, sps)) (hsub : sps' <:+ sps) :
    Nested P (se, sps') where
  now := h.now
  reaches := fun sp hsp => h.reaches sp (hsub.subset hsp)
  saved := fun sp hsp => h.saved sp (hsub.subset hsp)
  stacked := h.stacked.sublist hsub.sublist

theorem Nested.append (h : Nested P (se, sps)) {event : OpLogEvent} (hP : P (se.log.append event)) :
    Nested P (se.appendOplog event, sps) where
  now := by
    rw [log_appendOplog]
    exact hP
  reaches := by
    rw [log_appendOplog]
    exact fun sp hsp => (h.reaches sp hsp).append event
  saved := by
    rw [log_appendOplog]
    intro sp hsp
    rw [SessionLog.cut_append (h.reaches sp hsp)]
    exact h.saved sp hsp
  stacked := h.stacked

theorem Nested.save (h : Nested P (se, sps)) : Nested P (se, se.savepoint :: sps) where
  now := h.now
  reaches := forall_mem_cons.2 ⟨⟨le_refl _, le_refl _⟩, h.reaches⟩
  saved := forall_mem_cons.2 ⟨se.cut_savepoint.symm ▸ h.now, h.saved⟩
  stacked := pairwise_cons.2
    ⟨fun sp hsp => ⟨(h.reaches sp hsp).oplog, (h.reaches sp hsp).ledgerOps⟩, h.stacked⟩

theorem Nested.restore {sp : LedgerSavepoint} (h : Nested P (se, sp :: sps)) :
    Nested P (se.restoreSavepoint sp, sps) := by
  have hreach := h.reaches sp mem_cons_self
  obtain ⟨hbelow, hstacked⟩ := pairwise_cons.1 h.stacked
  refine ⟨?_, ?_, ?_, hstacked⟩
  · rw [log_restoreSavepoint hreach]
    exact h.saved sp mem_cons_self
  · rw [log_restoreSavepoint hreach]
    exact fun sp' hsp' => (h.reaches sp' (mem_cons_of_mem _ hsp')).cut (hbelow sp' hsp')
  rw [log_restoreSavepoint hreach]
  intro sp' hsp'
  rw [SessionLog.cut_cut (hbelow sp' hsp')]
  exact h.saved sp' (mem_cons_of_mem _ hsp')

variable {s' : LedgerSession × List LedgerSavepoint}

theorem Nested.step (hP : ∀ l event, ok event → P l → P (l.append event)) (hs : Nests ok s s')
    (h : Nested P s) : Nested P s' := by
  cases hs with
  | reads hreads => exact h.congr hreads.log_eq
  | @logged se se' sps event hreads hok =>
    have h' : Nested P (se', sps) := h.congr hreads.log_eq
    exact h'.append (hP _ _ hok h'.now)
  | saved => exact h.save
  | dropped hsub => exact h.suffix hsub
  | restored hsub => exact (h.suffix hsub).restore

theorem Nested.run (hP : ∀ l event, ok event → P l → P (l.append event))
    (hs : ReflTransGen (Nests ok) s s') (h : Nested P s) : Nested P s' :=
  Run.preserves (P := Nested P) (fun _ _ hst => Nested.step hP hst) hs h

end Nested

theorem state_eq_of_nests (h : ReflTransGen (Nests ok) s s') : s'.1.state = s.1.state :=
  Run.preserves (P := fun t => t.1.state = s.1.state)
    (fun _ _ hst heq => hst.state_eq.trans heq) h rfl

end LedgerSession

structure LedgerSession.Adds (se se' : LedgerSession) (added : List OpLogEvent) : Prop where
  state : se'.state = se.state
  oplog : se'.oplog = se.oplog ++ added
  ledgerOps : se'.ledgerOps = se.ledgerOps ++ added.flatMap OpLogEvent.updates

namespace LedgerSession

theorem Adds.refl (se : LedgerSession) : se.Adds se [] := ⟨rfl, by simp, by simp⟩

theorem Adds.trans {se se' se'' : LedgerSession} {added added' : List OpLogEvent}
    (h : se.Adds se' added) (h' : se'.Adds se'' added') : se.Adds se'' (added ++ added') where
  state := h'.state.trans h.state
  oplog := by rw [h'.oplog, h.oplog, append_assoc]
  ledgerOps := by rw [h'.ledgerOps, h.ledgerOps, flatMap_append, append_assoc]

theorem exists_adds_of_nests {ok : OpLogEvent → Prop} {se se' : LedgerSession}
    (h : ReflTransGen (Nests ok) (se, []) (se', [])) :
    ∃ added, se.Adds se' added ∧
      ∀ event ∈ added, ∃ issued, ok issued ∧ event = { issued with id := event.id } := by
  have hrun := Nested.run (P := fun l => ∃ added, l.oplog = se.oplog ++ added ∧
      l.ledgerOps = se.ledgerOps ++ added.flatMap OpLogEvent.updates ∧
      ∀ event ∈ added, ∃ issued, ok issued ∧ event = { issued with id := event.id })
    ?_ h (nested_nil ⟨[], by simp [log], by simp [log], by simp⟩)
  · obtain ⟨added, hoplog, hops, hissued⟩ := hrun.now
    exact ⟨added, ⟨state_eq_of_nests h, hoplog, hops⟩, hissued⟩
  rintro l event hok ⟨added, hoplog, hops, hissued⟩
  refine ⟨added ++ [l.stamped event], ?_, ?_, ?_⟩
  · rw [SessionLog.append, hoplog, append_assoc]
  · rw [SessionLog.append, hops, flatMap_append, append_assoc, flatMap_singleton]
    rfl
  · exact forall_mem_append.2 ⟨hissued, forall_mem_singleton.2 ⟨event, hok, rfl⟩⟩

end LedgerSession

theorem SessionOp.nests {ok : OpLogEvent → Prop} (op : SessionOp) {se : LedgerSession}
    (hok : ∀ event, op.Logs se event → ok event) (sps : List LedgerSavepoint) :
    LedgerSession.Nests ok (se, sps) ((op.execute se).1, sps) := by
  have hends := op.execute_cases se
  generalize op.execute se = out at hends
  cases hends with
  | refused msg hreads => exact .reads hreads
  | logged hreads hlogs => exact .logged hreads (hok _ hlogs)

end VscNode
