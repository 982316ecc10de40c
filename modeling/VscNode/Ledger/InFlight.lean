import VscNode.Ledger.BondCycle

/-!
# Events in flight

A session stamps every event with the id of its operation, numbered where the id
repeats within the batch. When the operation ids of a batch have no separator in
them and were not used before, the events it leaves in flight have ids of their
own: different from each other, and from everything stored (`InFlight`).
-/

namespace VscNode

open Collection Text List

/-! ## Stamped ids -/

/-- The id of the `k`-th event of an operation id within a batch. -/
def stamp (id : String) (k : ℕ) : String := if 0 < k then id ++ ":" ++ formatUint k else id

/-- The operation id an event, row or action id starts with. -/
def opBase (id : String) : String := (fields ':' ((fields '#' id).headD "")).headD ""

variable {id : String} {n : Node}

theorem fields_stamp (h : Free ':' id) (k : ℕ) :
    fields ':' (stamp id k) = if 0 < k then [id, formatUint k] else [id] := by
  rw [stamp]
  split
  · rw [show id ++ ":" ++ formatUint k = id ++ (":" ++ formatUint k) from String.append_assoc ..,
      fields_suffix (formatUint k) (by simp) (free_formatUint (by decide) k), fields_of_free h]
    rfl
  · exact fields_of_free h

theorem free_stamp (h : Free '#' id) (k : ℕ) : Free '#' (stamp id k) := by
  rw [stamp]
  split
  · have hk := free_formatUint (c := '#') (by decide) k
    simp only [Free, String.toList_append, mem_append, not_or] at h hk ⊢
    exact ⟨⟨h, by decide⟩, hk⟩
  · exact h

theorem stamp_inj {id' : String} {k k' : ℕ} (h : Free ':' id) (h' : Free ':' id')
    (heq : stamp id k = stamp id' k') : id = id' ∧ k = k' := by
  have hf := congrArg (fields ':') heq
  rw [fields_stamp h, fields_stamp h'] at hf
  split at hf <;> split at hf
  · simp only [cons.injEq, and_true] at hf
    exact ⟨hf.1, formatUint_inj hf.2⟩
  · simp at hf
  · simp at hf
  · simp only [cons.injEq, and_true] at hf
    exact ⟨hf, by omega⟩

theorem opBase_stamp (h : Free '#' id) (h' : Free ':' id) (k : ℕ) : opBase (stamp id k) = id := by
  rw [opBase, fields_of_free (free_stamp h k), headD_cons, fields_stamp h']
  split <;> rfl

theorem opBase_stamp_append {s word : String} (h : Free '#' id) (h' : Free ':' id) (k : ℕ)
    (hs : s.toList = '#' :: word.toList) : opBase (stamp id k ++ s) = id := by
  rw [opBase, fields_append hs, fields_of_free (free_stamp h k), singleton_append,
    headD_cons, fields_stamp h']
  split <;> rfl

/-! ## Unused ids -/

structure Unused (s : LedgerDbs) (id : String) : Prop where
  in_ : s.ledger.get? (id ++ "#in") = none
  out : s.ledger.get? (id ++ "#out") = none
  edge : s.ledger.get? (id ++ "#edge") = none
  total : s.ledger.get? (id ++ "#total") = none
  action : s.actions.get? id = none

@[mk_iff] structure FreshOp (n : Node) (id : String) : Prop where
  noHash : Free '#' id
  noColon : Free ':' id
  oplog : ∀ v ∈ n.ledger.oplog, opBase v.id ≠ id
  ledger : ∀ r ∈ n.dbs.ledger, opBase r.id ≠ id
  actions : ∀ a ∈ n.dbs.actions, opBase a.id ≠ id

theorem FreshOp.unused (h : FreshOp n id) (k : ℕ) : Unused n.dbs (stamp id k) := by
  have hrow : ∀ {s : String} (word : String), s.toList = '#' :: word.toList →
      n.dbs.ledger.get? (stamp id k ++ s) = none := by
    intro s word hs
    refine get?_eq_none_iff.2 fun r hr hid => h.ledger r hr ?_
    rw [hid, opBase_stamp_append h.noHash h.noColon k hs]
  refine ⟨hrow "in" (by rfl), hrow "out" (by rfl), hrow "edge" (by rfl), hrow "total" (by rfl), ?_⟩
  refine get?_eq_none_iff.2 fun a ha hid => h.actions a ha ?_
  rw [hid, opBase_stamp h.noHash h.noColon]

structure InFlight (s : LedgerDbs) (oplog : List OpLogEvent) : Prop where
  nodup : (oplog.map (·.id)).Nodup
  noHash : ∀ v ∈ oplog, Free '#' v.id
  type : ∀ v ∈ oplog, v.type = .consensusStake ∨ v.type = .consensusUnstake
  unused : ∀ v ∈ oplog, Unused s v.id

theorem inFlight_nil (s : LedgerDbs) : InFlight s [] :=
  ⟨nodup_nil, by simp, by simp, by simp⟩

theorem InFlight.sublist {s : LedgerDbs} {oplog oplog' : List OpLogEvent} (h : InFlight s oplog)
    (hsub : oplog'.Sublist oplog) : InFlight s oplog' where
  nodup := h.nodup.sublist (hsub.map _)
  noHash := fun v hv => h.noHash v (hsub.subset hv)
  type := fun v hv => h.type v (hsub.subset hv)
  unused := fun v hv => h.unused v (hsub.subset hv)

/-! ## The events a batch adds -/

/-- Events stamped below the counts of a session, each for an operation id that
meets `p`. -/
structure Numbered (p : String → Prop) (idCache : String → ℕ) (events : List OpLogEvent) :
    Prop where
  nodup : (events.map (·.id)).Nodup
  stamped : ∀ v ∈ events, ∃ id k, p id ∧ k < idCache id ∧ v.id = stamp id k

variable {events : List OpLogEvent} {idCache : String → ℕ} {v : OpLogEvent}
  {finished : List OpLogEvent} {ops : List ConsensusOp} {se : LedgerSession}

theorem Numbered.append {p : String → Prop} (hp : ∀ id, p id → Free ':' id)
    (h : Numbered p idCache events) (hid : p id) (hv : v.id = stamp id (idCache id)) :
    Numbered p (Function.update idCache id (idCache id + 1)) (events ++ [v]) where
  nodup := by
    rw [map_append, map_singleton]
    refine nodup_append.2 ⟨h.nodup, nodup_singleton _, ?_⟩
    rintro _ hmem _ hlast rfl
    rw [mem_singleton] at hlast
    obtain ⟨u, hu, heq⟩ := mem_map.1 hmem
    -- The new stamp is above every stamp given for the same operation id.
    obtain ⟨id', k, hid', hk, hstamp⟩ := h.stamped u hu
    have hsame : stamp id' k = stamp id (idCache id) := by rw [← hstamp, heq, hlast, hv]
    obtain ⟨rfl, rfl⟩ := stamp_inj (hp _ hid') (hp _ hid) hsame
    exact absurd hk (lt_irrefl _)
  stamped := by
    intro u hu
    rcases mem_append.1 hu with hu | hu
    · obtain ⟨id', k, hid', hk, hstamp⟩ := h.stamped u hu
      refine ⟨id', k, hid', ?_, hstamp⟩
      by_cases heq : id' = id
      · subst heq
        rw [Function.update_self]
        omega
      · rwa [Function.update_of_ne heq]
    · rw [mem_singleton.1 hu]
      exact ⟨id, idCache id, hid, by simp, hv⟩

/-- The events of a running batch: stamped below the session's counts. -/
structure Stamped (n : Node) (idCache : String → ℕ) (events : List OpLogEvent) : Prop where
  nodup : (events.map (·.id)).Nodup
  stamped : ∀ v ∈ events, ∃ id k, FreshOp n id ∧ k < idCache id ∧ v.id = stamp id k
  type : ∀ v ∈ events, v.type = .consensusStake ∨ v.type = .consensusUnstake

theorem Stamped.sublist {events events' : List OpLogEvent} (h : Stamped n idCache events)
    (hsub : events'.Sublist events) : Stamped n idCache events' where
  nodup := h.nodup.sublist (hsub.map _)
  stamped := fun v hv => h.stamped v (hsub.subset hv)
  type := fun v hv => h.type v (hsub.subset hv)

theorem Stamped.append (h : Stamped n idCache events) (hid : FreshOp n id)
    (hv : v.id = stamp id (idCache id))
    (htype : v.type = .consensusStake ∨ v.type = .consensusUnstake) :
    Stamped n (Function.update idCache id (idCache id + 1)) (events ++ [v]) := by
  have hnumbered : Numbered (FreshOp n) idCache events := ⟨h.nodup, h.stamped⟩
  have happend := hnumbered.append (fun _ hfresh => hfresh.noColon) hid hv
  refine ⟨happend.nodup, happend.stamped, fun u hu => ?_⟩
  rcases mem_append.1 hu with hu | hu
  · exact h.type u hu
  · rw [mem_singleton.1 hu]
    exact htype

structure Runs (n : Node) (se : LedgerSession) (finished : List OpLogEvent) : Prop where
  dbs : se.state.dbs = n.dbs
  oplog : se.state.oplog = n.ledger.oplog ++ finished
  stamped : Stamped n se.idCache (finished ++ se.oplog)

theorem ConsensusOp.Logs.id_eq {op : ConsensusOp} (h : op.Logs v) :
    v.id = op.params.id ∧ (v.type = .consensusStake ∨ v.type = .consensusUnstake) := by
  cases h with
  | stake p => exact ⟨rfl, .inl rfl⟩
  | delegatedUnstake p released => exact ⟨rfl, .inr rfl⟩
  | unstake p => exact ⟨rfl, .inr rfl⟩

theorem Runs.executeOps (h : Runs n se finished) (hops : ∀ op ∈ ops, FreshOp n op.params.id) :
    Runs n (se.executeOps ops) finished := by
  induction ops generalizing se with
  | nil => exact h
  | cons op ops ih =>
    rw [LedgerSession.executeOps]
    rcases op.execute_cases se with ⟨hok, hsame⟩ | ⟨hok, event, hlogs, happ⟩
    · rw [hok, if_neg (by simp)]
      refine ⟨?_, ?_, ?_⟩
      · exact (congrArg LedgerState.dbs hsame.state).trans h.dbs
      · exact (congrArg LedgerState.oplog hsame.state).trans h.oplog
      change Stamped n (op.execute se).1.idCache (finished ++ [])
      rw [hsame.idCache, append_nil]
      exact h.stamped.sublist (sublist_append_left _ _)
    rw [hok, if_pos rfl]
    refine ih ⟨?_, ?_, ?_⟩ fun op' hop' => hops op' (mem_cons_of_mem _ hop')
    · rw [happ.state, h.dbs]
    · rw [happ.state, h.oplog]
    rw [happ.oplog, happ.idCache, ← append_assoc]
    obtain ⟨hid, htype⟩ := hlogs.id_eq
    rw [hid]
    exact h.stamped.append (hops op mem_cons_self) (by rfl) htype

theorem Runs.executeTx (h : Runs n se finished) (hops : ∀ op ∈ ops, FreshOp n op.params.id) :
    ∃ finished', Runs n (se.executeTx ops) finished' := by
  have hrun := h.executeOps hops
  refine ⟨finished ++ (se.executeOps ops).oplog, hrun.dbs, ?_, ?_⟩
  · change (se.executeOps ops).state.oplog ++ (se.executeOps ops).oplog = _
    rw [hrun.oplog, append_assoc]
  change Stamped n (se.executeOps ops).idCache (finished ++ (se.executeOps ops).oplog ++ [])
  rw [append_nil]
  exact hrun.stamped

theorem InFlight.batch (h : InFlight n.dbs n.ledger.oplog) {txs : List (List ConsensusOp)}
    (htxs : ∀ ops ∈ txs, ∀ op ∈ ops, FreshOp n op.params.id) :
    InFlight n.dbs (n.ledger.executeBatch txs).oplog := by
  have hfold : ∀ (se : LedgerSession) (finished : List OpLogEvent), Runs n se finished →
      ∃ finished', Runs n (txs.foldl LedgerSession.executeTx se) finished' := by
    induction txs with
    | nil => exact fun se finished hrun => ⟨finished, hrun⟩
    | cons ops txs ih =>
      intro se finished hrun
      obtain ⟨finished', hrun'⟩ := hrun.executeTx (htxs ops mem_cons_self)
      exact ih (fun ops' hops' => htxs ops' (mem_cons_of_mem _ hops')) _ _ hrun'
  obtain ⟨finished, hrun⟩ := hfold { state := n.ledger } []
    ⟨rfl, (append_nil _).symm, ⟨nodup_nil, by simp, by simp⟩⟩
  have hnew := hrun.stamped.sublist (sublist_append_left _ _)
  rw [LedgerState.executeBatch, hrun.oplog]
  refine ⟨?_, ?_, ?_, ?_⟩
  · rw [map_append]
    refine nodup_append.2 ⟨h.nodup, hnew.nodup, ?_⟩
    rintro _ hold _ hmem rfl
    obtain ⟨u, hu, heq⟩ := mem_map.1 hold
    obtain ⟨v, hv, hveq⟩ := mem_map.1 hmem
    obtain ⟨id, k, hid, -, hstamp⟩ := hnew.stamped v hv
    refine hid.oplog u hu ?_
    rw [heq, ← hveq, hstamp, opBase_stamp hid.noHash hid.noColon]
  · intro v hv
    rcases mem_append.1 hv with hv | hv
    · exact h.noHash v hv
    obtain ⟨id, k, hid, -, hstamp⟩ := hnew.stamped v hv
    rw [hstamp]
    exact free_stamp hid.noHash k
  · intro v hv
    rcases mem_append.1 hv with hv | hv
    · exact h.type v hv
    · exact hnew.type v hv
  intro v hv
  rcases mem_append.1 hv with hv | hv
  · exact h.unused v hv
  obtain ⟨id, k, hid, -, hstamp⟩ := hnew.stamped v hv
  rw [hstamp]
  exact hid.unused k

end VscNode
