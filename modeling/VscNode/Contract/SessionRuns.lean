import VscNode.Contract.Execution
import VscNode.Ledger.SessionRuns
import VscNode.Lib.Savepoints

/-!
# Runs on contract sessions

A contract works on an overlay of its state, in which reads are cached and deletions are
marks. What it and the next transaction read is nevertheless the last write
(`ContractSession.reads_last_write`).

A contract may try a call of another contract. What is kept before the call does not hold
the logs of the two sessions, but only how long they are. Until the call ends the sessions
only grow, whatever contracts the callee works on and whatever calls it tries in turn. A trap
that ends the call therefore gives back the machine in which the call was made
(`Vm.run_caught`).
-/

namespace VscNode

open Collection Function List Relation

/-! ## Reads and writes -/

namespace ContractSession

variable (databin : String → String → Option String) (s : ContractSession)

/-- What a contract reads under a key. -/
def view (key : String) : Option String := (s.get databin key).1

/-- Where the overlay has nothing to say, neither has the state it was opened on. -/
def Overlays (s : ContractSession) : Prop :=
  ∀ key, s.state.deletions key = false → (s.state.cache key).join = none → s.stateGet key = none

inductive StateOp
  | get (key : String)
  | set (key value : String)
  | delete (key : String)
  deriving DecidableEq

def apply (s : ContractSession) : StateOp → ContractSession
  | .get key => (s.get databin key).2
  | .set key value => s.set key value
  | .delete key => s.delete key

/-- The operations on a map of keys; a key that was deleted reads as the empty text. -/
def StateOp.write (f : String → Option String) : StateOp → String → Option String
  | .get _ => f
  | .set key value => update f key (some value)
  | .delete key => update f key (some "")

/-- The session that the next transaction opens on what this one commits. -/
def next : ContractSession := ofOutput s.commit.toOutput

variable {databin s}

theorem view_eq (key : String) : s.view databin key =
    if s.state.deletions key then some ""
    else (s.state.cache key).join.or ((s.stateGet key).or (databin s.stateMerkle key)) := by
  rw [view, get]
  split
  · rfl
  cases (s.state.cache key).join with
  | some value => rfl
  | none => cases s.stateGet key <;> rfl

theorem overlays_ofOutput (out : TempOutput) : (ofOutput out).Overlays := by
  intro key hdel hcache
  simp_all [ofOutput, stateGet]

theorem Overlays.apply (h : s.Overlays) (op : StateOp) : (s.apply databin op).Overlays := by
  intro key
  cases op with
  | get k =>
    rw [ContractSession.apply, get]
    iterate 3
      split
      · exact h key
    rename_i hdel _ hcache _ hget
    intro hdel' hcache'
    by_cases hkey : key = k
    · exact hkey ▸ hget
    · exact h key hdel' (by simpa [setState, hkey] using hcache')
  | set k value =>
    intro hdel hcache
    by_cases hkey : key = k
    · simp [ContractSession.apply, set, setState, hkey] at hcache
    · exact h key (by simpa [ContractSession.apply, set, setState, hkey] using hdel)
        (by simpa [ContractSession.apply, set, setState, hkey] using hcache)
  | delete k =>
    intro hdel hcache
    by_cases hkey : key = k
    · simp [ContractSession.apply, delete, setState, hkey] at hdel
    · exact h key (by simpa [ContractSession.apply, delete, setState, hkey] using hdel)
        (by simpa [ContractSession.apply, delete, setState, hkey] using hcache)

theorem view_apply (op : StateOp) :
    (s.apply databin op).view databin = op.write (s.view databin) := by
  funext key
  cases op with
  | get k =>
    rw [ContractSession.apply, get, StateOp.write]
    iterate 3
      split
      · rfl
    rename_i hcache _ hget
    by_cases hkey : key = k
    · subst hkey
      simp only [view_eq, setState, update_self, Option.join_some, stateGet] at hget ⊢
      rw [hcache, hget, Option.none_or, Option.none_or, Option.or_self]
    · simp [view_eq, setState, hkey, stateGet]
  | set k value =>
    by_cases hkey : key = k <;>
      simp [view_eq, ContractSession.apply, StateOp.write, set, setState, hkey, stateGet]
  | delete k =>
    by_cases hkey : key = k <;>
      simp [view_eq, ContractSession.apply, StateOp.write, delete, setState, hkey, stateGet]

theorem Overlays.view_next (h : s.Overlays) : s.next.view databin = s.view databin := by
  funext key
  simp only [view_eq, next, ofOutput, commit, toOutput, stateGet]
  by_cases hdel : s.state.deletions key = true
  · rw [if_pos hdel, if_pos hdel]
  simp only [if_neg hdel]
  cases hcache : (s.state.cache key).join with
  | some value => rfl
  | none =>
    have hbase := h key (by simpa using hdel) hcache
    rw [stateGet] at hbase
    rw [hbase]

theorem Overlays.foldl (h : s.Overlays) (ops : List StateOp) :
    (ops.foldl (ContractSession.apply databin) s).Overlays ∧
      (ops.foldl (ContractSession.apply databin) s).view databin =
        ops.foldl StateOp.write (s.view databin) := by
  induction ops generalizing s with
  | nil => exact ⟨h, rfl⟩
  | cons op ops ih =>
    obtain ⟨hover, hview⟩ := ih (h.apply op)
    exact ⟨hover, by rw [foldl_cons, foldl_cons, hview, view_apply]⟩

/-- **Reads give the last write**: what a transaction of the slot reads is what the writes
of those before it make of the stored state, whatever they read and cached in between. -/
theorem reads_last_write (out : TempOutput) (txs : List (List StateOp)) :
    (txs.foldl (fun s ops => (ops.foldl (ContractSession.apply databin) s).next)
        (ofOutput out)).view databin =
      txs.flatten.foldl StateOp.write ((ofOutput out).view databin) := by
  induction txs generalizing out with
  | nil => rfl
  | cons ops txs ih =>
    obtain ⟨hover, hview⟩ := @Overlays.foldl databin _ (overlays_ofOutput out) ops
    rw [foldl_cons, flatten_cons, foldl_append, ← hview, ← hover.view_next]
    exact ih _

end ContractSession

/-! ## What calls leave of the sessions -/

namespace ContractSession

/-- What calls leave of a session: what it is read from, and its logs at the front. -/
structure Extends (s s' : ContractSession) : Prop where
  contractId : s'.contractId = s.contractId
  stateMerkle : s'.stateMerkle = s.stateMerkle
  logs : s.logs <+: s'.logs
  tssOps : s.tssOps <+: s'.tssOps

variable {s s' s'' : ContractSession}

theorem Extends.refl (s : ContractSession) : s.Extends s := ⟨rfl, rfl, prefix_rfl, prefix_rfl⟩

theorem Extends.trans (h : s.Extends s') (h' : s'.Extends s'') : s.Extends s'' :=
  ⟨h'.contractId.trans h.contractId, h'.stateMerkle.trans h.stateMerkle, h.logs.trans h'.logs,
    h.tssOps.trans h'.tssOps⟩

theorem Extends.restore_snapshot (h : s.Extends s') : s'.restore s.snapshot = s := by
  simp only [restore, snapshot, h.contractId, h.stateMerkle, ← prefix_iff_eq_take.1 h.logs,
    ← prefix_iff_eq_take.1 h.tssOps]

variable (s)

theorem extends_setState (state : StateStore) : s.Extends (s.setState state) :=
  ⟨rfl, rfl, prefix_rfl, prefix_rfl⟩

theorem extends_incSize (size : Int) : s.Extends (s.incSize size) :=
  ⟨rfl, rfl, prefix_rfl, prefix_rfl⟩

theorem extends_get (databin : String → String → Option String) (key : String) :
    s.Extends (s.get databin key).2 := by
  rw [get]
  iterate 3
    split
    · exact .refl s
  exact s.extends_setState _

end ContractSession

namespace CallSession

/-- The sessions that were there are there, and have only grown. -/
structure Extends (cs cs' : CallSession) : Prop where
  store : cs'.store = cs.store
  sessions : ∀ s ∈ cs.sessions, ∃ s', cs'.sessions.get? s.contractId = some s' ∧ s.Extends s'

variable {cs cs' cs'' : CallSession}

theorem Extends.refl (cs : CallSession) : cs.Extends cs :=
  ⟨rfl, fun s hs => ⟨s, get?_of_mem hs, .refl s⟩⟩

theorem Extends.trans (h : cs.Extends cs') (h' : cs'.Extends cs'') : cs.Extends cs'' := by
  refine ⟨h'.store.trans h.store, fun s hs => ?_⟩
  obtain ⟨s₁, hget₁, hs₁⟩ := h.sessions s hs
  obtain ⟨hmem, hid⟩ := get?_eq_some_iff.1 hget₁
  obtain ⟨s₂, hget₂, hs₂⟩ := h'.sessions s₁ hmem
  exact ⟨s₂, hid ▸ hget₂, hs₁.trans hs₂⟩

theorem Extends.restore_snapshot (h : cs.Extends cs') : cs'.restore cs.snapshot = cs := by
  have hback : cs.snapshot.sessions.filterMap (fun s =>
      (cs'.sessions.get? s.contractId).map fun session => session.restore s) =
        cs.sessions.docs := by
    rw [snapshot, filterMap_map]
    refine (filterMap_congr fun s hs => ?_).trans filterMap_some
    obtain ⟨s', hget, hs'⟩ := h.sessions s hs
    change (cs'.sessions.get? s.contractId).map (·.restore s.snapshot) = some s
    rw [hget, Option.map_some, hs'.restore_snapshot]
  obtain ⟨store, sessions, pending⟩ := cs
  rw [restore, hback, h.store, empty_putAll_docs]
  rfl

variable (cs) (contractId : String)

theorem contractId_opening : (cs.opening contractId).contractId = contractId := by
  rw [opening]
  cases hget : cs.pending.get? contractId with
  | some out => exact (get?_eq_some_iff.1 hget).2
  | none =>
    rw [Option.getD_none, ContractStore.stored]
    split <;> rfl

theorem getContractSession_of_get? {s : ContractSession}
    (h : cs.sessions.get? contractId = some s) : cs.getContractSession contractId = (s, cs) := by
  simp only [getContractSession, h]

/-- The session is opened if there is none, and the others stay. -/
theorem getContractSession_spec :
    (cs.getContractSession contractId).2.sessions.get? contractId =
        some (cs.getContractSession contractId).1 ∧
      cs.Extends (cs.getContractSession contractId).2 := by
  cases hget : cs.sessions.get? contractId with
  | some s =>
    rw [cs.getContractSession_of_get? contractId hget]
    exact ⟨hget, .refl cs⟩
  | none =>
    have hid : (ContractSession.ofOutput (cs.opening contractId)).contractId = contractId :=
      cs.contractId_opening contractId
    simp only [getContractSession, hget]
    refine ⟨by rw [← get?_put_self cs.sessions, hid], rfl, fun s hs => ⟨s, ?_, .refl s⟩⟩
    rw [get?_put_of_ne fun heq => get?_eq_none_iff.1 hget s hs (heq.symm.trans hid)]
    exact get?_of_mem hs

theorem extends_update (f : ContractSession → ContractSession)
    (hf : ∀ s, (cs.getContractSession contractId).1 = s → s.Extends (f s)) :
    cs.Extends (cs.update contractId f) := by
  obtain ⟨hget, hext⟩ := cs.getContractSession_spec contractId
  refine hext.trans ⟨rfl, fun s hs => ?_⟩
  have hf := hf _ rfl
  obtain ⟨hmem, hid⟩ := get?_eq_some_iff.1 hget
  simp only [update]
  by_cases hkey : s.contractId = contractId
  · obtain rfl := eq_of_key_eq hs hmem (hkey.trans hid.symm)
    exact ⟨_, hf.contractId ▸ get?_put_self .., hf⟩
  · refine ⟨s, ?_, .refl s⟩
    rw [get?_put_of_ne fun heq => hkey ((heq.symm.trans hf.contractId).trans hid)]
    exact get?_of_mem hs

end CallSession

/-! ## Calls that are tried -/

namespace Contract

/-- What is kept of the two sessions before a call that is tried. -/
def copying :
    Savepoints.Copying (LedgerSession × CallSession) (LedgerSavepoint × CallSnapshot) where
  Grows s t := t.1.Extends s.1 ∧ s.2.Extends t.2
  save s := (s.1.savepoint, s.2.snapshot)
  restore s c := (s.1.restoreSavepoint c.1, s.2.restore c.2)
  refl s := ⟨.refl _, .refl _⟩
  trans h h' := ⟨h'.1.trans h.1, h.2.trans h'.2⟩
  restore_save h := by rw [h.1.restoreSavepoint, h.2.restore_snapshot]

theorem unwind_eq (frames : List Context) :
    unwind frames = Savepoints.unwind Context.rollback frames := by
  induction frames with
  | nil => rfl
  | cons ctx frames ih =>
    rw [unwind, Savepoints.unwind, ih]
    cases ctx.rollback <;> rfl

namespace Vm

variable {host : Host} {vm : Vm}

/-- The two sessions and the contexts. -/
def machine (vm : Vm) : (LedgerSession × CallSession) × List Context :=
  ((vm.ledger, vm.calls), vm.frames)

/-- A step of the machine with copies that a call is. -/
abbrev Steps (vm vm' : Vm) : Prop :=
  Savepoints.Step copying Context.rollback vm.machine vm'.machine

theorem extends_readState (vm : Vm) (contractId key : String) :
    vm.calls.Extends (vm.readState contractId key).2.calls := by
  obtain ⟨hget, hext⟩ := vm.calls.getContractSession_spec contractId
  simp only [readState, setCalls]
  refine hext.trans (CallSession.extends_update _ contractId _ ?_)
  rintro s rfl
  rw [CallSession.getContractSession_of_get? _ _ hget]
  exact ContractSession.extends_get ..

theorem extends_setState (vm : Vm) (contractId key value : String) :
    vm.calls.Extends (vm.setState contractId key value).calls :=
  (vm.extends_readState contractId key).trans (CallSession.extends_update _ _ _ fun s _ =>
    (s.extends_incSize _).trans (ContractSession.extends_setState ..))

theorem extends_deleteState (vm : Vm) (contractId key : String) :
    vm.calls.Extends (vm.deleteState contractId key).calls :=
  (vm.extends_readState contractId key).trans (CallSession.extends_update _ _ _ fun s _ =>
    (s.extends_incSize _).trans (ContractSession.extends_setState ..))

section

variable {ctx ctx' : Context} {rest : List Context} (hframes : vm.frames = ctx :: rest)

include hframes

theorem step_work {ledger : LedgerSession} {calls : CallSession}
    (h : copying.Grows (vm.ledger, vm.calls) (ledger, calls))
    (hctx : ctx'.rollback = ctx.rollback) : vm.Steps ⟨ledger, calls, ctx' :: rest⟩ := by
  rw [Steps, machine, hframes]
  exact .work h hctx

theorem step_calls {calls : CallSession} (h : vm.calls.Extends calls) :
    vm.Steps (vm.setCalls calls) := by
  rw [setCalls, hframes]
  exact step_work hframes ⟨.refl _, h⟩ rfl

theorem step_ledger {ledger : LedgerSession} (h : ledger.Extends vm.ledger) :
    vm.Steps (vm.setLedger ledger) := by
  rw [setLedger, hframes]
  exact step_work hframes ⟨h, .refl _⟩ rfl

theorem step_onLedger (op : SessionOp) : vm.Steps (vm.onLedger op).1 :=
  step_ledger hframes (LedgerSession.extends_execute op vm.ledger)

theorem step_contractCall (contractId : String) (intents : List Intent) (tries : Bool) :
    vm.Steps (vm.contractCall host ctx contractId intents tries).1 := by
  rw [contractCall]
  split
  · exact step_calls hframes (.refl _)
  split
  · exact step_calls hframes (.refl _)
  cases tries && host.tryCatchActive with
  | false => exact .push (.inl rfl)
  | true => exact .push (.inr rfl)

end

theorem step_trap (hopen : vm.trap.frames ≠ []) : vm.Steps vm.trap := by
  rw [trap] at hopen ⊢
  split at hopen
  · rename_i sp snap rest hunwind
    exact .trap (s := (vm.ledger, vm.calls)) (unwind_eq _ ▸ hunwind)
  · cases hopen rfl

/-- A host call is a step of a machine with copies, unless it ends the whole call. -/
theorem step_machine (c : HostCall) (hopen : (vm.step host c).frames ≠ []) :
    vm.Steps (vm.step host c) := by
  rw [step] at hopen ⊢
  split
  · rename_i hframes
    rw [hframes] at hopen
    exact absurd hframes hopen
  rename_i ctx rest hframes
  rw [hframes] at hopen
  cases c with
  | log msg =>
    exact step_calls hframes (CallSession.extends_update _ _ _ fun s _ =>
      ⟨rfl, rfl, prefix_append .., prefix_rfl⟩)
  | tssOp op =>
    exact step_calls hframes (CallSession.extends_update _ _ _ fun s _ =>
      ⟨rfl, rfl, prefix_rfl, prefix_append ..⟩)
  | getState key => exact step_calls hframes (vm.extends_readState ..)
  | contractStateGet contractId key => exact step_calls hframes (vm.extends_readState ..)
  | setState key value => exact step_calls hframes (vm.extends_setState ..)
  | deleteState key => exact step_calls hframes (vm.extends_deleteState ..)
  | getEphemState contractId key =>
    exact step_calls hframes (CallSession.getContractSession_spec ..).2
  | setEphemState key value =>
    exact step_calls hframes (CallSession.extends_update _ _ _ fun s _ => s.extends_setState _)
  | deleteEphemState key =>
    exact step_calls hframes (CallSession.extends_update _ _ _ fun s _ => s.extends_setState _)
  | getBalance account asset => exact step_ledger hframes (LedgerSession.reads_getBalance ..).grown
  | pullBalance from_ amount asset =>
    simp only [call]
    split
    · exact step_calls hframes (.refl _)
    rename_i ctx' hdraw
    obtain ⟨limit, -, -, rfl⟩ := Context.draw_cases hdraw
    exact step_work hframes ⟨LedgerSession.extends_execute (.transfer _ _) _, .refl _⟩ rfl
  | sendBalance to_ amount asset => exact step_onLedger hframes _
  | withdrawBalance to_ amount asset => exact step_onLedger hframes _
  | accrue amountHBD =>
    simp only [call]
    split
    · exact step_calls hframes (.refl _)
    · exact step_onLedger hframes _
  | contractCall contractId intents tries => exact step_contractCall hframes ..
  | ret =>
    rw [Steps, machine, hframes]
    exact .ret (copying.refl _)
  | trap => exact step_trap hopen

/-- While the stack stays above a height, a run is one of a machine with copies. -/
theorem run_machine {n : ℕ} {script : List HostCall}
    (hopen : ∀ calls, calls <+: script → n < (vm.run host calls).frames.length) :
    ReflTransGen (fun m m' => Savepoints.Step copying Context.rollback m m' ∧ n < m'.2.length)
      vm.machine (vm.run host script).machine := by
  induction script generalizing vm with
  | nil => exact .refl
  | cons c script ih =>
    have hstep : n < (vm.step host c).frames.length := hopen [c] (by simp)
    refine .head ⟨step_machine c (ne_nil_of_length_pos (by omega)), hstep⟩ (ih fun calls h => ?_)
    exact hopen (c :: calls) (cons_prefix_cons.2 ⟨rfl, h⟩)

/-- A call that is tried, if it is made, keeps a copy of the sessions in its context. -/
theorem step_tried {contractId : String} {intents : List Intent}
    (hactive : host.tryCatchActive = true) (hcalled : vm.frames.length <
      (vm.step host (.contractCall contractId intents true)).frames.length) :
    ∃ ctx, ctx.rollback = some (copying.save (vm.ledger, vm.calls)) ∧
      vm.step host (.contractCall contractId intents true) =
        ⟨vm.ledger, vm.calls, ctx :: vm.frames⟩ := by
  rw [step] at hcalled ⊢
  split at hcalled
  · exact absurd hcalled (lt_irrefl _)
  simp only [call, contractCall, hactive, Bool.and_self, if_true] at hcalled ⊢
  split at hcalled
  · exact absurd hcalled (lt_irrefl _)
  rename_i hdepth
  split at hcalled
  · exact absurd hcalled (lt_irrefl _)
  · rw [if_neg hdepth]
    exact ⟨_, rfl, rfl⟩

theorem step_trap_eq (hframes : vm.frames ≠ []) : vm.step host .trap = vm.trap := by
  rw [step]
  split
  · exact absurd ‹_› hframes
  · rfl

/-- **A caught failure leaves no trace**: a call that is tried and fails, directly or in a
contract it calls in turn, leaves the machine as it was before the call, whatever was done
until then. -/
theorem run_caught {contractId : String} {intents : List Intent} {script : List HostCall}
    (hactive : host.tryCatchActive = true)
    (hopen : ∀ calls, calls <+: script → vm.frames.length <
      (vm.run host (.contractCall contractId intents true :: calls)).frames.length)
    (hback : (vm.run host
      (.contractCall contractId intents true :: script ++ [.trap])).frames.length ≤
        vm.frames.length) :
    vm.run host (.contractCall contractId intents true :: script ++ [.trap]) = vm := by
  obtain ⟨ctx, hctx, hcall⟩ := step_tried hactive (hopen [] nil_prefix)
  have hrun : ∀ calls, vm.run host (.contractCall contractId intents true :: calls) =
      Vm.run host ⟨vm.ledger, vm.calls, ctx :: vm.frames⟩ calls := fun calls => by
    rw [run, foldl_cons, hcall, run]
  simp only [hrun] at hopen
  rw [cons_append, hrun, run, foldl_append, foldl_cons, foldl_nil, ← run,
    step_trap_eq (ne_nil_of_length_pos (pos_of_gt (hopen script prefix_rfl)))] at hback ⊢
  generalize hend : Vm.run host ⟨vm.ledger, vm.calls, ctx :: vm.frames⟩ script = last at hback ⊢
  obtain ⟨⟨sp, snap⟩, hunwind, hrestore⟩ :=
    Savepoints.caught hctx (run_machine hopen) fun c rest h => by
      rw [hend, machine, ← unwind_eq] at h
      rwa [trap, h] at hback
  rw [hend, machine, ← unwind_eq] at hunwind
  rw [hend] at hrestore
  obtain ⟨hledger, hcalls⟩ := Prod.mk.inj hrestore
  rw [trap, hunwind]
  exact congrArg₂ (Vm.mk · · vm.frames) hledger hcalls

def twoDeep : Vm where
  ledger := { state := { dbs := {} } }
  calls := { store := ⟨fun _ => none, fun _ _ => none⟩ }
  frames := [.new ⟨"a", "alice", 5, "tx", "block", 0, 0, "", ["hive:alice"], [], "hive:alice",
    "hive:alice", []⟩ 100 100 0 none]

/-- A contract tries a call of a second one, and a third one, called by it, fails. -/
theorem run_caught_twoDeep :
    twoDeep.run ⟨true, fun _ _ => .ok "bob"⟩ [.contractCall "b" [] true, .setState "k" "v",
      .contractCall "c" [] false, .sendBalance "hive:eve" 1 "hive", .trap] = twoDeep := by
  refine @run_caught _ _ _ _ [.setState "k" "v", .contractCall "c" [] false,
    .sendBalance "hive:eve" 1 "hive"] rfl ?_ (by decide)
  simp only [← mem_inits]
  decide

end Vm

end Contract

end VscNode
