import VscNode.Contract.Execution

/-!
# What a contract may draw from its caller

The caller of a transaction lets the contract draw on some tokens, each up to a
limit. The limits are kept in the context the contract runs in. A contract it
calls runs in a context of its own, whose caller is the calling contract, so only
the context at the bottom of the stack draws on the caller of the transaction,
and only while no other context is open.

What has been drawn and what is left of a limit add up to the limit that was
declared, also at every open savepoint (`Spends`). A context whose host call fails
is gone, and with it a limit that was lowered for nothing.
-/

namespace VscNode

open LedgerSession Relation List

namespace Contract

/-! ## Host calls that fail -/

namespace Vm

/-- The contract's own code goes on only after a host call that has succeeded. -/
def stepOrAbort (host : Host) (vm : Vm) : HostCall → Vm
  | .trap => vm.step host .trap
  | c =>
    match vm.frames with
    | [] => vm
    | ctx :: rest =>
      match vm.call host ctx rest c with
      | (vm, .ok _) => vm
      | (vm, .error _) => vm.trap

def runOrAbort (host : Host) (vm : Vm) (script : List HostCall) : Vm :=
  script.foldl (stepOrAbort host) vm

/-- The contracts that have a context at some time of a run. -/
def participants (host : Host) : Vm → List HostCall → List String
  | vm, [] => vm.frames.map (·.env.contractId)
  | vm, c :: script =>
    vm.frames.map (·.env.contractId) ++ participants host (vm.stepOrAbort host c) script

end Vm

def drawn (events : List OpLogEvent) (account : String) (asset : Asset) : Int :=
  ((events.filter fun e => e.from_ = account ∧ e.asset = asset).map (·.amount)).sum

theorem drawn_append_singleton (events : List OpLogEvent) (e : OpLogEvent) (account : String)
    (asset : Asset) : drawn (events ++ [e]) account asset = drawn events account asset +
        if e.from_ = account ∧ e.asset = asset then e.amount else 0 := by
  rw [drawn, filter_append, map_append, sum_append, drawn, filter_singleton]
  by_cases h : e.from_ = account ∧ e.asset = asset
  · simp [h]
  · simp [h]

/-! ## What a host call does -/

inductive Acts (ctx : Context) (rest : List Context) (vm : Vm) : Vm × HostResult → Prop
  | quiet {vm' : Vm} {r : HostResult} (hreads : vm.ledger.Reads vm'.ledger)
      (hframes : vm'.frames = vm.frames) : Acts ctx rest vm (vm', r)
  | refused {vm' : Vm} {ctx' : Context} {msg : String} (hreads : vm.ledger.Reads vm'.ledger)
      (hframes : vm'.frames = ctx' :: rest) (henv : ctx'.env = ctx.env)
      (hroll : ctx'.rollback = ctx.rollback) : Acts ctx rest vm (vm', .error msg)
  | sent {vm' : Vm} {se : LedgerSession} {event : OpLogEvent} {r : HostResult}
      (hreads : vm.ledger.Reads se) (hledger : vm'.ledger = se.appendOplog event)
      (hframes : vm'.frames = vm.frames) (hfrom : event.from_ = account ctx.env.contractId) :
      Acts ctx rest vm (vm', r)
  | drew {vm' : Vm} {se : LedgerSession} {event : OpLogEvent} {ctx' : Context} {token : String}
      {limit : Int} {r : HostResult} (hreads : vm.ledger.Reads se)
      (hledger : vm'.ledger = se.appendOplog event) (hframes : vm'.frames = ctx' :: rest)
      (henv : ctx'.env = ctx.env) (hroll : ctx'.rollback = ctx.rollback)
      (hlimit : ctx.limits token = some limit) (hle : event.amount ≤ limit)
      (hlimits : ctx'.limits = Function.update ctx.limits token (some (limit - event.amount)))
      (hfrom : event.from_ = ctx.env.caller) (hasset : event.asset = Asset.ofString token) :
      Acts ctx rest vm (vm', r)
  | called {vm' : Vm} {ctx' : Context} {r : HostResult} (hledger : vm'.ledger = vm.ledger)
      (hframes : vm'.frames = ctx' :: vm.frames)
      (hcaller : ctx'.env.caller = account ctx.env.contractId)
      (hroll : ∀ saved, ctx'.rollback = some saved → saved.1 = vm.ledger.savepoint) :
      Acts ctx rest vm (vm', r)
  | returned {vm' : Vm} {r : HostResult} (hledger : vm'.ledger = vm.ledger)
      (hframes : vm'.frames = rest) : Acts ctx rest vm (vm', r)

namespace Vm

variable {host : Host}

variable (vm : Vm)

theorem acts_onLedger (ctx : Context) (rest : List Context) {op : SessionOp}
    (hfrom : ∀ event, op.Logs vm.ledger event → event.from_ = account ctx.env.contractId) :
    Acts ctx rest vm (vm.onLedger op) := by
  have hends := op.execute_cases vm.ledger
  rw [onLedger]
  generalize op.execute vm.ledger = out at hends
  cases hends with
  | refused msg hreads => exact .quiet hreads rfl
  | logged hreads hlogs => exact .sent hreads rfl rfl (hfrom _ hlogs)

variable {ctx : Context} {rest : List Context}

theorem acts_pullBalance (from_ : String) (amount : Int) (token : String) :
    Acts ctx rest vm (vm.call host ctx rest (.pullBalance from_ amount token)) := by
  simp only [call]
  split
  · exact .quiet (.refl _) rfl
  rename_i ctx' hdraw
  obtain ⟨limit, hlimit, hle, rfl⟩ := Context.draw_cases hdraw
  have hlogs : ∀ event exclusion, (SessionOp.transfer (ctx.transferEvent ctx.env.caller
      (account ctx.env.contractId) amount token) exclusion).Logs vm.ledger event →
      event.amount = amount ∧ event.from_ = ctx.env.caller ∧
        event.asset = Asset.ofString token := by
    rintro event exclusion ⟨⟩
    exact ⟨rfl, rfl, rfl⟩
  change Acts ctx rest vm (onLedger ⟨vm.ledger, vm.calls, _ :: rest⟩
    (.transfer (ctx.transferEvent ctx.env.caller (account ctx.env.contractId) amount token)
      (ctx.exclusion ctx.env.caller token)))
  generalize hop : SessionOp.transfer (ctx.transferEvent ctx.env.caller
    (account ctx.env.contractId) amount token) (ctx.exclusion ctx.env.caller token) = op
  have hends := op.execute_cases vm.ledger
  rw [onLedger]
  generalize op.execute vm.ledger = out at hends
  cases hends with
  | refused msg hreads => exact .refused hreads rfl rfl rfl
  | logged hreads hlog =>
    obtain ⟨hamount, hfrom, hasset⟩ := hlogs _ _ (hop ▸ hlog)
    exact .drew hreads rfl rfl rfl rfl hlimit (hamount.trans_le hle) (by rw [hamount]) hfrom hasset

theorem acts_contractCall (contractId : String) (intents : List Intent) (tries : Bool) :
    Acts ctx rest vm (vm.contractCall host ctx contractId intents tries) := by
  rw [contractCall]
  split
  · exact .quiet (.refl _) rfl
  split
  · exact .quiet (.refl _) rfl
  refine .called rfl rfl rfl fun saved hsaved => ?_
  change (if tries && host.tryCatchActive then _ else none) = some saved at hsaved
  split at hsaved
  · cases hsaved
    rfl
  · cases hsaved

theorem acts_call {c : HostCall} (hc : c ≠ .trap) : Acts ctx rest vm (vm.call host ctx rest c) := by
  cases c with
  | getBalance account asset => exact .quiet (LedgerSession.reads_getBalance ..) rfl
  | pullBalance from_ amount token => exact vm.acts_pullBalance from_ amount token
  | sendBalance to_ amount asset =>
    simp only [call]
    refine vm.acts_onLedger ctx rest ?_
    rintro event ⟨⟩
    rfl
  | withdrawBalance to_ amount asset =>
    simp only [call]
    refine vm.acts_onLedger ctx rest ?_
    rintro event ⟨⟩
    rfl
  | accrue amountHBD =>
    simp only [call]
    split
    · exact .quiet (.refl _) rfl
    refine vm.acts_onLedger ctx rest ?_
    rintro event ⟨⟩
    rfl
  | contractCall contractId intents tries => exact vm.acts_contractCall contractId intents tries
  | ret => exact .returned rfl rfl
  | trap => exact absurd rfl hc
  | _ => exact .quiet (.refl _) rfl

end Vm

/-! ## The stack of contexts -/

inductive Stack (caller : String) (bottom : Context) : List Context → Prop
  | bottom (hcaller : bottom.env.caller = caller) (hroll : bottom.rollback = none) :
      Stack caller bottom [bottom]
  | push {ctx below : Context} {rest : List Context} (h : Stack caller bottom (below :: rest))
      (hcaller : ctx.env.caller = account below.env.contractId) :
      Stack caller bottom (ctx :: below :: rest)

theorem Stack.unwind {caller : String} {bottom : Context} {frames : List Context}
    (h : Stack caller bottom frames) {saved : LedgerSavepoint × CallSnapshot} {rest : List Context}
    (hunwind : Contract.unwind frames = some (saved, rest)) : Stack caller bottom rest := by
  induction h with
  | bottom _ hroll => simp [Contract.unwind, hroll] at hunwind
  | @push ctx below rest' h _ ih =>
    simp only [Contract.unwind] at hunwind
    split at hunwind
    · cases hunwind
      exact h
    · exact ih hunwind

/-! ## Limits and draws -/

section Limits

variable (se : LedgerSession) (caller : String) (contracts : List String)

def Since (ok : (String → Int) → Prop) (l : SessionLog) : Prop :=
  ∃ added, l.oplog = se.oplog ++ added ∧
    l.ledgerOps = se.ledgerOps ++ added.flatMap OpLogEvent.updates ∧
    (∀ e ∈ added, e.from_ = caller ∨ ∃ c ∈ contracts, e.from_ = account c) ∧
    ok fun token => drawn added caller (Asset.ofString token)

def Spends (limits left : String → Option Int) (amounts : String → Int) : Prop :=
  ∀ token, amounts token + (left token).getD 0 = (limits token).getD 0 ∧
    (amounts token = 0 ∨ 0 ≤ (left token).getD 0)

def WithinLimits (limits : String → Option Int) (amounts : String → Int) : Prop :=
  ∀ token, amounts token ≤ max 0 ((limits token).getD 0)

variable {se caller contracts} {limits left : String → Option Int} {amounts : String → Int}

theorem Spends.withinLimits (h : Spends limits left amounts) : WithinLimits limits amounts := by
  intro token
  obtain ⟨hsum, hzero | hleft⟩ := h token
  · exact hzero.trans_le (le_max_left ..)
  · exact le_max_of_le_right (by omega)

theorem asset_ofString_inj {token token' : String}
    (h : Asset.ofString token = Asset.ofString token') : token = token' := by
  unfold Asset.ofString at h
  split at h <;> split at h <;> first | rfl | cases h
  rfl

variable {token : String} {event : OpLogEvent} {l : SessionLog}

theorem Spends.draw (h : Spends limits left amounts) {limit amount : Int}
    (hlimit : left token = some limit) (hle : amount ≤ limit) {amounts' : String → Int}
    (hamounts : ∀ token', amounts' token' = amounts token' + if token' = token then amount else 0) :
    Spends limits (Function.update left token (some (limit - amount))) amounts' := by
  intro token'
  obtain ⟨hsum, hleft⟩ := h token'
  rw [hamounts token']
  by_cases heq : token' = token
  · subst heq
    rw [hlimit, Option.getD_some] at hsum
    rw [if_pos rfl, Function.update_self, Option.getD_some]
    exact ⟨by omega, .inr (by omega)⟩
  · rw [if_neg heq, Function.update_of_ne heq, add_zero]
    exact ⟨hsum, hleft⟩

variable {ok : (String → Int) → Prop}

theorem since_refl (h : ok fun _ => 0) : Since se caller contracts ok se.log :=
  ⟨[], by simp [log], by simp [log], by simp, h⟩

theorem Since.push {ok' : (String → Int) → Prop} (h : Since se caller contracts ok l)
    (hpart : event.from_ = caller ∨ ∃ c ∈ contracts, event.from_ = account c)
    (hok : ∀ added, (ok fun token => drawn added caller (Asset.ofString token)) →
      ok' fun token => drawn (added ++ [l.stamped event]) caller (Asset.ofString token)) :
    Since se caller contracts ok' (l.append event) := by
  obtain ⟨added, hoplog, hops, hparts, hdrawn⟩ := h
  refine ⟨added ++ [l.stamped event], ?_, ?_, ?_, hok added hdrawn⟩
  · rw [SessionLog.append, hoplog, append_assoc]
  · rw [SessionLog.append, hops, flatMap_append, append_assoc, flatMap_singleton]
    rfl
  · exact forall_mem_append.2 ⟨hparts, forall_mem_singleton.2 hpart⟩

theorem Since.append (huser : ∀ c, caller ≠ account c) (h : Since se caller contracts ok l)
    {c : String} (hc : c ∈ contracts) (hfrom : event.from_ = account c) :
    Since se caller contracts ok (l.append event) := by
  refine h.push (.inr ⟨c, hc, hfrom⟩) fun added hok => ?_
  have hne : (l.stamped event).from_ ≠ caller := fun heq => huser c (heq.symm.trans hfrom)
  simpa only [drawn_append_singleton, hne, false_and, if_false, add_zero] using hok

theorem Since.draw (h : Since se caller contracts (Spends limits left) l) {limit : Int}
    (hlimit : left token = some limit) (hle : event.amount ≤ limit) (hfrom : event.from_ = caller)
    (hasset : event.asset = Asset.ofString token) :
    Since se caller contracts
      (Spends limits (Function.update left token (some (limit - event.amount)))) (l.append event) := by
  refine h.push (.inl hfrom) fun added hok => hok.draw hlimit hle fun token' => ?_
  rw [drawn_append_singleton]
  congr 1
  have hiff : ((l.stamped event).from_ = caller ∧
      (l.stamped event).asset = Asset.ofString token') ↔ token' = token :=
    ⟨fun h => (asset_ofString_inj (hasset.symm.trans h.2)).symm, fun h => ⟨hfrom, h ▸ hasset⟩⟩
  simp only [hiff]
  rfl

end Limits

inductive Allowed (se : LedgerSession) (caller : String) (contracts : List String)
    (limits : String → Option Int) (vm : Vm) : Prop
  | running {bottom : Context} (hstack : Stack caller bottom vm.frames)
      (h : Nested (Since se caller contracts (Spends limits bottom.limits)) vm.session) :
      Allowed se caller contracts limits vm
  | ended (hframes : vm.frames = [])
      (h : Nested (Since se caller contracts (WithinLimits limits)) vm.session) :
      Allowed se caller contracts limits vm

namespace Allowed

variable {se : LedgerSession} {caller : String} {contracts : List String}
  {limits : String → Option Int} {host : Host} {vm : Vm}

theorem since (h : Allowed se caller contracts limits vm) :
    Since se caller contracts (WithinLimits limits) vm.ledger.log := by
  cases h with
  | running _ h =>
    obtain ⟨added, hoplog, hops, hparts, hok⟩ := h.now
    exact ⟨added, hoplog, hops, hparts, hok.withinLimits⟩
  | ended _ h => exact h.now

theorem within {s : LedgerSession × List LedgerSavepoint} {left : String → Option Int}
    (h : Nested (Since se caller contracts (Spends limits left)) s) :
    Nested (Since se caller contracts (WithinLimits limits)) s :=
  h.imp fun _ ⟨added, hoplog, hops, hparts, hok⟩ => ⟨added, hoplog, hops, hparts, hok.withinLimits⟩

theorem trap (h : Allowed se caller contracts limits vm) :
    Allowed se caller contracts limits vm.trap := by
  cases h with
  | running hstack h =>
    rw [Vm.trap]
    split
    · rename_i sp snap rest hunwind
      exact .running (hstack.unwind hunwind)
        (h.suffix (savepoints_suffix_of_unwind hunwind)).restore
    · exact .ended rfl ((within h).suffix nil_suffix)
  | ended hframes h =>
    rw [Vm.trap, hframes]
    exact .ended rfl (h.suffix nil_suffix)

variable {vm' : Vm}

theorem of_reads (h : Allowed se caller contracts limits vm) (hreads : vm.ledger.Reads vm'.ledger)
    (hframes : vm'.frames = vm.frames) : Allowed se caller contracts limits vm' := by
  have hsession : vm'.session = (vm'.ledger, savepoints vm.frames) := by rw [Vm.session, hframes]
  cases h with
  | running hstack h =>
    refine .running (hframes ▸ hstack) ?_
    rw [hsession]
    exact h.congr hreads.log_eq
  | ended hnil h =>
    refine .ended (hframes.trans hnil) ?_
    rw [hsession]
    exact h.congr hreads.log_eq

theorem of_sent (huser : ∀ c, caller ≠ account c) {bottom : Context}
    (hstack : Stack caller bottom vm'.frames)
    (h : Nested (Since se caller contracts (Spends limits bottom.limits)) vm.session)
    (hsaved : savepoints vm'.frames = savepoints vm.frames) {se' : LedgerSession}
    {event : OpLogEvent} (hreads : vm.ledger.Reads se')
    (hledger : vm'.ledger = se'.appendOplog event) {c : String} (hc : c ∈ contracts)
    (hfrom : event.from_ = account c) : Allowed se caller contracts limits vm' := by
  refine .running hstack ?_
  rw [Vm.session, hledger, hsaved]
  have h' : Nested (Since se caller contracts (Spends limits bottom.limits))
      (se', savepoints vm.frames) := h.congr hreads.log_eq
  exact h'.append (h'.now.append huser hc hfrom)

theorem savepoints_cons_eq {ctx ctx' : Context} (h : ctx'.rollback = ctx.rollback)
    (rest : List Context) : savepoints (ctx' :: rest) = savepoints (ctx :: rest) := by
  simp only [savepoints, filterMap_cons, h]

section

variable (huser : ∀ c, caller ≠ account c)
include huser

theorem of_acts {bottom ctx : Context} {rest : List Context} (hframes : vm.frames = ctx :: rest)
    (hstack : Stack caller bottom vm.frames)
    (h : Nested (Since se caller contracts (Spends limits bottom.limits)) vm.session)
    (hcontracts : ∀ ctx ∈ vm.frames, ctx.env.contractId ∈ contracts) {out : Vm × HostResult}
    (hacts : Acts ctx rest vm out) :
    Allowed se caller contracts limits out.1 ∨
      (∃ msg, out.2 = .error msg) ∧ Allowed se caller contracts limits out.1.trap := by
  have hctx : ctx.env.contractId ∈ contracts := hcontracts ctx (hframes ▸ mem_cons_self)
  cases hacts with
  | quiet hreads hsame => exact .inl (of_reads (.running hstack h) hreads hsame)
  | @refused vm' ctx' msg hreads hframes' henv hroll =>
    -- The context is dropped, so what it has left does not matter.
    have htrap : vm'.trap = (Vm.mk vm'.ledger vm'.calls vm.frames).trap := by
      simp only [Vm.trap, hframes', hframes, unwind, hroll]
    refine .inr ⟨⟨msg, rfl⟩, ?_⟩
    rw [htrap]
    exact trap (of_reads (.running hstack h) hreads rfl)
  | @sent vm' se' event r hreads hledger hsame hfrom =>
    exact .inl (of_sent huser (hsame ▸ hstack) h (by rw [hsame]) hreads hledger hctx hfrom)
  | @drew vm' se' event ctx' token limit r hreads hledger hframes' henv hroll hlimit hle hlimits
      hfrom hasset =>
    rw [hframes] at hstack
    refine .inl ?_
    cases hstack with
    | bottom hcaller hbottom =>
      have hstack' : Stack caller ctx' vm'.frames := by
        rw [hframes']
        exact .bottom (henv ▸ hcaller) (hroll.trans hbottom)
      have hsaved : savepoints [ctx'] = [] := by simp [savepoints, hroll.trans hbottom]
      refine .running hstack' ?_
      rw [Vm.session, hledger, hframes', hsaved, hlimits]
      refine nested_nil ?_
      rw [log_appendOplog, hreads.log_eq]
      exact h.now.draw hlimit hle (hfrom.trans hcaller) hasset
    | @push _ below rest hstack hcaller =>
      have hbelow : below.env.contractId ∈ contracts :=
        hcontracts below (hframes ▸ mem_cons_of_mem _ mem_cons_self)
      have hstack' : Stack caller bottom vm'.frames := by
        rw [hframes']
        exact hstack.push (henv ▸ hcaller)
      refine of_sent huser hstack' h ?_ hreads hledger hbelow (hfrom.trans hcaller)
      rw [hframes', hframes]
      exact savepoints_cons_eq hroll _
  | @called vm' ctx' r hledger hframes' hcaller hroll =>
    have hstack' : Stack caller bottom vm'.frames := by
      rw [hframes', hframes]
      exact (hframes ▸ hstack).push hcaller
    refine .inl (.running hstack' ?_)
    rw [Vm.session, hledger, hframes', savepoints, filterMap_cons]
    cases hsaved : ctx'.rollback with
    | none => exact h
    | some saved =>
      rw [Option.map_some, hroll saved hsaved]
      exact h.save
  | @returned vm' r hledger hframes' =>
    rw [hframes] at hstack
    refine .inl ?_
    cases hstack with
    | bottom hcaller hbottom =>
      refine .ended hframes' ?_
      rw [Vm.session, hledger, hframes']
      exact (within h).suffix nil_suffix
    | @push _ below rest hstack hcaller =>
      refine .running (hframes'.symm ▸ hstack) ?_
      rw [Vm.session, hledger, hframes']
      refine h.suffix (List.IsSuffix.filterMap _ ?_)
      rw [hframes]
      exact suffix_cons _ _

theorem step (hcontracts : ∀ ctx ∈ vm.frames, ctx.env.contractId ∈ contracts)
    (h : Allowed se caller contracts limits vm) (c : HostCall) :
    Allowed se caller contracts limits (vm.stepOrAbort host c) := by
  have htrap : Allowed se caller contracts limits (vm.step host .trap) := by
    rw [Vm.step]
    split
    · exact h
    · exact h.trap
  have hstep : c ≠ .trap → Allowed se caller contracts limits (match vm.frames with
        | [] => vm
        | ctx :: rest =>
          match vm.call host ctx rest c with
          | (vm, .ok _) => vm
          | (vm, .error _) => vm.trap) := by
    intro hc
    split
    · exact h
    rename_i ctx rest hframes
    cases h with
    | ended hnil => simp [hnil] at hframes
    | running hstack h =>
      rcases of_acts huser hframes hstack h hcontracts (vm.acts_call hc) with
        hallowed | ⟨⟨msg, hmsg⟩, hallowed⟩
      · split
        · rename_i hout
          rwa [hout] at hallowed
        rename_i hout
        rw [hout] at hallowed
        exact hallowed.trap
      split
      · rename_i hout
        rw [hout] at hmsg
        cases hmsg
      · rename_i hout
        rwa [hout] at hallowed
  cases c with
  | trap => exact htrap
  | _ => exact hstep (by simp)

theorem run (script : List HostCall) (hcontracts : ∀ c ∈ vm.participants host script, c ∈ contracts)
    (h : Allowed se caller contracts limits vm) :
    Allowed se caller contracts limits (vm.runOrAbort host script) := by
  induction script generalizing vm with
  | nil => exact h
  | cons c script ih =>
    obtain ⟨hnow, hlater⟩ := forall_mem_append.1 hcontracts
    exact ih hlater (h.step huser (fun ctx hctx => hnow _ (mem_map_of_mem hctx)) c)

end

end Allowed

theorem Vm.exists_run_eq_runOrAbort (host : Host) (vm : Vm) (script : List HostCall) :
    ∃ script', vm.runOrAbort host script = vm.run host script' := by
  have hstep : ∀ (vm : Vm) (c : HostCall), ∃ cs, vm.stepOrAbort host c = vm.run host cs := by
    intro vm c
    have htrap : ∀ vm : Vm, vm.trap = vm.step host .trap := by
      intro vm
      rw [step, trap]
      cases hframes : vm.frames with
      | nil => simp only [unwind, ← hframes]
      | cons ctx rest => simp only [call, trap, hframes]
    have hother : ∃ cs, (match vm.frames with
        | [] => vm
        | ctx :: rest =>
          match vm.call host ctx rest c with
          | (vm, .ok _) => vm
          | (vm, .error _) => vm.trap) = vm.run host cs := by
      cases hframes : vm.frames with
      | nil => exact ⟨[], rfl⟩
      | cons ctx rest =>
        have hcall : vm.step host c = (vm.call host ctx rest c).1 := by simp only [step, hframes]
        dsimp only
        split
        · rename_i hout
          exact ⟨[c], by simp only [run, foldl_cons, foldl_nil, hcall, hout]⟩
        rename_i hout
        refine ⟨[c, .trap], ?_⟩
        simp only [run, foldl_cons, foldl_nil, hcall, hout]
        exact htrap _
    cases c with
    | trap => exact ⟨[.trap], rfl⟩
    | _ => exact hother
  induction script generalizing vm with
  | nil => exact ⟨[], rfl⟩
  | cons c script ih =>
    obtain ⟨cs, hcs⟩ := hstep vm c
    obtain ⟨script', hscript⟩ := ih (vm.stepOrAbort host c)
    have happend : vm.run host (cs ++ script') = (vm.run host cs).run host script' :=
      foldl_append
    exact ⟨cs ++ script', by rw [happend, ← hcs, ← hscript]; rfl⟩

/-- A contract that a user calls draws on the user up to the limits the user has
declared, and on no other account but those of the contracts that take part. -/
theorem draws_within_limits (host : Host) (se : LedgerSession) (calls : CallSession)
    (env : Environment) (rcLimit rcFreeRemaining : Int) (huser : ∀ c, env.caller ≠ account c)
    (script : List HostCall) :
    let vm : Vm := ⟨se, calls, [Context.new env rcLimit rcFreeRemaining 0 none]⟩
    ∃ added, se.Adds (vm.runOrAbort host script).ledger added ∧
      (∀ token, drawn added env.caller (Asset.ofString token) ≤
        max 0 ((tokenLimits env.intents token).getD 0)) ∧
      ∀ e ∈ added, e.from_ = env.caller ∨ ∃ c ∈ vm.participants host script, e.from_ = account c := by
  intro vm
  have hstart : Allowed se env.caller (vm.participants host script) (tokenLimits env.intents) vm := by
    refine .running (.bottom rfl rfl) (nested_nil (since_refl ?_))
    exact fun token => ⟨zero_add _, .inl rfl⟩
  obtain ⟨added, hoplog, hops, hparts, hok⟩ := (hstart.run huser script fun _ hc => hc).since
  obtain ⟨script', hscript⟩ := vm.exists_run_eq_runOrAbort host script
  have hacts : ∀ ctx ∈ vm.frames, ctx.ActsFor env.txId env.caller :=
    forall_mem_singleton.2 ⟨rfl, .inl rfl⟩
  have hnests : ReflTransGen (Nests (IssuedFor env.txId env.caller)) vm.session
      (vm.run host script').session := Vm.nests_run hacts script'
  have hstate := state_eq_of_nests hnests
  rw [← hscript] at hstate
  exact ⟨added, ⟨hstate, hoplog, hops⟩, hok, hparts⟩

def aliceAllows : Environment where
  contractId := "c"
  contractOwner := "hive:owner"
  blockHeight := 5
  txId := "t"
  blockId := ""
  index := 0
  opIndex := 0
  timestamp := ""
  requiredAuths := ["hive:alice"]
  requiredPostingAuths := []
  caller := "hive:alice"
  sender := "hive:alice"
  intents := [⟨"transfer.allow", [("token", "hive"), ("limit", "0.005")]⟩]

def aliceDeposit : LedgerDbs where
  ledger := Collection.empty.put
    { id := "deposit", amount := 10, blockHeight := 1, owner := "hive:alice", type := .deposit
      asset := .hive }

def noState : CallSession := { store := ⟨fun _ => none, fun _ _ => none⟩ }

/-- The contract draws three, calls another one that draws on it and fails, and
draws three more, which is refused. -/
theorem draws_within_limits_alice :
    let se : LedgerSession := { state := ⟨aliceDeposit, [], []⟩ }
    let vm : Vm := ⟨se, noState, [Context.new aliceAllows 0 0 0 none]⟩
    let host : Host := ⟨true, fun _ _ => .ok "hive:owner"⟩
    let script : List HostCall :=
      [.pullBalance "" 3 "hive",
        .contractCall "d" [⟨"transfer.allow", [("token", "hive"), ("limit", "2")]⟩] true,
        .pullBalance "" 2 "hive", .trap, .pullBalance "" 3 "hive", .ret]
    (vm.runOrAbort host script).ledger.oplog.map (fun e => (e.from_, e.amount)) =
        [("hive:alice", 3)] ∧
      ∃ added, se.Adds (vm.runOrAbort host script).ledger added ∧
        drawn added "hive:alice" .hive ≤ 5 := by
  refine ⟨by decide, ?_⟩
  have huser : ∀ c, aliceAllows.caller ≠ account c := by
    intro c h
    have hhead := congrArg (fun s => s.toList.head?) h
    simp [account, aliceAllows] at hhead
  obtain ⟨added, hadds, hle, -⟩ := draws_within_limits ⟨true, fun _ _ => .ok "hive:owner"⟩
    { state := ⟨aliceDeposit, [], []⟩ } noState aliceAllows 0 0 huser _
  exact ⟨added, hadds, hle "hive"⟩

end Contract

end VscNode
