import VscNode.Common.Amount
import VscNode.Contract.CallSession
import VscNode.Ledger.Nesting

/-!
# Contract calls

A contract runs in a context and reaches the ledger and the state of contracts
through host calls only. The contexts of a running call and of the calls it has
made in turn form a stack. What the contract's code asks for next is its own
affair; a run of it is a list of host calls, with the returns and traps of the
contexts among them.

A call that is tried takes a savepoint of the ledger session and a snapshot of
the call session, and a trap unwinds the stack to the nearest context that was
tried. On the ledger session every host call is a step of nested savepoints
(`Vm.nests_step`).
-/

namespace VscNode

open Relation Text List

structure Intent where
  type : String := ""
  args : List (String × String) := []
  deriving DecidableEq

namespace Contract

/-! ## Contexts -/

structure Environment where
  (contractId contractOwner : String)
  blockHeight : ℕ
  (txId blockId : String)
  (index opIndex : Int)
  timestamp : String
  (requiredAuths requiredPostingAuths : List String)
  (caller sender : String)
  intents : List Intent

def tokenLimits (intents : List Intent) (token : String) : Option Int :=
  intents.findSome? fun intent =>
    if intent.type = "transfer.allow" ∧ intent.args.lookup "token" = some token then
      (intent.args.lookup "limit").map fun limit =>
        let decimals :=
          match (intent.args.lookup "decimals").map parseInt with
          | some (n, none) => n
          | _ => -1
        parseDecimalsToBaseUnits limit decimals
    else none

/-- A context, with what restores the state before a call that was tried. -/
structure Context where
  env : Environment
  (rcLimit rcFreeRemaining : Int)
  recursion : ℕ
  limits : String → Option Int
  rollback : Option (LedgerSavepoint × CallSnapshot)

def Context.new (env : Environment) (rcLimit rcFreeRemaining : Int) (recursion : ℕ)
    (rollback : Option (LedgerSavepoint × CallSnapshot)) : Context :=
  ⟨env, rcLimit, rcFreeRemaining, recursion, tokenLimits env.intents, rollback⟩

def account (contractId : String) : String := "contract:" ++ contractId

def pendulumNodesHBDBucket : String := "pendulum:nodes"

def maxRecursionDepth : ℕ := 20

/-- What a context finds outside of the sessions. -/
structure Host where
  tryCatchActive : Bool
  /-- The owner of a contract whose code can be loaded. -/
  getContractFromDb : String → ℕ → Except String String

/-! ## Host calls -/

inductive HostCall
  | log (msg : String)
  | getState (key : String)
  | setState (key value : String)
  | deleteState (key : String)
  | contractStateGet (contractId key : String)
  | getEphemState (contractId key : String)
  | setEphemState (key value : String)
  | deleteEphemState (key : String)
  | tssOp (op : TssOp)
  | getBalance (account asset : String)
  | pullBalance (from_ : String) (amount : Int) (asset : String)
  | sendBalance (to_ : String) (amount : Int) (asset : String)
  | withdrawBalance (to_ : String) (amount : Int) (asset : String)
  | accrue (amountHBD : Int)
  | contractCall (contractId : String) (intents : List Intent) (tries : Bool)
  /-- The context at the top returns. -/
  | ret
  /-- The context at the top fails. -/
  | trap

structure Vm where
  ledger : LedgerSession
  calls : CallSession
  frames : List Context

abbrev HostResult := Except String String

def ledgerResult (r : LedgerResult) : HostResult :=
  if r.ok then .ok "" else .error ("ledger_error\n" ++ r.msg)

/-- The context nearest to the top that was tried, and the contexts below it. -/
def unwind : List Context → Option ((LedgerSavepoint × CallSnapshot) × List Context)
  | [] => none
  | ctx :: rest =>
    match ctx.rollback with
    | some saved => some (saved, rest)
    | none => unwind rest

namespace Context

variable (ctx : Context)

/-- The event of a transfer between a contract and another account. -/
def transferEvent (from_ to_ : String) (amount : Int) (asset : String) : OpLogEvent where
  id := ctx.env.txId
  from_ := from_
  to_ := to_
  amount := amount
  asset := Asset.ofString asset
  type := .transfer
  blockHeight := ctx.env.blockHeight

/-- The HBD set aside for resource credits when the payer is drawn from. -/
def exclusion (from_ asset : String) : Int :=
  if asset = "hbd" ∧ hasPrefix from_ "contract:" = false then
    max 0 (ctx.rcLimit - ctx.rcFreeRemaining)
  else 0

def draw (from_ : String) (amount : Int) (asset : String) : Except String Context :=
  if ctx.env.requiredAuths = [] then .error "missing_required_auth\nno active authority"
  else if from_ ≠ ctx.env.caller ∧ from_ ≠ "" then
    .error "ledger_intent_error\nuser does not match caller"
  else
    match ctx.limits asset with
    | none => .error ("ledger_intent_error\nno caller intent for: " ++ asset)
    | some limit =>
      if limit < amount then
        .error ("ledger_intent_error\namount (" ++ formatInt amount ++
          ") is over remaining token limit (" ++ formatInt limit ++ ")")
      else
        .ok { ctx with limits := Function.update ctx.limits asset (some (limit - amount)) }

def callee (contractId owner : String) (intents : List Intent)
    (rollback : Option (LedgerSavepoint × CallSnapshot)) : Context :=
  .new { ctx.env with
      contractId := contractId, contractOwner := owner, caller := account ctx.env.contractId
      intents := intents }
    ctx.rcLimit 0 (ctx.recursion + 1) rollback

end Context

namespace Vm

variable (vm : Vm)

def setCalls (calls : CallSession) : Vm := ⟨vm.ledger, calls, vm.frames⟩

def setLedger (ledger : LedgerSession) : Vm := ⟨ledger, vm.calls, vm.frames⟩

def onLedger (op : SessionOp) : Vm × HostResult :=
  let (ledger, r) := op.execute vm.ledger
  (vm.setLedger ledger, ledgerResult r)

def readState (contractId key : String) : String × Vm :=
  let (s, calls) := vm.calls.getContractSession contractId
  let (value, s) := s.get calls.store.databin key
  (value.getD "", vm.setCalls (calls.update contractId fun _ => s))

def setState (contractId key value : String) : Vm :=
  let (prevValue, vm) := vm.readState contractId key
  let newWriteToAdd := value.utf8ByteSize - prevValue.utf8ByteSize
  vm.setCalls (vm.calls.update contractId fun s => (s.incSize newWriteToAdd).set key value)

def deleteState (contractId key : String) : Vm :=
  let (value, vm) := vm.readState contractId key
  vm.setCalls (vm.calls.update contractId fun s =>
    (s.incSize (key.utf8ByteSize - value.utf8ByteSize)).delete key)

def contractCall (host : Host) (vm : Vm) (ctx : Context) (contractId : String)
    (intents : List Intent) (tries : Bool) : Vm × HostResult :=
  if maxRecursionDepth < ctx.recursion + 1 then
    (vm, .error "ic_recursion_limit_hit\ncall recursion limit hit")
  else
    match host.getContractFromDb contractId ctx.env.blockHeight with
    | .error msg => (vm, .error msg)
    | .ok owner =>
      let rollback :=
        if tries && host.tryCatchActive then some (vm.ledger.savepoint, vm.calls.snapshot)
        else none
      (⟨vm.ledger, vm.calls, ctx.callee contractId owner intents rollback :: vm.frames⟩, .ok "")

def trap : Vm :=
  match unwind vm.frames with
  | some ((sp, snap), rest) => ⟨vm.ledger.restoreSavepoint sp, vm.calls.restore snap, rest⟩
  | none => ⟨vm.ledger, vm.calls, []⟩

def call (host : Host) (vm : Vm) (ctx : Context) (rest : List Context) : HostCall → Vm × HostResult
  | .log msg => (vm.setCalls (vm.calls.appendLogs ctx.env.contractId [msg]), .ok "")
  | .getState key =>
    let (value, vm) := vm.readState ctx.env.contractId key
    (vm, .ok value)
  | .setState key value => (vm.setState ctx.env.contractId key value, .ok "")
  | .deleteState key => (vm.deleteState ctx.env.contractId key, .ok "")
  | .contractStateGet contractId key =>
    let (value, vm) := vm.readState contractId key
    (vm, .ok value)
  | .getEphemState contractId key =>
    let contractId := if contractId = "" then ctx.env.contractId else contractId
    let (s, calls) := vm.calls.getContractSession contractId
    (vm.setCalls calls, .ok ((s.state.ephem key).getD ""))
  | .setEphemState key value =>
    (vm.setCalls (vm.calls.update ctx.env.contractId (·.setEphem key (some value))), .ok "")
  | .deleteEphemState key =>
    (vm.setCalls (vm.calls.update ctx.env.contractId (·.setEphem key none)), .ok "")
  | .tssOp op => (vm.setCalls (vm.calls.appendTssLog ctx.env.contractId op), .ok "")
  | .getBalance account asset =>
    let (bal, ledger) := vm.ledger.getBalance account ctx.env.blockHeight (Asset.ofString asset)
    (vm.setLedger ledger, .ok (formatInt bal))
  | .pullBalance from_ amount asset =>
    match ctx.draw from_ amount asset with
    | .error msg => (vm, .error msg)
    | .ok ctx =>
      -- The limit is used up even where the transfer is then refused.
      Vm.onLedger ⟨vm.ledger, vm.calls, ctx :: rest⟩
        (.transfer (ctx.transferEvent ctx.env.caller (account ctx.env.contractId) amount asset)
          (ctx.exclusion ctx.env.caller asset))
  | .sendBalance to_ amount asset =>
    vm.onLedger (.transfer (ctx.transferEvent (account ctx.env.contractId) to_ amount asset) 0)
  | .withdrawBalance to_ amount asset =>
    vm.onLedger (.withdraw
      { id := ctx.env.txId, from_ := account ctx.env.contractId, to_ := to_, amount := amount
        asset := Asset.ofString asset, blockHeight := ctx.env.blockHeight })
  | .accrue amountHBD =>
    if amountHBD ≤ 0 then (vm, .ok "")
    else
      vm.onLedger (.transfer (ctx.transferEvent (account ctx.env.contractId)
        pendulumNodesHBDBucket amountHBD "hbd") 0)
  | .contractCall contractId intents tries => vm.contractCall host ctx contractId intents tries
  | .ret => (⟨vm.ledger, vm.calls, rest⟩, .ok "")
  | .trap => (vm.trap, .error "")

def step (host : Host) (vm : Vm) (c : HostCall) : Vm :=
  match vm.frames with
  | [] => vm
  | ctx :: rest => (vm.call host ctx rest c).1

def run (host : Host) (vm : Vm) (script : List HostCall) : Vm := script.foldl (step host) vm

end Vm

/-! ## What host calls do to the ledger -/

structure Context.ActsFor (txId caller : String) (ctx : Context) : Prop where
  txId : ctx.env.txId = txId
  caller : ctx.env.caller = caller ∨ ∃ contractId, ctx.env.caller = account contractId

/-- An event of the transaction that moves the caller's or a contract's balance. -/
structure IssuedFor (txId caller : String) (event : OpLogEvent) : Prop where
  id : event.id = txId
  from_ : event.from_ = caller ∨ ∃ contractId, event.from_ = account contractId

def savepoints (frames : List Context) : List LedgerSavepoint :=
  frames.filterMap fun ctx => ctx.rollback.map Prod.fst

variable {frames rest : List Context} {saved : LedgerSavepoint × CallSnapshot}

theorem savepoints_suffix_of_unwind (h : unwind frames = some (saved, rest)) :
    saved.1 :: savepoints rest <:+ savepoints frames := by
  induction frames with
  | nil => cases h
  | cons ctx frames ih =>
    simp only [unwind] at h
    cases hctx : ctx.rollback with
    | none =>
      simp only [hctx] at h
      simpa [savepoints, hctx] using ih h
    | some saved' =>
      simp only [hctx, Option.some.injEq, Prod.mk.injEq] at h
      obtain ⟨rfl, rfl⟩ := h
      simp [savepoints, hctx]

theorem subset_of_unwind (h : unwind frames = some (saved, rest)) : rest ⊆ frames := by
  induction frames with
  | nil => cases h
  | cons ctx frames ih =>
    simp only [unwind] at h
    cases hctx : ctx.rollback with
    | none =>
      simp only [hctx] at h
      exact subset_cons_of_subset _ (ih h)
    | some saved' =>
      simp only [hctx, Option.some.injEq, Prod.mk.injEq] at h
      obtain ⟨-, rfl⟩ := h
      exact subset_cons_self _ _

theorem Context.draw_cases {ctx ctx' : Context} {from_ token : String} {amount : Int}
    (h : ctx.draw from_ amount token = .ok ctx') :
    ∃ limit, ctx.limits token = some limit ∧ amount ≤ limit ∧
      ctx' = { ctx with limits := Function.update ctx.limits token (some (limit - amount)) } := by
  simp only [draw] at h
  iterate 3
    split at h
    · cases h
  rename_i limit hlimit
  split at h
  · cases h
  · rename_i hle
    exact ⟨limit, hlimit, not_lt.1 hle, (Except.ok.inj h).symm⟩

namespace Vm

variable {host : Host} {txId caller : String}

def session (vm : Vm) : LedgerSession × List LedgerSavepoint := (vm.ledger, savepoints vm.frames)

theorem nests_transfer (vm : Vm) {event : OpLogEvent} (h : IssuedFor txId caller event)
    (exclusion : Int) :
    LedgerSession.Nests (IssuedFor txId caller) vm.session
      (vm.onLedger (.transfer event exclusion)).1.session := by
  refine SessionOp.nests (.transfer event exclusion) (fun event' hlogs => ?_) (savepoints vm.frames)
  cases hlogs
  exact ⟨h.id, h.from_⟩

theorem nests_trap (vm : Vm) (ok : OpLogEvent → Prop) :
    LedgerSession.Nests ok vm.session vm.trap.session := by
  rw [trap]
  split
  · rename_i sp snap rest h
    exact .restored (savepoints_suffix_of_unwind h)
  · exact .dropped nil_suffix

theorem nests_contractCall (vm : Vm) (ctx : Context) (contractId : String)
    (intents : List Intent) (tries : Bool) (ok : OpLogEvent → Prop) :
    LedgerSession.Nests ok vm.session (vm.contractCall host ctx contractId intents tries).1.session := by
  rw [contractCall]
  split
  · exact .reads (.refl _)
  split
  · exact .reads (.refl _)
  cases tries && host.tryCatchActive with
  | false => exact .reads (.refl _)
  | true => exact .saved

variable {vm : Vm}

section

variable (h : ∀ ctx ∈ vm.frames, ctx.ActsFor txId caller)

include h

theorem nests_step (c : HostCall) :
    LedgerSession.Nests (IssuedFor txId caller) vm.session (vm.step host c).session := by
  rw [step]
  split
  · exact .reads (.refl _)
  rename_i ctx rest hframes
  have hctx : ctx.ActsFor txId caller := h ctx (hframes ▸ mem_cons_self)
  cases c with
  | getBalance account asset => exact .reads (LedgerSession.reads_getBalance ..)
  | pullBalance from_ amount asset =>
    simp only [call]
    split
    · exact .reads (.refl _)
    rename_i ctx' hdraw
    obtain ⟨limit, -, -, rfl⟩ := Context.draw_cases hdraw
    have hsession : ∀ limits, (Vm.mk vm.ledger vm.calls ({ ctx with limits } :: rest)).session =
        vm.session := fun _ => by simp only [session, savepoints, hframes, filterMap_cons]
    rw [← hsession]
    exact nests_transfer _ ⟨hctx.txId, hctx.caller⟩ _
  | sendBalance to_ amount asset => exact nests_transfer vm ⟨hctx.txId, .inr ⟨_, rfl⟩⟩ 0
  | withdrawBalance to_ amount asset =>
    refine SessionOp.nests (.withdraw _) (fun event hlogs => ?_) _
    cases hlogs
    exact ⟨hctx.txId, .inr ⟨_, rfl⟩⟩
  | accrue amountHBD =>
    simp only [call]
    split
    · exact .reads (.refl _)
    · exact nests_transfer vm ⟨hctx.txId, .inr ⟨_, rfl⟩⟩ 0
  | contractCall contractId intents tries => exact vm.nests_contractCall ctx ..
  | ret =>
    refine .dropped (List.IsSuffix.filterMap _ ?_)
    rw [hframes]
    exact suffix_cons _ _
  | trap => exact vm.nests_trap _
  | _ => exact .reads (.refl _)

theorem actsFor_step (c : HostCall) : ∀ ctx ∈ (vm.step host c).frames, ctx.ActsFor txId caller := by
  rw [step]
  split
  · exact h
  rename_i ctx rest hframes
  rw [hframes] at h
  obtain ⟨hctx, hrest⟩ := forall_mem_cons.1 h
  have hsame : ∀ ctx' ∈ vm.frames, ctx'.ActsFor txId caller := hframes ▸ h
  cases c with
  | pullBalance from_ amount asset =>
    simp only [call]
    split
    · exact hsame
    rename_i ctx' hdraw
    obtain ⟨limit, -, -, rfl⟩ := Context.draw_cases hdraw
    exact forall_mem_cons.2 ⟨⟨hctx.txId, hctx.caller⟩, hrest⟩
  | accrue amountHBD =>
    simp only [call]
    split <;> exact hsame
  | contractCall contractId intents tries =>
    simp only [call, contractCall]
    split
    · exact hsame
    split
    · exact hsame
    · exact forall_mem_cons.2 ⟨⟨hctx.txId, .inr ⟨_, rfl⟩⟩, hsame⟩
  | ret => exact hrest
  | trap =>
    simp only [call, trap]
    split
    · rename_i hunwind
      exact fun ctx' hmem => hsame ctx' (subset_of_unwind hunwind hmem)
    · simp
  | _ => exact hsame

theorem nests_run (script : List HostCall) :
    ReflTransGen (LedgerSession.Nests (IssuedFor txId caller)) vm.session
      (vm.run host script).session := by
  induction script generalizing vm with
  | nil => exact .refl
  | cons c script ih => exact .head (nests_step h c) (ih (actsFor_step h c))

end

end Vm

end Contract

end VscNode
