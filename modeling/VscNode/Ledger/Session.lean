import VscNode.Ledger.BondCycle

/-!
# The operations of a ledger session

A session checks a transfer, a withdrawal or a stake against the balances it
sees and appends one event, or refuses and appends nothing (`execute_cases`). A
savepoint remembers how long the two lists of the session are, with a copy of
its caches; restoring it cuts the lists back to those lengths.
-/

namespace VscNode

open LedgerSession List Text

/-! ## Destinations -/

/-- One dot-separated part of an account name:
`[a-z][0-9a-z\-]*[0-9a-z]`. -/
def hiveNamePart (part : List Char) : Bool :=
  match part with
  | [] => false
  | c :: rest =>
    c.isLower && rest.all (fun d => d.isLower || d.isDigit || d == '-') &&
      rest.getLast?.any fun d => d.isLower || d.isDigit

def hiveRegex (s : String) : Bool := (split '.' s.toList).all hiveNamePart

def ethRegex (s : String) : Bool :=
  match s.toList with
  | '0' :: 'x' :: digits =>
    digits.length == 40 && digits.all fun d =>
      d.isDigit || ('a' ≤ d && d ≤ 'f') || ('A' ≤ d && d ≤ 'F')
  | _ => false

def isHiveAccount (s : String) : Bool := hiveRegex s && 3 ≤ s.length && s.length < 17

def withdrawDest (asset : Asset) (to_ : String) : Except String String :=
  if asset = .hive ∨ asset = .hbd then
    if isHiveAccount to_ then .ok ("hive:" ++ to_)
    else if hasPrefix to_ "hive:" && isHiveAccount ((fields ':' to_).getD 1 "") then .ok to_
    else .error "invalid destination"
  else if asset = .other "eth" ∨ asset = .other "usdc" then
    if hasPrefix to_ "eth:" then
      if ethRegex ((fields ':' to_).getD 1 "") then .ok to_ else .error "invalid eth address"
    else if hasPrefix to_ "did:pkh:eip155:1:" then
      if ethRegex (trimPrefix to_ "did:pkh:eip155:1:") then .ok to_
      else .error "invalid eth address"
    else .error "invalid destination"
  else .error "invalid asset"

/-! ## Operations -/

def transferableAssetTypes : List Asset := [.hive, .hbd, .hbdSavings]

structure WithdrawParams where
  (id from_ to_ : String)
  amount : Int
  asset : Asset
  memo : String := ""
  blockHeight : ℕ
  deriving DecidableEq

structure StakeOp where
  (id from_ to_ : String)
  amount : Int
  asset : Asset
  memo : String := ""
  instant : Bool := false
  blockHeight : ℕ
  deriving DecidableEq

/-- Nothing below 0.002 HBD can be staked or unstaked at once: there is a fee of
0.001. -/
def StakeOp.InvalidAmount (p : StakeOp) : Prop := p.amount ≤ 0 ∨ (p.instant = true ∧ p.amount < 2)
  deriving Decidable

variable (se : LedgerSession)

namespace LedgerSession

/-- `exclusion` is the part of the balance that is set aside for resource
credits. -/
def executeTransfer (event : OpLogEvent) (exclusion : Int) : LedgerSession × LedgerResult :=
  if event.amount ≤ 0 then (se, ⟨false, "invalid amount"⟩)
  else if event.to_ = event.from_ then (se, ⟨false, "cannot send to self"⟩)
  else if hasPrefix event.to_ "system:" then (se, ⟨false, "invalid destination"⟩)
  else if event.asset ∉ transferableAssetTypes then (se, ⟨false, "invalid asset"⟩)
  else
    let (fromBal, se) := se.getBalance event.from_ event.blockHeight event.asset
    if fromBal - exclusion < event.amount then (se, ⟨false, "insufficient balance"⟩)
    else (se.appendOplog { event with type := .transfer }, ⟨true, "success"⟩)

def withdraw (se : LedgerSession) (p : WithdrawParams) : LedgerSession × LedgerResult :=
  if p.amount ≤ 0 then (se, ⟨false, "invalid amount"⟩)
  else
    match withdrawDest p.asset p.to_ with
    | .error msg => (se, ⟨false, msg⟩)
    | .ok dest =>
      let (balAmt, se) := se.getBalance p.from_ p.blockHeight p.asset
      if balAmt < p.amount then (se, ⟨false, "insufficient balance"⟩)
      else
        (se.appendOplog
          { id := p.id, from_ := p.from_, to_ := dest, amount := p.amount, asset := p.asset
            memo := p.memo, type := .withdraw },
          ⟨true, "success"⟩)

def stake (se : LedgerSession) (p : StakeOp) (exclusion : Int) : LedgerSession × LedgerResult :=
  if p.InvalidAmount then (se, ⟨false, "invalid amount"⟩)
  else if p.asset ≠ .hbd then (se, ⟨false, "invalid asset"⟩)
  else
    let (fromBal, se) := se.getBalance p.from_ p.blockHeight .hbd
    if fromBal - exclusion < p.amount then (se, ⟨false, "insufficient balance"⟩)
    else
      (se.appendOplog
        { id := p.id, from_ := p.from_, to_ := p.to_, asset := p.asset, amount := p.amount
          memo := p.memo, type := .stake },
        ⟨true, "success"⟩)

def unstake (se : LedgerSession) (p : StakeOp) : LedgerSession × LedgerResult :=
  if p.InvalidAmount then (se, ⟨false, "invalid amount"⟩)
  else if p.asset ≠ .hbd ∧ p.asset ≠ .hbdSavings then (se, ⟨false, "invalid asset"⟩)
  else
    let (fromBal, se) := se.getBalance p.from_ p.blockHeight .hbdSavings
    if fromBal < p.amount then (se, ⟨false, "insufficient balance"⟩)
    else
      (se.appendOplog
        { id := p.id, from_ := p.from_, to_ := p.to_, asset := p.asset, amount := p.amount
          memo := p.memo, type := .unstake },
        ⟨true, "success"⟩)

end LedgerSession

/-! ## Savepoints -/

structure LedgerSavepoint where
  (oplogLen ledgerOpsLen : ℕ)
  balances : String × Asset → Option Int
  idCache : String → ℕ

namespace LedgerSession

def savepoint : LedgerSavepoint :=
  ⟨se.oplog.length, se.ledgerOps.length, se.balances, se.idCache⟩

/-- Each list is cut on its own, and only where it is long enough. -/
def restoreSavepoint (sp : LedgerSavepoint) : LedgerSession :=
  { state := se.state
    oplog := if sp.oplogLen ≤ se.oplog.length then se.oplog.take sp.oplogLen else se.oplog
    ledgerOps :=
      if sp.ledgerOpsLen ≤ se.ledgerOps.length then se.ledgerOps.take sp.ledgerOpsLen
      else se.ledgerOps
    balances := sp.balances
    idCache := sp.idCache }

end LedgerSession

/-! ## What an operation does -/

inductive SessionOp
  | transfer (event : OpLogEvent) (exclusion : Int)
  | withdraw (p : WithdrawParams)
  | stake (p : StakeOp) (exclusion : Int)
  | unstake (p : StakeOp)
  | consensus (op : ConsensusOp)
  deriving DecidableEq

def SessionOp.execute (se : LedgerSession) : SessionOp → LedgerSession × LedgerResult
  | transfer event exclusion => se.executeTransfer event exclusion
  | withdraw p => se.withdraw p
  | stake p exclusion => se.stake p exclusion
  | unstake p => se.unstake p
  | consensus op => op.execute se

def SessionOp.id : SessionOp → String
  | transfer event _ => event.id
  | withdraw p => p.id
  | stake p _ => p.id
  | unstake p => p.id
  | consensus op => op.params.id

/-- The events an operation may leave in the log of a session, with the checks
it has passed. -/
inductive SessionOp.Logs (se : LedgerSession) : SessionOp → OpLogEvent → Prop
  | transfer (event : OpLogEvent) (exclusion : Int) (hpos : 0 < event.amount)
      (hself : event.to_ ≠ event.from_) (hdest : hasPrefix event.to_ "system:" = false)
      (hasset : event.asset ∈ transferableAssetTypes)
      (hbal : event.amount ≤
        (se.getBalance event.from_ event.blockHeight event.asset).1 - exclusion) :
      Logs se (.transfer event exclusion) { event with type := .transfer }
  | withdraw (p : WithdrawParams) (dest : String) (hpos : 0 < p.amount)
      (hdest : withdrawDest p.asset p.to_ = .ok dest)
      (hbal : p.amount ≤ (se.getBalance p.from_ p.blockHeight p.asset).1) :
      Logs se (.withdraw p)
        { id := p.id, from_ := p.from_, to_ := dest, amount := p.amount, asset := p.asset
          memo := p.memo, type := .withdraw }
  | stake (p : StakeOp) (exclusion : Int) (hpos : 0 < p.amount) (hasset : p.asset = .hbd)
      (hbal : p.amount ≤ (se.getBalance p.from_ p.blockHeight .hbd).1 - exclusion) :
      Logs se (.stake p exclusion)
        { id := p.id, from_ := p.from_, to_ := p.to_, asset := p.asset, amount := p.amount
          memo := p.memo, type := .stake }
  | unstake (p : StakeOp) (hpos : 0 < p.amount) (hasset : p.asset = .hbd ∨ p.asset = .hbdSavings)
      (hbal : p.amount ≤ (se.getBalance p.from_ p.blockHeight .hbdSavings).1) :
      Logs se (.unstake p)
        { id := p.id, from_ := p.from_, to_ := p.to_, asset := p.asset, amount := p.amount
          memo := p.memo, type := .unstake }
  | consensus (op : ConsensusOp) (event : OpLogEvent) (hlogs : op.Logs event) :
      Logs se (.consensus op) event

inductive SessionOp.Ends (se : LedgerSession) (op : SessionOp) :
    LedgerSession × LedgerResult → Prop
  | refused {se' : LedgerSession} (msg : String) (hreads : se.Reads se') :
      Ends se op (se', ⟨false, msg⟩)
  | logged {se' : LedgerSession} {event : OpLogEvent} (hreads : se.Reads se')
      (hlogs : op.Logs se event) : Ends se op (se'.appendOplog event, ⟨true, "success"⟩)

theorem SessionOp.execute_cases (op : SessionOp) (se : LedgerSession) :
    op.Ends se (op.execute se) := by
  cases op with
  | transfer event exclusion =>
    have hread := se.reads_getBalance event.from_ event.blockHeight event.asset
    simp only [execute, LedgerSession.executeTransfer]
    split_ifs with hpos hself hdest hasset hbal
    · exact .refused _ (.refl se)
    · exact .refused _ (.refl se)
    · exact .refused _ (.refl se)
    · exact .refused _ hread
    · exact .logged hread (.transfer event exclusion (not_le.1 hpos) hself
        (Bool.eq_false_iff.2 hdest) hasset (not_lt.1 hbal))
    · exact .refused _ (.refl se)
  | withdraw p =>
    have hread := se.reads_getBalance p.from_ p.blockHeight p.asset
    simp only [execute, LedgerSession.withdraw]
    split
    · exact .refused _ (.refl se)
    rename_i hpos
    split
    · exact .refused _ (.refl se)
    rename_i dest hdest
    split
    · exact .refused _ hread
    · rename_i hbal
      exact .logged hread (.withdraw p dest (not_le.1 hpos) hdest (not_lt.1 hbal))
  | stake p exclusion =>
    have hread := se.reads_getBalance p.from_ p.blockHeight .hbd
    simp only [execute, LedgerSession.stake]
    split_ifs with hpos hasset hbal
    · exact .refused _ (.refl se)
    · exact .refused _ (.refl se)
    · exact .refused _ hread
    · exact .logged hread (.stake p exclusion (not_le.1 fun h => hpos (.inl h))
        (not_not.1 hasset) (not_lt.1 hbal))
  | unstake p =>
    have hread := se.reads_getBalance p.from_ p.blockHeight .hbdSavings
    simp only [execute, LedgerSession.unstake]
    split_ifs with hpos hasset hbal
    · exact .refused _ (.refl se)
    · exact .refused _ (.refl se)
    · exact .refused _ hread
    · exact .logged hread (.unstake p (not_le.1 fun h => hpos (.inl h))
        (by tauto) (not_lt.1 hbal))
  | consensus op =>
    rw [execute]
    rcases op.ends se with ⟨se', msg, hreads, heq⟩ | ⟨se', event, hreads, hlogs, heq⟩ <;> rw [heq]
    · exact .refused _ hreads
    · exact .logged hreads (.consensus _ _ hlogs)

theorem SessionOp.Logs.id_eq {se : LedgerSession} {op : SessionOp} {event : OpLogEvent}
    (h : op.Logs se event) : event.id = op.id := by
  cases h with
  | consensus op event hlogs => cases hlogs <;> rfl
  | _ => rfl

/-! ## What an appended event changes -/

namespace LedgerSession

theorem ledgerOps_appendLedger (event : LedgerUpdate) :
    (se.appendLedger event).ledgerOps = se.ledgerOps ++ [event] := by
  change (se.getBalance event.owner event.blockHeight event.asset).2.ledgerOps ++ _ = _
  rw [(reads_getBalance se ..).ledgerOps]

theorem ledgerOps_foldl_appendLedger (events : List LedgerUpdate) (se : LedgerSession) :
    (events.foldl appendLedger se).ledgerOps = se.ledgerOps ++ events := by
  induction events generalizing se with
  | nil => exact (append_nil _).symm
  | cons event events ih =>
    rw [foldl_cons, ih, ledgerOps_appendLedger, append_assoc, singleton_append]

theorem ledgerOps_appendOplog (event : OpLogEvent) :
    (se.appendOplog event).ledgerOps =
      se.ledgerOps ++ opLedgerRecords { event with id := se.eventId event.id } event.blockHeight :=
  ledgerOps_foldl_appendLedger _ _

variable {k : String × Asset} {se : LedgerSession}

theorem balances_appendLedger {event : LedgerUpdate} (hk : event.asset ≠ k.2) :
    (se.appendLedger event).balances k = se.balances k := by
  have hne : k ≠ (event.owner, event.asset) := fun h => hk (congrArg Prod.snd h).symm
  have hread : (se.getBalance event.owner event.blockHeight event.asset).2.balances k =
      se.balances k := by
    rw [getBalance]
    split
    · rfl
    · exact Function.update_of_ne hne ..
  exact (Function.update_of_ne hne ..).trans hread

theorem balances_foldl_appendLedger {events : List LedgerUpdate} (hk : ∀ u ∈ events, u.asset ≠ k.2)
    (se : LedgerSession) : (events.foldl appendLedger se).balances k = se.balances k := by
  induction events generalizing se with
  | nil => rfl
  | cons event events ih =>
    rw [foldl_cons, ih fun u hu => hk u (mem_cons_of_mem _ hu),
      balances_appendLedger (hk event mem_cons_self)]

theorem balances_appendOplog {event : OpLogEvent}
    (hk : ∀ u ∈ opLedgerRecords { event with id := se.eventId event.id } event.blockHeight,
      u.asset ≠ k.2) :
    (se.appendOplog event).balances k = se.balances k :=
  balances_foldl_appendLedger hk _

end LedgerSession

/-! ## The rows of different events -/

theorem eq_id_of_mem_opLedgerRecords {v v' : OpLogEvent} {endBlock endBlock' : ℕ}
    {u u' : LedgerUpdate} (hu : u ∈ opLedgerRecords v endBlock)
    (hu' : u' ∈ opLedgerRecords v' endBlock') (hid : u.id = u'.id) : v.id = v'.id := by
  have htag : ∀ {w : OpLogEvent} {e : ℕ} {x : LedgerUpdate}, x ∈ opLedgerRecords w e →
      ∃ s word : String, x.id = w.id ++ s ∧ s.toList = '#' :: word.toList ∧ Free '#' word := by
    intro w e x hx
    rcases id_of_mem_opLedgerRecords hx with h | h | h | h
    · exact ⟨_, "in", h, by rfl, by decide⟩
    · exact ⟨_, "out", h, by rfl, by decide⟩
    · exact ⟨_, "edge", h, by rfl, by decide⟩
    · exact ⟨_, "total", h, by rfl, by decide⟩
  obtain ⟨s, word, hs, hword, hfree⟩ := htag hu
  obtain ⟨s', word', hs', hword', hfree'⟩ := htag hu'
  rw [hs, hs'] at hid
  -- The last pieces of the two ids are the tags.
  have hfields := congrArg (fields '#') hid
  rw [fields_suffix word hword hfree, fields_suffix word' hword' hfree'] at hfields
  have heq : word = word' := singleton_inj.1 (append_inj_right' hfields rfl)
  have hss : s = s' := by rw [← String.toList_inj, hword, hword', heq]
  rw [hss] at hid
  exact append_right_cancel_iff.1 hid

theorem nodup_id_opLedgerRecords (v : OpLogEvent) (endBlock : ℕ) :
    ((opLedgerRecords v endBlock).map (·.id)).Nodup := by
  cases hv : v.type <;> cases hd : v.params.delegated <;>
    simp [opLedgerRecords, hv, hd]

theorem nodup_id_executeOplog {oplog : List OpLogEvent} (h : (oplog.map (·.id)).Nodup)
    (endBlock : ℕ) : ((executeOplog oplog endBlock).1.map (·.id)).Nodup := by
  rw [executeOplog, map_flatMap, nodup_flatMap]
  refine ⟨fun v _ => nodup_id_opLedgerRecords v endBlock, ?_⟩
  refine (pairwise_map.1 h).imp fun {v v'} hne => ?_
  intro id hmem hmem'
  obtain ⟨u, hu, rfl⟩ := mem_map.1 hmem
  obtain ⟨u', hu', heq⟩ := mem_map.1 hmem'
  exact hne (eq_id_of_mem_opLedgerRecords hu hu' heq.symm)

end VscNode
