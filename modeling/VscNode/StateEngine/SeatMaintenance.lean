import VscNode.Pendulum.SettlementWrites
import VscNode.StateEngine.PoaSeats

/-!
# Seat maintenance at a ratified election

The first election under the seat rules seeds the registry, later ones record which
seats were in the committee and which have left it. All of it is written while the
operation that brings the election is executed: the settlement of the closing epoch
row by row, the election itself, then the seats one by one. A node that stops in
between processes the block again from its first operation.

Seeding and the seat updates can be repeated. The operation is not: an election that is
stored already is a duplicate, so nothing of it is executed a second time, and the seat
writes that were left are never made. Before that, a settlement that is refused the
second time keeps the election out. `recovered` says where a node may stop for the
registry to converge.
-/

namespace VscNode.StateEngine

open Collection Governance List
open Pendulum (SettlementEnv SettlementRecord SettlementStore SettlementWrite Version
  applyPendulumSettlement settlementWrites)

seal normalizeAccount

/-! ## Seat writes -/

inductive SeatWrite
  | admitSeat (seat : Seat)
  | setSeating (account : String) (height : ℕ)
  | setExit (account : String) (height : ℕ)
  deriving DecidableEq

namespace PoaSeats

/-- One write; a seat that is there already, or whose owner has one, is left as it is. -/
def write (seats : PoaSeats) : SeatWrite → PoaSeats
  | .admitSeat seat => (seats.admitSeat seat).toOption.getD seats
  | .setSeating account height => seats.setSeating account height
  | .setExit account height => seats.setExit account height

def writeAll (seats : PoaSeats) (ws : List SeatWrite) : PoaSeats := ws.foldl write seats

def Keeps (a b : PoaSeats) : Prop :=
  ∀ seat ∈ a, ∃ seat' ∈ b, seat'.account = seat.account ∧ seat'.uboId = seat.uboId

theorem Keeps.refl (a : PoaSeats) : a.Keeps a := fun seat h => ⟨seat, h, rfl, rfl⟩

variable {a b : PoaSeats}

theorem Keeps.trans {c : PoaSeats} (hab : a.Keeps b) (hbc : b.Keeps c) : a.Keeps c := by
  intro seat h
  obtain ⟨seat', h', hacct, hubo⟩ := hab seat h
  obtain ⟨seat'', h'', hacct', hubo'⟩ := hbc seat' h'
  exact ⟨seat'', h'', hacct'.trans hacct, hubo'.trans hubo⟩

variable (seats : PoaSeats)

theorem keeps_updateOne (account : String) (guard : Seat → Bool)
    {set : Seat → Seat} (hset : ∀ seat, (set seat).account = seat.account)
    (hubo : ∀ seat, (set seat).uboId = seat.uboId) :
    seats.Keeps (seats.updateOne account guard set hset) := by
  intro seat h
  refine ⟨_, mem_modify.2 ⟨seat, h, rfl⟩, ?_, ?_⟩
  · split
    · exact hset seat
    · rfl
  split
  · exact hubo seat
  · rfl

variable {request : Seat} {account : String} {uboId : String}

theorem keeps_admitSeat {seats seats' : PoaSeats} (hadm : seats.admitSeat request = .ok seats') :
    seats.Keeps seats' := by
  obtain ⟨-, -, -, -, hnone, rfl⟩ := admitSeat_eq_ok.1 hadm
  intro seat h
  exact ⟨seat, mem_put.2 (.inr ⟨h, get?_eq_none_iff.1 hnone seat h⟩), rfl, rfl⟩

theorem keeps_write (w : SeatWrite) : seats.Keeps (seats.write w) := by
  cases w with
  | admitSeat request =>
    rw [write]
    cases hadm : seats.admitSeat request with
    | error e => exact .refl seats
    | ok seats' => exact keeps_admitSeat hadm
  | setSeating account height =>
    rw [write, setSeating]
    split
    · exact .refl seats
    · exact keeps_updateOne _ _ _ _ fun _ => rfl
  | setExit account height =>
    rw [write, setExit]
    split
    · exact .refl seats
    · exact keeps_updateOne _ _ _ _ fun _ => rfl

theorem keeps_writeAll (ws : List SeatWrite) : seats.Keeps (seats.writeAll ws) := by
  induction ws generalizing seats with
  | nil => exact .refl seats
  | cons w ws ih => exact (keeps_write seats w).trans (ih _)

theorem Keeps.get?_eq_none (h : a.Keeps b) (hnone : b.get? account = none) :
    a.get? account = none := by
  refine get?_eq_none_iff.2 fun seat hseat hacct => ?_
  obtain ⟨seat', hseat', hacct', -⟩ := h seat hseat
  exact get?_eq_none_iff.1 hnone seat' hseat' (hacct'.trans hacct)

theorem getSeatByUbo_eq_none {seats : PoaSeats} :
    seats.getSeatByUbo uboId = none ↔ uboId = "" ∨ ∀ seat ∈ seats, seat.uboId ≠ uboId := by
  rw [getSeatByUbo]
  split
  · simp [*]
  · simp [*, find?_eq_none, mem_docs]

end PoaSeats

/-! ## Elections -/

structure TxElectionResult where
  epoch : ℕ
  members : List TransactionPool.ElectionMember
  version : Version
  settlement : Option SettlementRecord
  deriving DecidableEq

def TxElectionResult.result (tx : TxElectionResult) (blockHeight : ℕ) : ElectionResult :=
  ⟨tx.epoch, blockHeight, tx.members, tx.version⟩

/-- What a network sets, and what other components decide: whether a committee has
signed a result with the weight it needs at a height, who delegates to share-mode nodes
and which settlement the node derives, and whether the newest announcement of an account
below a height proves the consensus key and the gateway key, if there is one.
Announcements come from Hive accounts, whose names are in normal form. -/
structure ElectionRules where
  (minMembers electionDupeFixEpoch : ℕ)
  approved : ElectionResult → TxElectionResult → ℕ → Bool
  onTestnet : Bool
  shareDelegators : List String → ℕ → List String
  composeRecord : SettlementRecord → Int → Option SettlementRecord
  proofs : String → ℕ → Option (Bool × Bool)
  proofs_normal : ∀ account height, (proofs account height).isSome = true →
    normalizeAccount account = account

def ElectionRules.settlementEnv (rules : ElectionRules) (db : ElectionDb) : SettlementEnv :=
  ⟨rules.onTestnet, fun height => (db.getElectionByHeight height).map ElectionResult.accounts,
    rules.shareDelegators, rules.composeRecord⟩

variable (v : Version)

def minMembersGuardActive : Bool := v.meetsConsensusMin ⟨0, 4, 0⟩

def poaSeatGateActive : Bool := v.meetsConsensusMin ⟨0, 7, 0⟩

def poaBootstrapFromPriorCommitteeActive : Bool := v.meetsConsensusMin ⟨0, 9, 0⟩

def poaBootstrapProvesKeysActive : Bool := v.meetsConsensusMin ⟨0, 9, 0⟩

/-- The accounts of a committee, each once. -/
def memberSet (e : ElectionResult) : List String :=
  ((e.accounts.map normalizeAccount).filter (· ≠ "")).dedup

section Maintenance

variable (rules : ElectionRules)

variable (elecResult : ElectionResult) (members : List String) (blockHeight : ℕ)

/-- A seat of the founding committee; who is not in the current one has left it. -/
def bootstrapSeat (current : List String) (acct : String) : Seat :=
  { account := acct, uboId := "", admittedHeight := blockHeight, lastSeatedHeight := blockHeight
    exitHeight := if acct ∈ current then 0 else blockHeight }

def belowMinMembers : Bool :=
  0 < rules.minMembers ∧ members.length < rules.minMembers

def provenMembers : List String :=
  members.filter fun acct => rules.proofs acct blockHeight = some (true, true)

def seedPoaSeats (members current : List String) : List SeatWrite :=
  if members = [] then []
  else if belowMinMembers rules members then []
  else if poaBootstrapProvesKeysActive elecResult.version then
    let proven := provenMembers rules members blockHeight
    if belowMinMembers rules proven then []
    else (proven.insertionSort (· ≤ ·)).map (.admitSeat ∘ bootstrapSeat blockHeight current)
  else (members.insertionSort (· ≤ ·)).map (.admitSeat ∘ bootstrapSeat blockHeight current)

def bootstrapPoaSeats (prevElection : Option ElectionResult) (blockHeight : ℕ)
    (members : List String) : List SeatWrite :=
  let seeded :=
    match prevElection with
    | none => members
    | some prev =>
      if poaBootstrapFromPriorCommitteeActive elecResult.version ∧ prev.members ≠ [] then
        memberSet prev
      else members
  seedPoaSeats rules elecResult blockHeight seeded members

def applyPoaSeatMaintenance (seats : PoaSeats) (elecResult : ElectionResult)
    (prevElection : Option ElectionResult) (blockHeight : ℕ) : List SeatWrite :=
  if poaSeatGateActive elecResult.version = false then []
  else
    let members := memberSet elecResult
    if prevElection.any fun prev => poaSeatGateActive prev.version = false then
      bootstrapPoaSeats rules elecResult prevElection blockHeight members
    else if seats.getSeatsAtHeight blockHeight = [] then
      if prevElection = none then bootstrapPoaSeats rules elecResult none blockHeight members
      else []
    else
      (seats.getSeatsAtHeight blockHeight).map fun seat =>
        if seat.account ∈ members then .setSeating seat.account blockHeight
        else .setExit seat.account blockHeight

end Maintenance

/-! ## The engine -/

structure SeatEngine where
  electionDb : ElectionDb
  poaSeats : PoaSeats
  settlements : SettlementStore

inductive EngineWrite
  | settlement (w : SettlementWrite)
  | storeElection (e : ElectionResult)
  | seat (w : SeatWrite)
  deriving DecidableEq

/-- Operations that reach the seats or the ledger; admissions are those that votes have
granted. -/
inductive SeatOp
  | electionResult (tx : TxElectionResult)
  | admitSeat (account uboId : String)
  | storeLedger (rows : List LedgerRecord)
  deriving DecidableEq

namespace SeatEngine

def write (s : SeatEngine) : EngineWrite → SeatEngine
  | .settlement w => { s with settlements := s.settlements.write w }
  | .storeElection e => { s with electionDb := s.electionDb.put e }
  | .seat w => { s with poaSeats := s.poaSeats.write w }

variable (rules : ElectionRules) (s : SeatEngine) (tx : TxElectionResult) (blockHeight : ℕ)

variable (ws : List EngineWrite) (height : ℕ)

def writeAll : SeatEngine := ws.foldl write s

section

variable (prevElection : ElectionResult)

/-- The settlement in an election result, or the mark of an epoch without one. -/
def settlementRecord : Option SettlementRecord :=
  match tx.settlement with
  | some record => some record
  | none =>
    if 2 ≤ tx.epoch ∧ s.settlements.getLatestSettledEpoch < tx.epoch - 1 then
      some ⟨tx.epoch - 1, s.settlements.getLatestSettledEpoch, prevElection.blockHeight,
        blockHeight, 0, 0, 0, [], []⟩
    else none

def settleWrites : List SettlementWrite :=
  match s.settlementRecord tx blockHeight prevElection with
  | some record => settlementWrites (rules.settlementEnv s.electionDb) s.settlements record blockHeight
  | none => []

def ratify : List EngineWrite :=
  let settled := (s.settleWrites rules tx blockHeight prevElection).map .settlement
  if 2 ≤ tx.epoch ∧ (s.writeAll settled).settlements.getLatestSettledEpoch < tx.epoch - 1 then settled
  else
    let elecResult := tx.result blockHeight
    settled ++ .storeElection elecResult ::
      (applyPoaSeatMaintenance rules s.poaSeats elecResult prevElection blockHeight).map .seat

end

def executeTx : List EngineWrite :=
  if tx.epoch = 0 then
    if (s.electionDb.get? 0).isSome then [] else [.storeElection (tx.result blockHeight)]
  else
    match s.electionDb.get? (tx.epoch - 1) with
    | none => []
    | some prevElection =>
      if tx.epoch ≤ prevElection.epoch then []
      else if rules.electionDupeFixEpoch ≤ tx.epoch ∧ (s.electionDb.get? tx.epoch).isSome then []
      else if rules.approved prevElection tx blockHeight = false then []
      else if minMembersGuardActive (s.electionDb.activeConsensusVersion blockHeight) ∧
          tx.members.length < rules.minMembers then []
      else s.ratify rules tx blockHeight prevElection

/-- The writes of an operation, in order. -/
def opWrites (s : SeatEngine) : SeatOp → List EngineWrite
  | .electionResult tx => s.executeTx rules tx blockHeight
  | .admitSeat account uboId => [.seat (.admitSeat ⟨account, uboId, blockHeight, 0, 0⟩)]
  | .storeLedger rows => rows.map (.settlement ∘ .storeLedger)

def execute (s : SeatEngine) (op : SeatOp) : SeatEngine :=
  s.writeAll (s.opWrites rules blockHeight op)

abbrev L1Block := ℕ × List SeatOp

def processBlock (b : L1Block) : SeatEngine :=
  b.2.foldl (execute rules b.1) s

/-- A node that stops after `n` writes of an operation. -/
def stopped (op : SeatOp) (n : ℕ) : SeatEngine :=
  s.writeAll ((s.opWrites rules height op).take n)

theorem writeAll_append (ws ws' : List EngineWrite) :
    s.writeAll (ws ++ ws') = (s.writeAll ws).writeAll ws' := foldl_append

theorem writeAll_seat (ws : List SeatWrite) :
    s.writeAll (ws.map .seat) = { s with poaSeats := s.poaSeats.writeAll ws } := by
  induction ws generalizing s with
  | nil => rfl
  | cons w ws ih => exact ih (s.write (.seat w))

theorem writeAll_settlement (ws : List SettlementWrite) : s.writeAll (ws.map .settlement) =
    { s with settlements := ws.foldl SettlementStore.write s.settlements } := by
  induction ws generalizing s with
  | nil => rfl
  | cons w ws ih => exact ih (s.write (.settlement w))

variable {rules : ElectionRules} {s : SeatEngine} {height : ℕ}

variable {u : SeatEngine} {tx : TxElectionResult} {e : ElectionResult}

/-! ## The settlement again -/

section Settle

variable {prev : ElectionResult} {n : ℕ}

/-- The writes apply the record of the closing epoch. -/
theorem writeAll_settleWrites :
    s.writeAll ((s.settleWrites rules tx height prev).map .settlement) =
      { s with settlements := match s.settlementRecord tx height prev with
          | some record => applyPendulumSettlement (rules.settlementEnv s.electionDb) s.settlements
              record height
          | none => s.settlements } := by
  rw [writeAll_settlement, settleWrites]
  cases s.settlementRecord tx height prev with
  | none => rfl
  | some record =>
    dsimp only
    rw [Pendulum.foldl_settlementWrites]

/-- A node that has settled does not settle again. -/
theorem settle_again (h : ∃ m, .saveMarker m ∈ (s.settleWrites rules tx height prev).take n)
    (hu : u = s.writeAll (((s.settleWrites rules tx height prev).take n).map .settlement)) :
    u.writeAll ((u.settleWrites rules tx height prev).map .settlement) =
      s.writeAll ((s.settleWrites rules tx height prev).map .settlement) := by
  obtain ⟨m, hm⟩ := h
  rw [writeAll_settlement] at hu
  rw [writeAll_settleWrites, writeAll_settleWrites, hu]
  refine congrArg (SeatEngine.mk _ _) ?_
  dsimp only
  cases hsettlement : tx.settlement with
  | some record =>
    have hrecord : ∀ u : SeatEngine, u.settlementRecord tx height prev = some record := fun u => by
      rw [settlementRecord, hsettlement]
    have hwrites : s.settleWrites rules tx height prev =
        settlementWrites (rules.settlementEnv s.electionDb) s.settlements record height := by
      rw [settleWrites, hrecord]
    rw [hwrites] at hm
    rw [hrecord, hrecord, hwrites]
    exact Pendulum.apply_again_of_marker ⟨m, hm⟩
  | none =>
    cases hrecord : s.settlementRecord tx height prev with
    | none =>
      rw [settleWrites, hrecord] at hm
      simp at hm
    | some record =>
      have hepoch : record.epoch = tx.epoch - 1 := by
        rw [settlementRecord, hsettlement] at hrecord
        dsimp only at hrecord
        split at hrecord
        · exact congrArg SettlementRecord.epoch (Option.some.inj hrecord).symm
        · cases hrecord
      rw [settleWrites, hrecord] at hm ⊢
      obtain ⟨heq, hsettled⟩ := Pendulum.foldl_take_of_marker ⟨m, hm⟩
      rw [hepoch] at hsettled
      dsimp only
      rw [heq, settlementRecord, hsettlement]
      dsimp only
      rw [if_neg fun hopen => absurd hopen.2 (not_lt.2 hsettled)]

end Settle

/-- The operation brings an election that is stored. -/
def Ratifies (rules : ElectionRules) (s : SeatEngine) (tx : TxElectionResult) (height : ℕ) : Prop :=
  ∃ e, .storeElection e ∈ s.executeTx rules tx height

section

variable (rules : ElectionRules) (s : SeatEngine)

variable (tx : TxElectionResult)

theorem executeTx_cases (height : ℕ) :
    s.executeTx rules tx height = [] ∨
      (s.executeTx rules tx height = [.storeElection (tx.result height)]) ∨
      ∃ prevElection, ∀ u : SeatEngine, u.electionDb = s.electionDb →
        u.executeTx rules tx height = u.ratify rules tx height prevElection := by
  by_cases hzero : tx.epoch = 0
  · rw [executeTx, if_pos hzero]
    split
    · exact .inl rfl
    · exact .inr (.inl rfl)
  have hexec : ∀ u : SeatEngine, u.executeTx rules tx height = _ := fun u => by
    rw [executeTx, if_neg hzero]
  rw [hexec]
  cases hprev : s.electionDb.get? (tx.epoch - 1) with
  | none => exact .inl rfl
  | some prevElection =>
    dsimp only
    split
    · exact .inl rfl
    rename_i horder
    split
    · exact .inl rfl
    rename_i hdupe
    split
    · exact .inl rfl
    rename_i happroved
    split
    · exact .inl rfl
    rename_i hmin
    refine .inr (.inr ⟨prevElection, fun u hu => ?_⟩)
    rw [hexec, hu, hprev]
    dsimp only
    rw [if_neg horder, if_neg hdupe, if_neg happroved, if_neg hmin]

end

theorem ratify_eq {prev : ElectionResult} {settled : List EngineWrite}
    (hsettled : (u.settleWrites rules tx height prev).map .settlement = settled)
    (hgate : ¬(2 ≤ tx.epoch ∧
      (u.writeAll settled).settlements.getLatestSettledEpoch < tx.epoch - 1)) :
    u.ratify rules tx height prev = settled ++ .storeElection (tx.result height) ::
      (applyPoaSeatMaintenance rules u.poaSeats (tx.result height) prev height).map .seat := by
  rw [ratify, hsettled, if_neg hgate]

/-- A ratified election settles, stores the election and writes its seats; and it does the rest
where it has settled already. -/
theorem Ratifies.writes (h : s.Ratifies rules tx height) :
    ∃ settled : List SettlementWrite, ∃ ws : List SeatWrite,
      s.executeTx rules tx height =
        settled.map .settlement ++ .storeElection (tx.result height) :: ws.map .seat ∧
      ∀ n, (∃ m, .saveMarker m ∈ settled.take n) →
        execute rules height (s.writeAll ((settled.take n).map .settlement)) (.electionResult tx) =
          execute rules height s (.electionResult tx) := by
  obtain ⟨e, he⟩ := h
  rcases executeTx_cases rules s tx height with hnone | hfirst | ⟨prev, hexec⟩
  · rw [hnone] at he
    cases he
  · refine ⟨[], [], hfirst, fun n _ => ?_⟩
    rw [take_nil]
    rfl
  have hgate : ¬(2 ≤ tx.epoch ∧ (s.writeAll ((s.settleWrites rules tx height prev).map
      .settlement)).settlements.getLatestSettledEpoch < tx.epoch - 1) := by
    intro hgate
    rw [hexec s rfl, ratify, if_pos hgate] at he
    simp at he
  refine ⟨s.settleWrites rules tx height prev, applyPoaSeatMaintenance rules s.poaSeats
    (tx.result height) prev height, (hexec s rfl).trans (ratify_eq rfl hgate), fun n hn => ?_⟩
  generalize hu : s.writeAll (((s.settleWrites rules tx height prev).take n).map .settlement) = u
  have hagain := settle_again hn hu.symm
  have hsame : u.electionDb = s.electionDb ∧ u.poaSeats = s.poaSeats := by
    rw [← hu, writeAll_settlement]
    exact ⟨rfl, rfl⟩
  have hexecute : ∀ u : SeatEngine, execute rules height u (.electionResult tx) =
      u.writeAll (u.executeTx rules tx height) := fun u => rfl
  rw [hexecute, hexecute, hexec u hsame.1, hexec s rfl, ratify_eq rfl hgate,
    ratify_eq rfl (by rwa [hagain]), writeAll_append, writeAll_append, hagain, hsame.2]

theorem executeTx_of_stored (hdupe : rules.electionDupeFixEpoch ≤ tx.epoch)
    (hstored : (s.electionDb.get? tx.epoch).isSome = true) : s.executeTx rules tx height = [] := by
  rw [executeTx]
  split
  · rename_i hzero
    rw [← hzero, if_pos hstored]
  split
  · rfl
  split
  · rfl
  · rw [if_pos ⟨hdupe, hstored⟩]

theorem electionDb_of_stored {ws : List EngineWrite} {seats : List SeatWrite} :
    (s.writeAll (ws ++ .storeElection e :: seats.map .seat)).electionDb =
      (s.writeAll ws).electionDb.put e := by
  rw [writeAll_append]
  exact congrArg electionDb (writeAll_seat _ seats)

/-- Where a node may stop in the execution of a ratified election. -/
inductive Recovers (rules : ElectionRules) (s : SeatEngine) (tx : TxElectionResult) (height n : ℕ) :
    Prop
  /-- Nothing is written. -/
  | start (hn : n = 0)
  /-- The epoch is settled, the election is not stored. -/
  | settled (hmarker : ∃ m, .settlement (.saveMarker m) ∈ (s.executeTx rules tx height).take n)
      (hnot : ∀ e, .storeElection e ∉ (s.executeTx rules tx height).take n)
  /-- Everything is written. -/
  | done (hn : (s.executeTx rules tx height).length ≤ n)

theorem Recovers.execute {n : ℕ} (h : s.Recovers rules tx height n)
    (hdupe : rules.electionDupeFixEpoch ≤ tx.epoch) (hratifies : s.Ratifies rules tx height) :
    execute rules height (s.writeAll ((s.executeTx rules tx height).take n)) (.electionResult tx) =
      execute rules height s (.electionResult tx) := by
  obtain ⟨settled, ws, hwrites, hagain⟩ := hratifies.writes
  cases h with
  | start hn =>
    rw [hn, take_zero]
    rfl
  | settled hmarker hnot =>
    obtain ⟨m, hm⟩ := hmarker
    rw [hwrites] at hnot hm ⊢
    have hle : n ≤ (settled.map EngineWrite.settlement).length := by
      by_contra hlt
      obtain ⟨k, rfl⟩ := Nat.exists_eq_add_of_lt (not_le.1 hlt)
      rw [add_assoc, take_length_add_append, take_succ_cons] at hnot
      exact hnot (tx.result height) (mem_append_right _ mem_cons_self)
    rw [take_append_of_le_length hle, ← map_take] at hm ⊢
    obtain ⟨w, hw, heq⟩ := mem_map.1 hm
    obtain rfl := EngineWrite.settlement.inj heq
    exact hagain n ⟨m, hw⟩
  | done hn =>
    -- the election is a duplicate now
    rw [take_of_length_le hn]
    have hdone : executeTx rules (s.writeAll (s.executeTx rules tx height)) tx height = [] := by
      refine executeTx_of_stored hdupe ?_
      rw [hwrites, electionDb_of_stored]
      exact Option.isSome_iff_exists.2 ⟨_, get?_put_self _ (tx.result height)⟩
    exact congrArg (writeAll _) hdone

/-- A network with a committee of two or more whose keys are all proven, in which every
result is approved and every settlement is the one the node derives. -/
def openRules : ElectionRules where
  minMembers := 2
  electionDupeFixEpoch := 0
  approved _ _ _ := true
  onTestnet := false
  shareDelegators _ _ := []
  composeRecord record _ := some record
  proofs account _ := if normalizeAccount account = account then some (true, true) else none
  proofs_normal account _ h := by
    split at h
    · assumption
    · cases h

def beforeSeats : SeatEngine where
  electionDb := Collection.empty.put ⟨1, 100, [⟨"k0", "alice"⟩, ⟨"k1", "bob"⟩], ⟨0, 6, 0⟩⟩
  poaSeats := Collection.empty
  settlements :=
    { ledger := Collection.empty.put
        { id := "swap", amount := 100, blockHeight := 5, owner := Pendulum.pendulumNodesHBDBucket
          type := .transfer, asset := .hbd }
      markers := .empty }

/-- The settlement of the first epoch pays alice out of a bucket of a hundred. -/
def paysAlice (amount : Int) : SettlementRecord :=
  ⟨1, 0, 100, 199, 100, amount, 100 - amount, [], [⟨"alice", amount⟩]⟩

def activation (amount : Int) : TxElectionResult :=
  ⟨2, [⟨"k0", "alice"⟩, ⟨"k1", "bob"⟩], ⟨0, 9, 0⟩, some (paysAlice amount)⟩

/-- A node that stops behind the first `n` writes and processes the block again. -/
def restarted (amount : Int) (n : ℕ) : SeatEngine :=
  (beforeSeats.stopped openRules 200 (.electionResult (activation amount)) n).processBlock openRules
    (200, [.electionResult (activation amount)])

end SeatEngine

end VscNode.StateEngine
