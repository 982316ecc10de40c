import VscNode.StateEngine.Outputs

/-!
# Resource credits

An account has credits for its HBD, and a Hive account some for free. What its
operations use is noted for the slot and frozen when the slot ends; it comes back
little by little.

A call is run only if its payer has a hundred credits left, and on no more than
the payer has; the other operations cost a fixed amount. The check reads what
earlier slots have frozen, not what the slot itself has noted, so the charges of a
slot are bounded one by one (`Charge.rcUsed_le`) and not together.
-/

namespace VscNode

open Collection List Prepared Text VSCTransaction

/-! ## Frozen credits -/

structure RcRecord where
  account : String := ""
  blockHeight : ℕ := 0
  amount : Int := 0
  deriving DecidableEq

abbrev RcDb := Collection fun r : RcRecord => (r.account, r.blockHeight)

def rcReturnPeriod : ℕ := 120 * 60 * 20

def calculateFrozenBal (start end_ : ℕ) (initialBal : Int) : Int :=
  if initialBal ≤ 0 then 0
  else if end_ ≤ start then initialBal
  else if rcReturnPeriod ≤ end_ - start then 0
  else
    let amtRet := initialBal * (end_ - start : ℕ) / rcReturnPeriod
    initialBal - max 0 (min initialBal amtRet)

def isOracle (account : String) : Bool := hasPrefix account "did:vsc:oracle:"

/-- What the HBD of an account is worth in credits. -/
def rcAllowance (hiveFreeAmount : Int) (account : String) (balAmt : Int) : Int :=
  if hasPrefix account "hive:" then balAmt + hiveFreeAmount else balAmt

namespace RcDb

variable (db : RcDb) (dbs : LedgerDbs) (hiveFreeAmount : Int) (account : String) (blockHeight : ℕ)

def getRecord : RcRecord :=
  ((db.docs.filter fun r => r.account = account ∧ r.blockHeight ≤ blockHeight).argmax
    fun r => r.blockHeight).getD {}

def getFrozenAmt : Int :=
  let rcRecord := db.getRecord account blockHeight
  calculateFrozenBal rcRecord.blockHeight blockHeight rcRecord.amount

def getAvailableRCs : Int :=
  if isOracle account then 2 ^ 63 - 1
  else
    let balAmt := rcAllowance hiveFreeAmount account (dbs.getBalance account blockHeight .hbd)
    balAmt - min (db.getFrozenAmt account blockHeight) balAmt

def nextRecord (account : String) (used : Int) : RcRecord :=
  let rcRecord := db.getRecord account ((blockHeight + (2 ^ 64 - 1)) % 2 ^ 64)
  let rcBal :=
    if rcRecord.blockHeight = 0 then used
    else calculateFrozenBal rcRecord.blockHeight blockHeight rcRecord.amount + used
  let balAmt := rcAllowance hiveFreeAmount account (dbs.getBalance account blockHeight .hbd)
  -- No more is frozen than the account owns.
  ⟨account, blockHeight, max 0 (min balAmt rcBal)⟩

/-- Freeze what a slot has used. -/
def updateRcMap (rcMap : List (String × Int)) : RcDb :=
  db.putAll (rcMap.map fun kv => db.nextRecord dbs hiveFreeAmount blockHeight kv.1 kv.2)

end RcDb

/-! ## Charges -/

/-- What an account is charged for: an operation, with the sessions it has found,
or a transaction that could not be resolved. -/
inductive Charge
  | executed (view : ChainView) (op : VSCTransaction) (s : Sessions)
  | invalid (payer : String)

namespace Charge

def payer : Charge → String
  | executed _ op _ => op.payer
  | invalid payer => payer

def rcUsed : Charge → Int
  | executed view op s => (op.executeTx view s op.payer).1.rcUsed
  | invalid _ => 50

/-- The credits the payer has for an operation: those of the balance in the
session, without what earlier slots have frozen. -/
def available : Charge → Int
  | executed view op s =>
    rcAllowance view.hiveFreeAmount op.payer
        (s.ledger.getBalance op.payer op.txSelf.blockHeight .hbd).1 -
      view.getFrozenAmt op.payer op.txSelf.blockHeight
  | invalid _ => 0

variable (account : String)

def total (charges : List Charge) : Int :=
  ((charges.filter fun c => c.payer = account).map rcUsed).sum

theorem total_append (charges charges' : List Charge) :
    total account (charges ++ charges') = total account charges + total account charges' := by
  rw [total, filter_append, map_append, sum_append, total, total]

theorem total_singleton (c : Charge) :
    total account [c] = if c.payer = account then c.rcUsed else 0 := by
  rw [total, filter_singleton]
  by_cases h : c.payer = account <;> simp [h]

end Charge

/-- The charges of the operations of a transaction. -/
def OpLoop.charges (view : ChainView) (store : ContractStore) (tx : TxPacket) :
    ℕ → List VSCTransaction → OpLoop → List Charge
  | _, [], _ => []
  | idx, op :: ops, s =>
    if op.isDeposit then OpLoop.charges view store tx (idx + 1) ops s
    else
      let s' := s.execute view store tx idx op
      (if op.txSelf.signers = [] then [] else [.executed view op (s.sessions store)]) ++
        if s'.ok then OpLoop.charges view store tx (idx + 1) ops s' else []

variable (view : ChainView) (store : ContractStore)

namespace BatchState

def txCharges (s : BatchState × LedgerSession) (tx : TxPacket) : List Charge :=
  if tx.invalid then if tx.payer = "" then [] else [.invalid tx.payer]
  else if tx.ops ≠ [] ∧ tx.ops.all VSCTransaction.isDeposit then []
  else (s.1.loop s.2).charges view store tx 0 tx.ops

def batchCharges (view : ChainView) (store : ContractStore) :
    List TxPacket → BatchState × LedgerSession → List Charge
  | [], _ => []
  | tx :: txs, s => txCharges view store s tx ++ batchCharges view store txs (execute view store s tx)

def slotCharges : List SlotBatch → BatchState → List Charge
  | [], _ => []
  | b :: batches, e =>
    batchCharges b.view b.store b.txs e.newSession ++
      slotCharges batches (e.executeBatch b.view b.store b.txs)

end BatchState

/-! ## The record of a slot -/

namespace OpLoop

theorem rcMap_execute (tx : TxPacket) (idx : ℕ) (op : VSCTransaction) (s : OpLoop) :
    (s.execute view store tx idx op).rcMap =
      if op.txSelf.signers = [] then s.rcMap
      else Function.update s.rcMap op.payer
        (s.rcMap op.payer + (op.executeTx view (s.sessions store) op.payer).1.rcUsed) := by
  have hsessions : ((s.openCalls store op).noteHeight op.txSelf.blockHeight).sessions store =
      s.sessions store := sessions_openCalls
  have hrcMap : (s.openCalls store op).rcMap = s.rcMap := by rw [openCalls_eq]
  rw [execute]
  simp only [hsessions]
  split
  · exact hrcMap
  · rw [← hrcMap]
    split <;> exact (record_frame ..).2

theorem rcMap_executeAll (tx : TxPacket) (idx : ℕ) (ops : List VSCTransaction) (s : OpLoop)
    (account : String) :
    (s.executeAll view store tx idx ops).rcMap account =
      s.rcMap account + Charge.total account (charges view store tx idx ops s) := by
  induction ops generalizing s idx with
  | nil => exact (add_zero _).symm
  | cons op ops ih =>
    rw [executeAll, charges]
    split
    · exact ih ..
    have hop : (s.execute view store tx idx op).rcMap account = s.rcMap account +
        Charge.total account
          (if op.txSelf.signers = [] then [] else [.executed view op (s.sessions store)]) := by
      rw [rcMap_execute]
      split
      · exact (add_zero _).symm
      rw [Charge.total_singleton, Function.update_apply]
      by_cases haccount : account = op.payer
      · subst haccount
        simp [Charge.payer, Charge.rcUsed]
      · simp [Charge.payer, haccount, Ne.symm haccount]
    dsimp only
    rw [Charge.total_append, ← add_assoc, ← hop]
    split
    · exact ih ..
    · exact (add_zero _).symm

end OpLoop

namespace BatchState

theorem rcMap_execute (s : BatchState × LedgerSession) (tx : TxPacket) (account : String) :
    (execute view store s tx).1.rcMap account =
      s.1.rcMap account + Charge.total account (txCharges view store s tx) := by
  rw [execute, txCharges]
  split
  · rw [rejectInvalid]
    dsimp only
    split
    · exact (add_zero _).symm
    rw [Charge.total_singleton, Function.update_apply]
    by_cases haccount : account = tx.payer
    · subst haccount
      simp [Charge.payer, Charge.rcUsed]
    · simp [Charge.payer, haccount, Ne.symm haccount]
  split
  · exact (add_zero _).symm
  · exact OpLoop.rcMap_executeAll view store tx 0 tx.ops (s.1.loop s.2) account

theorem rcMap_foldl (txs : List TxPacket) (s : BatchState × LedgerSession) (account : String) :
    (txs.foldl (execute view store) s).1.rcMap account =
      s.1.rcMap account + Charge.total account (batchCharges view store txs s) := by
  induction txs generalizing s with
  | nil => exact (add_zero _).symm
  | cons tx txs ih =>
    rw [foldl_cons, ih, rcMap_execute, batchCharges, Charge.total_append, add_assoc]

theorem rcMap_executeSlot (batches : List SlotBatch) (e : BatchState) (account : String) :
    (e.executeSlot batches).rcMap account =
      e.rcMap account + Charge.total account (slotCharges batches e) := by
  induction batches generalizing e with
  | nil => exact (add_zero _).symm
  | cons b batches ih =>
    rw [executeSlot, foldl_cons, ← executeSlot, ih, slotCharges, Charge.total_append,
      ← add_assoc, executeBatch, rcMap_foldl]
    rfl

end BatchState

/-! ## The price of an operation -/

/-- What is charged for an operation that is checked first. -/
def Prepared.cost : Except TxResult Prepared → Int
  | .error r => r.rcUsed
  | .ok p => p.rcUsed

def FixedPrice (rcUsed : Int) : Prop := 0 ≤ rcUsed ∧ rcUsed ≤ 200

theorem fixedPrice_refused (ret : String) :
    FixedPrice (cost (.error (refused ret 50))) ∧
      FixedPrice (cost (.error (refused ret 100))) :=
  ⟨⟨by simp [cost, refused], by simp [cost, refused]⟩,
    by simp [cost, refused], by simp [cost, refused]⟩

theorem fixedPrice_prepared (op : SessionOp) :
    FixedPrice (cost (.ok ⟨op, 100⟩)) ∧ FixedPrice (cost (.ok ⟨op, 200⟩)) :=
  ⟨⟨by simp [cost], by simp [cost]⟩, by simp [cost],
    by simp [cost]⟩

namespace TxMove

variable (view : ChainView) (tx : TxMove)

theorem fixedPrice_prepareTransfer : FixedPrice (cost (tx.prepareTransfer view)) := by
  simp only [prepareTransfer]
  repeat' split
  all_goals first | exact (fixedPrice_refused _).1 | exact (fixedPrice_prepared _).1

theorem fixedPrice_prepareWithdraw : FixedPrice (cost (tx.prepareWithdraw view)) := by
  simp only [prepareWithdraw]
  repeat' split
  all_goals first | exact (fixedPrice_refused _).1 | exact (fixedPrice_prepared _).2

theorem fixedPrice_stakeOp (f : StakeOp → SessionOp) :
    FixedPrice (cost ((tx.stakeOp view).map fun p => ⟨f p, 200⟩)) := by
  simp only [stakeOp]
  repeat' split
  all_goals first | exact (fixedPrice_refused _).1 | exact (fixedPrice_prepared _).2

theorem fixedPrice_of_consensusAmount {r : TxResult} (h : tx.consensusAmount view = .error r) :
    FixedPrice (cost (.error r)) := by
  simp only [consensusAmount] at h
  repeat' split at h
  all_goals first | (cases h; exact (fixedPrice_refused _).1) | cases h

theorem fixedPrice_prepareConsensusStake :
    FixedPrice (cost (tx.prepareConsensusStake view)) := by
  simp only [prepareConsensusStake]
  split
  · rename_i r h
    exact tx.fixedPrice_of_consensusAmount view h
  split
  · exact (fixedPrice_refused _).2
  · exact (fixedPrice_prepared _).1

theorem fixedPrice_prepareConsensusUnstake :
    FixedPrice (cost (tx.prepareConsensusUnstake view)) := by
  simp only [prepareConsensusUnstake]
  split
  · rename_i r h
    exact tx.fixedPrice_of_consensusAmount view h
  · repeat' split
    all_goals first | exact (fixedPrice_refused _).1 | exact (fixedPrice_prepared _).1

end TxMove

/-- The cycles a contract has used. -/
def Outcome.gas : Outcome → ℕ
  | .returned _ gas => gas
  | .failed _ _ gas => gas
  | .panicked => 0

/-- The runtime stops a contract at its limit. -/
def ChainView.Metered (view : ChainView) : Prop :=
  ∀ call se cs, (view.runtime call se cs).2.gas ≤ call.gasCycles

theorem canConsume_eq (view : ChainView) (se : LedgerSession) {account : String} (height : ℕ)
    (rcAmt : Int) (horacle : isOracle account = false) :
    (canConsume view se account height rcAmt).1 =
      let available := rcAllowance view.hiveFreeAmount account
        (se.getBalance account height .hbd).1 - view.getFrozenAmt account height
      if available < rcAmt then (false, 0) else (true, available - rcAmt) := by
  simp only [canConsume, isOracle] at horacle ⊢
  rw [if_neg (by simp [horacle])]
  simp only [rcAllowance]
  split <;> split <;> rfl

theorem rcUsed_le {gas limit : ℕ} (h : gas ≤ limit * cycleGasPerRc) :
    TxVscCallContract.rcUsed gas ≤ max 100 (limit : Int) := by
  have hdiv : (gas + cycleGasPerRc - 1) / cycleGasPerRc ≤ limit := by
    rw [cycleGasPerRc] at h ⊢
    omega
  rw [TxVscCallContract.rcUsed]
  exact max_le_max le_rfl (Int.ofNat_le.2 hdiv)

namespace TxVscCallContract

variable {view : ChainView} {rcPayer : String}

theorem rcUsed_invoke (hmetered : view.Metered) (tx : TxVscCallContract) (info : ContractInfo)
    (code : String) {availableGas : Int} (hgas : 0 ≤ availableGas) (s : Sessions)
    (rcPayer : String) :
    0 ≤ (tx.invoke view info code availableGas s rcPayer).1.rcUsed ∧
      (tx.invoke view info code availableGas s rcPayer).1.rcUsed ≤ max 100 availableGas := by
  have hresult : ∀ (call : Invocation) (se : LedgerSession) (cs : CallSession) (limit : ℕ),
      call.gasCycles = limit * cycleGasPerRc →
      (limit : Int) ≤ availableGas →
      0 ≤ (result (view.runtime call se cs).2).rcUsed ∧
        (result (view.runtime call se cs).2).rcUsed ≤ max 100 availableGas := by
    intro call se cs limit hcycles hlimit
    have hle := hmetered call se cs
    rw [hcycles] at hle
    have hmax : max 100 (limit : Int) ≤ max 100 availableGas := max_le_max le_rfl hlimit
    have hpos :
        ∀ gas, 0 ≤ rcUsed gas := fun gas => (by decide : (0 : Int) ≤ 100).trans (le_max_left ..)
    cases hout : (view.runtime call se cs).2 with
    | returned ret gas =>
      rw [hout] at hle
      exact ⟨hpos gas, (rcUsed_le hle).trans hmax⟩
    | failed errorCode error gas =>
      rw [hout] at hle
      exact ⟨hpos gas, (rcUsed_le hle).trans hmax⟩
    | panicked => exact ⟨by decide, le_max_left ..⟩
  refine hresult _ _ _ (min (min availableGas.toNat tx.rcLimit) ((2 ^ 64 - 1) / cycleGasPerRc)) rfl ?_
  omega

theorem executeTx_of_unaffordable {tx : TxVscCallContract} {s : Sessions}
    (h : (canConsume view s.ledger rcPayer tx.self.blockHeight 100).1.1 = false) :
    (tx.executeTx view s rcPayer).1.success = false := by
  rw [executeTx]
  repeat' split
  all_goals first | rfl | simp_all

theorem rcUsed_executeTx (hmetered : view.Metered) (tx : TxVscCallContract) (s : Sessions)
    (horacle : isOracle rcPayer = false) :
    0 ≤ (tx.executeTx view s rcPayer).1.rcUsed ∧
      (tx.executeTx view s rcPayer).1.rcUsed ≤
        max 100 (rcAllowance view.hiveFreeAmount rcPayer
          (s.ledger.getBalance rcPayer tx.self.blockHeight .hbd).1 -
            view.getFrozenAmt rcPayer tx.self.blockHeight - 100) := by
  have hconsume := canConsume_eq view s.ledger tx.self.blockHeight 100 horacle
  have hrefused : ∀ (ret : String) (bound : Int),
      0 ≤ (refused ret 100).rcUsed ∧ (refused ret 100).rcUsed ≤ max 100 bound :=
    fun ret bound => ⟨by simp [refused], le_max_left ..⟩
  rw [executeTx]
  iterate 4
    split
    · exact hrefused ..
  generalize hout : canConsume view s.ledger rcPayer tx.self.blockHeight 100 = out at hconsume
  obtain ⟨⟨hasMin, availableGas⟩, ledger⟩ := out
  dsimp only at hconsume ⊢
  split
  · exact hrefused ..
  split
  · exact hrefused ..
  rename_i hmin _
  split at hconsume
  · cases hconsume
    exact absurd rfl hmin
  rename_i hle
  cases hconsume
  exact rcUsed_invoke hmetered tx _ _ (by omega) _ rcPayer

end TxVscCallContract

theorem VSCTransaction.rcUsed_runPrepared (p : Except TxResult Prepared) (s : Sessions) :
    (runPrepared p s).1.rcUsed = cost p := by
  cases p <;> rfl

/-- What an operation costs: a fixed price, or for a call no more than its payer
has left. -/
theorem Charge.rcUsed_le {view : ChainView} (hmetered : view.Metered) (op : VSCTransaction)
    (s : Sessions) (horacle : isOracle op.payer = false) :
    0 ≤ (Charge.executed view op s).rcUsed ∧ (Charge.executed view op s).rcUsed ≤
      max 200 ((Charge.executed view op s).available - 100) := by
  have hfixed : ∀ {rcUsed bound : Int}, FixedPrice rcUsed → 0 ≤ rcUsed ∧ rcUsed ≤ max 200 bound :=
    fun h => ⟨h.1, h.2.trans (le_max_left ..)⟩
  rw [rcUsed]
  cases op with
  | call tx =>
    obtain ⟨hpos, hle⟩ := tx.rcUsed_executeTx hmetered s horacle
    exact ⟨hpos, hle.trans (max_le_max (by decide) le_rfl)⟩
  | deposit self => exact hfixed ⟨le_rfl, show (0 : Int) ≤ 200 by decide⟩
  | transfer tx =>
    rw [executeTx, rcUsed_runPrepared]
    exact hfixed (tx.fixedPrice_prepareTransfer view)
  | withdraw tx =>
    rw [executeTx, rcUsed_runPrepared]
    exact hfixed (tx.fixedPrice_prepareWithdraw view)
  | stakeHbd tx =>
    rw [executeTx, rcUsed_runPrepared]
    exact hfixed (tx.fixedPrice_stakeOp view (SessionOp.stake · 0))
  | unstakeHbd tx =>
    rw [executeTx, rcUsed_runPrepared]
    exact hfixed (tx.fixedPrice_stakeOp view SessionOp.unstake)
  | consensusStake tx =>
    rw [executeTx, rcUsed_runPrepared]
    exact hfixed (tx.fixedPrice_prepareConsensusStake view)
  | consensusUnstake tx =>
    rw [executeTx, rcUsed_runPrepared]
    exact hfixed (tx.fixedPrice_prepareConsensusUnstake view)

/-! ## The end of a slot -/

theorem calculateFrozenBal_nonneg (start end_ : ℕ) (initialBal : Int) :
    0 ≤ calculateFrozenBal start end_ initialBal := by
  rw [calculateFrozenBal]
  split
  · exact le_rfl
  split
  · omega
  split
  · exact le_rfl
  · dsimp only
    omega

theorem calculateFrozenBal_self {height : ℕ} {initialBal : Int} (h : 0 ≤ initialBal) :
    calculateFrozenBal height height initialBal = initialBal := by
  rw [calculateFrozenBal]
  split
  · omega
  · exact if_pos le_rfl

namespace RcDb

variable {db : RcDb} {dbs : LedgerDbs} {free : Int} {account : String} {slotHeight : ℕ}

theorem getRecord_of_mem {r : RcRecord} (hr : r ∈ db) :
    db.getRecord r.account r.blockHeight = r := by
  have hmem : r ∈ db.docs.filter fun r' => r'.account = r.account ∧ r'.blockHeight ≤ r.blockHeight :=
    List.mem_filter.2 ⟨hr, by simp⟩
  rw [getRecord]
  cases hmax : (db.docs.filter fun r' =>
      r'.account = r.account ∧ r'.blockHeight ≤ r.blockHeight).argmax fun r => r.blockHeight with
  | none =>
    rw [argmax_eq_none] at hmax
    rw [hmax] at hmem
    cases hmem
  | some m =>
    have hm := argmax_mem hmax
    simp only [List.mem_filter, decide_eq_true_eq] at hm
    have hle := le_of_mem_argmax hmem hmax
    exact eq_of_key_eq hm.1 hr
      (Prod.ext hm.2.1 (le_antisymm hm.2.2 hle))

theorem getRecord_congr {m n : ℕ}
    (h : ∀ r ∈ db, r.account = account → (r.blockHeight ≤ m ↔ r.blockHeight ≤ n)) :
    db.getRecord account m = db.getRecord account n := by
  rw [getRecord, getRecord]
  congr 2
  refine filter_congr fun r hr => ?_
  rw [decide_eq_decide]
  exact and_congr_right (h r hr)

variable (keys : List String) (rcMap : String → Int)

theorem getRecord_updateRcMap (haccount : account ∈ keys)
    (h : ∀ r ∈ db, r.account = account → r.blockHeight < slotHeight) :
    (db.updateRcMap dbs free slotHeight (keys.map fun k => (k, rcMap k))).getRecord account slotHeight =
      db.nextRecord dbs free slotHeight account (rcMap account) := by
  set xs := (keys.map fun k => (k, rcMap k)).map
    fun kv => db.nextRecord dbs free slotHeight kv.1 kv.2 with hxs
  have hmem : db.nextRecord dbs free slotHeight account (rcMap account) ∈ xs :=
    mem_map_of_mem (mem_map_of_mem haccount)
  obtain ⟨r, hr⟩ := exists_get?_putAll (c := db)
    (k := (account, slotHeight)) (.inr ⟨_, hmem, rfl⟩)
  obtain ⟨hput, hkey⟩ := get?_eq_some_iff.1 hr
  obtain ⟨hacc, hheight⟩ := Prod.ext_iff.1 hkey
  have heq : r = db.nextRecord dbs free slotHeight account (rcMap account) := by
    rcases mem_of_mem_putAll hput with hnew | hold
    · obtain ⟨kv, hkv, rfl⟩ := mem_map.1 hnew
      obtain ⟨k, hk, rfl⟩ := mem_map.1 hkv
      obtain rfl : k = account := hacc
      rfl
    · exact absurd hheight (h r hold hacc).ne
  rw [← heq, updateRcMap, ← hxs]
  have hget := getRecord_of_mem hput
  rwa [show r.account = account from hacc, show r.blockHeight = slotHeight from hheight] at hget

theorem amount_nextRecord (hslot : 0 < slotHeight ∧ slotHeight < 2 ^ 64)
    (h : ∀ r ∈ db, r.account = account → 0 < r.blockHeight ∧ r.blockHeight < slotHeight)
    (used : Int) :
    (db.nextRecord dbs free slotHeight account used).amount =
      max 0 (min (rcAllowance free account (dbs.getBalance account slotHeight .hbd))
        (db.getFrozenAmt account slotHeight + used)) := by
  have hpred : (slotHeight + (2 ^ 64 - 1)) % 2 ^ 64 = slotHeight - 1 := by omega
  have hrecord : db.getRecord account (slotHeight - 1) = db.getRecord account slotHeight :=
    getRecord_congr fun r hr ha => by
      have := h r hr ha
      omega
  simp only [nextRecord, hpred, hrecord, getFrozenAmt]
  split
  · rename_i hzero
    -- A record has a height, so there is none.
    have hnone : db.getRecord account slotHeight = {} := by
      rw [getRecord] at hzero ⊢
      cases hmax : (db.docs.filter fun r => r.account = account ∧
          r.blockHeight ≤ slotHeight).argmax fun r => r.blockHeight with
      | none => rfl
      | some m =>
        rw [hmax] at hzero
        have hm := argmax_mem hmax
        simp only [List.mem_filter, decide_eq_true_eq] at hm
        exact absurd hzero (h m hm.1 hm.2.1).1.ne'
    rw [hnone]
    simp [calculateFrozenBal]
  · rfl

theorem getAvailableRCs_updateRcMap (haccount : account ∈ keys) (horacle : isOracle account = false)
    (hslot : 0 < slotHeight ∧ slotHeight < 2 ^ 64)
    (h : ∀ r ∈ db, r.account = account → 0 < r.blockHeight ∧ r.blockHeight < slotHeight)
    (hused : 0 ≤ rcMap account)
    (hallowance : 0 ≤ rcAllowance free account (dbs.getBalance account slotHeight .hbd)) :
    (db.updateRcMap dbs free slotHeight (keys.map fun k => (k, rcMap k))).getAvailableRCs
        dbs free account slotHeight =
      max 0 (rcAllowance free account (dbs.getBalance account slotHeight .hbd) -
        db.getFrozenAmt account slotHeight - rcMap account) := by
  have hfrozen := calculateFrozenBal_nonneg (db.getRecord account slotHeight).blockHeight slotHeight
    (db.getRecord account slotHeight).amount
  rw [getAvailableRCs, if_neg (by simp [horacle])]
  dsimp only
  rw [getFrozenAmt, getRecord_updateRcMap keys rcMap haccount fun r hr ha => (h r hr ha).2]
  rw [show (db.nextRecord dbs free slotHeight account (rcMap account)).blockHeight = slotHeight from rfl,
    amount_nextRecord hslot h, calculateFrozenBal_self (le_max_left ..)]
  change 0 ≤ db.getFrozenAmt account slotHeight at hfrozen
  omega

end RcDb

namespace BatchState

variable {c : Charge} {store : ContractStore} {view : ChainView}

/-- A charge is for an operation of its batch or for a transaction that could not
be resolved. -/
theorem charges_cases {tx : TxPacket} {idx : ℕ} {ops : List VSCTransaction} {s : OpLoop}
    (h : c ∈ OpLoop.charges view store tx idx ops s) : ∃ op s', c = .executed view op s' := by
  induction ops generalizing s idx with
  | nil => cases h
  | cons op ops ih =>
    rw [OpLoop.charges] at h
    split at h
    · exact ih h
    rcases mem_append.1 h with h | h
    · split at h
      · cases h
      · exact ⟨op, _, mem_singleton.1 h⟩
    split at h
    · exact ih h
    · cases h

theorem batchCharges_cases {txs : List TxPacket} {s : BatchState × LedgerSession}
    (h : c ∈ batchCharges view store txs s) :
    (∃ op s', c = .executed view op s') ∨ ∃ payer, c = .invalid payer := by
  induction txs generalizing s with
  | nil => cases h
  | cons tx txs ih =>
    rcases mem_append.1 h with h | h
    · rw [txCharges] at h
      split at h
      · split at h
        · cases h
        · exact .inr ⟨_, mem_singleton.1 h⟩
      split at h
      · cases h
      · exact .inl (charges_cases h)
    · exact ih h

theorem rcUsed_slotCharges {batches : List SlotBatch} (hmetered : ∀ b ∈ batches, b.view.Metered)
    {e : BatchState} (h : c ∈ slotCharges batches e) (horacle : isOracle c.payer = false) :
    0 ≤ c.rcUsed ∧ c.rcUsed ≤ max 200 (c.available - 100) := by
  induction batches generalizing e with
  | nil => cases h
  | cons b batches ih =>
    obtain ⟨hb, hbatches⟩ := forall_mem_cons.1 hmetered
    rcases mem_append.1 h with h | h
    · rcases batchCharges_cases h with ⟨op, s, rfl⟩ | ⟨payer, rfl⟩
      · exact Charge.rcUsed_le hb op s horacle
      · exact ⟨show (0 : Int) ≤ 50 by decide, le_max_of_le_left (show (50 : Int) ≤ 200 by decide)⟩
    · exact ih hbatches h

/-- What the slot notes for an account is what its operations were charged, each
of them at a fixed price or within the credits the account had for it; a call it
could not afford is refused. When the slot ends, what was noted is missing from
its credits. -/
theorem charges_within_credits (db : RcDb) (dbs : LedgerDbs) (free : Int)
    (batches : List SlotBatch) (hmetered : ∀ b ∈ batches, b.view.Metered) (e : BatchState)
    (account : String) (he : e.rcMap account = 0) (horacle : isOracle account = false)
    (keys : List String) (haccount : account ∈ keys) (slotHeight : ℕ)
    (hslot : 0 < slotHeight ∧ slotHeight < 2 ^ 64)
    (hdb : ∀ r ∈ db, r.account = account → 0 < r.blockHeight ∧ r.blockHeight < slotHeight)
    (hallowance : 0 ≤ rcAllowance free account (dbs.getBalance account slotHeight .hbd)) :
    let f := e.executeSlot batches
    let charges := (slotCharges batches e).filter fun c => c.payer = account
    f.rcMap account = (charges.map Charge.rcUsed).sum ∧
      (∀ c ∈ charges, 0 ≤ c.rcUsed ∧ c.rcUsed ≤ max 200 (c.available - 100)) ∧
      (∀ view tx s, .executed view (.call tx) s ∈ charges →
        (Charge.executed view (.call tx) s).available < 100 →
          (tx.executeTx view s account).1.success = false) ∧
      (db.updateRcMap dbs free slotHeight (keys.map fun k => (k, f.rcMap k))).getAvailableRCs
          dbs free account slotHeight =
        max 0 (rcAllowance free account (dbs.getBalance account slotHeight .hbd) -
          db.getFrozenAmt account slotHeight - f.rcMap account) := by
  intro f charges
  have hrcMap : f.rcMap account = (charges.map Charge.rcUsed).sum := by
    have h := rcMap_executeSlot batches e account
    rwa [he, zero_add] at h
  have hprice : ∀ c ∈ charges, 0 ≤ c.rcUsed ∧ c.rcUsed ≤ max 200 (c.available - 100) := by
    intro c hc
    obtain ⟨hmem, hpayer⟩ := mem_filter.1 hc
    rw [decide_eq_true_eq] at hpayer
    exact rcUsed_slotCharges hmetered hmem (by rw [hpayer, horacle])
  refine ⟨hrcMap, hprice, ?_, ?_⟩
  · intro view tx s hc hlt
    obtain ⟨-, hpayer⟩ := mem_filter.1 hc
    rw [decide_eq_true_eq] at hpayer
    change (call tx).payer = account at hpayer
    refine TxVscCallContract.executeTx_of_unaffordable ?_
    rw [canConsume_eq view s.ledger tx.self.blockHeight 100 horacle]
    simp only [Charge.available, hpayer] at hlt
    exact congrArg Prod.fst (if_pos hlt)
  refine RcDb.getAvailableRCs_updateRcMap keys f.rcMap haccount horacle hslot hdb ?_ hallowance
  rw [hrcMap]
  exact sum_nonneg (by
    intro rcUsed hmem
    obtain ⟨c, hc, rfl⟩ := mem_map.1 hmem
    exact (hprice c hc).1)

/-- A contract that uses six hundred credits if it may. -/
def costlyView : ChainView :=
  { bareView with
    hiveFreeAmount := 1000
    getContractInfo := fun _ _ => some ⟨"hive:owner", "code"⟩
    getCode := fun code => .ok code
    runtime := fun call _ _ => ([.ret], .returned "done" (min (600 * cycleGasPerRc) call.gasCycles)) }

/-- A call that somebody pays for. -/
def paidBy (account txId : String) : TxPacket where
  txId := txId
  ops := [.call
    { self := { txId := txId, blockHeight := 5, requiredAuths := .of [account] }
      netId := "vsc-mainnet", contractId := "c", rcLimit := 900 }]

def aliceCalls : List SlotBatch :=
  [⟨costlyView, noContracts, [paidBy "hive:alice" "a", paidBy "hive:alice" "b"]⟩]

theorem charges_within_credits_alice :
    (RcDb.updateRcMap Collection.empty {} 1000 4
        (["hive:alice"].map fun k => (k, (executeSlot { ledger := ⟨{}, [], []⟩ } aliceCalls).rcMap k))
      ).getAvailableRCs {} 1000 "hive:alice" 4 = 0 := by
  have hmetered : ∀ b ∈ aliceCalls, b.view.Metered := by
    refine forall_mem_singleton.2 ?_
    exact fun call se cs => min_le_right ..
  obtain ⟨-, -, -, hend⟩ := charges_within_credits empty {} 1000 aliceCalls hmetered
    { ledger := ⟨{}, [], []⟩ } "hive:alice" rfl (by decide) ["hive:alice"] (by decide) 4 (by decide)
    (fun r hr => absurd hr (not_mem_empty r)) (by decide)
  exact hend.trans (by decide)

/-- Alice has a thousand credits and her two calls use twelve hundred; an account
without credits is charged for a call that is refused. -/
theorem charges_exceed_credits :
    RcDb.getAvailableRCs Collection.empty {} 1000 "hive:alice" 4 = 1000 ∧
      (executeSlot { ledger := ⟨{}, [], []⟩ } aliceCalls).rcMap "hive:alice" = 1200 ∧
      RcDb.getAvailableRCs Collection.empty {} 1000 "did:key:z" 4 = 0 ∧
      (executeSlot { ledger := ⟨{}, [], []⟩ }
        [⟨costlyView, noContracts, [paidBy "did:key:z" "a"]⟩]).rcMap "did:key:z" = 100 :=
  ⟨by decide, by decide, by decide, by decide⟩

end BatchState

end VscNode
