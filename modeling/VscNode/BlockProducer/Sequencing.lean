import VscNode.Lib.FixedPoint
import VscNode.StateEngine.ResourceCredits
import Mathlib.Data.Finset.Dedup

/-!
# Choosing the transactions of a block

The leader walks over the pending transactions in a shuffled order. A place in the
order does not stand for its transaction but for its signers: it takes the head of
their queue, charges the payer for it, and puts it into the block if its nonce is
the one they are at. Only then does the queue move on.

Two properties of the walk are of interest. A queue is as long as its signers have
places in the order, so the walk never finds one empty, and what it takes from a
queue carries consecutive nonces (`Sequenced`). The charge comes before the nonce is
looked at and goes to the signer that the place names first, so the credits used
are those of the chosen transactions only as long as every charge leads to a choice
(`CleanWalk`).

The order in which a shuffle puts the transactions, and the order of transactions
with one nonce in a queue, are left open.
-/

namespace VscNode.BlockProducer

open FixedPoint Function List

/-! ## Pending transactions -/

/-- An operation of a record; `rcLimit` is the number in its data, if there is one. -/
structure PoolOp where
  type : String
  rcLimit : Option Int := none
  deriving DecidableEq

structure PoolRecord where
  id : String
  requiredAuths : List String
  nonce : Int
  rcLimit : ℕ
  ops : List PoolOp
  deriving DecidableEq

def rcCostTransfer : ℕ := 100
def rcCostWithdraw : ℕ := 200
def rcCostStake : ℕ := 200
def rcCostUnstake : ℕ := 200
def rcCostCallMin : ℕ := 100
def rcCostUnknown : ℕ := 50

def recordCallRcLimit (op : PoolOp) : ℕ :=
  match op.rcLimit with
  | none => rcCostCallMin
  | some n => max n.toNat rcCostCallMin

def PoolOp.maxRcCost (op : PoolOp) : ℕ :=
  match op.type with
  | "call" => recordCallRcLimit op
  | "transfer" => rcCostTransfer
  | "withdraw" => rcCostWithdraw
  | "stake_hbd" => rcCostStake
  | "unstake_hbd" => rcCostUnstake
  | _ => rcCostUnknown

def staticMaxRcCostFromRecord (ops : List PoolOp) : ℕ :=
  ops.foldl (fun total op => (total + op.maxRcCost) % 2 ^ 64) 0

/-- The key of a set of signers: the signer itself where there is one, the content
identifier of the set where there are more. -/
def hashKeyAuths (cid : Finset String → String) : List String → String
  | [] => ""
  | [key] => key
  | keys => cid keys.toFinset

/-! ## Credits of a session -/

structure RcSystem where
  rcDb : RcDb
  hiveFreeAmount : Int

structure RcSession where
  ledger : LedgerSession
  rcMap : String → Int := fun _ => 0

namespace RcSession

variable (rc : RcSystem) (rss : RcSession) (account : String) (blockHeight : ℕ) (rcAmt : Int)

/-- Whether an account has the credits, what it would have left, and the amount. -/
def canConsume : (Bool × Int × Int) × RcSession :=
  if isOracle account then ((true, 2 ^ 63 - 1, rcAmt), rss)
  else
    let (bal, ledger) := rss.ledger.getBalance account blockHeight .hbd
    let balAmt := rcAllowance rc.hiveFreeAmount account bal
    let totalAmt := balAmt - rc.rcDb.getFrozenAmt account blockHeight - rss.rcMap account
    (if totalAmt < rcAmt then (false, 0, rcAmt) else (true, totalAmt - rcAmt, rcAmt),
      { rss with ledger := ledger })

def consume : (Bool × Int) × RcSession :=
  let (result, rss) := rss.canConsume rc account blockHeight rcAmt
  if result.1 then
    ((true, rcAmt),
      { rss with rcMap := Function.update rss.rcMap account (rss.rcMap account + rcAmt) })
  else ((false, 0), rss)

theorem canConsume_rcMap : (rss.canConsume rc account blockHeight rcAmt).2.rcMap = rss.rcMap := by
  unfold canConsume
  split_ifs <;> rfl

theorem consume_rcMap :
    (rss.consume rc account blockHeight rcAmt).2.rcMap =
      if (rss.consume rc account blockHeight rcAmt).1.1 then
        update rss.rcMap account (rss.rcMap account + rcAmt)
      else rss.rcMap := by
  have hmap := canConsume_rcMap rc rss account blockHeight rcAmt
  simp only [consume]
  split_ifs <;> simp_all

end RcSession

/-! ## The walk -/

structure Composer where
  dbs : LedgerDbs
  rcSystem : RcSystem
  nonceDb : String → ℕ
  minRcLimit : ℕ
  cid : Finset String → String
  shuffle : String → List PoolRecord → List PoolRecord
  sort : List PoolRecord → List PoolRecord
  shuffle_perm : ∀ seed l, (shuffle seed l).Perm l
  sort_perm : ∀ l, (sort l).Perm l
  sort_sorted : ∀ l, (∀ r ∈ l, 0 ≤ r.nonce) → (sort l).Pairwise fun r r' => r.nonce ≤ r'.nonce

/-- Where an index can be out of range. -/
inductive ComposePanic
  | seed | auths | queue | ops
  deriving DecidableEq

/-- A place in the order: the queues and nonces of all signers, the credits used and
the transactions chosen so far. -/
structure Walk where
  txMap : String → List PoolRecord
  nonceMap : String → Int
  rc : RcSession
  sequenced : List PoolRecord

structure BlockTx where
  (id op : String)
  deriving DecidableEq

namespace Composer

variable (c : Composer)

def keyId (r : PoolRecord) : String := hashKeyAuths c.cid r.requiredAuths

/-- The nonce that signers are at, as a signed word. -/
def storedNonce (key : String) : Int := wrap64 (c.nonceDb key)

def noteNonce (nonceMap : String → Int) (key : String) : String → Int :=
  if nonceMap key = 0 then Function.update nonceMap key (c.storedNonce key) else nonceMap

/-- The loop that keeps what is not below its signers' nonce and pays the minimum. -/
def prefilter (c : Composer) :
    (String → Int) → List PoolRecord → (String → Int) × List PoolRecord
  | nonceMap, [] => (nonceMap, [])
  | nonceMap, r :: rs =>
    let key := c.keyId r
    let nonceMap := c.noteNonce nonceMap key
    let (nonces, kept) := c.prefilter nonceMap rs
    (nonces, if nonceMap key ≤ r.nonce ∧ c.minRcLimit ≤ r.rcLimit then r :: kept else kept)

variable (slotHeight : ℕ) (prefiltered : List PoolRecord)

/-- The records that pass the filter. -/
def txRecords : List PoolRecord :=
  (c.prefilter (fun _ => 0) prefiltered).2

/-- The records of one set of signers. -/
def ofKey (key : String) (rs : List PoolRecord) : List PoolRecord := rs.filter fun r => c.keyId r = key

def queues (records : List PoolRecord) (key : String) : List PoolRecord :=
  c.sort (c.ofKey key records)

/-- One place of the order. -/
def visit (w : Walk) (preRecord : PoolRecord) : Except ComposePanic Walk :=
  let key := c.keyId preRecord
  match preRecord.requiredAuths with
  | [] => .error .auths
  | payer :: _ =>
    match w.txMap key with
    | [] => .error .queue
    | tx :: rest =>
      if tx.rcLimit < staticMaxRcCostFromRecord tx.ops then .ok w
      else
        let (consumed, rc) := w.rc.consume c.rcSystem payer slotHeight (wrap64 tx.rcLimit)
        if consumed.1 then
          if w.nonceMap key = tx.nonce then
            .ok { txMap := Function.update w.txMap key rest
                  nonceMap := Function.update w.nonceMap key (wrap64 (w.nonceMap key + 1))
                  rc := rc, sequenced := w.sequenced ++ [tx] }
          else .ok { w with rc := rc }
        else .ok { w with rc := rc }

def walk (c : Composer) (slotHeight : ℕ) : Walk → List PoolRecord → Except ComposePanic Walk
  | w, [] => .ok w
  | w, r :: rs =>
    match c.visit slotHeight w r with
    | .error e => .error e
    | .ok w' => c.walk slotHeight w' rs

def start : Walk :=
  { txMap := c.queues (c.txRecords prefiltered)
    nonceMap := (c.prefilter (fun _ => 0) prefiltered).1
    rc := { ledger := { state := { dbs := c.dbs } } }, sequenced := [] }

def preOrder : Except ComposePanic (List PoolRecord) :=
  if c.txRecords prefiltered = [] then .ok []
  else
    let seed := hashKeyAuths c.cid ((c.txRecords prefiltered).map (·.id))
    if seed.utf8ByteSize < 8 then .error .seed else .ok (c.shuffle seed (c.txRecords prefiltered))

/-- The choice, with the credits it has used. -/
def select : Except ComposePanic Walk :=
  match c.preOrder prefiltered with
  | .error e => .error e
  | .ok order => c.walk slotHeight (c.start prefiltered) order

def blockTxs : List PoolRecord → Except ComposePanic (List BlockTx)
  | [] => .ok []
  | r :: rs =>
    match r.ops with
    | [] => .error .ops
    | op :: _ =>
      match blockTxs rs with
      | .error e => .error e
      | .ok txs => .ok (⟨r.id, op.type⟩ :: txs)

def generateTransactions : Except ComposePanic (List BlockTx) :=
  match c.select slotHeight prefiltered with
  | .error e => .error e
  | .ok w => blockTxs w.sequenced

end Composer

/-! ## What a visit does -/

namespace Composer

variable (c : Composer) (slotHeight : ℕ) (w : Walk) (r : PoolRecord)

def charge : Option (String × PoolRecord) :=
  match r.requiredAuths, w.txMap (c.keyId r) with
  | payer :: _, tx :: _ =>
    if tx.rcLimit < staticMaxRcCostFromRecord tx.ops then none
    else if (w.rc.consume c.rcSystem payer slotHeight (wrap64 tx.rcLimit)).1.1 then
      some (payer, tx)
    else none
  | _, _ => none

end Composer

inductive Visit (c : Composer) (slotHeight : ℕ) (w : Walk) (r : PoolRecord) :
    Except ComposePanic Walk → Prop
  | auths (h : r.requiredAuths = []) : Visit c slotHeight w r (.error .auths)
  | queue (h : w.txMap (c.keyId r) = []) : Visit c slotHeight w r (.error .queue)
  | passed (rc : RcSession) (hrc : rc.rcMap = w.rc.rcMap) :
      Visit c slotHeight w r (.ok { w with rc := rc })
  | mismatched (payer : String) (tx : PoolRecord) (rc : RcSession)
      (hcharge : c.charge slotHeight w r = some (payer, tx))
      (hnonce : w.nonceMap (c.keyId r) ≠ tx.nonce) :
    Visit c slotHeight w r (.ok { w with rc := rc })
  | sequenced (payer : String) (tx : PoolRecord) (rest : List PoolRecord) (rc : RcSession)
      (hcharge : c.charge slotHeight w r = some (payer, tx))
      (hqueue : w.txMap (c.keyId r) = tx :: rest)
      (hrc : rc.rcMap =
        Function.update w.rc.rcMap payer (w.rc.rcMap payer + wrap64 tx.rcLimit))
      (hnonce : w.nonceMap (c.keyId r) = tx.nonce) :
      Visit c slotHeight w r (.ok
        { txMap := Function.update w.txMap (c.keyId r) rest
          nonceMap := Function.update w.nonceMap (c.keyId r) (wrap64 (tx.nonce + 1))
          rc := rc, sequenced := w.sequenced ++ [tx] })

namespace Composer

variable (c : Composer) {slotHeight : ℕ} {w : Walk} {r : PoolRecord}

theorem visit_outcome (slotHeight : ℕ) (w : Walk) (r : PoolRecord) :
    Visit c slotHeight w r (c.visit slotHeight w r) := by
  unfold visit
  split
  · exact .auths ‹_›
  rename_i payer auths hauths
  dsimp only
  split
  · exact .queue ‹_›
  rename_i tx rest hqueue
  have hmap := RcSession.consume_rcMap c.rcSystem w.rc payer slotHeight (wrap64 tx.rcLimit)
  split_ifs with hstatic hconsumed hnonce
  · exact .passed w.rc rfl
  · rw [if_pos hconsumed] at hmap
    rw [hnonce]
    exact .sequenced payer tx rest _ (by simp [charge, hauths, hqueue, hstatic, hconsumed])
      hqueue hmap hnonce
  · exact .mismatched payer tx _ (by simp [charge, hauths, hqueue, hstatic, hconsumed]) hnonce
  · rw [if_neg hconsumed] at hmap
    exact .passed _ hmap

/-! ## Nonces -/

/-- The nonces that are noted are those of the store. -/
def NotesStored (nonceMap : String → Int) : Prop :=
  ∀ key, nonceMap key = 0 ∨ nonceMap key = c.storedNonce key

variable {c}

variable {nonceMap : String → Int} {rs : List PoolRecord} {w' : Walk}

theorem NotesStored.noteNonce (h : c.NotesStored nonceMap) (key : String) :
    c.NotesStored (c.noteNonce nonceMap key) ∧
      c.noteNonce nonceMap key key = c.storedNonce key ∧
      ∀ key', nonceMap key' = c.storedNonce key' →
        c.noteNonce nonceMap key key' = c.storedNonce key' := by
  unfold Composer.noteNonce
  split_ifs with hzero
  · refine ⟨fun key' => ?_, update_self .., fun key' hkey' => ?_⟩ <;>
      by_cases hk : key' = key
    · exact .inr (by rw [hk, update_self])
    · rw [update_of_ne hk]
      exact h key'
    · rw [hk, update_self]
    · rwa [update_of_ne hk]
  · exact ⟨h, (h key).resolve_left hzero, fun _ hkey' => hkey'⟩

theorem NotesStored.prefilter (h : c.NotesStored nonceMap) (rs : List PoolRecord) :
    ((c.prefilter nonceMap rs).2 = rs.filter fun r =>
        c.storedNonce (c.keyId r) ≤ r.nonce ∧ c.minRcLimit ≤ r.rcLimit) ∧
      (∀ key, nonceMap key = c.storedNonce key →
        (c.prefilter nonceMap rs).1 key = c.storedNonce key) ∧
      ∀ r ∈ rs, (c.prefilter nonceMap rs).1 (c.keyId r) = c.storedNonce (c.keyId r) := by
  induction rs generalizing nonceMap with
  | nil => exact ⟨rfl, fun _ hkey => hkey, fun _ hr => absurd hr not_mem_nil⟩
  | cons r rs ih =>
    obtain ⟨hnotes, hself, hkeep⟩ := h.noteNonce (c.keyId r)
    obtain ⟨hkept, hold, hnew⟩ := ih hnotes
    simp only [Composer.prefilter]
    refine ⟨?_, fun key hkey => hold key (hkeep key hkey), ?_⟩
    · rw [hself, hkept, filter_cons]
      simp only [decide_eq_true_eq]
    rintro r' (_ | ⟨_, hr'⟩)
    · exact hold _ hself
    · exact hnew r' hr'

theorem ofKey_append (key : String) (rs rs' : List PoolRecord) :
    c.ofKey key (rs ++ rs') = c.ofKey key rs ++ c.ofKey key rs' := filter_append ..

/-- The queues hold a transaction for every place that is left, and what was taken
from one carries consecutive nonces. -/
structure Sequenced (c : Composer) (pool todo : List PoolRecord) (w : Walk) : Prop where
  room : ∀ key, (c.ofKey key todo).length ≤ (w.txMap key).length
  queued : ∀ key, ∀ tx ∈ w.txMap key, tx ∈ pool ∧ c.keyId tx = key
  chosen : ∀ tx ∈ w.sequenced, tx ∈ pool
  nonces : ∀ key, (c.ofKey key w.sequenced).map (·.nonce) =
    (List.range (c.ofKey key w.sequenced).length).map fun i : ℕ => c.storedNonce key + i
  next : ∀ r ∈ pool, w.nonceMap (c.keyId r) =
    wrap64 (c.storedNonce (c.keyId r) + (c.ofKey (c.keyId r) w.sequenced).length)
  count : w.sequenced.length + todo.length ≤ pool.length

variable {pool todo : List PoolRecord}

section

variable (h : c.Sequenced pool (r :: todo) w)
include h

theorem Sequenced.queue_ne_nil : w.txMap (c.keyId r) ≠ [] := by
  have hroom := h.room (c.keyId r)
  intro hnil
  rw [hnil, ofKey, filter_cons_of_pos (by simp)] at hroom
  exact absurd hroom (by simp)

/-- A visit that takes nothing keeps the queues. -/
theorem Sequenced.tail (rc : RcSession) :
    c.Sequenced pool todo { w with rc := rc } where
  room key := by
    refine le_trans ?_ (h.room key)
    exact ((sublist_cons_self r todo).filter _).length_le
  queued := h.queued
  chosen := h.chosen
  nonces := h.nonces
  next := h.next
  count := by
    have := h.count
    simp only [length_cons] at this ⊢
    omega

/-- The head of a queue, where its nonce is the expected one, is the next of its
signers. -/
theorem Sequenced.take (hkept : ∀ r ∈ pool, c.storedNonce (c.keyId r) ≤ r.nonce)
    (hlen : pool.length < 2 ^ 63) {tx : PoolRecord} {rest : List PoolRecord} (rc : RcSession)
    (hqueue : w.txMap (c.keyId r) = tx :: rest) (hnonce : w.nonceMap (c.keyId r) = tx.nonce) :
    c.Sequenced pool todo
      { txMap := update w.txMap (c.keyId r) rest
        nonceMap := update w.nonceMap (c.keyId r) (wrap64 (tx.nonce + 1))
        rc := rc, sequenced := w.sequenced ++ [tx] } := by
  obtain ⟨htx, hkey⟩ := h.queued (c.keyId r) tx (by rw [hqueue]; exact mem_cons_self)
  have hcount := h.count
  have hshort : (c.ofKey (c.keyId r) w.sequenced).length ≤ _ := length_filter_le ..
  -- The expected nonce has not wrapped: the transaction is not below the stored one.
  have htaken : tx.nonce =
      c.storedNonce (c.keyId r) + (c.ofKey (c.keyId r) w.sequenced).length := by
    have hnext := h.next tx htx
    have hge := hkept tx htx
    rw [hkey] at hnext hge
    rw [hnext] at hnonce
    rw [← hnonce] at hge ⊢
    exact wrap64_add_of_le (isInt64_wrap64 _) (by simp only [length_cons] at hcount; omega) hge
  have hown : c.ofKey (c.keyId r) [tx] = [tx] := by simp [ofKey, hkey]
  have hother : ∀ key, key ≠ c.keyId r → c.ofKey key [tx] = [] := by
    intro key hne
    simp [ofKey, hkey, hne.symm]
  refine ⟨fun key => ?_, fun key => ?_, ?_, fun key => ?_, fun r' hr' => ?_, ?_⟩
  · have hroom := h.room key
    by_cases hk : key = c.keyId r
    · subst hk
      rw [hqueue, ofKey, filter_cons_of_pos (by simp)] at hroom
      simpa [ofKey] using hroom
    · simp only [update_of_ne hk]
      exact le_trans ((sublist_cons_self r todo).filter _).length_le hroom
  · by_cases hk : key = c.keyId r
    · subst hk
      simp only [update_self]
      intro tx' htx'
      exact h.queued _ tx' (by rw [hqueue]; exact mem_cons_of_mem _ htx')
    · simp only [update_of_ne hk]
      exact h.queued key
  · intro tx' htx'
    obtain htx' | htx' := mem_append.1 htx'
    · exact h.chosen tx' htx'
    · rwa [mem_singleton.1 htx']
  · rw [ofKey_append]
    by_cases hk : key = c.keyId r
    · subst hk
      rw [hown, map_append, h.nonces, length_append, length_singleton,
        range_succ, map_append, map_singleton, map_singleton, htaken]
    · rw [hother key hk, append_nil]
      exact h.nonces key
  · have hnext := h.next r' hr'
    dsimp only
    rw [ofKey_append]
    by_cases hk : c.keyId r' = c.keyId r
    · rw [hk, hown, update_self, htaken, length_append, length_singleton,
        Nat.cast_add, Nat.cast_one, add_assoc]
    · rw [hother _ hk, append_nil, update_of_ne hk]
      exact hnext
  · simp only [length_append, length_cons, length_nil] at hcount ⊢
    omega

end

/-- The walk ends with nothing but a record without signers to stop it. -/
theorem Sequenced.walk (h : c.Sequenced pool todo w)
    (hkept : ∀ r ∈ pool, c.storedNonce (c.keyId r) ≤ r.nonce)
    (hlen : pool.length < 2 ^ 63) (slotHeight : ℕ) :
    (∃ w', c.walk slotHeight w todo = .ok w' ∧ c.Sequenced pool [] w') ∨
      (c.walk slotHeight w todo = .error .auths ∧ ∃ r ∈ todo, r.requiredAuths = []) := by
  induction todo generalizing w with
  | nil => exact .inl ⟨w, rfl, h⟩
  | cons r todo ih =>
    have hvisit := c.visit_outcome slotHeight w r
    rw [Composer.walk]
    generalize c.visit slotHeight w r = result at hvisit ⊢
    have hlift : ∀ w', c.Sequenced pool todo w' →
        (∃ w'', c.walk slotHeight w' todo = .ok w'' ∧ c.Sequenced pool [] w'') ∨
          (c.walk slotHeight w' todo = .error .auths ∧
            ∃ r' ∈ r :: todo, r'.requiredAuths = []) := by
      intro w' h'
      obtain hok | ⟨herr, r', hr', hauths⟩ := ih h'
      · exact .inl hok
      · exact .inr ⟨herr, r', mem_cons_of_mem _ hr', hauths⟩
    cases hvisit with
    | auths hauths => exact .inr ⟨rfl, r, mem_cons_self, hauths⟩
    | queue hqueue => exact absurd hqueue h.queue_ne_nil
    | passed rc hrc => exact hlift _ (h.tail rc)
    | mismatched payer tx rc hcharge hnonce => exact hlift _ (h.tail rc)
    | sequenced payer tx rest rc hcharge hqueue hrc hnonce =>
      exact hlift _ (h.take hkept hlen rc hqueue hnonce)

section

variable (prefiltered : List PoolRecord)

theorem txRecords_eq (c : Composer) :
    c.txRecords prefiltered = prefiltered.filter fun r =>
      c.storedNonce (c.keyId r) ≤ r.nonce ∧ c.minRcLimit ≤ r.rcLimit :=
  (NotesStored.prefilter (fun _ => .inl rfl) prefiltered).1

theorem sequenced_start {order : List PoolRecord} (horder : order.Perm (c.txRecords prefiltered)) :
    c.Sequenced (c.txRecords prefiltered) order (c.start prefiltered) where
  room key := by
    have hqueue : ((c.start prefiltered).txMap key).length =
        (c.ofKey key (c.txRecords prefiltered)).length := (c.sort_perm _).length_eq
    rw [hqueue]
    exact (horder.filter _).length_eq.le
  queued key tx htx := by simpa [ofKey] using (c.sort_perm _).mem_iff.1 htx
  chosen tx htx := absurd htx not_mem_nil
  nonces key := rfl
  next r hr := by
    obtain ⟨hkept, -, hnoted⟩ := NotesStored.prefilter (c := c) (fun _ => .inl rfl) prefiltered
    rw [txRecords, hkept] at hr
    have hstored := hnoted r (mem_of_mem_filter hr)
    have hint : IsInt64 (c.storedNonce (c.keyId r)) := isInt64_wrap64 _
    simpa [start, ofKey, wrap64_of_isInt64 hint] using hstored
  count := by simp [start, horder.length_eq]

theorem preOrder_cases (c : Composer) :
    (c.preOrder prefiltered = .error .seed ∧ c.txRecords prefiltered ≠ [] ∧
        (hashKeyAuths c.cid ((c.txRecords prefiltered).map (·.id))).utf8ByteSize < 8) ∨
      ∃ order, c.preOrder prefiltered = .ok order ∧ order.Perm (c.txRecords prefiltered) := by
  unfold preOrder
  by_cases hnil : c.txRecords prefiltered = []
  · exact .inr ⟨[], if_pos hnil, by rw [hnil]⟩
  rw [if_neg hnil]
  dsimp only
  split_ifs with hseed
  · exact .inl ⟨rfl, hnil, hseed⟩
  · exact .inr ⟨_, rfl, c.shuffle_perm _ _⟩

end

/-- A choice, or one of the two panics before a queue is looked at. -/
theorem select_cases (c : Composer) (slotHeight : ℕ) {prefiltered : List PoolRecord}
    (hlen : prefiltered.length < 2 ^ 63) :
    (∃ w, c.select slotHeight prefiltered = .ok w ∧
        c.Sequenced (c.txRecords prefiltered) [] w) ∨
      (c.select slotHeight prefiltered = .error .seed ∧ c.txRecords prefiltered ≠ [] ∧
        (hashKeyAuths c.cid ((c.txRecords prefiltered).map (·.id))).utf8ByteSize < 8) ∨
      (c.select slotHeight prefiltered = .error .auths ∧
        ∃ r ∈ prefiltered, r.requiredAuths = []) := by
  have hmem : ∀ r ∈ c.txRecords prefiltered,
      r ∈ prefiltered ∧ c.storedNonce (c.keyId r) ≤ r.nonce := by
    intro r hr
    rw [txRecords_eq, mem_filter, decide_eq_true_eq] at hr
    exact ⟨hr.1, hr.2.1⟩
  have hshort : (c.txRecords prefiltered).length < 2 ^ 63 := by
    rw [txRecords_eq]
    exact (length_filter_le _ _).trans_lt hlen
  unfold select
  obtain ⟨hpanic, hseed⟩ | ⟨order, horder, hperm⟩ := c.preOrder_cases prefiltered
  · rw [hpanic]
    exact .inr (.inl ⟨rfl, hseed⟩)
  rw [horder]
  obtain hok | ⟨herr, r, hr, hauths⟩ := (sequenced_start prefiltered hperm).walk
    (fun r hr => (hmem r hr).2) hshort slotHeight
  · exact .inl hok
  · exact .inr (.inr ⟨herr, r, (hmem r (hperm.mem_iff.1 hr)).1, hauths⟩)

theorem Sequenced.nodup (h : c.Sequenced pool todo w) : w.sequenced.Nodup := by
  have hkeys : ∀ key, (c.ofKey key w.sequenced).Nodup := by
    intro key
    refine List.Nodup.of_map (·.nonce) ?_
    rw [h.nonces]
    refine nodup_range.map fun i j hij => ?_
    simpa using hij
  rw [nodup_iff_count_le_one]
  intro tx
  have hcount := nodup_iff_count_le_one.1 (hkeys (c.keyId tx)) tx
  rwa [ofKey, count_filter (by simp)] at hcount

theorem blockTxs_cases (rs : List PoolRecord) :
    (blockTxs rs = .error .ops ∧ ∃ r ∈ rs, r.ops = []) ∨
      ∃ txs, blockTxs rs = .ok txs ∧ txs.map (·.id) = rs.map (·.id) := by
  induction rs with
  | nil => exact .inr ⟨[], rfl, rfl⟩
  | cons r rs ih =>
    rw [blockTxs]
    cases hops : r.ops with
    | nil => exact .inl ⟨rfl, r, mem_cons_self, hops⟩
    | cons op ops =>
      obtain ⟨herr, r', hr', hnil⟩ | ⟨txs, hok, hids⟩ := ih
      · rw [herr]
        exact .inl ⟨rfl, r', mem_cons_of_mem _ hr', hnil⟩
      · rw [hok]
        exact .inr ⟨_, rfl, by simp [hids]⟩

/-- For every pool and every shuffle, no queue is found empty, and the transactions of
a block carry, for each set of signers, the nonces from the stored one on, in order
and none twice. A pool of well-formed records leads to a block. -/
theorem generateTransactions_sequences (c : Composer) (slotHeight : ℕ)
    (prefiltered : List PoolRecord) (hlen : prefiltered.length < 2 ^ 63) :
    c.generateTransactions slotHeight prefiltered ≠ .error .queue ∧
    (∀ txs, c.generateTransactions slotHeight prefiltered = .ok txs →
      ∃ w, c.select slotHeight prefiltered = .ok w ∧ txs.map (·.id) = w.sequenced.map (·.id)) ∧
    (∀ w, c.select slotHeight prefiltered = .ok w →
      w.sequenced.Nodup ∧ (∀ tx ∈ w.sequenced, tx ∈ prefiltered) ∧
        ∀ key, (c.ofKey key w.sequenced).map (·.nonce) =
          (List.range (c.ofKey key w.sequenced).length).map fun i : ℕ => c.storedNonce key + i) ∧
    ((∀ r ∈ prefiltered, r.requiredAuths ≠ [] ∧ r.ops ≠ []) →
      (c.txRecords prefiltered ≠ [] →
        8 ≤ (hashKeyAuths c.cid ((c.txRecords prefiltered).map (·.id))).utf8ByteSize) →
        ∃ txs, c.generateTransactions slotHeight prefiltered = .ok txs) := by
  unfold generateTransactions
  obtain ⟨w, hw, hseq⟩ | ⟨herr, hne, hseed⟩ | ⟨herr, r, hr, hauths⟩ := c.select_cases slotHeight hlen
  · rw [hw]
    have hmem : ∀ tx ∈ w.sequenced, tx ∈ prefiltered := by
      intro tx htx
      have := hseq.chosen tx htx
      rw [txRecords_eq] at this
      exact mem_of_mem_filter this
    dsimp only
    obtain ⟨hops, r, hr, hnil⟩ | ⟨txs, htxs, hids⟩ := blockTxs_cases w.sequenced
    · rw [hops]
      refine ⟨by simp, by simp, ?_, fun hpool _ => absurd hnil (hpool r (hmem r hr)).2⟩
      rintro w' ⟨⟩
      exact ⟨hseq.nodup, hmem, hseq.nonces⟩
    rw [htxs]
    refine ⟨by simp, ?_, ?_, fun _ _ => ⟨txs, rfl⟩⟩
    · rintro txs' ⟨⟩
      exact ⟨w, rfl, hids⟩
    · rintro w' ⟨⟩
      exact ⟨hseq.nodup, hmem, hseq.nonces⟩
  · rw [herr]
    exact ⟨by simp, by simp, by simp, fun _ hbytes => absurd hseed (not_lt.2 (hbytes hne))⟩
  · rw [herr]
    exact ⟨by simp, by simp, by simp, fun hpool _ => absurd hauths (hpool r hr).1⟩

/-- A leader that takes the pool in its own order. -/
def inOrder (hiveFreeAmount : Int) : Composer where
  dbs := {}
  rcSystem := ⟨Collection.empty, hiveFreeAmount⟩
  nonceDb := fun _ => 0
  minRcLimit := 1
  cid := fun _ => "bafyreigh"
  shuffle := fun _ l => l
  sort := fun l => l.insertionSort fun r r' => r.nonce ≤ r'.nonce
  shuffle_perm := fun _ _ => .refl _
  sort_perm := fun l => l.perm_insertionSort _
  sort_sorted := fun l _ => l.pairwise_insertionSort _

def aliceSends (id : String) (nonce : Int) : PoolRecord :=
  { id := id, requiredAuths := ["hive:alice"], nonce := nonce, rcLimit := 100
    ops := [{ type := "transfer" }] }

/-- A transfer that a second signer joins. -/
def bothSend : PoolRecord :=
  { id := "bafyreibb", requiredAuths := ["hive:alice", "hive:bob"], nonce := 0, rcLimit := 100
    ops := [{ type := "transfer" }] }

/-- The transaction behind the gap waits. -/
theorem generateTransactions_sequences_gap :
    let pool := [aliceSends "bafyrei1" 1, aliceSends "bafyrei3" 3, bothSend, aliceSends "bafyrei0" 0]
    (∃ txs, (inOrder 1000).generateTransactions 10 pool = .ok txs) ∧
      ((inOrder 1000).select 10 pool).toOption.map
        (fun w => w.sequenced.map fun tx => (tx.requiredAuths, tx.nonce)) =
          some [(["hive:alice"], 0), (["hive:alice"], 1), (["hive:alice", "hive:bob"], 0)] :=
  ⟨(generateTransactions_sequences (inOrder 1000) 10 _ (by decide)).2.2.2 (by decide)
    fun _ => by decide, by decide +kernel⟩

/-! ## Credits -/

variable (c) in
/-- A visit whose charge, if it makes one, is for a transaction that it also takes,
by the signer that pays for it. -/
def CleanVisit (slotHeight : ℕ) (w : Walk) (r : PoolRecord) : Prop :=
  ∀ p ∈ c.charge slotHeight w r, w.nonceMap (c.keyId r) = p.2.nonce ∧
    p.2.requiredAuths.head? = some p.1 ∧ p.2.rcLimit < 2 ^ 63
  deriving Decidable

def CleanWalk (c : Composer) (slotHeight : ℕ) : Walk → List PoolRecord → Prop
  | _, [] => True
  | w, r :: rs => c.CleanVisit slotHeight w r ∧
      match c.visit slotHeight w r with
      | .error _ => True
      | .ok w' => c.CleanWalk slotHeight w' rs

instance decidableCleanWalk (c : Composer) (slotHeight : ℕ) :
    (w : Walk) → (rs : List PoolRecord) → Decidable (c.CleanWalk slotHeight w rs)
  | _, [] => isTrue trivial
  | w, r :: rs =>
    have : Decidable (match c.visit slotHeight w r with
        | .error _ => True
        | .ok w' => c.CleanWalk slotHeight w' rs) :=
      match c.visit slotHeight w r with
      | .error _ => isTrue trivial
      | .ok w' => decidableCleanWalk c slotHeight w' rs
    inferInstanceAs (Decidable (_ ∧ _))

def rcLimits (payer : String) (txs : List PoolRecord) : Int :=
  ((txs.filter fun tx => tx.requiredAuths.head? = some payer).map fun tx => (tx.rcLimit : Int)).sum

theorem rcLimits_append_singleton (payer : String) (txs : List PoolRecord) (tx : PoolRecord) :
    rcLimits payer (txs ++ [tx]) =
      rcLimits payer txs + if tx.requiredAuths.head? = some payer then (tx.rcLimit : Int) else 0 := by
  by_cases h : tx.requiredAuths.head? = some payer <;> simp [rcLimits, h]

def ChargedForChosen (w : Walk) : Prop := ∀ payer, w.rc.rcMap payer = rcLimits payer w.sequenced

theorem ChargedForChosen.visit (h : ChargedForChosen w) (hclean : c.CleanVisit slotHeight w r)
    (hvisit : c.visit slotHeight w r = .ok w') : ChargedForChosen w' := by
  have houtcome := c.visit_outcome slotHeight w r
  rw [hvisit] at houtcome
  cases houtcome with
  | passed rc hrc =>
    intro payer
    exact (congrFun hrc payer).trans (h payer)
  | mismatched payer tx rc hcharge hnonce => exact absurd (hclean _ hcharge).1 hnonce
  | sequenced payer tx rest rc hcharge hqueue hrc hnonce =>
    obtain ⟨-, hpays, hlimit⟩ := hclean _ hcharge
    dsimp only at hpays hlimit
    have hword : wrap64 tx.rcLimit = tx.rcLimit := wrap64_of_isInt64 ⟨by omega, by omega⟩
    intro payer'
    dsimp only
    rw [hrc, rcLimits_append_singleton, hpays, hword, ← h payer']
    by_cases hpayer : payer' = payer
    · rw [hpayer, update_self, if_pos rfl]
    · rw [update_of_ne hpayer, if_neg (by simpa using Ne.symm hpayer), add_zero]

theorem ChargedForChosen.walk (h : ChargedForChosen w) (hclean : c.CleanWalk slotHeight w rs)
    (hwalk : c.walk slotHeight w rs = .ok w') : ChargedForChosen w' := by
  induction rs generalizing w with
  | nil =>
    obtain rfl := Except.ok.inj hwalk
    exact h
  | cons r rs ih =>
    rw [Composer.walk] at hwalk
    obtain ⟨hfirst, hrest⟩ := hclean
    cases hvisit : c.visit slotHeight w r with
    | error e =>
      rw [hvisit] at hwalk
      exact absurd hwalk (by simp)
    | ok w₁ =>
      rw [hvisit] at hwalk hrest
      exact ih (h.visit hfirst hvisit) hrest hwalk

/-- Where every charge of the walk is for a transaction that is taken, by the signer
that pays for it, the credits used are the limits of the chosen transactions. -/
theorem select_charges_chosen {prefiltered order : List PoolRecord}
    (horder : c.preOrder prefiltered = .ok order)
    (hclean : c.CleanWalk slotHeight (c.start prefiltered) order)
    (hselect : c.select slotHeight prefiltered = .ok w) (payer : String) :
    w.rc.rcMap payer = rcLimits payer w.sequenced := by
  have hstart : ChargedForChosen (c.start prefiltered) := fun _ => rfl
  rw [select, horder] at hselect
  exact hstart.walk hclean hselect payer

theorem select_charges_chosen_twoNonces :
    ∃ w, (inOrder 250).select 10 [aliceSends "bafyrei1" 1, aliceSends "bafyrei0" 0, bothSend] =
        .ok w ∧ w.sequenced = [aliceSends "bafyrei0" 0, aliceSends "bafyrei1" 1] ∧
      w.rc.rcMap "hive:alice" = rcLimits "hive:alice" w.sequenced := by
  have hchosen : ((inOrder 250).select 10
      [aliceSends "bafyrei1" 1, aliceSends "bafyrei0" 0, bothSend]).toOption.map (·.sequenced) =
        some [aliceSends "bafyrei0" 0, aliceSends "bafyrei1" 1] := by decide
  cases hselect : (inOrder 250).select 10
      [aliceSends "bafyrei1" 1, aliceSends "bafyrei0" 0, bothSend] with
  | error e =>
    rw [hselect] at hchosen
    exact absurd hchosen (by simp [Except.toOption])
  | ok w =>
    rw [hselect] at hchosen
    exact ⟨w, rfl, Option.some.inj hchosen, select_charges_chosen rfl (by decide) hselect _⟩

/-- A transaction that waits for a missing one uses up the credits of its payer, and
the block stays empty. Without it the other transaction is taken. -/
theorem waiting_transaction_charged :
    ((inOrder 150).select 10 [aliceSends "bafyrei1" 1, bothSend]).toOption.map
        (fun w => (w.sequenced, w.rc.rcMap "hive:alice")) = some ([], 100) ∧
      ((inOrder 150).select 10 [bothSend]).toOption.map
        (fun w => (w.sequenced, w.rc.rcMap "hive:alice")) = some ([bothSend], 100) := by
  decide

end Composer

end VscNode.BlockProducer
