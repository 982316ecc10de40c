import VscNode.BlockProducer.Sequencing

/-!
# Off-chain transactions of a block

A VSC block lists off-chain transactions by the text of their content identifiers. The block
is applied in the order of the list: a transaction that was handled before is passed over,
the others are indexed and queued, and behind the last one the nonces of their signers move on.

The index is read under the canonical text of an identifier and written under the text that
the block has, so it does not keep a transaction from running again. The nonces do
(`TxEngine.queued_once`), unless payloads write over the signers or a nonce is the last there is.
-/

namespace VscNode

open Function List

inductive TransactionStatus
  | unconfirmed | confirmed | failed | included | processed
  deriving DecidableEq

structure TransactionRecord where
  status : TransactionStatus
  anchoredId : Option String := none
  requiredAuths : List String
  nonce : ℕ
  deriving DecidableEq

abbrev TransactionDb := String → Option TransactionRecord

def TransactionRecord.includedByThisBlock (r : TransactionRecord) (blockTxId : String) : Bool :=
  r.status = .included ∧ r.anchoredId = some blockTxId

/-- What the application of blocks takes from outside. -/
structure TxHost where
  /-- The canonical text of an identifier. -/
  cidText : String → String
  canonical : ∀ id, cidText (cidText id) = cidText id
  /-- The identifier of a set of signers. -/
  cid : Finset String → String
  resolver : Resolver

/-- A block with the `L1` transaction that carries it; `skipHandled` is the rule of its height. -/
structure ProposedBlock where
  txId : String
  skipHandled : Bool
  transactions : List OffchainTransaction

structure ConfirmedNonceInfo where
  keyId : String
  requiredAuths : List String
  nonces : List ℕ

/-- The state of the loop over the transactions of a block. -/
structure Ingestion where
  txDb : TransactionDb
  seenTxIds : List String := []
  nonceUpdates : String → Option ℕ := fun _ => none
  confirmedNonces : Collection ConfirmedNonceInfo.keyId := .empty
  txsToInjest : List TxPacket := []

structure TxEngine where
  txDb : TransactionDb
  nonceDb : String → ℕ
  txBatch : List TxPacket := []

namespace TxHost

variable (host : TxHost)

def txId (tx : OffchainTransaction) : String := host.cidText tx.txId

def keyId (tx : OffchainTransaction) : String :=
  BlockProducer.hashKeyAuths host.cid tx.headers.requiredAuths

/-- Index a transaction. Its signers are those its payloads have left. -/
def ingest (db : TransactionDb) (vscBlockTxId : String) (tx : OffchainTransaction) :
    TransactionDb × Except String (List VSCTransaction) × OffchainTransaction :=
  let (txs, tx) := tx.toTransaction host.resolver
  (update db tx.txId
    (some ⟨.included, some vscBlockTxId, tx.headers.requiredAuths, tx.headers.nonce⟩), txs, tx)

/-- Note the nonce of a transaction that runs, if it is the highest of its signers. -/
def raise (nonceUpdates : String → Option ℕ) (keyId : String) (nonce : ℕ) : String → Option ℕ :=
  let last := (nonceUpdates keyId).getD 0
  if last < nonce ∨ last = 0 then update nonceUpdates keyId (some nonce) else nonceUpdates

def noteNonce (s : Ingestion) (tx : OffchainTransaction) : ConfirmedNonceInfo :=
  let info := (s.confirmedNonces.get? (host.keyId tx)).getD
    ⟨host.keyId tx, tx.headers.requiredAuths, []⟩
  { info with nonces := tx.headers.nonce :: info.nonces }

def packet (tx : OffchainTransaction) (payer : String) :
    Except String (List VSCTransaction) → TxPacket
  | .error _ => { txId := host.txId tx, ops := [], invalid := true, payer := payer }
  | .ok txs => { txId := host.txId tx, ops := txs }

variable (nonceDb : String → ℕ) (b : ProposedBlock)

/-- Index a transaction and queue it, if it has signers. -/
def run (s : Ingestion) (tx : OffchainTransaction) : Ingestion :=
  let (txDb, txs, tx) := host.ingest s.txDb b.txId tx
  match tx.headers.requiredAuths with
  | [] => { s with txDb := txDb }
  | payer :: _ =>
    { s with
      txDb := txDb
      nonceUpdates := raise s.nonceUpdates (host.keyId tx) tx.headers.nonce
      confirmedNonces := s.confirmedNonces.put (host.noteNonce s tx)
      txsToInjest := s.txsToInjest ++ [host.packet tx payer txs] }

/-- A prior block has handled the transaction, or its nonce is used up. -/
def handled (db : TransactionDb) (tx : OffchainTransaction) : Bool :=
  let record := db (host.txId tx)
  !record.any (·.includedByThisBlock b.txId) &&
    (record.any (·.status ≠ .unconfirmed) ||
      tx.headers.requiredAuths ≠ [] && tx.headers.nonce < nonceDb (host.keyId tx))

def visit (s : Ingestion) (tx : OffchainTransaction) : Ingestion :=
  if b.skipHandled then
    if host.txId tx ∈ s.seenTxIds then s
    else
      let s := { s with seenTxIds := host.txId tx :: s.seenTxIds }
      if host.handled nonceDb b s.txDb tx then s else host.run b s tx
  else host.run b s tx

end TxHost

/-- The pending records that a confirmed nonce leaves without a chance. -/
def ConfirmedNonceInfo.competes (info : ConfirmedNonceInfo) (r : TransactionRecord) : Bool :=
  r.status = .unconfirmed ∧ info.requiredAuths ⊆ r.requiredAuths ∧
    r.requiredAuths.length = info.requiredAuths.length ∧ r.nonce ∈ info.nonces

/-- What happens to the index: blocks, copies of transactions from the pool, results. -/
inductive TxEvent
  | block (b : ProposedBlock)
  | ingest (id : String) (requiredAuths : List String) (nonce : ℕ)
  | setOutput (id : String) (status : TransactionStatus)
  | executeBatch

namespace TxEngine

variable (host : TxHost) (e : TxEngine)

def ingestion (b : ProposedBlock) : Ingestion :=
  b.transactions.foldl (host.visit e.nonceDb b) { txDb := e.txDb }

def executeTx (b : ProposedBlock) : TxEngine :=
  let s := e.ingestion host b
  { txDb := fun id => (s.txDb id).filter fun r =>
      !s.confirmedNonces.docs.any fun info => info.competes r
    nonceDb := fun k => (s.nonceUpdates k).elim (e.nonceDb k) fun v => (v + 1) % 2 ^ 64
    txBatch := s.txsToInjest ++ e.txBatch }

def step (e : TxEngine) : TxEvent → TxEngine
  | .block b => e.executeTx host b
  | .ingest id requiredAuths nonce =>
    let r := (e.txDb id).getD ⟨.unconfirmed, none, requiredAuths, nonce⟩
    { e with
      txDb := update e.txDb id (some { r with requiredAuths := requiredAuths, nonce := nonce }) }
  | .setOutput id status =>
    { e with txDb := update e.txDb id ((e.txDb id).map fun r => { r with status := status }) }
  | .executeBatch => { e with txBatch := [] }

def run : List TxEvent → TxEngine := foldl (step host) e

/-- The transactions that blocks queue, in order. -/
def queued : TxEngine → List TxEvent → List String
  | _, [] => []
  | e, .block b :: events =>
    (e.ingestion host b).txsToInjest.map TxPacket.txId ++ queued (e.executeTx host b) events
  | e, event :: events => queued (e.step host event) events

end TxEngine

def TxEvent.carrier : TxEvent → Option String
  | block b => some b.txId
  | _ => none

/-! ## Transactions run once -/

/-- Transactions that are what their identifiers say, whose payloads leave the signers as they
are and whose nonces have a next one. -/
structure TxHost.Admits (host : TxHost) (txs : Set OffchainTransaction) : Prop where
  signers : ∀ tx ∈ txs,
    (tx.toTransaction host.resolver).2.headers.requiredAuths = tx.headers.requiredAuths
  nonce : ∀ tx ∈ txs, tx.headers.nonce + 1 < 2 ^ 64
  content : ∀ tx ∈ txs, ∀ tx' ∈ txs, host.txId tx = host.txId tx' → tx.headers = tx'.headers

namespace TxHost

variable {host : TxHost} {txs : Set OffchainTransaction} {tx : OffchainTransaction}

theorem Admits.resolved (hadmits : host.Admits txs) (htx : tx ∈ txs) :
    (tx.toTransaction host.resolver).2 = tx := by
  have hsigners := hadmits.signers tx htx
  simp only [OffchainTransaction.toTransaction, OffchainTransaction.setHeaders,
    VSCTransactionHeader.setRequiredAuths] at hsigners ⊢
  rw [hsigners]

/-- The note of the signers' nonce only goes up. -/
theorem exists_raise (nonceUpdates : String → Option ℕ) (keyId : String) (nonce : ℕ) :
    ∃ v, raise nonceUpdates keyId nonce = update nonceUpdates keyId (some v) ∧ nonce ≤ v ∧
      (∀ w, nonceUpdates keyId = some w → w ≤ v) ∧ (v = nonce ∨ nonceUpdates keyId = some v) := by
  rw [raise]
  split
  · rename_i hlast
    refine ⟨nonce, rfl, le_rfl, fun w hw => ?_, .inl rfl⟩
    rw [hw, Option.getD_some] at hlast
    omega
  · rename_i hlast
    cases hw : nonceUpdates keyId with
    | none => simp [hw] at hlast
    | some w =>
      rw [hw, Option.getD_some] at hlast
      refine ⟨w, (update_eq_self_iff.2 hw.symm).symm, by omega, ?_, .inr rfl⟩
      rintro w' ⟨⟩
      exact le_rfl

end TxHost

namespace Ingestion

variable {host : TxHost} {txs : Set OffchainTransaction} {nonceDb : String → ℕ}
  {db : TransactionDb} {b : ProposedBlock} {s : Ingestion} {tx : OffchainTransaction}

/-- What the loop keeps: only what has been seen is queued or anchored at the block, and the
nonces of the queued are not below the stored ones. -/
structure Sound (host : TxHost) (txs : Set OffchainTransaction) (nonceDb : String → ℕ)
    (db : TransactionDb) (b : ProposedBlock) (s : Ingestion) : Prop where
  nodup : (s.txsToInjest.map TxPacket.txId).Nodup
  seen : ∀ p ∈ s.txsToInjest, p.txId ∈ s.seenTxIds
  queued : ∀ p ∈ s.txsToInjest, ∃ tx ∈ txs, host.txId tx = p.txId ∧
    nonceDb (host.keyId tx) ≤ tx.headers.nonce ∧
      ∃ v, s.nonceUpdates (host.keyId tx) = some v ∧ tx.headers.nonce ≤ v
  updates : ∀ k v, s.nonceUpdates k = some v → nonceDb k ≤ v ∧ v + 1 < 2 ^ 64
  anchored : ∀ id r, s.txDb id = some r → r.anchoredId = some b.txId →
    host.cidText id ∈ s.seenTxIds
  others : ∀ id r c, s.txDb id = some r → r.anchoredId = some c →
    c = b.txId ∨ ∃ id' r', db id' = some r' ∧ r'.anchoredId = some c

theorem sound_start (h : ∀ id r, db id = some r → r.anchoredId ≠ some b.txId) :
    Sound host txs nonceDb db b { txDb := db } where
  nodup := nodup_nil
  seen := by simp
  queued := by simp
  updates := by simp
  anchored id r hr hc := absurd hc (h id r hr)
  others id r c hr hc := .inr ⟨id, r, hr, hc⟩

/-- To be seen is not yet to be queued. -/
theorem Sound.see (h : Sound host txs nonceDb db b s) :
    Sound host txs nonceDb db b { s with seenTxIds := host.txId tx :: s.seenTxIds } where
  nodup := h.nodup
  seen p hp := mem_cons_of_mem _ (h.seen p hp)
  queued := h.queued
  updates := h.updates
  anchored id r hr hc := mem_cons_of_mem _ (h.anchored id r hr hc)
  others := h.others

section

variable (hadmits : host.Admits txs) (htx : tx ∈ txs)
include hadmits htx

theorem Sound.ingest (h : Sound host txs nonceDb db b s) :
    Sound host txs nonceDb db b { s with
      seenTxIds := host.txId tx :: s.seenTxIds, txDb := (host.ingest s.txDb b.txId tx).1 } where
  nodup := h.nodup
  seen p hp := mem_cons_of_mem _ (h.seen p hp)
  queued := h.queued
  updates := h.updates
  anchored id r hr hc := by
    by_cases hid : id = tx.txId
    · exact hid ▸ mem_cons_self
    · simp only [TxHost.ingest, hadmits.resolved htx, update_of_ne hid] at hr
      exact mem_cons_of_mem _ (h.anchored id r hr hc)
  others id r c hr hc := by
    by_cases hid : id = tx.txId
    · simp only [TxHost.ingest, hadmits.resolved htx, hid, update_self, Option.some.injEq] at hr
      exact .inl (Option.some.inj (hc.symm.trans (hr ▸ rfl)))
    · simp only [TxHost.ingest, hadmits.resolved htx, update_of_ne hid] at hr
      exact h.others id r c hr hc

theorem Sound.run (h : Sound host txs nonceDb db b s) (hseen : host.txId tx ∉ s.seenTxIds)
    (hnonce : tx.headers.requiredAuths ≠ [] → nonceDb (host.keyId tx) ≤ tx.headers.nonce) :
    Sound host txs nonceDb db b
      (host.run b { s with seenTxIds := host.txId tx :: s.seenTxIds } tx) := by
  have hingest := h.ingest hadmits htx
  have hsame : (host.ingest s.txDb b.txId tx).2.2 = tx := hadmits.resolved htx
  rw [TxHost.run]
  generalize host.ingest s.txDb b.txId tx = result at hingest hsame ⊢
  obtain ⟨txDb, ops, tx'⟩ := result
  obtain rfl : tx' = tx := hsame
  dsimp only at hingest ⊢
  split
  · exact hingest
  rename_i payer rest hauths
  have hnonce := hnonce (hauths ▸ cons_ne_nil _ _)
  have hpacket : (host.packet tx' payer ops).txId = host.txId tx' := by cases ops <;> rfl
  obtain ⟨v, hv, hle, hup, hfrom⟩ :=
    TxHost.exists_raise s.nonceUpdates (host.keyId tx') tx'.headers.nonce
  rw [hv]
  refine ⟨?_, ?_, ?_, fun k w hw => ?_, hingest.anchored, hingest.others⟩
  · rw [map_append, map_singleton, hpacket]
    refine nodup_append.2 ⟨h.nodup, nodup_singleton _, fun id hid id' hid' => ?_⟩
    obtain ⟨p, hp, rfl⟩ := mem_map.1 hid
    rintro rfl
    exact hseen (mem_singleton.1 hid' ▸ h.seen p hp)
  · refine forall_mem_append.2 ⟨hingest.seen, forall_mem_singleton.2 ?_⟩
    exact hpacket ▸ mem_cons_self
  · refine forall_mem_append.2 ⟨fun p hp => ?_, forall_mem_singleton.2 ?_⟩
    · obtain ⟨tx₁, htx₁, hid, hstored, w, hw, hlew⟩ := h.queued p hp
      refine ⟨tx₁, htx₁, hid, hstored, ?_⟩
      by_cases hkey : host.keyId tx₁ = host.keyId tx'
      · rw [hkey] at hw ⊢
        exact ⟨v, update_self .., hlew.trans (hup w hw)⟩
      · exact ⟨w, (update_of_ne hkey ..).trans hw, hlew⟩
    · exact ⟨tx', htx, hpacket.symm, hnonce, v, update_self .., hle⟩
  · dsimp only at hw
    by_cases hkey : k = host.keyId tx'
    · rw [hkey, update_self, Option.some.injEq] at hw
      subst hw hkey
      refine ⟨hnonce.trans hle, ?_⟩
      rcases hfrom with rfl | hfrom
      · exact hadmits.nonce tx' htx
      · exact (h.updates _ _ hfrom).2
    · exact h.updates k w ((update_of_ne hkey ..).symm.trans hw)

theorem Sound.visit (hactive : b.skipHandled = true) (h : Sound host txs nonceDb db b s) :
    Sound host txs nonceDb db b (host.visit nonceDb b s tx) := by
  rw [TxHost.visit, if_pos hactive]
  split
  · exact h
  rename_i hseen
  dsimp only
  split
  · exact h.see
  rename_i hhandled
  refine h.run hadmits htx hseen fun hauths => ?_
  have hown : ∀ r, s.txDb (host.txId tx) = some r → r.includedByThisBlock b.txId = false := by
    intro r hr
    rw [TransactionRecord.includedByThisBlock, decide_eq_false_iff_not]
    rintro ⟨-, hc⟩
    -- a record that this block has written stands under a text of something seen
    have hmem := h.anchored _ r hr hc
    rw [TxHost.txId, host.canonical] at hmem
    exact hseen hmem
  have hlt : ¬ tx.headers.nonce < nonceDb (host.keyId tx) := by
    intro hlt
    refine hhandled ?_
    cases hr : s.txDb (host.txId tx) <;> simp [TxHost.handled, hr, hauths, hlt, hown]
  exact not_lt.1 hlt

end

theorem Sound.foldl (hadmits : host.Admits txs) (hactive : b.skipHandled = true)
    {todo : List OffchainTransaction} (htodo : ∀ tx ∈ todo, tx ∈ txs)
    (h : Sound host txs nonceDb db b s) :
    Sound host txs nonceDb db b (todo.foldl (host.visit nonceDb b) s) := by
  induction todo generalizing s with
  | nil => exact h
  | cons tx todo ih =>
    obtain ⟨htx, htodo⟩ := forall_mem_cons.1 htodo
    exact ih htodo (h.visit hadmits htx hactive)

end Ingestion

namespace TxEngine

variable {host : TxHost} {txs : Set OffchainTransaction} {e : TxEngine} {events : List TxEvent}

/-- No record is anchored at one of the carriers of blocks that are yet to come. -/
def Fresh (e : TxEngine) (carriers : List String) : Prop :=
  ∀ id r c, e.txDb id = some r → r.anchoredId = some c → c ∉ carriers

/-- Blocks of transactions from `txs`, under the rule that passes over the handled ones. -/
def Lists (txs : Set OffchainTransaction) : TxEvent → Prop
  | .block b => b.skipHandled = true ∧ ∀ tx ∈ b.transactions, tx ∈ txs
  | _ => True

section

variable (hadmits : host.Admits txs)
include hadmits

theorem sound_ingestion {b : ProposedBlock} (hlists : Lists txs (.block b))
    (hfresh : e.Fresh [b.txId]) : (e.ingestion host b).Sound host txs e.nonceDb e.txDb b :=
  (Ingestion.sound_start fun id r hr hc => hfresh id r _ hr hc mem_cons_self).foldl hadmits
    hlists.1 hlists.2

theorem fresh_step {event : TxEvent} {carriers : List String} (hlists : Lists txs event)
    (hnodup : (event.carrier.toList ++ carriers).Nodup)
    (h : e.Fresh (event.carrier.toList ++ carriers)) : (e.step host event).Fresh carriers := by
  intro id r c hr hc
  have hold : ∀ id' r', e.txDb id' = some r' → r'.anchoredId = some c → c ∉ carriers :=
    fun id' r' hr' hc' hmem => h id' r' c hr' hc' (mem_append_right _ hmem)
  cases event with
  | block b =>
    have hsound := sound_ingestion hadmits hlists fun id r c hr hc hmem =>
      h id r c hr hc (mem_append_left _ hmem)
    obtain ⟨hr, -⟩ := Option.filter_eq_some_iff.1 hr
    rcases hsound.others id r c hr hc with rfl | ⟨id', r', hr', hc'⟩
    · exact (nodup_cons.1 hnodup).1
    · exact hold id' r' hr' hc'
  | ingest id' requiredAuths nonce =>
    simp only [step] at hr
    by_cases hid : id = id'
    · rw [hid, update_self, Option.some.injEq] at hr
      subst hr
      cases hr' : e.txDb id' with
      | none => simp [hr'] at hc
      | some r' => exact hold id' r' hr' (by simpa [hr'] using hc)
    · exact hold id r ((update_of_ne hid ..).symm.trans hr) hc
  | setOutput id' status =>
    simp only [step] at hr
    by_cases hid : id = id'
    · rw [hid, update_self, Option.map_eq_some_iff] at hr
      obtain ⟨r', hr', rfl⟩ := hr
      exact hold id' r' hr' hc
    · exact hold id r ((update_of_ne hid ..).symm.trans hr) hc
  | executeBatch => exact hold id r hr hc

/-- What a block does to the nonces: they move behind those of the queued transactions. -/
theorem nonce_executeTx {b : ProposedBlock} (hlists : Lists txs (.block b))
    (hfresh : e.Fresh [b.txId]) (key : String) :
    e.nonceDb key ≤ (e.executeTx host b).nonceDb key ∧
      ∀ v, (e.ingestion host b).nonceUpdates key = some v →
        (e.executeTx host b).nonceDb key = v + 1 := by
  have hsound := sound_ingestion hadmits hlists hfresh
  simp only [executeTx]
  cases hv : (e.ingestion host b).nonceUpdates key with
  | none => exact ⟨le_rfl, by simp⟩
  | some v =>
    obtain ⟨hle, hnext⟩ := hsound.updates key v hv
    rw [Option.elim_some, Nat.mod_eq_of_lt hnext]
    refine ⟨hle.trans (Nat.le_succ v), ?_⟩
    rintro w ⟨⟩
    rfl

/-- **A transaction is queued at most once and uses up its nonce**: in every run of blocks with
carriers of their own, copies from the pool and results, in any order, no nonce goes back, and
that of a queued transaction was free before the run and is not after it. -/
theorem queued_once (hlists : ∀ event ∈ events, Lists txs event)
    (hnodup : (events.flatMap fun event => event.carrier.toList).Nodup)
    (hfresh : e.Fresh (events.flatMap fun event => event.carrier.toList)) :
    (e.queued host events).Nodup ∧ (∀ key, e.nonceDb key ≤ (e.run host events).nonceDb key) ∧
      ∀ id ∈ e.queued host events, ∃ tx ∈ txs, host.txId tx = id ∧
        e.nonceDb (host.keyId tx) ≤ tx.headers.nonce ∧
          tx.headers.nonce < (e.run host events).nonceDb (host.keyId tx) := by
  induction events generalizing e with
  | nil => exact ⟨nodup_nil, fun _ => le_rfl, by simp [queued]⟩
  | cons event events ih =>
    obtain ⟨hevent, hlists⟩ := forall_mem_cons.1 hlists
    rw [flatMap_cons] at hnodup hfresh
    obtain ⟨ihnodup, ihnonce, ihqueued⟩ := ih hlists (nodup_append.1 hnodup).2.1
      (fresh_step hadmits hevent hnodup hfresh)
    cases event with
    | block b =>
      have hfresh : e.Fresh [b.txId] := fun id r c hr hc hmem =>
        hfresh id r c hr hc (mem_append_left _ hmem)
      have hsound := sound_ingestion hadmits hevent hfresh
      have hstep := fun key => nonce_executeTx hadmits hevent hfresh key
      refine ⟨nodup_append.2 ⟨hsound.nodup, ihnodup, fun id hid id' hid' => ?_⟩,
        fun key => (hstep key).1.trans (ihnonce key),
        forall_mem_append.2 ⟨fun id hid => ?_, fun id hid => ?_⟩⟩
      · rintro rfl
        obtain ⟨p, hp, rfl⟩ := mem_map.1 hid
        obtain ⟨tx, htx, hid, -, v, hv, hle⟩ := hsound.queued p hp
        obtain ⟨tx', htx', hsame, hle', -⟩ := ihqueued _ hid'
        have hheaders := hadmits.content tx htx tx' htx' (hid.trans hsame.symm)
        rw [TxHost.keyId, ← hheaders] at hle'
        have := (hstep _).2 v hv
        rw [TxHost.keyId] at this
        simp only [step] at hle'
        omega
      · obtain ⟨p, hp, rfl⟩ := mem_map.1 hid
        obtain ⟨tx, htx, hid, hstored, v, hv, hle⟩ := hsound.queued p hp
        refine ⟨tx, htx, hid, hstored, (Nat.lt_succ_of_le hle).trans_le ?_⟩
        exact ((hstep _).2 v hv).ge.trans (ihnonce _)
      · obtain ⟨tx, htx, hid, hle, hlt⟩ := ihqueued id hid
        exact ⟨tx, htx, hid, (hstep _).1.trans hle, hlt⟩
    | _ => exact ⟨ihnodup, ihnonce, ihqueued⟩

end

/-- Identifiers in capitals are other texts of the same; a payload names Alice as signer. -/
def capitals : TxHost where
  cidText := fun id => if id = "TX" then "tx" else id
  canonical := by
    intro id
    split <;> simp_all
  cid _ := ""
  resolver := ⟨true, fun _ => some (.obj
    [("Self", .obj [("RequiredAuths", .arr [.str "hive:alice"])])])⟩

def signed (id signer : String) (nonce : ℕ) (ops : List VSCTransactionOp) :
    OffchainTransaction where
  self := {}
  txId := id
  headers := { nonce := nonce, requiredAuths := [signer] }
  tx := ops

/-- A transaction that two blocks list, the first under another text. -/
theorem queued_once_capitals :
    let blocks : List TxEvent := [.block ⟨"b1", true, [signed "TX" "hive:bob" 4 []]⟩,
      .block ⟨"b2", true, [signed "tx" "hive:bob" 4 []]⟩]
    let e : TxEngine := { txDb := fun _ => none, nonceDb := fun _ => 4 }
    e.queued capitals blocks = ["tx"] ∧ (e.queued capitals blocks).Nodup ∧
      ∀ key, e.nonceDb key ≤ (e.run capitals blocks).nonceDb key := by
  have hadmits : capitals.Admits {signed "TX" "hive:bob" 4 [], signed "tx" "hive:bob" 4 []} := by
    refine ⟨?_, ?_, ?_⟩
    · simp [signed, OffchainTransaction.toTransaction, OffchainTransaction.resolve,
        OffchainTransaction.setHeaders, VSCTransactionHeader.setRequiredAuths]
    · simp [signed]
    · simp [signed]
  exact ⟨by decide, And.imp_right And.left
    (queued_once hadmits (by simp [Lists]) (by decide) (by simp [Fresh]))⟩

/-- Mallory's transfer names Alice as its signer, and Alice's nonce goes back to one. -/
example :
    let e : TxEngine :=
      { txDb := fun _ => none, nonceDb := fun k => if k = "hive:alice" then 7 else 0 }
    let b : ProposedBlock := ⟨"b", true, [signed "tx" "hive:mallory" 0 [⟨"transfer", ""⟩]]⟩
    (e.executeTx capitals b).nonceDb "hive:alice" = 1 := by
  decide

end TxEngine

end VscNode
