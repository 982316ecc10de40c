import VscNode.Chain.Election

/-!
# Proposals of a consensus version

A member of the committee may propose the next consensus version, and the recovery accounts
may require one. All signers of an election ask for the candidates at its anchor: those
recorded before the anchor, among those that are there now. A proposer has one proposal and
there is one requirement, so a candidate that was replaced since is not found any more.
-/

namespace VscNode.StateEngine

open Collection List Text
open Pendulum (Version)

structure VersionProposal where
  target : Version
  (activationEpoch creationEpoch expiryEpoch : ℕ)
  forced : Bool
  (proposer txId : String)
  blockHeight : ℕ

inductive VersionOp
  | proposeConsensusVersion | recoverySuspend | recoveryRequireVersion

structure TxVersion where
  op : VersionOp
  txId : String
  blockHeight : ℕ
  requiredAuths : List String
  netId : String
  (major consensus activationEpoch : ℕ)

/-- What operations are checked against. -/
structure VersionRules where
  netId : String
  versionProposalExpiry : ℕ
  getElectionByHeight : ℕ → Option ElectionResult
  announced : String → ℕ → Option Version
  verifyRecoveryMultisig : List String → Bool

structure ConsensusState where
  versionProposals : Collection VersionProposal.proposer := Collection.empty
  forcedActivation : Option VersionProposal := none
  processingSuspended : Bool := false

/-- `Cmp` is positive. -/
def versionGT (v w : Version) : Bool :=
  decide ([w.major, w.consensus, w.nonConsensus] < [v.major, v.consensus, v.nonConsensus])

namespace TxVersion

variable (rules : VersionRules) (tx : TxVersion)

def firstHiveAuth : String := (tx.requiredAuths.head?.map (trimPrefix · "hive:")).getD ""

def target : Version := ⟨tx.major, tx.consensus, 0⟩

def proposalEpoch (elec : ElectionResult) : ℕ :=
  if tx.activationEpoch = 0 then elec.epoch + 1 else tx.activationEpoch

def proposedUnder : Option ElectionResult :=
  if tx.netId ≠ "" ∧ tx.netId ≠ rules.netId then none
  else
    (rules.getElectionByHeight tx.blockHeight).filter fun elec =>
      tx.firstHiveAuth ≠ "" ∧ tx.firstHiveAuth ∈ elec.accounts.map (trimPrefix · "hive:") ∧
        versionGT tx.target elec.version ∧
        (rules.announced tx.firstHiveAuth tx.blockHeight).all (·.meetsConsensusMin tx.target) ∧
        elec.epoch < tx.proposalEpoch elec

def proposes : Option String :=
  match tx.op with
  | .proposeConsensusVersion => (tx.proposedUnder rules).map fun _ => tx.firstHiveAuth
  | _ => none

end TxVersion

namespace ConsensusState

variable (rules : VersionRules)

variable (s : ConsensusState) (blk : ℕ)

def executeTx (tx : TxVersion) : ConsensusState :=
  match tx.op with
  | .proposeConsensusVersion =>
    (tx.proposedUnder rules).elim s fun elec =>
      { s with
        versionProposals := s.versionProposals.put ⟨tx.target, tx.proposalEpoch elec, elec.epoch,
          elec.epoch + rules.versionProposalExpiry, false, tx.firstHiveAuth, tx.txId,
          tx.blockHeight⟩ }
  | .recoverySuspend =>
    if rules.verifyRecoveryMultisig tx.requiredAuths then { s with processingSuspended := true }
    else s
  | .recoveryRequireVersion =>
    if ¬ rules.verifyRecoveryMultisig tx.requiredAuths ∨ ¬ s.processingSuspended then s
    else
      (rules.getElectionByHeight tx.blockHeight).elim s fun elec =>
        { s with
          forcedActivation := some ⟨tx.target, elec.epoch + 1, elec.epoch, 0, true,
            tx.firstHiveAuth, tx.txId, tx.blockHeight⟩
          processingSuspended := false }

def run : ConsensusState → List TxVersion → ConsensusState := foldl (executeTx rules)

/-- The operation is an accepted `recovery_require_version`. -/
def requiresVersion (tx : TxVersion) : Bool :=
  match tx.op with
  | .recoveryRequireVersion => rules.verifyRecoveryMultisig tx.requiredAuths &&
      s.processingSuspended && (rules.getElectionByHeight tx.blockHeight).isSome
  | _ => false

/-- One of the operations is an accepted `recovery_require_version`. -/
def versionRequired : ConsensusState → List TxVersion → Bool
  | _, [] => false
  | s, tx :: txs => s.requiresVersion rules tx || versionRequired (s.executeTx rules tx) txs

def versionProposalsForHeight : List VersionProposal :=
  s.versionProposals.docs.filter fun p => p.blockHeight < blk

def forcedActivationForHeight : Option VersionProposal :=
  s.forcedActivation.filter fun p => p.blockHeight < blk

variable {rules} {h : ℕ} {s : ConsensusState}

theorem filter_put {c : Collection VersionProposal.proposer} {p : VersionProposal}
    (hp : h ≤ p.blockHeight) : ((c.put p).docs.filter fun q => q.blockHeight < h) =
      c.docs.filter fun q => q.blockHeight < h ∧ q.proposer ≠ p.proposer := by
  refine (filter_congr fun q hq => ?_).trans (filter_docs_put (x := p) (by simp) (by simp_all))
  by_cases hkey : q.proposer = p.proposer
  · obtain rfl := eq_of_key_eq hq (mem_put_self _ _) hkey
    simp [not_lt.2 hp]
  · simp [hkey]

theorem forHeight_executeTx {tx : TxVersion} (htx : h ≤ tx.blockHeight) :
    ((s.executeTx rules tx).versionProposalsForHeight h =
        (s.versionProposalsForHeight h).filter fun p => some p.proposer ≠ tx.proposes rules) ∧
      (s.executeTx rules tx).forcedActivationForHeight h =
        if s.requiresVersion rules tx then none else s.forcedActivationForHeight h := by
  rw [executeTx, TxVersion.proposes, requiresVersion]
  cases tx.op with
  | proposeConsensusVersion =>
    cases tx.proposedUnder rules with
    | none => simp [forcedActivationForHeight]
    -- the new proposal is not a candidate, and its proposer's old one is gone
    | some elec =>
      simp [versionProposalsForHeight, forcedActivationForHeight, filter_put, htx, filter_filter,
        Bool.and_comm]
  | recoverySuspend =>
    dsimp only
    split <;> simp [versionProposalsForHeight, forcedActivationForHeight]
  | recoveryRequireVersion =>
    dsimp only
    split
    · rename_i hrefused
      simp only [Bool.not_eq_true, ← Bool.and_eq_false_iff] at hrefused
      simp [hrefused]
    rename_i haccepted
    simp only [Bool.not_eq_true, ← Bool.and_eq_false_iff, Bool.not_eq_false] at haccepted
    cases rules.getElectionByHeight tx.blockHeight with
    | none => simp
    | some elec => simp [versionProposalsForHeight, forcedActivationForHeight, htx, haccepted]

theorem forHeight_run {txs : List TxVersion} (htxs : ∀ tx ∈ txs, h ≤ tx.blockHeight) :
    ((s.run rules txs).versionProposalsForHeight h = (s.versionProposalsForHeight h).filter
        fun p => ∀ tx ∈ txs, some p.proposer ≠ tx.proposes rules) ∧
      (s.run rules txs).forcedActivationForHeight h =
        if versionRequired rules s txs then none else s.forcedActivationForHeight h := by
  induction txs generalizing s with
  | nil => simp [run, versionRequired]
  | cons tx txs ih =>
    rw [forall_mem_cons] at htxs
    obtain ⟨hprops, hforced⟩ := ih (s := s.executeTx rules tx) htxs.2
    obtain ⟨hprop, hforce⟩ := forHeight_executeTx (s := s) htxs.1
    rw [run, foldl_cons, ← run, hprops, hprop, hforced, hforce, versionRequired]
    refine ⟨by simp [filter_filter, Bool.and_comm], ?_⟩
    cases s.requiresVersion rules tx <;> simp

/-- Whatever the elections so far have left, the candidates at a height stay what they are until
the next one exactly if no proposer of one proposes again, and there is no forced one or no
accepted requirement. -/
theorem candidates_stable_iff {txs : List TxVersion} (htxs : ∀ tx ∈ txs, h ≤ tx.blockHeight) :
    let s' := s.run rules txs
    (s'.versionProposalsForHeight h = s.versionProposalsForHeight h ∧
        s'.forcedActivationForHeight h = s.forcedActivationForHeight h) ↔
      (∀ p ∈ s.versionProposalsForHeight h, ∀ tx ∈ txs, some p.proposer ≠ tx.proposes rules) ∧
        (s.forcedActivationForHeight h = none ∨ versionRequired rules s txs = false) := by
  intro s'
  obtain ⟨hprops, hforced⟩ : s'.versionProposalsForHeight h = _ ∧
      s'.forcedActivationForHeight h = _ := forHeight_run htxs
  refine and_congr (by rw [hprops, filter_eq_self]; simp) ?_
  rw [hforced]
  cases versionRequired rules s txs <;> simp [eq_comm]

/-- One election, whose members run any version. -/
def openRules : VersionRules :=
  ⟨"", 10, fun _ => some ⟨1, 5, [⟨"k", "alice"⟩, ⟨"l", "bob"⟩], ⟨0, 1, 0⟩⟩, fun _ _ => none,
    fun _ => true⟩

def proposeAt (height : ℕ) (account : String) (consensus : ℕ) : TxVersion :=
  ⟨.proposeConsensusVersion, "t", height, [account], "", 0, consensus, 0⟩

/-- Alice proposes again behind the anchor, and the candidate is gone. -/
theorem candidate_disappears :
    let s := run openRules {} [proposeAt 10 "alice" 2]
    (s.versionProposalsForHeight 20).length = 1 ∧
      (s.run openRules [proposeAt 20 "alice" 3]).versionProposalsForHeight 20 = [] :=
  ⟨by decide, length_eq_zero_iff.1 (by decide)⟩

theorem candidates_stable_iff_bob :
    let s := run openRules {} [proposeAt 10 "alice" 2]
    (s.run openRules [proposeAt 20 "bob" 3]).versionProposalsForHeight 20 =
      s.versionProposalsForHeight 20 ∧ (s.versionProposalsForHeight 20).length = 1 :=
  ⟨((candidates_stable_iff (by decide)).2 ⟨by decide, .inl rfl⟩).1, by decide⟩

end ConsensusState

end VscNode.StateEngine
