import VscNode.Tss.BtcVault
import VscNode.Tss.Commitment

/-!
# Signers of superseded vault generations

`computeRetiringSignerSet` (`modules/vaultrotation/eligibility.go`) goes over the
vault registry and collects, for each generation, the parties of its newest
commitment: those of retiring, draining and inactive generations stay eligible
to sign and keep their bond locked, those of a pending one stay eligible for its
check signature, those of the active one from a later version on.

A map of the source is the list of what was written to it, the last write first,
so that a lookup finds the last write.
-/

namespace VscNode.VaultRotation

open BtcVault Tss List

structure RetiringSignerSet where
  signerElection : List (String × ElectionResult) := []
  keyIds : List String := []
  pendingSignerElection : List (String × ElectionResult) := []
  pendingKeyIds : List String := []
  reshareSkipKeyIds : List String := []
  activeSignerElection : List (String × ElectionResult) := []
  readinessWidened : Bool := false
  unresolvable : Bool := false

namespace RetiringSignerSet

def has (s : RetiringSignerSet) (account : String) : Bool :=
  (s.signerElection.lookup account).isSome

end RetiringSignerSet

structure RetiringSignerDeps where
  btcContract : String
  readKey : String → Option Bytes
  getCommitment : String → Option TssCommitment
  getElection : ℕ → Option ElectionResult
  includeActiveHolders : Bool := false
  excludeInactive : Bool := false

namespace RetiringSignerDeps

variable (d : RetiringSignerDeps)

def commitmentCommittee (keyId : String) : Option (ElectionResult × List String) :=
  match d.getCommitment keyId with
  | none => none
  | some commitment =>
    match d.getElection commitment.epoch with
    | none => none
    | some election =>
      if election.members = [] then none
      else some (election, commitment.parties election.accounts)

def recordAll (accounts : List String) (election : ElectionResult)
    (m : List (String × ElectionResult)) : List (String × ElectionResult) :=
  accounts.foldl (fun m account => (account, election) :: m) m

def skipReshare (keyId : String) (v : Vault) (out : RetiringSignerSet) : RetiringSignerSet :=
  if v.status = .retiring ∨ v.status = .draining ∨ v.status = .inactive ∨ v.status = .purged then
    { out with reshareSkipKeyIds := keyId :: out.reshareSkipKeyIds }
  else out

/-- One turn of the loop over the registry. -/
def addVault (out : RetiringSignerSet) (v : Vault) : RetiringSignerSet :=
  let keyId := vaultKeyId d.btcContract v.generation
  let out := skipReshare keyId v out
  if v.status = .pending then
    match d.commitmentCommittee keyId with
    | none => out
    | some (election, accounts) =>
      { out with
        pendingSignerElection := recordAll accounts election out.pendingSignerElection
        pendingKeyIds := keyId :: out.pendingKeyIds
        reshareSkipKeyIds := keyId :: out.reshareSkipKeyIds }
  else if v.status = .active then
    if d.includeActiveHolders then
      match d.commitmentCommittee keyId with
      | none => out
      | some (election, accounts) =>
        { out with
          activeSignerElection := recordAll accounts election out.activeSignerElection }
    else out
  else if v.status ≠ .retiring ∧ v.status ≠ .draining ∧ v.status ≠ .inactive then out
  else if d.excludeInactive ∧ v.status = .inactive then out
  else
    match d.commitmentCommittee keyId with
    | none => out
    | some (election, accounts) =>
      { out with
        signerElection := recordAll accounts election out.signerElection
        keyIds := keyId :: out.keyIds }

def computeRetiringSignerSet : RetiringSignerSet :=
  let out : RetiringSignerSet := { readinessWidened := d.includeActiveHolders }
  if d.btcContract = "" then out
  else
    match d.readKey "v" with
    | none => out
    | some rawV =>
      if rawV.length = 0 then out
      else
        match unmarshalVaultRegistry rawV with
        | none => { out with unresolvable := true }
        | some vaults => vaults.foldl d.addVault out

variable {d}

variable {account : String}

variable {accounts : List String} {election : ElectionResult} {out : RetiringSignerSet} {v : Vault}
  {vaults : List Vault} {rawV : Bytes}

theorem mem_recordAll {m : List (String × ElectionResult)} :
    account ∈ (recordAll accounts election m).map Prod.fst ↔
      account ∈ accounts ∨ account ∈ m.map Prod.fst := by
  induction accounts generalizing m with
  | nil => simp [recordAll]
  | cons a accounts ih =>
    rw [recordAll, foldl_cons, ← recordAll, ih]
    simp only [map_cons, mem_cons]
    tauto

@[simp] theorem signerElection_skipReshare (keyId : String) (v : Vault) (out : RetiringSignerSet) :
    (skipReshare keyId v out).signerElection = out.signerElection := by
  unfold skipReshare
  split <;> rfl

theorem signers_addVault (h : account ∈ out.signerElection.map Prod.fst) :
    account ∈ (d.addVault out v).signerElection.map Prod.fst := by
  rw [← signerElection_skipReshare (vaultKeyId d.btcContract v.generation) v out] at h
  unfold addVault
  dsimp only
  split
  · split <;> exact h
  split
  · split
    · split <;> exact h
    · exact h
  iterate 3
    split
    · exact h
  · exact mem_recordAll.2 (.inr h)

theorem signers_addVault_of_party (hstatus : v.status = .retiring ∨ v.status = .draining)
    (hcommittee : d.commitmentCommittee (vaultKeyId d.btcContract v.generation) =
      some (election, accounts))
    (h : account ∈ accounts) : account ∈ (d.addVault out v).signerElection.map Prod.fst := by
  unfold addVault
  rcases hstatus with hstatus | hstatus <;> simp [hstatus, hcommittee, mem_recordAll, h]

theorem signers_foldl (h : account ∈ out.signerElection.map Prod.fst) :
    account ∈ (vaults.foldl d.addVault out).signerElection.map Prod.fst := by
  induction vaults generalizing out with
  | nil => exact h
  | cons v vaults ih => exact ih (signers_addVault h)

theorem has_of_party {commitment : TssCommitment} (hcontract : d.btcContract ≠ "")
    (hread : d.readKey "v" = some rawV) (hraw : rawV ≠ [])
    (hvaults : unmarshalVaultRegistry rawV = some vaults) (hv : v ∈ vaults)
    (hstatus : v.status = .retiring ∨ v.status = .draining)
    (hcommitment : d.getCommitment (vaultKeyId d.btcContract v.generation) = some commitment)
    (helection : d.getElection commitment.epoch = some election)
    (hparty : account ∈ commitment.parties election.accounts) :
    d.computeRetiringSignerSet.has account = true := by
  have hmembers : election.members ≠ [] := by
    intro hnil
    rw [ElectionResult.accounts, hnil] at hparty
    exact absurd hparty not_mem_nil
  have hcommittee : d.commitmentCommittee (vaultKeyId d.btcContract v.generation) =
      some (election, commitment.parties election.accounts) := by
    simp [commitmentCommittee, hcommitment, helection, hmembers]
  obtain ⟨l₁, l₂, rfl⟩ := append_of_mem hv
  have hmem : account ∈ d.computeRetiringSignerSet.signerElection.map Prod.fst := by
    rw [computeRetiringSignerSet, if_neg hcontract, hread]
    simp only [length_eq_zero_iff, if_neg hraw, hvaults, foldl_append, foldl_cons]
    exact signers_foldl (signers_addVault_of_party hstatus hcommittee hparty)
  rw [RetiringSignerSet.has, lookup_isSome_iff]
  obtain ⟨p, hp, rfl⟩ := mem_map.1 hmem
  exact ⟨p, hp, by simp⟩

theorem unresolvable_of_undecodable (hcontract : d.btcContract ≠ "")
    (hread : d.readKey "v" = some rawV) (hraw : rawV ≠ [])
    (hvaults : unmarshalVaultRegistry rawV = none) :
    d.computeRetiringSignerSet.unresolvable = true := by
  rw [computeRetiringSignerSet, if_neg hcontract, hread]
  simp [hraw, hvaults]

end RetiringSignerDeps

end VscNode.VaultRotation
