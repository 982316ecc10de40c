import VscNode.Contract.Handler

/-!
# Storage proofs and the code they are for

A storage proof is an aggregate signature of committee members over a content id, and it
is there to say that they hold the code of a contract. The proof names the content id
itself, and `verify` counts the seats whose bit is set. Neither the content id of the
proof is compared with the code that is registered, nor are the keys at the seats compared
with one another.

Where every registered code comes with a proof for it and no key sits at two seats of the
committee, every code that a contract ever runs was signed by enough different members
(`code_signed`).
-/

namespace VscNode.Contracts

open ContractDb Option TransactionPool

/-! ## What a proof says -/

def SignedFor (cfg : ContractConfig) (signers : String → List String) (election : ElectionResult)
    (code : String) : Prop :=
  ∃ cid, cfg.decodeCid code = some cid ∧
    ∃ keys : List String, keys.Nodup ∧ keys ⊆ election.members.map (·.key) ∧
      (∀ k ∈ keys, k ∈ signers cid) ∧ cfg.minSpSigners ≤ keys.length

theorem StorageProof.signed {cfg : ContractConfig} {signers : String → List String}
    (hsound : cfg.dids.Sound signers) {sp : StorageProof} {election : ElectionResult}
    (h : sp.verify cfg election = true) :
    ∃ (cid : String) (keys : List String), cfg.parseCid sp.hash = some cid ∧
      keys.Sublist (election.members.map (·.key)) ∧ (∀ k ∈ keys, k ∈ signers cid) ∧
      cfg.minSpSigners ≤ keys.length := by
  rw [StorageProof.verify] at h
  split at h
  · cases h
  rename_i cid hcid
  split at h
  · cases h
  rename_i circuit hcircuit
  obtain rfl := deserializeBlsCircuit_eq_ok hcircuit
  split at h
  · cases h
  rename_i verified included hverify
  split at h
  · cases h
  rename_i hcount
  rw [not_or, Bool.not_eq_false, not_lt] at hcount
  obtain ⟨hincluded, -, hsig⟩ := BlsCircuit.verify_eq_ok hverify
  refine ⟨cid, included, hcid, ?_, hsound _ _ _ (hsig.symm.trans hcount.1), hcount.2⟩
  rw [hincluded]
  exact includedDIDs_sublist ..

/-! ## What a step registers -/

namespace ContractEngine

variable {cfg : ContractConfig} {signers : String → List String} {s : ContractEngine}

def registeredCode (cfg : ContractConfig) (s : ContractEngine) :
    ContractEvent → Option (String × StorageProof)
  | .election _ => none
  | .operation pos cj ops =>
    match s.handle cfg pos cj ops with
    | .ok ⟨.created result, _, _⟩ =>
      if result.success then some ((createTx pos cj).code, (createTx pos cj).storageProof)
      else none
    | .ok ⟨.updated result, _, _⟩ =>
      if result.codeUpdated then
        (updateTx pos cj).storageProof.map fun proof => ((updateTx pos cj).code, proof)
      else none
    | _ => none

structure Registers (cfg : ContractConfig) (s : ContractEngine) (e : ContractEvent)
    (code : String) (proof : StorageProof) (election : ElectionResult) : Prop where
  registered : registeredCode cfg s e = some (code, proof)
  inForce : s.elections.getElectionByHeight e.height = some election
  verified : proof.verify cfg election = true
  isCid : (cfg.decodeCid code).isSome

variable {e : ContractEvent} {code : String} {es : List ContractEvent}

theorem code_step {c : Contract} (hc : c ∈ (s.step cfg e).contracts) :
    (∃ c₀ ∈ s.contracts, c₀.code = c.code) ∨
      ∃ proof election, s.Registers cfg e c.code proof election := by
  cases e with
  | election e => exact .inl ⟨c, hc, rfl⟩
  | operation pos cj ops =>
    rw [step] at hc
    have hhandles := handles cfg s pos cj ops
    have hunset : ∀ {id : String} {c₀ : Contract}, (c₀.unsetLatest id).code = c₀.code := by
      intro id c₀
      rw [Contract.unsetLatest]
      split <;> rfl
    cases hout : s.handle cfg pos cj ops with
    | error p =>
      rw [hout] at hc
      exact .inl ⟨c, hc, rfl⟩
    | ok out =>
      rw [hout] at hc hhandles
      cases hhandles with
      | passedOver _ _ _ hsame => exact .inl ⟨c, hsame ▸ hc, rfl⟩
      | created _ signer election cid _ _ helection hproof hcid =>
        rcases mem_registerContract.1 hc with rfl | ⟨⟨c₀, hc₀, rfl⟩, -⟩
        · exact .inr ⟨(createTx pos cj).storageProof, election,
            by rw [registeredCode, hout]; rfl, helection, hproof,
            isSome_iff_exists.2 ⟨cid, hcid⟩⟩
        · exact .inl ⟨c₀, hc₀, hunset.symm⟩
      | updated _ existing codeUpdated _ hauth hchecked =>
        rcases mem_registerContract.1 hc with rfl | ⟨⟨c₀, hc₀, rfl⟩, -⟩
        · cases codeUpdated with
          | false =>
            exact .inl ⟨existing, (contractById_eq_some_iff.1 hauth.found).1, rfl⟩
          | true =>
            obtain ⟨runtime, hpassed⟩ := hchecked rfl
            cases hpassed with
            | passed _ election proof cid _ hruntime helection hsome hproof hcid =>
              rw [updateTx, TxUpdateContract.self_decode] at helection
              have hcode : (s.contracts.registered (updateTx pos cj).id
                  (((updateTx pos cj).updatedContract cfg s.elections existing.owner
                    existing).withCode ((updateTx pos cj).newCode true))).code =
                  (updateTx pos cj).code := by
                rw [TxUpdateContract.newCode, if_pos rfl, hruntime]
                rfl
              rw [hcode]
              exact .inr ⟨proof, election, by rw [registeredCode, hout, hsome]; rfl,
                helection, hproof, isSome_iff_exists.2 ⟨cid, hcid⟩⟩
        · exact .inl ⟨c₀, hc₀, hunset.symm⟩
      | cancelled =>
        obtain ⟨c₀, hc₀, rfl⟩ := mem_cancelPendingUpdate.1 hc
        refine .inl ⟨c₀, hc₀, ?_⟩
        rw [Contract.cancel]
        split <;> rfl

/-! ## Runs -/

def ProofFits (cfg : ContractConfig) (s : ContractEngine) (e : ContractEvent) : Prop :=
  ∀ code proof, registeredCode cfg s e = some (code, proof) →
    cfg.parseCid proof.hash = cfg.decodeCid code ∧
      ∀ election, s.elections.getElectionByHeight e.height = some election →
        (election.members.map (·.key)).Nodup

theorem Registers.signedFor {proof : StorageProof} {election : ElectionResult}
    (h : s.Registers cfg e code proof election) (hsound : cfg.dids.Sound signers)
    (hfits : ProofFits cfg s e) : SignedFor cfg signers election code := by
  obtain ⟨hhash, hnodup⟩ := hfits code proof h.registered
  obtain ⟨cid, keys, hcid, hsub, hsigned, hcount⟩ := StorageProof.signed hsound h.verified
  exact ⟨cid, hhash ▸ hcid, keys, (hnodup election h.inForce).sublist hsub, hsub.subset, hsigned,
    hcount⟩

/-- The code was registered at some point of the run, and was then signed by enough
members of the committee in force. -/
def RegisteredIn (cfg : ContractConfig) (signers : String → List String)
    (es : List ContractEvent) (code : String) : Prop :=
  ∃ es₁ e es₂ proof election, es = es₁ ++ e :: es₂ ∧
    (run cfg es₁).Registers cfg e code proof election ∧ SignedFor cfg signers election code

theorem RegisteredIn.concat (h : RegisteredIn cfg signers es code) (e : ContractEvent) :
    RegisteredIn cfg signers (es ++ [e]) code := by
  obtain ⟨es₁, e₁, es₂, proof, election, rfl, hreg, hsigned⟩ := h
  exact ⟨es₁, e₁, es₂ ++ [e], proof, election, by simp, hreg, hsigned⟩

theorem registeredIn_of_mem (hsound : cfg.dids.Sound signers)
    (h : Run.AllAlong (step cfg) (ProofFits cfg) initial es) :
    ∀ c ∈ (run cfg es).contracts, RegisteredIn cfg signers es c.code := by
  induction es using List.reverseRecOn with
  | nil => exact fun c hc => absurd hc (Collection.not_mem_empty c)
  | append_singleton es e ih =>
    obtain ⟨hes, hfits⟩ := Run.allAlong_concat_iff.1 h
    intro c hc
    rw [run_concat] at hc
    rcases code_step hc with ⟨c₀, hc₀, hcode⟩ | ⟨proof, election, hreg⟩
    · exact hcode ▸ (ih hes c₀ hc₀).concat e
    · exact ⟨es, e, [], proof, election, rfl, hreg, hreg.signedFor hsound hfits⟩

/-- A run in which every registered code comes with a proof for it, under committees
without repeated keys, runs only code that enough different members signed when it was
registered. -/
theorem code_signed (cfg : ContractConfig) (signers : String → List String)
    (hsound : cfg.dids.Sound signers) (es : List ContractEvent)
    (h : Run.AllAlong (step cfg) (ProofFits cfg) initial es) (id : String) (height : ℕ)
    (c : Contract) (hc : (run cfg es).contracts.contractById id height = some c) :
    RegisteredIn cfg signers es c.code :=
  registeredIn_of_mem hsound h c (contractById_eq_some_iff.1 hc).1

/-! ## A proof for something else -/

def dataConfig (minSpSigners : ℕ) : ContractConfig where
  onMainnet := false
  gatewayWallet := "hive:vsc.gateway"
  contractUpdateTimelockBlocks := 0
  minSpSigners := minSpSigners
  dids := ⟨fun _ => true, fun _ => true, fun _ => true, fun _ => true, fun _ => true,
    fun keys msg _ => keys.all (· = "k") && msg = "data"⟩
  parseCid := some
  decodeCid := some
  contractId txId _ := txId

def dataSigners (msg : String) : List String := if msg = "data" then ["k"] else []

section

variable (n : ℕ) (members : List ElectionMember) (code bitVector : String)

theorem sound_dataConfig : (dataConfig n).dids.Sound dataSigners := by
  intro keys msg sig h k hk
  obtain ⟨hkeys, rfl⟩ : (∀ k ∈ keys, k = "k") ∧ msg = "data" := by simpa [dataConfig] using h
  rw [hkeys k hk]
  exact List.mem_singleton_self "k"

def deployOp : ContractEvent :=
  .operation ⟨"c", 5, "", "", 0, 0⟩
    ⟨"vsc.create_contract", ["alice"], [], some (.obj [("code", .str code), ("runtime", .str "go"),
      ("storage_proof", .obj [("hash", .str "data"),
        ("signature", .obj [("sig", .str zeroSig), ("bv", .str bitVector)])])])⟩
    [⟨"custom_json", []⟩, feeTransfer]

def committee : ElectionResult := ⟨0, 1, members, ⟨0, 0, 0⟩⟩

def deployment : List ContractEvent :=
  [.election (committee members), deployOp code bitVector]

def deployedCode : Option String :=
  ((run (dataConfig n) (deployment members code bitVector)).contracts.contractById "c" 5).map
    (·.code)

end

theorem proofFits_deployment : Run.AllAlong (step (dataConfig 1)) (ProofFits (dataConfig 1)) initial
    (deployment [⟨"k", "alice"⟩] "data" "AQ") := by
  refine ⟨nofun, fun code proof h => ?_, trivial⟩
  have hreg : registeredCode (dataConfig 1)
      (step (dataConfig 1) initial (.election (committee [⟨"k", "alice"⟩])))
      (deployOp "data" "AQ") = some ("data", ⟨"data", zeroSig, "AQ"⟩) := by decide +kernel
  obtain ⟨rfl, rfl⟩ := Prod.mk.inj (some.inj (hreg.symm.trans h))
  refine ⟨rfl, fun election helection => ?_⟩
  obtain rfl := some.inj helection
  decide

theorem code_signed_data :
    ∃ c, (run (dataConfig 1) (deployment [⟨"k", "alice"⟩] "data" "AQ")).contracts.contractById
        "c" 5 = some c ∧ c.code = "data" ∧
      RegisteredIn (dataConfig 1) dataSigners (deployment [⟨"k", "alice"⟩] "data" "AQ") c.code := by
  have hcode : deployedCode 1 [⟨"k", "alice"⟩] "data" "AQ" = some "data" := by decide +kernel
  obtain ⟨c, hc, hdata⟩ := map_eq_some_iff.1 hcode
  exact ⟨c, hc, hdata, code_signed (dataConfig 1) dataSigners (sound_dataConfig 1) _
    proofFits_deployment "c" 5 c hc⟩

theorem not_signedFor_other (election : ElectionResult) :
    ¬ SignedFor (dataConfig 1) dataSigners election "other" := by
  rintro ⟨cid, hcid, keys, -, -, hsigned, hcount⟩
  obtain rfl : "other" = cid := some.inj hcid
  obtain ⟨k, hk⟩ := List.exists_mem_of_length_pos hcount
  exact absurd (hsigned k hk) List.not_mem_nil

theorem not_signedFor_twice (election : ElectionResult) :
    ¬ SignedFor (dataConfig 2) dataSigners election "data" := by
  rintro ⟨cid, hcid, keys, hnodup, -, hsigned, hcount⟩
  obtain rfl : "data" = cid := some.inj hcid
  have hle : keys.length ≤ ["k"].length := (hnodup.subperm hsigned).length_le
  exact absurd (le_trans hcount hle) (by decide)

/-- The proof of `data` lets a contract run other code, and the seats of one key count as
two signers. -/
theorem unproven_code_runs : (deployedCode 1 [⟨"k", "alice"⟩] "other" "AQ" = some "other" ∧
      ¬ RegisteredIn (dataConfig 1) dataSigners (deployment [⟨"k", "alice"⟩] "other" "AQ")
        "other") ∧
    deployedCode 2 [⟨"k", "alice"⟩, ⟨"k", "bob"⟩] "data" "Aw" = some "data" ∧
      ¬ RegisteredIn (dataConfig 2) dataSigners
        (deployment [⟨"k", "alice"⟩, ⟨"k", "bob"⟩] "data" "Aw") "data" := by
  refine ⟨⟨by decide +kernel, ?_⟩, by decide +kernel, ?_⟩
  · rintro ⟨-, -, -, -, election, -, -, hsigned⟩
    exact not_signedFor_other election hsigned
  · rintro ⟨-, -, -, -, election, -, -, hsigned⟩
    exact not_signedFor_twice election hsigned

end ContractEngine

end VscNode.Contracts
