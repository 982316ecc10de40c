import VscNode.StateEngine.PoaSeats
import VscNode.VaultRotation.Eligibility

/-!
# Bonds held for shares of a vault key

A reshare keeps the public key, so everyone who was a party of a keygen or a
reshare of a vault generation can still help to sign for it. While a generation
holds funds, `heldShareOfFundedVault` (`poa_share_hold.go`) keeps the bond of all
of them, and `isBondLockedRetiringMember` (`bond_lock.go`) that of the last
committee of a superseded generation.

The first one remembers the parties it has computed for one input, and the
members of elections it has read. `Consistent` says what these hold: the members
are those of the stored election, and as long as no commitment has been stored
since, the remembered parties are the ones a new computation would give. The memo
does not depend on elections, and need not: a session signs for the epoch of an
election that is stored, so no election is stored for an epoch that a commitment
already names.
-/

namespace VscNode

open BtcVault Tss VaultRotation List Collection CommitmentDb UInt32
open Governance (normalizeAccount)

/-! ## The hold -/

variable (s : VaultStatus) (btcContract : String) (vaults : List Vault)
  (listCommits : String → List TssCommitment)

def BtcVault.isFundHoldingStatus : Bool :=
  s = .active ∨ s = .retiring ∨ s = .draining ∨ s = .inactive

def poaLocksBond : Bool := isFundHoldingStatus s && s ≠ .inactive

/-- The input the parties were computed for: the height, the number of commitments stored so far
and the registry, for its hash. -/
structure PoaMemoKey where
  (below commitWrites : ℕ)
  rawV : Bytes
  deriving DecidableEq

/-- The stores the hold reads, and what it remembers. -/
structure ShareEngine where
  elections : ElectionDb := .empty
  commitments : CommitmentDb := .empty
  tssCommitWrites : ℕ := 0
  poaPartyMemo : Option (PoaMemoKey × List String) := none
  poaElecMembers : List (ℕ × List String) := []
  registry : StateEngine.Registry := .start

/-- A question for an account at a height, with the registry of vaults read at it, the window
of the exit halt, and whether rotated vaults are in force. -/
structure HoldQuery where
  account : String
  height : ℕ
  rawV : Option Bytes
  exitHalt : ℕ := StateEngine.defaultPoaExitHaltBlocks
  inForce : Bool := false

def fundedVaultPartySet (members : ℕ → Option (List String)) : List String :=
  (vaults.filter fun v => poaLocksBond v.status).flatMap fun v =>
    (listCommits (vaultKeyId btcContract v.generation)).flatMap fun c =>
      (c.parties ((members c.epoch).getD [])).map normalizeAccount

/-- The epochs whose elections that computation reads. -/
def scannedEpochs : List ℕ :=
  (vaults.filter fun v => poaLocksBond v.status).flatMap fun v =>
    (listCommits (vaultKeyId btcContract v.generation)).map TssCommitment.epoch

namespace ShareEngine

variable (btcContract : String) (s : ShareEngine)

variable (q : HoldQuery) (epoch : ℕ)

def membersAt : Option (List String) :=
  (s.elections.get? epoch).map ElectionResult.accounts

def poaElectionMembers : Option (List String) :=
  (s.poaElecMembers.lookup epoch).or (s.membersAt epoch)

/-- An election that has been read is remembered; an absent one is not. -/
def remember (cache : List (ℕ × List String)) (epoch : ℕ) : List (ℕ × List String) :=
  if (cache.lookup epoch).isSome then cache
  else
    match s.membersAt epoch with
    | none => cache
    | some accounts => (epoch, accounts) :: cache

def computeParties (key : PoaMemoKey) (vaults : List Vault) : List String × ShareEngine :=
  let listCommits keyId := s.commitments.findCommitmentsSimple keyId key.below
  let parties := fundedVaultPartySet btcContract vaults listCommits s.poaElectionMembers
  (parties, { s with
      poaPartyMemo := some (key, parties)
      poaElecMembers :=
        (scannedEpochs btcContract vaults listCommits).foldl s.remember s.poaElecMembers })

def fundedVaultParties (rawV : Bytes) (vaults : List Vault) (below : ℕ) :
    List String × ShareEngine :=
  let key : PoaMemoKey := ⟨below, s.tssCommitWrites, rawV⟩
  match s.poaPartyMemo with
  | none => s.computeParties btcContract key vaults
  | some (memoKey, parties) =>
    if memoKey = key then (parties, s) else s.computeParties btcContract key vaults

def currentMembers (height : ℕ) : List String :=
  ((s.elections.getElectionByHeight height).map ElectionResult.accounts).getD []

def electableOrRecentlyActive : Bool :=
  s.registry.isElectableWitness q.account q.height ||
    s.registry.hadRecentWitnessActivity q.account q.height q.exitHalt

def heldShareOfFundedVault : Bool × ShareEngine :=
  if q.height = 0 then (false, s)
  else if btcContract = "" then (false, s)
  else
    match q.rawV with
    | none => (false, s)
    | some rawV =>
      if rawV.length = 0 then (false, s)
      else
        match unmarshalVaultRegistry rawV with
        | none => (true, s)
        | some vaults =>
          if (vaults.any fun v => poaLocksBond v.status) = false then (false, s)
          else if s.electableOrRecentlyActive q then (true, s)
          else
            let who := normalizeAccount q.account
            if who ∈ (s.currentMembers q.height).map normalizeAccount then (true, s)
            else
              let (parties, s') := s.fundedVaultParties btcContract rawV vaults (q.height - 1)
              (decide (who ∈ parties), s')

def signerDeps : RetiringSignerDeps where
  btcContract := btcContract
  readKey key := if key = "v" then q.rawV else none
  getCommitment keyId := s.commitments.getCommitmentByHeight keyId q.height
  getElection := s.elections.get?
  excludeInactive := true

def bondLockMatches (set : RetiringSignerSet) (account : String) : Bool :=
  if set.unresolvable then true else set.has (Text.trimPrefix account "hive:")

def isBondLockedRetiringMember : Bool :=
  if q.inForce = false then false
  else if btcContract = "" then false
  else bondLockMatches (s.signerDeps btcContract q).computeRetiringSignerSet q.account

end ShareEngine

/-! ## Runs -/

inductive ShareEvent
  | storeElection (e : ElectionResult)
  | setCommitmentData (c : TssCommitment)
  /-- Announcements and seats change. -/
  | setRegistry (registry : StateEngine.Registry)
  | query (q : HoldQuery)

namespace ShareEngine

variable (btcContract : String)

def apply (s : ShareEngine) : ShareEvent → ShareEngine
  | .storeElection e => { s with elections := s.elections.put e }
  | .setCommitmentData c =>
    { s with commitments := s.commitments.put c, tssCommitWrites := s.tssCommitWrites + 1 }
  | .setRegistry registry => { s with registry := registry }
  | .query q => (s.heldShareOfFundedVault btcContract q).2

/-- The rows that the handlers write: an election under a new epoch, and a commitment of a
session, whose epoch is that of a stored election. -/
def Written (s : ShareEngine) : ShareEvent → Prop
  | .storeElection e => s.elections.get? e.epoch = none
  | .setCommitmentData c => (s.elections.get? c.epoch).isSome
  | _ => True

variable {btcContract} {s : ShareEngine}

/-- What is remembered is what would be read: the members of an election always, the parties as
long as no commitment has been stored since. -/
structure Consistent (btcContract : String) (s : ShareEngine) : Prop where
  members : ∀ epoch accounts, s.poaElecMembers.lookup epoch = some accounts →
    s.membersAt epoch = some accounts
  parties : ∀ key parties, s.poaPartyMemo = some (key, parties) →
    key.commitWrites ≤ s.tssCommitWrites ∧
    (key.commitWrites = s.tssCommitWrites → ∀ vaults,
      unmarshalVaultRegistry key.rawV = some vaults →
      parties = fundedVaultPartySet btcContract vaults
        (s.commitments.findCommitmentsSimple · key.below) s.membersAt)
  named : ∀ c ∈ s.commitments, (s.elections.get? c.epoch).isSome

theorem consistent_start : Consistent btcContract {} :=
  ⟨fun _ _ h => (by cases h), fun _ _ h => (by cases h), fun c hc => absurd hc (not_mem_empty c)⟩

theorem Consistent.poaElectionMembers (h : Consistent btcContract s) :
    s.poaElectionMembers = s.membersAt := by
  funext epoch
  rw [ShareEngine.poaElectionMembers]
  cases hcache : s.poaElecMembers.lookup epoch with
  | none => rfl
  | some accounts => rw [h.members epoch accounts hcache]; rfl

theorem members_remember {epochs : List ℕ} {cache : List (ℕ × List String)}
    (h : ∀ epoch accounts, cache.lookup epoch = some accounts → s.membersAt epoch = some accounts) :
    ∀ epoch accounts, (epochs.foldl s.remember cache).lookup epoch = some accounts →
      s.membersAt epoch = some accounts := by
  induction epochs generalizing cache with
  | nil => exact h
  | cons e epochs ih =>
    apply ih
    intro epoch accounts hlookup
    unfold remember at hlookup
    split at hlookup
    · exact h epoch accounts hlookup
    split at hlookup
    · exact h epoch accounts hlookup
    next accounts' hread =>
      rw [lookup_cons] at hlookup
      split at hlookup
      · next heq =>
          obtain rfl := eq_of_beq heq
          rw [hread, hlookup]
      · exact h epoch accounts hlookup

variable {rawV : Bytes} {vaults : List Vault} {m : String} {q : HoldQuery}

section

variable (h : Consistent btcContract s)
include h

theorem Consistent.fundedVaultParties (hvaults : unmarshalVaultRegistry rawV = some vaults)
    (below : ℕ) :
    (s.fundedVaultParties btcContract rawV vaults below).1 =
      fundedVaultPartySet btcContract vaults (s.commitments.findCommitmentsSimple · below)
        s.membersAt := by
  unfold ShareEngine.fundedVaultParties
  dsimp only
  split
  · rw [computeParties, h.poaElectionMembers]
  next memoKey parties hmemo =>
    split
    · next hkey =>
        subst hkey
        exact (h.parties _ _ hmemo).2 rfl vaults hvaults
    · rw [computeParties, h.poaElectionMembers]

theorem Consistent.computeParties {key : PoaMemoKey}
    (hvaults : unmarshalVaultRegistry key.rawV = some vaults)
    (hkey : key.commitWrites = s.tssCommitWrites) :
    Consistent btcContract (s.computeParties btcContract key vaults).2 := by
  refine ⟨fun epoch accounts hlookup => members_remember h.members epoch accounts hlookup, ?_, h.named⟩
  intro key' parties hmemo
  obtain ⟨rfl, rfl⟩ := Prod.mk.inj (Option.some.inj hmemo)
  refine ⟨hkey.le, fun _ vaults' hvaults' => ?_⟩
  obtain rfl := Option.some.inj (hvaults.symm.trans hvaults')
  rw [h.poaElectionMembers]
  rfl

theorem Consistent.query (q : HoldQuery) :
    Consistent btcContract (s.heldShareOfFundedVault btcContract q).2 := by
  unfold heldShareOfFundedVault
  iterate 3
    split
    · exact h
  next rawV _ =>
  split
  · exact h
  split
  · exact h
  next vaults hvaults =>
  split
  · exact h
  split
  · exact h
  dsimp only
  split
  · exact h
  unfold ShareEngine.fundedVaultParties
  dsimp only
  split
  · exact h.computeParties hvaults rfl
  split
  · exact h
  · exact h.computeParties hvaults rfl

end

theorem fundedVaultPartySet_congr {listCommits : String → List TssCommitment}
    {members members' : ℕ → Option (List String)}
    (h : ∀ keyId, ∀ c ∈ listCommits keyId, members c.epoch = members' c.epoch) :
    fundedVaultPartySet btcContract vaults listCommits members =
      fundedVaultPartySet btcContract vaults listCommits members' := by
  unfold fundedVaultPartySet
  refine flatMap_congr fun v _ => flatMap_congr fun c hc => ?_
  rw [h _ c hc]

theorem Consistent.apply {e : ShareEvent} (h : Consistent btcContract s) (hok : Written s e) :
    Consistent btcContract (s.apply btcContract e) := by
  cases e with
  | storeElection e =>
    have hnew : s.elections.get? e.epoch = none := hok
    have hnamed : ∀ c ∈ s.commitments, c.epoch ≠ e.epoch := by
      intro c hc heq
      have hsome := h.named c hc
      rw [heq, hnew] at hsome
      cases hsome
    have hmembers : ∀ epoch, epoch ≠ e.epoch →
        (s.apply btcContract (.storeElection e)).membersAt epoch = s.membersAt epoch := by
      intro epoch hne
      simp only [ShareEngine.apply, membersAt, get?_put_of_ne (Ne.symm hne)]
    refine ⟨fun epoch accounts hlookup => ?_, fun key parties hmemo => ?_, fun c hc => ?_⟩
    · have hold := h.members epoch accounts hlookup
      rw [hmembers epoch ?_]
      · exact hold
      · rintro rfl
        simp [membersAt, hnew] at hold
    · obtain ⟨hle, hparties⟩ := h.parties key parties hmemo
      refine ⟨hle, fun hkey vaults hvaults => ?_⟩
      rw [hparties hkey vaults hvaults]
      apply fundedVaultPartySet_congr
      intro keyId c hc
      exact (hmembers c.epoch (hnamed c (mem_findCommitmentsSimple.1 hc).1)).symm
    · simp only [ShareEngine.apply]
      rw [get?_put_of_ne (Ne.symm (hnamed c hc))]
      exact h.named c hc
  | setCommitmentData c =>
    refine ⟨h.members, fun key parties hmemo => ?_, forall_mem_put hok h.named⟩
    have hle := (h.parties key parties hmemo).1
    simp only [ShareEngine.apply]
    exact ⟨by omega, fun hkey => by omega⟩
  | setRegistry registry => exact ⟨h.members, h.parties, h.named⟩
  | query q => exact h.query q

abbrev run (btcContract : String) (es : List ShareEvent) : ShareEngine :=
  es.foldl (ShareEngine.apply btcContract) {}

theorem consistent_run {es : List ShareEvent}
    (h : Run.AllAlong (ShareEngine.apply btcContract) Written {} es) :
    Consistent btcContract (run btcContract es) :=
  Run.preserves (fun _ _ ⟨_, hok, heq⟩ hs => heq ▸ hs.apply hok) (Run.foldl h) consistent_start

/-! ## Whoever holds a share -/

/-- The name of a member stands for the same account with and without its network. -/
def OneName (m : String) : Prop := normalizeAccount ("hive:" ++ m) = normalizeAccount m

structure PartyOf (btcContract : String) (s : ShareEngine) (height : ℕ) (v : Vault)
    (c : TssCommitment) (m : String) : Prop where
  mem : c ∈ s.commitments
  shares : c.SharesKey (vaultKeyId btcContract v.generation)
  below : c.blockHeight < height
  bit : ∃ e idx, s.elections.get? c.epoch = some e ∧ e.accounts[idx]? = some m ∧
    c.bits.testBit idx = true

variable {c : TssCommitment} {v : Vault}

theorem PartyOf.mem_parties {height : ℕ} (h : PartyOf btcContract s height v c m) :
    ∃ e, s.elections.get? c.epoch = some e ∧ m ∈ c.parties e.accounts := by
  obtain ⟨e, idx, helection, hidx, hbit⟩ := h.bit
  exact ⟨e, helection, TransactionPool.mem_includedDIDs hidx (by rwa [Nat.zero_add])⟩

section Registry

variable (hcontract : btcContract ≠ "") (hread : q.rawV = some rawV) (hraw : rawV ≠ [])
include hcontract hread hraw

theorem Consistent.held_of_partyOf (h : Consistent btcContract s)
    (hvaults : unmarshalVaultRegistry rawV = some vaults) (hv : v ∈ vaults)
    (hlocks : poaLocksBond v.status = true) (hparty : PartyOf btcContract s q.height v c m)
    (hname : OneName m) (haccount : q.account = "hive:" ++ m) :
    (s.heldShareOfFundedVault btcContract q).1 = true := by
  have hheight : q.height ≠ 0 := by
    have := hparty.below
    omega
  have hfunded : (vaults.any fun v => poaLocksBond v.status) = true :=
    any_eq_true.2 ⟨v, hv, hlocks⟩
  obtain ⟨e, helection, hmem⟩ := hparty.mem_parties
  have hset : normalizeAccount m ∈ fundedVaultPartySet btcContract vaults
      (s.commitments.findCommitmentsSimple · (q.height - 1)) s.membersAt := by
    rw [fundedVaultPartySet, mem_flatMap]
    refine ⟨v, mem_filter.2 ⟨hv, hlocks⟩, mem_flatMap.2 ⟨c, ?_, ?_⟩⟩
    · have := hparty.below
      exact mem_findCommitmentsSimple.2 ⟨hparty.mem, hparty.shares, by omega⟩
    · rw [membersAt, helection]
      exact mem_map_of_mem hmem
  unfold heldShareOfFundedVault
  rw [if_neg hheight, if_neg hcontract, hread]
  simp only [length_eq_zero_iff, if_neg hraw, hvaults, hfunded, Bool.true_eq_false, if_false]
  split
  · rfl
  split
  · rfl
  · rw [haccount, hname, h.fundedVaultParties hvaults]
    exact decide_eq_true hset

theorem locked_of_newest (hforce : q.inForce = true)
    (hvaults : unmarshalVaultRegistry rawV = some vaults) (hv : v ∈ vaults)
    (hstatus : v.status = .retiring ∨ v.status = .draining)
    (hparty : PartyOf btcContract s q.height v c m)
    (hnewest : s.commitments.Newest (vaultKeyId btcContract v.generation) q.height c)
    (haccount : q.account = "hive:" ++ m) : s.isBondLockedRetiringMember btcContract q = true := by
  obtain ⟨e, helection, hmem⟩ := hparty.mem_parties
  have hhas := RetiringSignerDeps.has_of_party (d := s.signerDeps btcContract q) hcontract
    (by simpa [signerDeps] using hread) hraw hvaults hv hstatus
    (getCommitmentByHeight_of_newest hnewest) helection hmem
  rw [isBondLockedRetiringMember, hforce, if_neg (by decide), if_neg hcontract, bondLockMatches,
    haccount, Text.trimPrefix_append, hhas]
  simp

theorem held_of_undecodable (hheight : q.height ≠ 0) (hvaults : unmarshalVaultRegistry rawV = none) :
    (s.heldShareOfFundedVault btcContract q).1 = true := by
  rw [heldShareOfFundedVault, if_neg hheight, if_neg hcontract, hread]
  simp [hraw, hvaults]

theorem locked_of_undecodable (hforce : q.inForce = true)
    (hvaults : unmarshalVaultRegistry rawV = none) :
    s.isBondLockedRetiringMember btcContract q = true := by
  have hunresolvable := RetiringSignerDeps.unresolvable_of_undecodable
    (d := s.signerDeps btcContract q) hcontract (by simpa [signerDeps] using hread) hraw hvaults
  rw [isBondLockedRetiringMember, hforce, if_neg (by decide), if_neg hcontract, bondLockMatches,
    if_pos hunresolvable]

end Registry

/-- **Whoever holds a share is held**: after every run, whoever has a bit in a commitment of a
funded generation below the height of a question is held, also when the answer is remembered;
whoever has one in the newest commitment of a superseded generation is locked while rotated
vaults are in force; and a registry that does not decode holds and locks everyone. -/
theorem shareholders_held (btcContract : String) (hcontract : btcContract ≠ "")
    (es : List ShareEvent)
    (hrun : Run.AllAlong (ShareEngine.apply btcContract) Written {} es) (q : HoldQuery)
    (rawV : Bytes) (hread : q.rawV = some rawV) (hraw : rawV ≠ []) (hheight : q.height ≠ 0) :
    (∀ vaults v c m, unmarshalVaultRegistry rawV = some vaults → v ∈ vaults →
      PartyOf btcContract (run btcContract es) q.height v c m →
      OneName m → q.account = "hive:" ++ m →
      ((v.status = .active ∨ v.status = .retiring ∨ v.status = .draining) →
        ((run btcContract es).heldShareOfFundedVault btcContract q).1 = true) ∧
      (q.inForce = true → (v.status = .retiring ∨ v.status = .draining) →
        (run btcContract es).commitments.Newest (vaultKeyId btcContract v.generation) q.height c →
        (run btcContract es).isBondLockedRetiringMember btcContract q = true)) ∧
    (unmarshalVaultRegistry rawV = none →
      ((run btcContract es).heldShareOfFundedVault btcContract q).1 = true ∧
      (q.inForce = true →
        (run btcContract es).isBondLockedRetiringMember btcContract q = true)) := by
  have hcons := consistent_run hrun
  refine ⟨fun vaults v c m hvaults hv hparty hname haccount => ⟨fun hstatus => ?_, ?_⟩, ?_⟩
  · have hlocks : poaLocksBond v.status = true := by
      rcases hstatus with h | h | h <;> rw [h] <;> rfl
    exact hcons.held_of_partyOf hcontract hread hraw hvaults hv hlocks hparty hname haccount
  · intro hforce hstatus hnewest
    exact locked_of_newest hcontract hread hraw hforce hvaults hv hstatus hparty hnewest haccount
  intro hvaults
  exact ⟨held_of_undecodable hcontract hread hraw hheight hvaults,
    fun hforce => locked_of_undecodable hcontract hread hraw hforce hvaults⟩

def retiringRegistry : Bytes :=
  [0, 0, 0, 0] ++ List.replicate 66 2 ++ [2] ++ List.replicate 20 0

def bobElection : ElectionResult := ⟨3, 10, [⟨"key", "bob"⟩], ⟨0, 0, 0⟩⟩

def bobCommitment : TssCommitment := ⟨.keygen, 5, 3, "AQ", "btc-main", "tx"⟩

def bobQuery : HoldQuery :=
  { account := "hive:bob", height := 10, rawV := some retiringRegistry, inForce := true }

/-- The question is asked twice, the second time it is answered from what is remembered. -/
def electionFirst : List ShareEvent :=
  [.storeElection bobElection, .setCommitmentData bobCommitment, .query bobQuery]

theorem shareholders_held_bob :
    ((run "btc" electionFirst).heldShareOfFundedVault "btc" bobQuery).1 = true ∧
    (run "btc" electionFirst).isBondLockedRetiringMember "btc" bobQuery = true := by
  have hrun : Run.AllAlong (ShareEngine.apply "btc") Written {} electionFirst :=
    ⟨rfl, rfl, trivial, trivial⟩
  have hstores : (run "btc" electionFirst).commitments.docs =
      [bobCommitment] := by decide +kernel
  have hmem : bobCommitment ∈ (run "btc" electionFirst).commitments := by
    rw [← mem_docs, hstores]
    exact mem_cons_self
  have helection : (run "btc" electionFirst).elections.get? 3 =
      some bobElection := by decide +kernel
  obtain ⟨v, hvaults, hgen, hstatus⟩ : ∃ v, unmarshalVaultRegistry retiringRegistry = some [v] ∧
      v.generation = 0 ∧ v.status = .retiring := ⟨_, rfl, by decide, by decide⟩
  have hparty : PartyOf "btc" (run "btc" electionFirst) 10 v bobCommitment "bob" :=
    ⟨hmem, ⟨by rw [hgen]; rfl, .inl rfl⟩, by decide, bobElection, 0, helection, rfl, by decide⟩
  have hnewest : (run "btc" electionFirst).commitments.Newest
      (vaultKeyId "btc" v.generation) 10 bobCommitment := by
    refine ⟨hmem, hparty.shares, hparty.below, fun c hc _ _ => ?_⟩
    rw [← mem_docs, hstores, mem_singleton] at hc
    subst hc
    decide
  have h := (shareholders_held "btc" (by decide) electionFirst hrun bobQuery retiringRegistry rfl
    (by decide) (by decide)).1 [v] v bobCommitment "bob" hvaults mem_cons_self hparty
    (show _ = _ by decide) rfl
  exact ⟨h.1 (.inr (.inl hstatus)), h.2 rfl (.inl hstatus) hnewest⟩

end ShareEngine

end VscNode
