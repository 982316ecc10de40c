import VscNode.Chain.Slot
import VscNode.Chain.Election

/-!
# Certifying a block

The leader of a slot collects signatures until the committee it looks up at the slot
carries its block, aggregates them and broadcasts the block to the chain. The block
confirms a few heights later, and every node judges it by the committee it looks up
at the height of confirmation. An aggregate names its signers by their seats, so it
can only be read against the committee it was made with.
-/

namespace VscNode.BlockProducer

open List

open Pendulum (Version)

structure ElectionBook where
  db : ElectionDb
  weights : ℕ → List ℕ

/-- A committee as it is looked up. -/
structure Committee where
  election : ElectionResult
  weights : List ℕ
  deriving DecidableEq

def ElectionBook.getElectionByHeight (book : ElectionBook) (height : ℕ) : Option Committee :=
  (book.db.getElectionByHeight height).map fun e => ⟨e, book.weights e.epoch⟩

namespace Committee

variable (c : Committee)

def memberKeys : List String := c.election.members.map (·.key)

def totalWeight : ℕ :=
  if c.weights = [] then c.election.members.length else c.weights.sum % 2 ^ 64

def foldSigned (included : List String) : ℕ × ℕ :=
  (foldSignedWeight c.memberKeys c.weights included).getD (0, 0)

def accountSeat (account : String) : Option String :=
  (c.election.members.reverse.find? (·.account = account)).map (·.key)

end Committee

/-! ## Collecting signatures -/

structure SigMsg (σ : Type*) where
  account : String
  sig : σ

/-- Ninety percent of the folded weight, and more than two thirds of the total. -/
def leaderSigsComplete (signed foldedTotal electionTotal : ℕ) : Bool :=
  foldedTotal * 9 % 2 ^ 64 / 10 ≤ signed ∧ electionTotal * 2 % 2 ^ 64 / 3 < signed

variable {σ : Type*} (verifies : String → σ → Bool)

def SigMsg.adds (c : Committee) (included : List String) (msg : SigMsg σ) : Option String :=
  match c.accountSeat msg.account with
  | none => none
  | some key => if key ∈ included ∨ verifies key msg.sig = false then none else some key

def waitForSigs (c : Committee) : ℕ → List String → List (SigMsg σ) → ℕ × List String
  | signed, included, [] => (signed, included)
  | signed, included, msg :: msgs =>
    if leaderSigsComplete signed (c.foldSigned []).2 c.totalWeight then (signed, included)
    else
      match msg.adds verifies c included with
      | none => waitForSigs c signed included msgs
      | some key => waitForSigs c (c.foldSigned (included ++ [key])).1 (included ++ [key]) msgs

/-- What the code takes from its BLS library: the aggregate of the signatures some keys
have made of the block, and whether an aggregate verifies for some keys. -/
structure BlsLib (α : Type*) where
  aggregate : List String → α
  verify : List String → α → Bool

/-- An aggregate verifies for the keys it was made of, and for no others. -/
structure BlsLib.Sound {α : Type*} (lib : BlsLib α) : Prop where
  complete : ∀ keys, lib.verify keys (lib.aggregate keys) = true
  binding : ∀ keys keys', lib.verify keys' (lib.aggregate keys) = true → keys' ~ keys

/-- An aggregate signature with a bit for each seat. -/
structure BlsCircuit (α : Type*) where
  bitVector : List Bool
  aggSig : α
  deriving DecidableEq

variable {α : Type*} (lib : BlsLib α) (circuit : BlsCircuit α)

namespace BlsCircuit

/-- The keys at the set bits. -/
def includedDIDs (keyset : List String) : List String :=
  ((keyset.zip circuit.bitVector).filter (·.2)).map (·.1)

def finalize (keyset included : List String) : BlsCircuit α where
  bitVector := keyset.map fun key => key ∈ included
  aggSig := lib.aggregate (keyset.filter fun key => key ∈ included)

def verify (keyset : List String) : Bool :=
  circuit.includedDIDs keyset ≠ [] ∧ lib.verify (circuit.includedDIDs keyset) circuit.aggSig

end BlsCircuit

/-- A block as it stands on the chain. `block` is missing when its identifier does not
parse, `signature` when its bytes do not decode. -/
structure SignedBlock (α : Type*) where
  block : Option String
  br : Int × Int
  signature : Option (BlsCircuit α)
  deriving DecidableEq

def broadcast (book : ElectionBook) (slotHeight prevEnd : ℕ) (block : String)
    (msgs : List (SigMsg σ)) : Option (SignedBlock α) :=
  match book.getElectionByHeight slotHeight with
  | none => none
  | some c =>
    let collected := waitForSigs verifies c 0 [] msgs
    if c.totalWeight * 2 % 2 ^ 64 / 3 < collected.1 then
      some ⟨some block, (prevEnd, slotHeight), some (.finalize lib c.memberKeys collected.2)⟩
    else none

/-! ## Judging a block -/

inductive BlockValidationOutcome
  | valid
  /-- The node could not tell. -/
  | skip (reason : String)
  /-- Confirmed past its slot; no fault of the producer. -/
  | stale (slot cutoff confirmed : ℕ)
  | invalid (reason : String)
  deriving DecidableEq

def blsWeightDedupActive (v : Version) : Bool := v.meetsConsensusMin ⟨0, 8, 0⟩

def calculateSigningScore (c : Committee) (dedupDuplicateKeys : Bool) : ℕ × ℕ :=
  if dedupDuplicateKeys then
    let weights := if c.weights = [] then c.memberKeys.map fun _ => 1 else c.weights
    (foldSignedWeight c.memberKeys weights (circuit.includedDIDs c.memberKeys)).getD (0, 0)
  else if c.weights = [] then
    ((circuit.includedDIDs c.memberKeys).length, c.election.members.length)
  else
    (((((c.weights.zip circuit.bitVector).filter (·.2)).map (·.1)).sum) % 2 ^ 64,
      c.weights.sum % 2 ^ 64)

def validateDetailed (book : ElectionBook) (blockHeight : ℕ) (t : SignedBlock α) :
    BlockValidationOutcome :=
  match book.getElectionByHeight blockHeight with
  | none => .skip "election lookup failed"
  | some c =>
    match t.block, t.signature with
    | none, _ => .invalid "malformed block CID"
    | some _, none => .invalid "malformed BLS signature"
    | some _, some circuit =>
      if isStale t.br.2 blockHeight then
        .stale (brHeight t.br.2) ((brHeight t.br.2 + slotLength) % 2 ^ 64) blockHeight
      else if circuit.verify lib c.memberKeys = false then
        .invalid "BLS aggregate failed verification"
      else
        let score := calculateSigningScore circuit c (blsWeightDedupActive c.election.version)
        if score.2 * 2 % 2 ^ 64 / 3 < score.1 then .valid
        else .invalid "signing score below 2/3 threshold"

/-! ## What the leader has collected -/

namespace Committee

variable {c : Committee} {included : List String}

theorem mem_of_accountSeat {account key : String} (h : c.accountSeat account = some key) :
    key ∈ c.memberKeys := by
  obtain ⟨member, hfind, rfl⟩ := Option.map_eq_some_iff.1 h
  exact mem_map.2 ⟨member, mem_reverse.1 (mem_of_find?_eq_some hfind), rfl⟩

theorem foldSigned_nil (c : Committee) : (c.foldSigned []).1 = 0 := by
  simp only [foldSigned, foldSignedWeight]
  split_ifs <;> rfl

theorem length_of_foldSigned (h : 0 < (c.foldSigned included).1) :
    c.memberKeys.length = c.weights.length := by
  by_contra hne
  simp [foldSigned, foldSignedWeight, hne] at h

theorem foldSigned_eq (hlen : c.memberKeys.length = c.weights.length)
    (hfits : c.weights.sum < 2 ^ 64) (h : 0 < (c.foldSigned included).1) :
    c.foldSigned included = (∑ k ∈ included.toFinset, seatWeight (c.memberKeys.zip c.weights) k,
      distinctWeight (c.memberKeys.zip c.weights)) := by
  rw [foldSigned, foldSignedWeight_eq hlen hfits] at h ⊢
  split_ifs at h ⊢ with hzero
  · simp at h
  · rfl

theorem weights_ne_nil (hlen : c.memberKeys.length = c.weights.length)
    (h : 0 < (c.foldSigned included).1) : c.weights ≠ [] := by
  intro hnil
  have hkeys : c.memberKeys = [] := by simpa [hnil] using hlen
  simp [foldSigned, foldSignedWeight, hkeys] at h

end Committee

variable {included keyset : List String} {lib}

variable {c : Committee} {verifies : String → σ → Bool}

theorem SigMsg.mem_of_adds {msg : SigMsg σ} {key : String}
    (h : msg.adds verifies c included = some key) : key ∈ c.memberKeys := by
  rw [SigMsg.adds] at h
  split at h
  · cases h
  rename_i key' hseat
  split_ifs at h
  cases h
  exact Committee.mem_of_accountSeat hseat

structure Collected (c : Committee) (collected : ℕ × List String) : Prop where
  weight : collected.1 = (c.foldSigned collected.2).1
  seated : ∀ key ∈ collected.2, key ∈ c.memberKeys

theorem Collected.waitForSigs {signed : ℕ} (h : Collected c (signed, included))
    (msgs : List (SigMsg σ)) : Collected c (waitForSigs verifies c signed included msgs) := by
  induction msgs generalizing signed included with
  | nil => exact h
  | cons msg msgs ih =>
    rw [BlockProducer.waitForSigs]
    split
    · exact h
    split
    · exact ih h
    rename_i key hadds
    refine ih ⟨rfl, fun key' hkey' => ?_⟩
    rcases mem_append.1 hkey' with hold | hnew
    · exact h.seated key' hold
    · rw [mem_singleton.1 hnew]
      exact SigMsg.mem_of_adds hadds

/-! ## Reading an aggregate against its committee -/

theorem BlsCircuit.includedDIDs_finalize (keyset included : List String) :
    (finalize lib keyset included).includedDIDs keyset =
      keyset.filter fun key => key ∈ included := by
  simp only [includedDIDs, finalize]
  induction keyset with
  | nil => rfl
  | cons key keyset ih =>
    by_cases hkey : key ∈ included <;> simp [hkey, ih]

theorem BlsCircuit.toFinset_includedDIDs_finalize (h : ∀ key ∈ included, key ∈ keyset) :
    ((finalize lib keyset included).includedDIDs keyset).toFinset = included.toFinset := by
  ext key
  rw [includedDIDs_finalize]
  simpa using h key

theorem BlsCircuit.verify_finalize (hlib : lib.Sound) (h : ∀ key ∈ included, key ∈ keyset)
    (hne : included ≠ []) : (finalize lib keyset included).verify lib keyset = true := by
  obtain ⟨key, hkey⟩ := exists_mem_of_ne_nil _ hne
  have hmem : key ∈ (finalize lib keyset included).includedDIDs keyset := by
    rw [includedDIDs_finalize]
    simpa using ⟨h key hkey, hkey⟩
  have hverify : lib.verify ((finalize lib keyset included).includedDIDs keyset)
      (finalize lib keyset included).aggSig = true := by
    rw [includedDIDs_finalize]
    exact hlib.complete _
  simpa [verify, hverify] using ne_nil_of_mem hmem

theorem BlsCircuit.verify_of_disjoint {keyset' : List String} (hlib : lib.Sound)
    (h : ∀ key ∈ keyset', key ∉ keyset) :
    (finalize lib keyset included).verify lib keyset' = false := by
  rw [verify, decide_eq_false_iff_not]
  rintro ⟨hne, hverify⟩
  obtain ⟨key, hkey⟩ := exists_mem_of_ne_nil _ hne
  have hold : key ∈ keyset := mem_of_mem_filter ((hlib.binding _ _ hverify).mem_iff.1 hkey)
  obtain ⟨pair, hpair, rfl⟩ := mem_map.1 hkey
  exact h _ (of_mem_zip (mem_of_mem_filter hpair)).1 hold

/-! ## The leader's count and the chain's -/

theorem weights_at_bits (f : String → Bool) (keys : List String) (weights : List ℕ) :
    ((weights.zip (keys.map f)).filter (·.2)).map (·.1) =
      ((keys.zip weights).filter fun s => f s.1).map (·.2) := by
  induction keys generalizing weights with
  | nil => simp
  | cons key keys ih =>
    cases weights with
    | nil => rfl
    | cons w weights => cases hf : f key <;> simp [hf, ih]

/-- The chain counts at least what the leader has counted, against at most the leader's
total. -/
theorem calculateSigningScore_finalize (lib : BlsLib α) (hfits : c.weights.sum < 2 ^ 64)
    (hpos : 0 < (c.foldSigned included).1) (hseated : ∀ key ∈ included, key ∈ c.memberKeys)
    (dedup : Bool) :
    let score := calculateSigningScore (.finalize lib c.memberKeys included) c dedup
    (c.foldSigned included).1 ≤ score.1 ∧ score.2 ≤ c.weights.sum := by
  have hlen := Committee.length_of_foldSigned hpos
  have hne := Committee.weights_ne_nil hlen hpos
  have hsum : ((c.memberKeys.zip c.weights).map Prod.snd).sum = c.weights.sum := by
    rw [map_snd_zip (by omega)]
  have hsigned := Committee.foldSigned_eq hlen hfits hpos
  cases dedup with
  | true =>
    -- The same keys are folded again.
    have hfold : calculateSigningScore (.finalize lib c.memberKeys included) c true =
        c.foldSigned included := by
      have hincluded := foldSignedWeight_eq hlen hfits
        ((BlsCircuit.finalize lib c.memberKeys included).includedDIDs c.memberKeys)
      rw [BlsCircuit.toFinset_includedDIDs_finalize hseated,
        ← foldSignedWeight_eq hlen hfits] at hincluded
      simp only [calculateSigningScore, if_true, if_neg hne, hincluded, Committee.foldSigned]
    intro score
    rw [show score = c.foldSigned included from hfold]
    refine ⟨le_refl _, ?_⟩
    rw [hsigned, ← hsum]
    exact distinctWeight_le _
  | false =>
    have hbits : (((c.weights.zip (BlsCircuit.finalize lib c.memberKeys included).bitVector).filter
        (·.2)).map (·.1)).sum =
        (((c.memberKeys.zip c.weights).filter fun s => s.1 ∈ included.toFinset).map
          Prod.snd).sum := by
      rw [BlsCircuit.finalize, weights_at_bits]
      simp only [mem_toFinset]
    have hle : (((c.memberKeys.zip c.weights).filter fun s => s.1 ∈ included.toFinset).map
        Prod.snd).sum ≤ c.weights.sum := by
      rw [← hsum]
      exact ((filter_sublist ..).map _).sum_le_sum fun _ _ => Nat.zero_le _
    simp only [calculateSigningScore, if_neg hne, hbits, Bool.false_eq_true, if_false]
    rw [Nat.mod_eq_of_lt (hle.trans_lt hfits), hsigned]
    have hseats := sum_seatWeight_le_seats (c.memberKeys.zip c.weights) included.toFinset
    exact ⟨hseats, Nat.mod_le _ _⟩

/-! ## A slot from broadcast to confirmation -/

structure LedSlot (σ α : Type*) where
  lib : BlsLib α
  sound : lib.Sound
  verifies : String → σ → Bool
  book : ElectionBook
  (slotHeight prevEnd : ℕ)
  block : String
  msgs : List (SigMsg σ)
  committee : Committee
  elected : book.getElectionByHeight slotHeight = some committee
  sent : SignedBlock α
  sent_eq : broadcast verifies lib book slotHeight prevEnd block msgs = some sent
  confirmedAt : ℕ
  slot_le : slotHeight ≤ confirmedAt
  lt_slot : confirmedAt < slotHeight + slotLength
  height_fits : slotHeight + slotLength < 2 ^ 64
  weights_fit : 2 * committee.weights.sum < 2 ^ 64

theorem ElectionBook.getElectionByHeight_congr {book : ElectionBook} {h h' : ℕ} (hle : h ≤ h')
    (hno : ∀ e ∈ book.db, ¬(h ≤ e.blockHeight ∧ e.blockHeight < h')) :
    book.getElectionByHeight h' = book.getElectionByHeight h := by
  have hfilter : (book.db.docs.filter fun e => e.blockHeight < h') =
      book.db.docs.filter fun e => e.blockHeight < h := by
    refine filter_congr fun e he => ?_
    have := hno e he
    simp only [decide_eq_decide]
    omega
  rw [getElectionByHeight, getElectionByHeight, ElectionDb.getElectionByHeight,
    ElectionDb.getElectionByHeight, hfilter]

namespace LedSlot

def collected (s : LedSlot σ α) : ℕ × List String := waitForSigs s.verifies s.committee 0 [] s.msgs

variable (s : LedSlot σ α)

theorem sent_iff : s.committee.totalWeight * 2 % 2 ^ 64 / 3 < s.collected.1 ∧
      s.sent = ⟨some s.block, (s.prevEnd, s.slotHeight),
        some (.finalize s.lib s.committee.memberKeys s.collected.2)⟩ := by
  have h := s.sent_eq
  simp only [broadcast, s.elected] at h
  split_ifs at h with hquorum
  exact ⟨hquorum, (Option.some.inj h).symm⟩

theorem not_isStale : isStale s.sent.br.2 s.confirmedAt = false := by
  have hlt := s.lt_slot
  have hfits := s.height_fits
  rw [s.sent_iff.2, isStale, decide_eq_false_iff_not, brHeight]
  simp only [slotLength] at hlt hfits ⊢
  omega

theorem validateDetailed_sent {c : Committee}
    (hc : s.book.getElectionByHeight s.confirmedAt = some c) :
    let circuit := BlsCircuit.finalize s.lib s.committee.memberKeys s.collected.2
    let score := calculateSigningScore circuit c (blsWeightDedupActive c.election.version)
    validateDetailed s.lib s.book s.confirmedAt s.sent =
      if circuit.verify s.lib c.memberKeys = false then
        .invalid "BLS aggregate failed verification"
      else if score.2 * 2 % 2 ^ 64 / 3 < score.1 then .valid
      else .invalid "signing score below 2/3 threshold" := by
  have hstale := s.not_isStale
  simp only [s.sent_iff.2] at hstale ⊢
  simp only [validateDetailed, hc, hstale, Bool.false_eq_true, if_false]

/-- A block its committee has signed is valid when it confirms under that committee. Under a
committee that shares no key with the one that signed, it is invalid. -/
theorem honored_of_no_election (s : LedSlot σ α) :
    ((∀ e ∈ s.book.db, ¬(s.slotHeight ≤ e.blockHeight ∧ e.blockHeight < s.confirmedAt)) →
      validateDetailed s.lib s.book s.confirmedAt s.sent = .valid) ∧
    (∀ c, s.book.getElectionByHeight s.confirmedAt = some c →
      (∀ key ∈ c.memberKeys, key ∉ s.committee.memberKeys) →
      validateDetailed s.lib s.book s.confirmedAt s.sent =
        .invalid "BLS aggregate failed verification") := by
  have hquorum := s.sent_iff.1
  have hcollected : Collected s.committee s.collected :=
    .waitForSigs ⟨s.committee.foldSigned_nil.symm, by simp⟩ s.msgs
  constructor
  · intro hno
    have hpos : 0 < (s.committee.foldSigned s.collected.2).1 := by
      rw [← hcollected.weight]
      omega
    have hne : s.collected.2 ≠ [] := by
      intro hnil
      rw [hnil, Committee.foldSigned_nil] at hpos
      exact lt_irrefl 0 hpos
    have hfits := s.weights_fit
    have hweights := Committee.weights_ne_nil (Committee.length_of_foldSigned hpos) hpos
    have htotal : s.committee.totalWeight = s.committee.weights.sum := by
      rw [Committee.totalWeight, if_neg hweights, Nat.mod_eq_of_lt (by omega)]
    obtain ⟨hsigned, hscore⟩ := calculateSigningScore_finalize s.lib (by omega) hpos
      hcollected.seated (blsWeightDedupActive s.committee.election.version)
    rw [htotal, hcollected.weight] at hquorum
    rw [s.validateDetailed_sent
      ((ElectionBook.getElectionByHeight_congr s.slot_le hno).trans s.elected),
      BlsCircuit.verify_finalize s.sound hcollected.seated hne, if_neg (by simp), if_pos (by omega)]
  · intro c hc hkeys
    rw [s.validateDetailed_sent hc, BlsCircuit.verify_of_disjoint s.sound hkeys, if_pos rfl]

end LedSlot

/-- Three members of equal weight, replaced at height 20. -/
def replacedCommittee : ElectionBook where
  db := Collection.empty.putAll
    [⟨1, 5, [⟨"k1", "hive:a"⟩, ⟨"k2", "hive:b"⟩, ⟨"k3", "hive:c"⟩], ⟨0, 9, 0⟩⟩,
     ⟨2, 20, [⟨"k4", "hive:d"⟩, ⟨"k5", "hive:e"⟩, ⟨"k6", "hive:f"⟩], ⟨0, 9, 0⟩⟩]
  weights _ := [1, 1, 1]

/-- Aggregates that are the keys themselves. -/
def keysLib : BlsLib (List String) where
  aggregate := id
  verify := isPerm

def replacedSlot : LedSlot Unit (List String) where
  lib := keysLib
  sound := ⟨fun _ => isPerm_iff.2 (Perm.refl _), fun _ _ => isPerm_iff.1⟩
  verifies _ _ := true
  book := replacedCommittee
  slotHeight := 20
  prevEnd := 10
  block := "block"
  msgs := [⟨"hive:a", ()⟩, ⟨"hive:b", ()⟩, ⟨"hive:c", ()⟩]
  committee :=
    ⟨⟨1, 5, [⟨"k1", "hive:a"⟩, ⟨"k2", "hive:b"⟩, ⟨"k3", "hive:c"⟩], ⟨0, 9, 0⟩⟩, [1, 1, 1]⟩
  elected := by decide
  sent := ⟨some "block", (10, 20), some ⟨[true, true, true], ["k1", "k2", "k3"]⟩⟩
  sent_eq := by decide
  confirmedAt := 25
  slot_le := by decide
  lt_slot := by decide
  height_fits := by decide
  weights_fit := by decide

/-- The block that is confirmed at once is valid. -/
theorem honored_at_slot :
    validateDetailed keysLib replacedCommittee 20 replacedSlot.sent = .valid :=
  LedSlot.honored_of_no_election { replacedSlot with
    confirmedAt := 20, slot_le := by decide, lt_slot := by decide } |>.1 (by decide)

/-- An election result applied at the slot's first height makes the block of the slot
invalid, although the whole committee has signed it. -/
theorem signed_block_invalid_after_election :
    replacedSlot.collected = (3, ["k1", "k2", "k3"]) ∧
      validateDetailed keysLib replacedCommittee 25 replacedSlot.sent =
        .invalid "BLS aggregate failed verification" := by
  decide

end VscNode.BlockProducer
