import VscNode.StateEngine.SeatMaintenance

/-!
# Votes on an admission

Seated operators vote a candidate with its owner into the registry. All votes for one
pair of candidate and owner go to one proposal, which the first of them opens. A
proposal is voted on in rounds: a vote on one whose window has run out starts a new
round, and only votes cast in the round count. The electorate of a round is taken at
the block that opened it, but from the seat rows as they are at each vote.
-/

namespace VscNode.StateEngine

open Collection Governance List PoaSeats Seat Text
open Pendulum (Version)

seal normalizeAccount

/-! ## Names -/

def canonicalUboId (raw : String) : String := toLower (trimSpace raw)

def isAccountLetter (c : Char) : Bool := ('a' ≤ c ∧ c ≤ 'z') ∨ ('0' ≤ c ∧ c ≤ '9')

/-- Letters and digits, with `-` and `.` between them. -/
def isPlausibleHiveAccount (a : String) : Bool :=
  decide (3 ≤ a.toList.length ∧ a.toList.length ≤ 16) &&
    a.toList.all (fun c => isAccountLetter c || c = '-' || c = '.') &&
    a.toList.head?.all isAccountLetter && a.toList.getLast?.all isAccountLetter

def isPlausibleUboId (u : String) : Bool :=
  decide (u.toList.length ≠ 0 ∧ u.toList.length ≤ 128) &&
    u.toList.all fun c => decide (0x20 < c.toNat ∧ c.toNat < 0x7f)

/-! ## The electorate -/

def seatHoldsAdmissionVote (seat : Seat) (height window : ℕ) : Bool :=
  let start := if seat.exitHeight = 0 then seat.admittedHeight else seat.exitHeight
  if seat.exitHeight = 0 ∧ 0 < seat.lastSeatedHeight then true
  else
    let stop := (start + window) % 2 ^ 64
    if stop < start then true else height < stop

def poaVoteDepartureHalts : ℕ := 10

def PoaRules.effectivePoaVoteDeparture (rules : PoaRules) : ℕ :=
  let h := rules.effectivePoaExitHalt
  if (2 ^ 64 - 1) / poaVoteDepartureHalts < h then 2 ^ 64 - 1 else h * poaVoteDepartureHalts

def defaultPoaAdmitVoteWindowBlocks : ℕ := 3 * 28800

def poaAdmissionReopenActive (v : Version) : Bool := v.meetsConsensusMin ⟨0, 9, 0⟩

def poaElectorateDropsDepartedActive (v : Version) : Bool := v.meetsConsensusMin ⟨0, 9, 0⟩

/-- What admissions depend on besides the stores. The digest is that of a hash function, for
which no two texts are known to agree. -/
structure AdmissionRules where
  netId : String
  poaAdmitVoteWindowBlocks : ℕ
  poa : PoaRules
  elections : ElectionRules
  activeConsensusVersion : ℕ → Version
  digest : String → String
  digest_injective : Function.Injective digest

variable (rules : AdmissionRules)

def AdmissionRules.effectivePoaAdmitVoteWindow : ℕ :=
  if rules.poaAdmitVoteWindowBlocks = 0 then defaultPoaAdmitVoteWindowBlocks
  else rules.poaAdmitVoteWindowBlocks

def admitSeatProposalID (candidate uboId : String) : String :=
  "admit_seat:" ++ rules.digest (normalizeAccount candidate ++ "\x00" ++ trimSpace uboId)

def seatElectorate (accounts : List String) : List Member :=
  accounts.map fun a => ⟨normalizeAccount a, 1⟩

def votingSeats (seats : PoaSeats) (height : ℕ) : List Seat :=
  (seats.getSeatsAtHeight height).filter fun seat =>
    ¬(poaElectorateDropsDepartedActive (rules.activeConsensusVersion height) = true ∧
      seatHoldsAdmissionVote seat height rules.poa.effectivePoaVoteDeparture = false)

def poaSeatElectorate (seats : PoaSeats) (height : ℕ) : Option (List Member) :=
  if seats.getSeatsAtHeight height = [] then none
  else
    let accounts := (votingSeats rules seats height).map fun seat => normalizeAccount seat.account
    if accounts = [] then none else some (seatElectorate accounts)

/-! ## Votes -/

structure AdmitProposal extends Proposal where
  (candidate uboId : String)
  deriving DecidableEq

structure Admissions where
  poaSeats : PoaSeats := Collection.empty
  proposals : Collection (fun p : AdmitProposal => p.proposalId) := Collection.empty
  votes : Collection (fun v : ProposalVote => (v.proposalId, v.voter)) := Collection.empty

namespace Admissions

variable (s : Admissions)

def saveProposal (p : AdmitProposal) : Admissions :=
  { s with proposals := s.proposals.put p }

def recordVote (v : ProposalVote) : Admissions :=
  if v.voter = "" then s else { s with votes := s.votes.put v }

def voterSet (proposalID : String) : List String :=
  (s.votes.docs.filter fun v => v.proposalId = proposalID).map (·.voter)

def voterSetSince (proposalID : String) (minHeight : ℕ) : List String :=
  (s.votes.docs.filter fun v => v.proposalId = proposalID ∧ minHeight ≤ v.blockHeight).map (·.voter)

end Admissions

structure AdmitRequest where
  (candidate uboId netId : String)
  deriving DecidableEq

def AdmitRequest.pair (req : AdmitRequest) : Option (String × String) :=
  if req.netId ≠ rules.netId then none
  else
    let candidate := normalizeAccount req.candidate
    let uboId := canonicalUboId req.uboId
    if candidate = "" then none
    else if isPlausibleHiveAccount candidate = false then none
    else if isPlausibleUboId uboId = false then none
    else if uboId = "" then none
    else some (candidate, uboId)

variable (s : Admissions)

/-- The proposal that a vote goes to: the stored one, or a new one. -/
def openProposal (candidate uboId : String) (blockHeight : ℕ) : Admissions × AdmitProposal :=
  match s.proposals.get? (admitSeatProposalID rules candidate uboId) with
  | some prop => (s, prop)
  | none =>
    let prop : AdmitProposal :=
      { proposalId := admitSeatProposalID rules candidate uboId, type := .admitSeat
        status := .opened, creationBlock := blockHeight, beneficiary := candidate
        candidate := candidate, uboId := uboId }
    (s.saveProposal prop, prop)

def reopenProposal (prop : AdmitProposal) (blockHeight : ℕ) : Admissions × AdmitProposal :=
  let window := rules.effectivePoaAdmitVoteWindow
  let roundOver := prop.status = .expired ∨
    (prop.status = .opened ∧ isExpired blockHeight prop.creationBlock window 0 = true)
  if poaAdmissionReopenActive (rules.activeConsensusVersion blockHeight) = true ∧ roundOver then
    let prop := { prop with status := .opened, creationBlock := blockHeight }
    (s.saveProposal prop, prop)
  else (s, prop)

def castAdmitVote (prop : AdmitProposal) (voter txID : String) (blockHeight : ℕ) : Admissions :=
  if prop.status ≠ .opened then s
  else if isExpired blockHeight prop.creationBlock rules.effectivePoaAdmitVoteWindow 0 then
    s.saveProposal { prop with status := .expired }
  else
    match poaSeatElectorate rules s.poaSeats prop.creationBlock with
    | none => s
    | some snapshot =>
      if isMember snapshot voter = false then s
      else
        let s := s.recordVote ⟨prop.proposalId, voter, blockHeight, txID⟩
        let voters :=
          if poaAdmissionReopenActive (rules.activeConsensusVersion blockHeight) then
            s.voterSetSince prop.proposalId prop.creationBlock
          else s.voterSet prop.proposalId
        if isApproved snapshot prop.beneficiary voters = false then s
        else
          match s.poaSeats.admitSeat ⟨prop.candidate, prop.uboId, blockHeight, 0, 0⟩ with
          | .error _ => s
          | .ok seats =>
            { s with poaSeats := seats }.saveProposal
              { prop with status := .applied, appliedBlock := blockHeight, appliedTxId := txID }

def handleAdmitVote (payload : Option AdmitRequest) (voterAccount txID : String) (blockHeight : ℕ) :
    Admissions :=
  match payload.bind (AdmitRequest.pair rules) with
  | none => s
  | some (candidate, uboId) =>
    let voter := normalizeAccount voterAccount
    match poaSeatElectorate rules s.poaSeats blockHeight with
    | none => s
    | some electorate =>
      if isMember electorate voter = false then s
      else if (s.poaSeats.getSeat candidate).isSome then s
      else if (s.poaSeats.getSeatByUbo uboId).isSome then s
      else
        let (s, prop) := openProposal rules s candidate uboId blockHeight
        if prop.type ≠ .admitSeat then s
        else
          let (s, prop) := reopenProposal rules s prop blockHeight
          castAdmitVote rules s prop voter txID blockHeight

/-! ## Runs -/

inductive SeatEvent
  | admitVote (payload : Option AdmitRequest) (voterAccount txID : String) (height : ℕ)
  | ratify (elecResult : ElectionResult) (prevElection : Option ElectionResult) (height : ℕ)

def SeatEvent.height : SeatEvent → ℕ
  | .admitVote _ _ _ height => height
  | .ratify _ _ height => height

namespace Admissions

def apply : SeatEvent → Admissions
  | .admitVote payload voterAccount txID height =>
    handleAdmitVote rules s payload voterAccount txID height
  | .ratify elecResult prevElection height =>
    let ws := applyPoaSeatMaintenance rules.elections s.poaSeats elecResult prevElection height
    { s with poaSeats := s.poaSeats.writeAll ws }

def run (es : List SeatEvent) : Admissions := es.foldl (apply rules) {}

theorem run_concat (es : List SeatEvent) (e : SeatEvent) :
    run rules (es ++ [e]) = (run rules es).apply rules e := foldl_concat ..

end Admissions

/-! ## Names in normal form -/

theorem toLower_of_forall {s : String} (h : ∀ c ∈ s.toList, c.toLower = c) : toLower s = s := by
  rw [toLower, map_congr_left h, map_id', String.ofList_toList]

variable {a : String} {c : Char} {seat : Seat} {candidate : String} {snapshot : List Member}
  {voters : List String} {s : Admissions}

theorem isPlausibleHiveAccount_letters (h : isPlausibleHiveAccount a = true) (hc : c ∈ a.toList) :
    isAccountLetter c = true ∨ c = '-' ∨ c = '.' := by
  simp only [isPlausibleHiveAccount, Bool.and_eq_true, all_eq_true, Bool.or_eq_true,
    decide_eq_true_eq] at h
  exact or_assoc.1 (h.1.1.2 c hc)

theorem toNat_of_isAccountLetter (h : isAccountLetter c = true ∨ c = '-' ∨ c = '.') :
    (97 ≤ c.toNat ∧ c.toNat ≤ 122) ∨ (48 ≤ c.toNat ∧ c.toNat ≤ 57) ∨ c.toNat = 45 ∨
      c.toNat = 46 := by
  rcases h with h | rfl | rfl
  · simp only [isAccountLetter, decide_eq_true_eq, Char.le_def] at h
    rcases h with ⟨h₁, h₂⟩ | ⟨h₁, h₂⟩
    · exact .inl ⟨h₁, h₂⟩
    · exact .inr (.inl ⟨h₁, h₂⟩)
  · simp
  · simp

theorem not_isSpace_of_toNat (h : 0x20 < c.toNat ∧ c.toNat < 0x7f) : isSpace c = false := by
  simp only [isSpace, Bool.or_eq_false_iff, Bool.and_eq_false_iff, decide_eq_false_iff_not,
    mem_cons, not_mem_nil, or_false]
  omega

theorem normalizeAccount_of_isPlausibleHiveAccount (h : isPlausibleHiveAccount a = true) :
    normalizeAccount a = a := by
  have hchar : ∀ c ∈ a.toList, (97 ≤ c.toNat ∧ c.toNat ≤ 122) ∨ (48 ≤ c.toNat ∧ c.toNat ≤ 57) ∨
      c.toNat = 45 ∨ c.toNat = 46 := fun c hc =>
    toNat_of_isAccountLetter (isPlausibleHiveAccount_letters h hc)
  have htrim : trimSpace a = a := trimSpace_of_forall_not fun c hc =>
    not_isSpace_of_toNat (by have := hchar c hc; omega)
  have hlower : toLower a = a := toLower_of_forall fun c hc => by
    have hrange := hchar c hc
    delta Char.toLower
    split
    · rename_i hupper
      simp only [ge_iff_le, UInt32.le_iff_toNat_le] at hupper
      have hval : c.toNat = c.val.toNat := rfl
      simp at hupper
      omega
    · rfl
  have hcolon : hasPrefix a "hive:" = false := by
    rw [Bool.eq_false_iff]
    intro hprefix
    have hmem : ':' ∈ a.toList := (hasPrefix_iff.1 hprefix).subset (by simp)
    have := hchar ':' hmem
    simp at this
  rw [normalizeAccount, htrim, hlower, trimPrefix, hcolon]
  rfl

theorem trimSpace_of_isPlausibleUboId {u : String} (h : isPlausibleUboId u = true) :
    trimSpace u = u := by
  simp only [isPlausibleUboId, Bool.and_eq_true, all_eq_true, decide_eq_true_eq] at h
  exact trimSpace_of_forall_not fun c hc => not_isSpace_of_toNat (h.2 c hc)

theorem admitSeatProposalID_inj {c c' u u' : String} (hc : isPlausibleHiveAccount c = true)
    (hc' : isPlausibleHiveAccount c' = true) (hu : isPlausibleUboId u = true)
    (hu' : isPlausibleUboId u' = true)
    (h : admitSeatProposalID rules c u = admitSeatProposalID rules c' u') : c = c' ∧ u = u' := by
  have hfree : ∀ {a : String}, isPlausibleHiveAccount a = true → Free '\x00' a := fun ha hmem => by
    have := toNat_of_isAccountLetter (isPlausibleHiveAccount_letters ha hmem)
    simp at this
  have hfree' : ∀ {u : String}, isPlausibleUboId u = true → Free '\x00' u := fun hu hmem => by
    simp only [isPlausibleUboId, Bool.and_eq_true, all_eq_true, decide_eq_true_eq] at hu
    have := hu.2 _ hmem
    simp at this
  have hfields : ∀ {a u : String}, isPlausibleHiveAccount a = true → isPlausibleUboId u = true →
      fields '\x00' (a ++ "\x00" ++ u) = [a, u] := fun {a u} ha hu => by
    rw [String.append_assoc, fields_append (b := u) (by simp), fields_of_free (hfree ha),
      fields_of_free (hfree' hu)]
    rfl
  rw [admitSeatProposalID, admitSeatProposalID, append_left_cancel_iff] at h
  have htext := rules.digest_injective h
  rw [normalizeAccount_of_isPlausibleHiveAccount hc, normalizeAccount_of_isPlausibleHiveAccount hc',
    trimSpace_of_isPlausibleUboId hu, trimSpace_of_isPlausibleUboId hu'] at htext
  have hpair := congrArg (fields '\x00') htext
  rw [hfields hc hu, hfields hc' hu'] at hpair
  simpa using hpair

def SeatWrite.height : SeatWrite → ℕ
  | .admitSeat request => request.admittedHeight
  | .setSeating _ height => height
  | .setExit _ height => height

/-- An admission is under a name in normal form. -/
def SeatWrite.Normal : SeatWrite → Prop
  | .admitSeat request => normalizeAccount request.account = request.account
  | .setSeating _ _ => True
  | .setExit _ _ => True

end VscNode.StateEngine
