import VscNode.StateEngine.AdmissionElectorate

/-!
# Rounds of votes

What a vote does to its round, and what a run leaves in the store of votes: a vote that
counts in a round was cast in it (`Ballots.cast`).
-/

namespace VscNode.StateEngine

open Collection Governance List PoaSeats Seat

seal normalizeAccount

variable {rules : AdmissionRules} {s : Admissions}

/-! ## What a vote does -/

/-- The height at which a round ends. -/
def AdmissionRules.expiry (rules : AdmissionRules) (creationBlock : ℕ) : ℕ :=
  effectiveExpiry creationBlock rules.effectivePoaAdmitVoteWindow 0

theorem isExpired_iff {blockHeight creationBlock : ℕ} :
    isExpired blockHeight creationBlock rules.effectivePoaAdmitVoteWindow 0 = true ↔
      rules.expiry creationBlock ≤ blockHeight := by
  rw [isExpired, decide_eq_true_eq, AdmissionRules.expiry]

inductive Round (rules : AdmissionRules) (s : Admissions) (candidate uboId : String) (height : ℕ) :
    AdmitProposal → Prop
  | stored (prop : AdmitProposal)
      (hprop : s.proposals.get? (admitSeatProposalID rules candidate uboId) = some prop) :
      Round rules s candidate uboId height prop
  | first (hnone : s.proposals.get? (admitSeatProposalID rules candidate uboId) = none) :
      Round rules s candidate uboId height
        { proposalId := admitSeatProposalID rules candidate uboId, type := .admitSeat
          status := .opened, creationBlock := height, beneficiary := candidate
          candidate := candidate, uboId := uboId }
  | next (prop : AdmitProposal)
      (hprop : s.proposals.get? (admitSeatProposalID rules candidate uboId) = some prop)
      (hover : prop.status = .expired ∨ rules.expiry prop.creationBlock ≤ height) :
      Round rules s candidate uboId height { prop with status := .opened, creationBlock := height }

theorem saveProposal_of_mem {prop : AdmitProposal} (h : prop ∈ s.proposals) :
    s.saveProposal prop = s := by
  rw [Admissions.saveProposal, put_of_mem h]

theorem round_of_open (rules : AdmissionRules) (s : Admissions) (candidate uboId : String)
    (height : ℕ) :
    ∃ prop, Round rules s candidate uboId height prop ∧
      reopenProposal rules (openProposal rules s candidate uboId height).1
        (openProposal rules s candidate uboId height).2 height = (s.saveProposal prop, prop) := by
  rw [openProposal]
  cases hprop : s.proposals.get? (admitSeatProposalID rules candidate uboId) with
  | some prop =>
    dsimp only
    rw [reopenProposal]
    split
    · rename_i hover
      refine ⟨_, .next prop hprop (hover.2.imp_right fun h => ?_), rfl⟩
      exact isExpired_iff.1 h.2
    · exact ⟨prop, .stored prop hprop, by rw [saveProposal_of_mem (get?_eq_some_iff.1 hprop).1]⟩
  | none =>
    dsimp only
    refine ⟨_, .first hprop, ?_⟩
    rw [reopenProposal]
    split
    · dsimp only
      rw [saveProposal_of_mem (mem_put_self _ _)]
    · rfl

/-- What the vote itself does in the round that it finds. -/
inductive CastOutcome (rules : AdmissionRules) (s : Admissions) (prop : AdmitProposal)
    (voter txID : String) (height : ℕ) : Admissions → Prop
  | nothing : CastOutcome rules s prop voter txID height s
  | expire (hover : rules.expiry prop.creationBlock ≤ height) :
      CastOutcome rules s prop voter txID height (s.saveProposal { prop with status := .expired })
  | vote (hlive : height < rules.expiry prop.creationBlock) :
      CastOutcome rules s prop voter txID height
        (s.recordVote ⟨prop.proposalId, voter, height, txID⟩)
  | admitSeat (snapshot : List Member) (seats : PoaSeats)
      (hlive : height < rules.expiry prop.creationBlock)
      (hsnap : poaSeatElectorate rules s.poaSeats prop.creationBlock = some snapshot)
      (happroved : isApproved snapshot prop.beneficiary
        ((s.recordVote ⟨prop.proposalId, voter, height, txID⟩).voterSetSince prop.proposalId
          prop.creationBlock) = true)
      (hadm : s.poaSeats.admitSeat ⟨prop.candidate, prop.uboId, height, 0, 0⟩ = .ok seats) :
      CastOutcome rules s prop voter txID height
        ({ s.recordVote ⟨prop.proposalId, voter, height, txID⟩ with poaSeats := seats }.saveProposal
          { prop with status := .applied, appliedBlock := height, appliedTxId := txID })

@[simp] theorem recordVote_poaSeats (s : Admissions) (v : ProposalVote) :
    (s.recordVote v).poaSeats = s.poaSeats := by
  rw [Admissions.recordVote]
  split <;> rfl

@[simp] theorem recordVote_proposals (s : Admissions) (v : ProposalVote) :
    (s.recordVote v).proposals = s.proposals := by
  rw [Admissions.recordVote]
  split <;> rfl

theorem mem_recordVote {v v' : ProposalVote} (h : v' ∈ (s.recordVote v).votes) :
    v' = v ∨ v' ∈ s.votes := by
  rw [Admissions.recordVote] at h
  split at h
  · exact .inr h
  · exact mem_of_mem_put h

theorem castAdmitVote_outcome (h090 : rules.Under090) (s : Admissions) (prop : AdmitProposal)
    (voter txID : String) (height : ℕ) :
    CastOutcome rules s prop voter txID height (castAdmitVote rules s prop voter txID height) := by
  rw [castAdmitVote]
  split
  · exact .nothing
  split
  · rename_i hexpired
    exact .expire (isExpired_iff.1 hexpired)
  rename_i hlive
  have hlive : height < rules.expiry prop.creationBlock :=
    Nat.lt_of_not_le fun h => hlive (isExpired_iff.2 h)
  cases hsnap : poaSeatElectorate rules s.poaSeats prop.creationBlock with
  | none => exact .nothing
  | some snapshot =>
    dsimp only
    split
    · exact .nothing
    rw [poaAdmissionReopenActive, if_pos (h090 height)]
    split
    · exact .vote hlive
    rename_i happroved
    rw [recordVote_poaSeats]
    cases hadm : s.poaSeats.admitSeat ⟨prop.candidate, prop.uboId, height, 0, 0⟩ with
    | error e => exact .vote hlive
    | ok seats =>
      exact .admitSeat snapshot seats hlive hsnap (by simpa using happroved) hadm

theorem openProposal_of_type {candidate uboId : String} {height : ℕ}
    (h : (openProposal rules s candidate uboId height).2.type ≠ .admitSeat) :
    (openProposal rules s candidate uboId height).1 = s := by
  rw [openProposal] at h ⊢
  split
  · rfl
  rename_i hnone
  rw [hnone] at h
  exact (h rfl).elim

theorem handleAdmitVote_cases (h090 : rules.Under090) (s : Admissions)
    (payload : Option AdmitRequest) (voterAccount txID : String) (height : ℕ) :
    handleAdmitVote rules s payload voterAccount txID height = s ∨
      ∃ req candidate uboId prop, payload = some req ∧ req.pair rules = some (candidate, uboId) ∧
        s.poaSeats.getSeat candidate = none ∧ Round rules s candidate uboId height prop ∧
        CastOutcome rules (s.saveProposal prop) prop (normalizeAccount voterAccount) txID height
          (handleAdmitVote rules s payload voterAccount txID height) := by
  cases hpair : payload.bind (AdmitRequest.pair rules) with
  | none =>
    rw [handleAdmitVote, hpair]
    exact .inl rfl
  | some pair =>
    obtain ⟨candidate, uboId⟩ := pair
    obtain ⟨req, hreq, hpair'⟩ := Option.bind_eq_some_iff.1 hpair
    obtain ⟨prop, hround, hopen⟩ := round_of_open rules s candidate uboId height
    rw [handleAdmitVote, hpair]
    dsimp only
    iterate 3
      split
      · exact .inl rfl
    rename_i hseat
    split
    · exact .inl rfl
    split
    · rename_i htype
      exact .inl (openProposal_of_type htype)
    rw [hopen]
    exact .inr ⟨req, candidate, uboId, prop, hreq, hpair', Option.not_isSome_iff_eq_none.1 hseat,
      hround, castAdmitVote_outcome h090 _ _ _ _ _⟩

theorem poaSeats_handleAdmitVote (h090 : rules.Under090) (s : Admissions)
    (payload : Option AdmitRequest) (voterAccount txID : String) (height : ℕ) :
    (handleAdmitVote rules s payload voterAccount txID height).poaSeats = s.poaSeats ∨
      ∃ request, s.poaSeats.admitSeat request =
        .ok (handleAdmitVote rules s payload voterAccount txID height).poaSeats := by
  rcases handleAdmitVote_cases h090 s payload voterAccount txID height with
    hsame | ⟨_, _, _, _, -, -, -, -, hcast⟩
  · exact .inl (congrArg _ hsame)
  generalize handleAdmitVote rules s payload voterAccount txID height = result at hcast
  cases hcast with
  | nothing => exact .inl rfl
  | expire _ => exact .inl rfl
  | vote _ => exact .inl (recordVote_poaSeats ..)
  | admitSeat _ _ _ _ _ hadm => exact .inr ⟨_, hadm⟩

/-! ## Histories -/

namespace Admissions

def CastIn (rules : AdmissionRules) (es : List SeatEvent) (candidate uboId voter : String)
    (creation h : ℕ) : Prop :=
  ∃ pre req account txID post, es = pre ++ .admitVote (some req) account txID h :: post ∧
    normalizeAccount account = voter ∧ req.pair rules = some (candidate, uboId) ∧
    ∃ q ∈ (run rules (pre ++ [.admitVote (some req) account txID h])).proposals,
      q.candidate = candidate ∧ q.uboId = uboId ∧ q.creationBlock = creation

variable {es : List SeatEvent} {candidate uboId : String} {H : ℕ} {s : Admissions}
  {p : AdmitProposal} {voter : String} {height : ℕ}

theorem CastIn.append {creation h : ℕ} (hcast : CastIn rules es candidate uboId voter creation h)
    (es' : List SeatEvent) : CastIn rules (es ++ es') candidate uboId voter creation h := by
  obtain ⟨pre, req, account, txID, post, rfl, hrest⟩ := hcast
  exact ⟨pre, req, account, txID, post ++ es', by simp, hrest⟩

section

variable (rules : AdmissionRules) (es : List SeatEvent) (seat : Seat)

def SeededIn : Prop :=
  ∃ pre elecResult prevElection h post request,
    es = pre ++ .ratify elecResult prevElection h :: post ∧
      .admitSeat request ∈ applyPoaSeatMaintenance rules.elections (run rules pre).poaSeats
        elecResult prevElection h ∧
      seat.account = request.account ∧ seat.uboId = ""

def GrantedIn : Prop :=
  ∃ pre req account txID h post, es = pre ++ .admitVote (some req) account txID h :: post ∧
    (run rules pre).poaSeats.get? seat.account = none ∧
    ∃ q ∈ (run rules (pre ++ [.admitVote (some req) account txID h])).proposals,
      q.candidate = seat.account ∧ q.uboId = seat.uboId ∧
      ∃ snapshot, poaSeatElectorate rules (run rules pre).poaSeats q.creationBlock = some snapshot ∧
        ∃ voters : Finset String, (∀ a ∈ voters, a ∈ snapshot.map Member.account) ∧
          2 * snapshot.length ≤ 3 * voters.card ∧
          ∀ a ∈ voters, ∃ h', q.creationBlock ≤ h' ∧
            CastIn rules (pre ++ [.admitVote (some req) account txID h]) seat.account seat.uboId a
              q.creationBlock h'

end

structure Ballots (rules : AdmissionRules) (es : List SeatEvent) (H : ℕ) (s : Admissions) : Prop where
  proposalId : ∀ p ∈ s.proposals, p.proposalId = admitSeatProposalID rules p.candidate p.uboId
  beneficiary : ∀ p ∈ s.proposals, p.beneficiary = p.candidate
  plausibleNames : ∀ p ∈ s.proposals, isPlausibleHiveAccount p.candidate = true ∧
    isPlausibleUboId p.uboId = true
  created : ∀ p ∈ s.proposals, p.creationBlock ≤ H
  expired : ∀ p ∈ s.proposals, p.status = .expired → rules.expiry p.creationBlock ≤ H
  /-- A vote was cast before the end of the round, or before the round. -/
  before : ∀ p ∈ s.proposals, ∀ v ∈ s.votes, v.proposalId = p.proposalId →
    v.blockHeight < p.creationBlock ∨ v.blockHeight < rules.expiry p.creationBlock
  voted : ∀ v ∈ s.votes, ∃ p ∈ s.proposals, p.proposalId = v.proposalId
  cast : ∀ p ∈ s.proposals, ∀ v ∈ s.votes, v.proposalId = p.proposalId →
    p.creationBlock ≤ v.blockHeight →
      CastIn rules es p.candidate p.uboId v.voter p.creationBlock v.blockHeight

theorem Ballots.mono {H' : ℕ} (h : Ballots rules es H s) (hH : H ≤ H') (es' : List SeatEvent) :
    Ballots rules (es ++ es') H' s where
  proposalId := h.proposalId
  beneficiary := h.beneficiary
  plausibleNames := h.plausibleNames
  created p hp := (h.created p hp).trans hH
  expired p hp hexp := (h.expired p hp hexp).trans hH
  before := h.before
  voted := h.voted
  cast p hp v hv hid hround := (h.cast p hp v hv hid hround).append es'

theorem Ballots.withSeats (h : Ballots rules es H s) (seats : PoaSeats) :
    Ballots rules es H { s with poaSeats := seats } :=
  ⟨h.proposalId, h.beneficiary, h.plausibleNames, h.created, h.expired, h.before, h.voted, h.cast⟩

theorem plausible_pair {req : AdmitRequest} (h : req.pair rules = some (candidate, uboId)) :
    isPlausibleHiveAccount candidate = true ∧ isPlausibleUboId uboId = true := by
  simp only [AdmitRequest.pair] at h
  split_ifs at h with hnet hempty hcandidate hubo
  cases h
  exact ⟨by simpa using hcandidate, by simpa using hubo⟩

theorem Ballots.saveProposal (h : Ballots rules es H s)
    (hid : p.proposalId = admitSeatProposalID rules p.candidate p.uboId)
    (hbeneficiary : p.beneficiary = p.candidate)
    (hnames : isPlausibleHiveAccount p.candidate = true ∧ isPlausibleUboId p.uboId = true)
    (hcreated : p.creationBlock ≤ H)
    (hexpired : p.status = .expired → rules.expiry p.creationBlock ≤ H)
    (hbefore : ∀ v ∈ s.votes, v.proposalId = p.proposalId → v.blockHeight < p.creationBlock ∨
      v.blockHeight < rules.expiry p.creationBlock)
    (hcast : ∀ v ∈ s.votes, v.proposalId = p.proposalId → p.creationBlock ≤ v.blockHeight → CastIn
      rules es p.candidate p.uboId v.voter p.creationBlock v.blockHeight) :
    Ballots rules es H (s.saveProposal p) where
  proposalId := forall_mem_put hid h.proposalId
  beneficiary := forall_mem_put hbeneficiary h.beneficiary
  plausibleNames := forall_mem_put hnames h.plausibleNames
  created := forall_mem_put hcreated h.created
  expired := forall_mem_put hexpired h.expired
  before := forall_mem_put hbefore h.before
  voted := by
    intro v hv
    obtain ⟨q, hq, hqid⟩ := h.voted v hv
    by_cases hkey : q.proposalId = p.proposalId
    · exact ⟨p, mem_put_self _ _, hkey.symm.trans hqid⟩
    · exact ⟨q, mem_put.2 (.inr ⟨hq, hkey⟩), hqid⟩
  cast := forall_mem_put hcast h.cast

theorem Ballots.round (h : Ballots rules es H s) (hH : H ≤ height)
    (hnames : isPlausibleHiveAccount candidate = true ∧ isPlausibleUboId uboId = true)
    (hround : Round rules s candidate uboId height p) :
    Ballots rules es height (s.saveProposal p) ∧ p.candidate = candidate ∧ p.uboId = uboId := by
  have h' : Ballots rules es height s := by simpa using h.mono hH []
  cases hround with
  | stored _ hprop =>
    obtain ⟨hmem, hid⟩ := get?_eq_some_iff.1 hprop
    rw [saveProposal_of_mem hmem]
    refine ⟨h', ?_⟩
    have hplaus := h.plausibleNames p hmem
    exact admitSeatProposalID_inj rules hplaus.1 hnames.1 hplaus.2 hnames.2
      ((h.proposalId p hmem).symm.trans hid)
  | first hnone =>
    have hvotes : ∀ v ∈ s.votes, v.proposalId ≠ admitSeatProposalID rules candidate uboId := by
      intro v hv hid
      obtain ⟨q, hq, hqid⟩ := h.voted v hv
      exact get?_eq_none_iff.1 hnone q hq (hqid.trans hid)
    exact ⟨h'.saveProposal rfl rfl hnames le_rfl nofun
      (fun v hv hid => (hvotes v hv hid).elim) fun v hv hid => (hvotes v hv hid).elim, rfl, rfl⟩
  | next prop hprop hover =>
    obtain ⟨hmem, hid⟩ := get?_eq_some_iff.1 hprop
    have hplaus := h.plausibleNames prop hmem
    -- the round before is over, so its votes are older
    have hends : rules.expiry prop.creationBlock ≤ height :=
      hover.elim (fun hstatus => h'.expired prop hmem hstatus) id
    have hold : ∀ v ∈ s.votes, v.proposalId = prop.proposalId → v.blockHeight < height := by
      intro v hv hvid
      rcases h.before prop hmem v hv hvid with hlt | hlt
      · exact hlt.trans_le (h'.created prop hmem)
      · exact hlt.trans_le hends
    refine ⟨h'.saveProposal (h.proposalId prop hmem) (h.beneficiary prop hmem) hplaus le_rfl nofun
      (fun v hv hvid => .inl (hold v hv hvid)) fun v hv hvid hle => ?_, ?_⟩
    · exact absurd (hold v hv hvid) (Nat.not_lt.2 hle)
    · exact admitSeatProposalID_inj rules hplaus.1 hnames.1 hplaus.2 hnames.2
        ((h.proposalId prop hmem).symm.trans hid)

theorem Ballots.recordVote (h : Ballots rules es height s) (hp : p ∈ s.proposals) (txID : String)
    (hlive : height < rules.expiry p.creationBlock)
    (hcast : CastIn rules es p.candidate p.uboId voter p.creationBlock height) :
    Ballots rules es height (s.recordVote ⟨p.proposalId, voter, height, txID⟩) where
  proposalId := by simpa using h.proposalId
  beneficiary := by simpa using h.beneficiary
  plausibleNames := by simpa using h.plausibleNames
  created := by simpa using h.created
  expired := by simpa using h.expired
  before := by
    intro q hq v hv hid
    rw [recordVote_proposals] at hq
    rcases mem_recordVote hv with rfl | hv
    · obtain rfl := eq_of_key_eq hp hq hid
      exact .inr hlive
    · exact h.before q hq v hv hid
  voted := by
    intro v hv
    rw [recordVote_proposals]
    rcases mem_recordVote hv with rfl | hv
    · exact ⟨p, hp, rfl⟩
    · exact h.voted v hv
  cast := by
    intro q hq v hv hid hround
    rw [recordVote_proposals] at hq
    rcases mem_recordVote hv with rfl | hv
    · obtain rfl := eq_of_key_eq hp hq hid
      exact hcast
    · exact h.cast q hq v hv hid hround

end Admissions

end VscNode.StateEngine
