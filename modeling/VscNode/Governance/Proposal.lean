import VscNode.Ledger.CutWrites

/-!
# Votes on payouts from the reserve

Witnesses propose payouts from the reserve and approve them by votes. A proposal
and the votes on it are rows of one store; the vote that takes the tally over two
thirds of the weight of the electorate, without the beneficiary, pays out and
closes the proposal.

The handlers are given as the writes they make, in order, so that a run can stop
after any of them.
-/

namespace VscNode.Governance

open Text

/-! ## The tally -/

structure Member where
  account : String
  weight : ℕ
  deriving DecidableEq

def normalizeAccount (a : String) : String := trimPrefix (toLower (trimSpace a)) "hive:"

variable (electorate : List Member) (s : Stores) (beneficiary : String)

/-- The weight of some members, as a `uint64`. -/
def weightOf (counts : String → Bool) : ℕ :=
  electorate.foldl (fun total m =>
    if counts (normalizeAccount m.account) then (total + m.weight) % 2 ^ 64 else total) 0

def effectiveWeight : ℕ :=
  weightOf electorate fun acct => acct ≠ normalizeAccount beneficiary

def requiredWeight : ℕ :=
  let w := effectiveWeight electorate beneficiary
  if w = 0 then 0 else ((2 * w + 2) % 2 ^ 64) / 3

def tally (voters : List String) : ℕ :=
  weightOf electorate fun acct => acct ≠ normalizeAccount beneficiary ∧ acct ∈ voters

def isApproved (voters : List String) : Bool :=
  let req := requiredWeight electorate beneficiary
  if req = 0 then false else req ≤ tally electorate beneficiary voters

def isMember (normalizedAcct : String) : Bool :=
  electorate.any fun m => normalizeAccount m.account = normalizedAcct

/-! ## The stores -/

inductive ProposalType
  | slashRestore | reservePayout | admitSeat
  deriving DecidableEq

inductive ProposalStatus
  | opened | applied | expired
  deriving DecidableEq

structure Proposal where
  proposalId : String
  type : ProposalType
  status : ProposalStatus
  creationBlock : ℕ
  beneficiary : String
  appliedBlock : ℕ := 0
  appliedTxId : String := ""
  recipient : String := ""
  reason : String := ""
  amount : Int := 0
  deriving DecidableEq

structure ProposalVote where
  (proposalId voter : String)
  blockHeight : ℕ
  txId : String
  deriving DecidableEq

/-- The stores that the handlers read and write. -/
structure Stores where
  dbs : LedgerDbs := {}
  proposals : Collection Proposal.proposalId := Collection.empty
  votes : Collection (fun v : ProposalVote => (v.proposalId, v.voter)) := Collection.empty

inductive Write
  | saveProposal (p : Proposal)
  | recordVote (v : ProposalVote)
  | storeLedger (r : LedgerRecord)

def Stores.write : Write → Stores
  | .saveProposal p => { s with proposals := s.proposals.put p }
  | .recordVote v => if v.voter = "" then s else { s with votes := s.votes.put v }
  | .storeLedger r => { s with dbs := s.dbs.storeLedger [r] }

def Stores.writeAll (ws : List Write) : Stores := ws.foldl Stores.write s

@[simp] theorem Stores.writeAll_nil : s.writeAll [] = s := rfl

@[simp] theorem Stores.writeAll_cons (w : Write) (ws : List Write) :
    s.writeAll (w :: ws) = (s.write w).writeAll ws := rfl

theorem Stores.writeAll_append (ws ws' : List Write) :
    s.writeAll (ws ++ ws') = (s.writeAll ws).writeAll ws' := List.foldl_append

theorem Stores.writeAll_storeLedger (rows : List LedgerRecord) :
    s.writeAll (rows.map .storeLedger) = { s with dbs := s.dbs.storeLedger rows } := by
  induction rows generalizing s with
  | nil => rfl
  | cons r rows ih =>
    rw [List.map_cons, writeAll_cons, ih]
    rfl

@[simp] theorem Stores.write_recordVote_dbs (v : ProposalVote) :
    (s.write (.recordVote v)).dbs = s.dbs := by
  rw [write]
  split <;> rfl

@[simp] theorem Stores.write_recordVote_proposals (v : ProposalVote) :
    (s.write (.recordVote v)).proposals = s.proposals := by
  rw [write]
  split <;> rfl

def Stores.voterSet (proposalID : String) : List String :=
  (s.votes.docs.filter fun v => v.proposalId = proposalID).map (·.voter)

/-! ## The handlers -/

/-- What the handlers take from elsewhere: the electorate of a height, the lifetime
of a proposal, and the hexadecimal digest of a text. -/
structure Rules where
  electorate : ℕ → Option (List Member)
  expiryBlocks : ℕ
  digest : String → String
  digest_hex : ∀ s, ∀ c ∈ (digest s).toList, c ∈ "0123456789abcdef".toList

variable (rules : Rules)

def reservePayoutProposalID (recipient : String) (amount : Int) (reason createTxID : String) :
    String :=
  "reserve_payout:" ++ rules.digest (normalizeAccount recipient ++ "\x00" ++ toString amount ++
    "\x00" ++ reason ++ "\x00" ++ trimSpace createTxID)

def Proposal.payoutParams (prop : Proposal) (proposalID : String) (blockHeight : ℕ) :
    ReservePayoutParams :=
  { proposalID := proposalID, recipient := prop.recipient, amount := prop.amount
    blockHeight := blockHeight }

section

variable (s : Stores) (proposalID voter txID : String) (payload : Option PayoutRequest)
  (blockHeight : ℕ)

def castReservePayoutVote : List Write :=
  match s.proposals.get? proposalID with
  | none => []
  | some prop =>
    if prop.type ≠ .reservePayout then []
    else if prop.status ≠ .opened then []
    else if isExpired blockHeight prop.creationBlock rules.expiryBlocks 0 then
      [.saveProposal { prop with status := .expired }]
    else
      match rules.electorate prop.creationBlock with
      | none => []
      | some electorate =>
        if isMember electorate voter = false then []
        else
          let vote : ProposalVote :=
            { proposalId := proposalID, voter := voter, blockHeight := blockHeight, txId := txID }
          let voters := (s.write (.recordVote vote)).voterSet proposalID
          let params := prop.payoutParams proposalID blockHeight
          if isApproved electorate prop.beneficiary voters = false then [.recordVote vote]
          else if (reservePayout s.dbs.ledger params).2.ok = false then [.recordVote vote]
          else
            .recordVote vote :: (payoutWrites s.dbs.ledger params).map .storeLedger ++
              [.saveProposal { prop with
                status := .applied, appliedBlock := blockHeight, appliedTxId := txID }]

structure PayoutRequest where
  recipient : String
  amount : Int
  reason : String
  deriving DecidableEq

def handleReservePayoutCreate (creatorAccount txID : String) (blockHeight : ℕ) : List Write :=
  match payload with
  | none => []
  | some req =>
    let recipient := normalizeAccount req.recipient
    if recipient = "" ∨ req.amount ≤ 0 then []
    else
      match rules.electorate blockHeight with
      | none => []
      | some electorate =>
        if isMember electorate (normalizeAccount creatorAccount) = false then []
        else if reserveAvailable s.dbs.ledger "" < req.amount then []
        else
          let proposalID := reservePayoutProposalID rules recipient req.amount req.reason txID
          let created :=
            if (s.proposals.get? proposalID).isSome then []
            else [.saveProposal
              { proposalId := proposalID, type := .reservePayout, status := .opened
                creationBlock := blockHeight, beneficiary := recipient, recipient := recipient
                reason := req.reason, amount := req.amount }]
          created ++ castReservePayoutVote rules (s.writeAll created) proposalID
            (normalizeAccount creatorAccount) txID blockHeight

def handleReservePayoutVote (s : Stores) (payload : Option String) (voterAccount txID : String)
    (blockHeight : ℕ) : List Write :=
  match payload with
  | none => []
  | some id =>
    if trimSpace id = "" then []
    else castReservePayoutVote rules s (trimSpace id) (normalizeAccount voterAccount) txID
      blockHeight

/-! ## What the handlers write -/

inductive CastWrites (s : Stores) (proposalID : String) (blockHeight : ℕ) : List Write → Prop
  | nothing : CastWrites s proposalID blockHeight []
  | expire (prop : Proposal) (hprop : s.proposals.get? proposalID = some prop)
      (hopen : prop.status = .opened) :
      CastWrites s proposalID blockHeight [.saveProposal { prop with status := .expired }]
  | vote (v : ProposalVote) : CastWrites s proposalID blockHeight [.recordVote v]
  | pay (v : ProposalVote) (prop : Proposal) (txID : String)
      (hprop : s.proposals.get? proposalID = some prop) (hopen : prop.status = .opened)
      (hok : (reservePayout s.dbs.ledger (prop.payoutParams proposalID blockHeight)).2.ok = true) :
      CastWrites s proposalID blockHeight (.recordVote v :: (payoutWrites s.dbs.ledger
          (prop.payoutParams proposalID blockHeight)).map .storeLedger ++
          [.saveProposal { prop with
            status := .applied, appliedBlock := blockHeight, appliedTxId := txID }])

theorem castReservePayoutVote_writes :
    CastWrites s proposalID blockHeight
      (castReservePayoutVote rules s proposalID voter txID blockHeight) := by
  rw [castReservePayoutVote]
  cases hprop : s.proposals.get? proposalID with
  | none => exact .nothing
  | some prop =>
    dsimp only
    split
    · exact .nothing
    split
    · exact .nothing
    rename_i hstatus
    have hopen : prop.status = .opened := not_not.1 hstatus
    split
    · exact .expire prop hprop hopen
    split
    · exact .nothing
    split
    · exact .nothing
    split
    · exact .vote _
    split
    · exact .vote _
    · rename_i hok
      exact .pay _ prop txID hprop hopen (by simpa using hok)

theorem handleReservePayoutCreate_writes (creatorAccount txID : String) (blockHeight : ℕ) :
    handleReservePayoutCreate rules s payload creatorAccount txID blockHeight = [] ∨
      ∃ req proposalID created, payload = some req ∧
        proposalID = reservePayoutProposalID rules (normalizeAccount req.recipient) req.amount
          req.reason txID ∧
        (created = [] ∨ s.proposals.get? proposalID = none ∧ ∃ prop : Proposal,
          prop.proposalId = proposalID ∧ prop.status = .opened ∧ created = [.saveProposal prop]) ∧
        handleReservePayoutCreate rules s payload creatorAccount txID blockHeight =
          created ++ castReservePayoutVote rules (s.writeAll created) proposalID
            (normalizeAccount creatorAccount) txID blockHeight := by
  cases payload with
  | none => exact .inl rfl
  | some req =>
    simp only [handleReservePayoutCreate]
    iterate 4
      split
      · exact .inl rfl
    refine .inr ⟨req, _, _, rfl, rfl, ?_, rfl⟩
    split
    · exact .inl rfl
    · rename_i hnone
      exact .inr ⟨Option.not_isSome_iff_eq_none.1 hnone, _, rfl, rfl, rfl⟩

end

theorem castReservePayoutVote_of_closed {s : Stores} {proposalID : String} {prop : Proposal}
    (hprop : s.proposals.get? proposalID = some prop) (hclosed : prop.status ≠ .opened)
    (voter txID : String) (blockHeight : ℕ) :
    castReservePayoutVote rules s proposalID voter txID blockHeight = [] := by
  rw [castReservePayoutVote, hprop]
  dsimp only
  split <;> rfl

end VscNode.Governance
