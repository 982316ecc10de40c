import VscNode.Governance.Proposal
import VscNode.Ledger.Reserve

/-!
# The reserve under governance

Slashes fill the reserve and approved proposals empty it. Every call stores its
rows one after another and can stop after any of them; it is then met again, as the
same or as another call.

A proposal keeps its recipient and its amount for good, so that whatever is paid
for it is paid on the same terms. In every state the credits of the reserve cover
its payouts, and a payout that returns has credited what it debited.

A payout stores its two rows at the height of the call. One that is repeated at
another height moves them there, and where a slot change has counted the credit in
between it counts twice (`payout_counted_twice`).
-/

namespace VscNode.Governance

open Collection List Relation Stores Text

variable {rules : Rules} {txHeight : String → ℕ}

/-! ## Proposals and their ids -/

/-- The ids of payout proposals hold neither separators nor blanks. -/
def PlainID (id : String) : Prop := Free '#' id ∧ trimSpace id = id

theorem plainID_reservePayoutProposalID (recipient : String) (amount : Int)
    (reason createTxID : String) :
    PlainID (reservePayoutProposalID rules recipient amount reason createTxID) := by
  have hplain : ∀ {l : List Char}, (l.all fun c => c ≠ '#' ∧ isSpace c = false) = true →
      ∀ c ∈ l, c ≠ '#' ∧ isSpace c = false := fun h c hc => of_decide_eq_true (all_eq_true.1 h c hc)
  have hchars : ∀ c ∈ (reservePayoutProposalID rules recipient amount reason createTxID).toList,
      c ≠ '#' ∧ isSpace c = false := by
    intro c hc
    rw [reservePayoutProposalID, String.toList_append, mem_append] at hc
    rcases hc with hc | hc
    · exact hplain (by decide) c hc
    · exact hplain (l := "0123456789abcdef".toList) (by decide) c (rules.digest_hex _ c hc)
  exact ⟨fun h => (hchars _ h).1 rfl, trimSpace_of_forall_not fun c hc => (hchars c hc).2⟩

def Stores.terms (s : Stores) (id : String) : Option (String × Int) :=
  (s.proposals.get? id).map fun prop => (normalizeHiveConsensusAccount prop.recipient, prop.amount)

def Stores.Paid (s : Stores) (prop : Proposal) : Prop :=
  (∃ d, s.dbs.ledger.get? (prop.proposalId ++ "#reserve_payout#debit") = some d) ∧
    ∃ c, s.dbs.ledger.get? (prop.proposalId ++ "#reserve_payout#credit#" ++
      normalizeHiveConsensusAccount prop.recipient) = some c

/-- What holds of the stores between two writes. -/
structure Sound (txHeight : String → ℕ) (s : Stores) : Prop where
  book : ReserveBook txHeight s.terms s.dbs.ledger
  plain : ∀ prop ∈ s.proposals, PlainID prop.proposalId
  applied : ∀ prop ∈ s.proposals, prop.status = .applied → s.Paid prop

namespace Sound

variable {s : Stores}

theorem empty (txHeight : String → ℕ) : Sound txHeight {} where
  book := ReserveBook.empty txHeight _
  plain := fun prop hprop => absurd hprop (not_mem_empty prop)
  applied := fun prop hprop => absurd hprop (not_mem_empty prop)

variable {rows : List LedgerRecord} {blockHeight : ℕ} {id : String} {prop : Proposal}

section

variable (h : Sound txHeight s)

include h

theorem storeLedger {dbs : LedgerDbs} (hdbs : dbs.ledger = s.dbs.ledger.putAll rows)
    (hbook : ReserveBook txHeight s.terms (s.dbs.ledger.putAll rows)) :
    Sound txHeight { s with dbs := dbs } where
  book := by
    rw [show ({ s with dbs := dbs } : Stores).dbs.ledger = dbs.ledger from rfl, hdbs]
    exact hbook
  plain := h.plain
  applied := by
    intro prop hprop hstatus
    obtain ⟨hd, hc⟩ := h.applied prop hprop hstatus
    rw [Stores.Paid, show ({ s with dbs := dbs } : Stores).dbs.ledger = dbs.ledger from rfl, hdbs]
    exact ⟨exists_get?_putAll (.inl hd), exists_get?_putAll (.inl hc)⟩

theorem saveProposal {p : Proposal} (hplain : PlainID p.proposalId)
    (hterms : ∀ old, s.proposals.get? p.proposalId = some old →
      old.recipient = p.recipient ∧ old.amount = p.amount)
    (hpaid : p.status = .applied → s.Paid p) :
    Sound txHeight (s.write (.saveProposal p)) where
  book := by
    refine h.book.mono fun id t ht => ?_
    rw [terms, write, get?_put]
    by_cases hid : p.proposalId = id
    · subst hid
      obtain ⟨old, hold, rfl⟩ := Option.map_eq_some_iff.1 ht
      obtain ⟨hr, ha⟩ := hterms old hold
      simp [hr, ha]
    · rw [if_neg hid]
      exact ht
  plain := forall_mem_put hplain h.plain
  applied := forall_mem_put hpaid h.applied

theorem recordVote (v : ProposalVote) : Sound txHeight (s.write (.recordVote v)) := by
  rw [write]
  split
  · exact h
  · exact ⟨h.book, h.plain, h.applied⟩

section

variable (hprop : s.proposals.get? id = some prop)
include hprop

theorem onTerms (hscan : blockHeight ≤ maxLedgerScanHeight) :
    ReserveBook.OnTerms s.terms (prop.payoutParams id blockHeight) := by
  obtain ⟨hmem, hid⟩ := get?_eq_some_iff.1 hprop
  obtain ⟨hfree, htrim⟩ := h.plain prop hmem
  rw [show prop.proposalId = id from hid] at hfree htrim
  have htrim' : trimSpace (prop.payoutParams id blockHeight).proposalID = id := htrim
  refine ⟨⟨hscan, by rw [htrim']; exact hfree⟩, ?_⟩
  rw [htrim', terms, hprop]
  rfl

theorem storePayout (hscan : blockHeight ≤ maxLedgerScanHeight) (n : ℕ) :
    Sound txHeight (s.writeAll (((payoutWrites s.dbs.ledger
      (prop.payoutParams id blockHeight)).take n).map .storeLedger)) := by
  rw [writeAll_storeLedger]
  exact h.storeLedger rfl (h.book.payout (h.onTerms hprop hscan) n)

theorem closePaid
    (hrows : rows = [reservePayoutDebit (prop.payoutParams id blockHeight),
      reservePayoutCredit (prop.payoutParams id blockHeight)])
    (hpaid : Sound txHeight { s with dbs := s.dbs.storeLedger rows }) (txID : String) :
    Sound txHeight (({ s with dbs := s.dbs.storeLedger rows } : Stores).write (.saveProposal
      { prop with status := .applied, appliedBlock := blockHeight, appliedTxId := txID })) := by
  obtain ⟨hmem, hid⟩ := get?_eq_some_iff.1 hprop
  have hplain := h.plain prop hmem
  refine hpaid.saveProposal hplain (fun old hold => ?_) fun _ => ?_
  · rw [show ({ s with dbs := s.dbs.storeLedger rows } : Stores).proposals.get? prop.proposalId =
      s.proposals.get? prop.proposalId from rfl, hid, hprop, Option.some.injEq] at hold
    rw [hold]
    exact ⟨rfl, rfl⟩
  have htrim : trimSpace (prop.payoutParams id blockHeight).proposalID = prop.proposalId := by
    rw [hid]
    exact hid ▸ hplain.2
  refine ⟨exists_get?_putAll (.inr
      ⟨reservePayoutDebit (prop.payoutParams id blockHeight), by simp [hrows], ?_⟩),
    exists_get?_putAll (.inr
      ⟨reservePayoutCredit (prop.payoutParams id blockHeight), by simp [hrows], ?_⟩)⟩
  · rw [reservePayoutDebit_id, htrim]
  · rw [reservePayoutCredit_id, htrim]
    rfl

end

end

/-- A vote, whole or cut. -/
theorem cast {ws : List Write} (h : Sound txHeight s) (hscan : blockHeight ≤ maxLedgerScanHeight)
    (hws : CastWrites s id blockHeight ws) (n : ℕ) : Sound txHeight (s.writeAll (ws.take n)) := by
  cases hws with
  | nothing =>
    rw [take_nil]
    exact h
  | expire prop hprop hopen =>
    obtain ⟨hmem, hid⟩ := get?_eq_some_iff.1 hprop
    have hexpired : Sound txHeight (s.write (.saveProposal { prop with status := .expired })) := by
      refine h.saveProposal (h.plain prop hmem) (fun old hold => ?_) (fun hc => by cases hc)
      rw [show s.proposals.get? prop.proposalId = some prop from hid ▸ hprop,
        Option.some.injEq] at hold
      rw [hold]
      exact ⟨rfl, rfl⟩
    cases n with
    | zero => exact h
    | succ n => simpa using hexpired
  | vote v =>
    cases n with
    | zero => exact h
    | succ n => simpa using h.recordVote v
  | pay v prop txID hprop hopen hok =>
    have hrows : payoutWrites s.dbs.ledger (prop.payoutParams id blockHeight) =
        [reservePayoutDebit (prop.payoutParams id blockHeight),
          reservePayoutCredit (prop.payoutParams id blockHeight)] := by
      rw [payoutWrites, if_pos hok]
    have hvoted := h.recordVote v
    have hprop' : (s.write (.recordVote v)).proposals.get? id = some prop := by simpa using hprop
    have hpay := fun m => hvoted.storePayout hprop' hscan m
    rw [write_recordVote_dbs] at hpay
    generalize payoutWrites s.dbs.ledger (prop.payoutParams id blockHeight) = rows at hrows hpay ⊢
    cases n with
    | zero => exact h
    | succ m =>
      rw [cons_append, take_succ_cons, writeAll_cons, take_append,
        writeAll_append, length_map, ← map_take]
      by_cases hm : m ≤ rows.length
      · rw [Nat.sub_eq_zero_of_le hm, take_zero]
        exact hpay m
      -- the proposal is closed after both rows are stored
      have hdone := hpay m
      rw [take_of_length_le (by omega)] at hdone ⊢
      rw [take_of_length_le (by rw [length_singleton]; omega)]
      rw [writeAll_storeLedger] at hdone ⊢
      exact hvoted.closePaid hprop' hrows hdone txID

theorem create (h : Sound txHeight s) (payload : Option PayoutRequest)
    (creatorAccount txID : String) (hscan : blockHeight ≤ maxLedgerScanHeight) (n : ℕ) :
    Sound txHeight (s.writeAll ((handleReservePayoutCreate rules s payload creatorAccount txID
      blockHeight).take n)) := by
  rcases handleReservePayoutCreate_writes rules s payload creatorAccount txID blockHeight
    with hnil | ⟨req, id, created, -, hid, hcreated, heq⟩
  · rw [hnil, take_nil]
    exact h
  have hmade : Sound txHeight (s.writeAll created) := by
    rcases hcreated with rfl | ⟨hnone, prop, hprop, hopen, rfl⟩
    · exact h
    refine h.saveProposal (p := prop) ?_ (fun old hold => ?_) fun hc => ?_
    · rw [hprop, hid]
      exact plainID_reservePayoutProposalID _ _ _ _
    · rw [hprop, hnone] at hold
      cases hold
    · rw [hopen] at hc
      cases hc
  rw [heq, take_append, writeAll_append]
  by_cases hn : created.length ≤ n
  · rw [take_of_length_le hn]
    exact hmade.cast hscan (castReservePayoutVote_writes rules _ _ _ _ _) _
  obtain rfl : n = 0 := by
    rcases hcreated with rfl | ⟨-, prop, -, -, rfl⟩
    · simp at hn
    · simp at hn
      omega
  simpa using h

theorem vote (h : Sound txHeight s) (payload : Option String) (voterAccount txID : String)
    (hscan : blockHeight ≤ maxLedgerScanHeight) (n : ℕ) :
    Sound txHeight (s.writeAll ((handleReservePayoutVote rules s payload voterAccount txID
      blockHeight).take n)) := by
  cases payload with
  | none =>
    rw [handleReservePayoutVote, take_nil]
    exact h
  | some id =>
    simp only [handleReservePayoutVote]
    split
    · rw [take_nil]
      exact h
    · exact h.cast hscan (castReservePayoutVote_writes rules _ _ _ _ _) n

end Sound

/-! ## Runs -/

/-- A call whose first `landed` writes are made, or a new snapshot. -/
inductive Event
  | snapshot (balances : BalanceDb)
  | slash (p : SafetySlashConsensusParams) (landed : ℕ)
  | cancel (p : CancelPendingSafetySlashBurnParams) (landed : ℕ)
  | finalize (height landed : ℕ)
  | create (payload : Option PayoutRequest) (creatorAccount txID : String) (blockHeight landed : ℕ)
  | vote (payload : Option String) (voterAccount txID : String) (blockHeight landed : ℕ)

def Stores.apply (rules : Rules) (s : Stores) : Event → Stores
  | .snapshot balances => { s with dbs := { s.dbs with balances := balances } }
  | .slash p landed => { s with dbs := s.dbs.storeLedger ((slashWrites s.dbs p).take landed) }
  | .cancel p landed =>
    { s with dbs := s.dbs.storeLedger ((cancelWrites s.dbs.ledger p).take landed) }
  | .finalize height landed =>
    { s with dbs := s.dbs.storeLedger ((finalizeWrites s.dbs.ledger height).take landed) }
  | .create payload creatorAccount txID blockHeight landed =>
    s.writeAll ((handleReservePayoutCreate rules s payload creatorAccount txID
      blockHeight).take landed)
  | .vote payload voterAccount txID blockHeight landed =>
    s.writeAll ((handleReservePayoutVote rules s payload voterAccount txID blockHeight).take landed)

def Enabled (txHeight : String → ℕ) : Event → Prop
  | .snapshot _ => True
  | .slash p _ => CarriedSlash txHeight p
  | .cancel p _ => p.blockHeight ≤ maxLedgerScanHeight
  | .finalize height _ => height ≤ maxLedgerScanHeight
  | .create _ _ _ blockHeight _ => blockHeight ≤ maxLedgerScanHeight
  | .vote _ _ _ blockHeight _ => blockHeight ≤ maxLedgerScanHeight

instance (txHeight : String → ℕ) (e : Event) : Decidable (Enabled txHeight e) := by
  cases e <;> unfold Enabled <;> infer_instance

def Event.Concerns (rules : Rules) (id : String) : Event → Prop
  | .create (some req) _ txID _ _ =>
    reservePayoutProposalID rules (normalizeAccount req.recipient) req.amount req.reason txID = id
  | .vote (some voted) _ _ _ _ => trimSpace voted = id
  | _ => False

variable {e : Event} {s : Stores}

theorem Sound.apply (h : Sound txHeight s) (hok : Enabled txHeight e) :
    Sound txHeight (s.apply rules e) := by
  cases e with
  | snapshot balances => exact ⟨h.book, h.plain, h.applied⟩
  | slash p landed => exact h.storeLedger rfl (h.book.slash hok landed)
  | cancel p landed => exact h.storeLedger rfl (h.book.cancel hok landed)
  | finalize height landed => exact h.storeLedger rfl (h.book.finalize hok landed)
  | create payload creatorAccount txID blockHeight landed =>
    exact h.create payload creatorAccount txID hok landed
  | vote payload voterAccount txID blockHeight landed =>
    exact h.vote payload voterAccount txID hok landed

theorem apply_of_applied {prop : Proposal} (hmem : prop ∈ s.proposals)
    (hstatus : prop.status = .applied) (he : e.Concerns rules prop.proposalId) :
    s.apply rules e = s := by
  have hprop := get?_of_mem hmem
  have hclosed : prop.status ≠ .opened := by simp [hstatus]
  cases e with
  | create payload creatorAccount txID blockHeight landed =>
    cases payload with
    | none => exact he.elim
    | some req =>
      rw [apply]
      rcases handleReservePayoutCreate_writes rules s (some req) creatorAccount txID blockHeight
        with hnil | ⟨req', id, created, hreq, hid, hcreated, heq⟩
      · rw [hnil, take_nil, writeAll_nil]
      cases hreq
      have hid' : id = prop.proposalId := hid.trans he
      obtain rfl : created = [] := hcreated.resolve_right fun ⟨hnone, _⟩ => by
        rw [hid', hprop] at hnone
        cases hnone
      rw [heq, hid', writeAll_nil, castReservePayoutVote_of_closed rules hprop hclosed,
        append_nil,
        take_nil, writeAll_nil]
  | vote payload voterAccount txID blockHeight landed =>
    cases payload with
    | none => exact he.elim
    | some voted =>
      have hid : trimSpace voted = prop.proposalId := he
      simp only [apply, handleReservePayoutVote]
      split
      · rw [take_nil, writeAll_nil]
      · rw [hid, castReservePayoutVote_of_closed rules hprop hclosed, take_nil,
          writeAll_nil]
  | _ => exact he.elim

/-- **The reserve is not overdrawn** in any state of a run, and every proposal has paid
nothing or its amount once, out of as much taken from the reserve. A payout of it that
returns leaves it settled. One whose rows stand succeeds again, and changes nothing exactly
when it is repeated at the height of the rows. An applied proposal is not touched again. -/
theorem reserve_not_overdrawn {s : Stores}
    (hrun : ReflTransGen (Run.StepBy (Stores.apply rules) fun _ => Enabled txHeight) {} s) :
    0 ≤ reserveTotal s.dbs.ledger ∧ ∀ prop ∈ s.proposals,
        ((payoutDebited s.dbs.ledger prop.proposalId = 0 ∧
            payoutCredited s.dbs.ledger prop.proposalId = 0) ∨
          payoutDebited s.dbs.ledger prop.proposalId = prop.amount ∧
            (payoutCredited s.dbs.ledger prop.proposalId = 0 ∨
              payoutCredited s.dbs.ledger prop.proposalId = prop.amount)) ∧
        (∀ blockHeight ≤ maxLedgerScanHeight,
          ∀ res, res = reservePayout s.dbs.ledger (prop.payoutParams prop.proposalId blockHeight) →
          payoutDebited res.1 prop.proposalId = payoutCredited res.1 prop.proposalId ∧
          (res.2.ok = true → payoutDebited res.1 prop.proposalId = prop.amount) ∧
          ∀ d, s.dbs.ledger.get? (prop.proposalId ++ "#reserve_payout#debit") = some d →
          ∀ c, s.dbs.ledger.get? (prop.proposalId ++ "#reserve_payout#credit#" ++
            normalizeHiveConsensusAccount prop.recipient) = some c →
          res.2.ok = true ∧ ((∀ id, res.1.get? id = s.dbs.ledger.get? id) ↔
            d.blockHeight = blockHeight ∧ c.blockHeight = blockHeight)) ∧
        (prop.status = .applied → payoutDebited s.dbs.ledger prop.proposalId = prop.amount ∧
          payoutCredited s.dbs.ledger prop.proposalId = prop.amount ∧
          ∀ e : Event, e.Concerns rules prop.proposalId → s.apply rules e = s) := by
  have hsound : Sound txHeight s := by
    refine Run.preserves ?_ hrun (Sound.empty txHeight)
    rintro s - ⟨e, hok, rfl⟩ hs
    exact hs.apply hok
  refine ⟨hsound.book.nonneg, fun prop hmem => ?_⟩
  have hprop := get?_of_mem hmem
  obtain ⟨hfree, htrim⟩ := hsound.plain prop hmem
  have hterm : s.terms prop.proposalId =
      some (normalizeHiveConsensusAccount prop.recipient, prop.amount) := by
    rw [terms, hprop]
    rfl
  refine ⟨hsound.book.payout_once hfree hterm, ?_, ?_⟩
  · rintro blockHeight hscan res rfl
    have hterms := hsound.onTerms hprop hscan
    have hid : trimSpace (prop.payoutParams prop.proposalId blockHeight).proposalID =
      prop.proposalId := htrim
    have hsettled := hsound.book.reservePayout_settled hterms
    rw [hid] at hsettled
    refine ⟨hsettled.1, hsettled.2, fun d hd c hc => ?_⟩
    exact hsound.book.reservePayout_unchanged_iff hterms (by rwa [hid]) (by rwa [hid])
  intro hstatus
  obtain ⟨⟨d, hd⟩, c, hc⟩ := hsound.applied prop hmem hstatus
  refine ⟨?_, ?_, fun e he => apply_of_applied hmem hstatus he⟩
  · rw [hsound.book.payoutDebited_eq hfree hterm, hd]
    rfl
  · rw [hsound.book.payoutCredited_eq hfree hterm, hc]
    rfl

/-! ### A payout of 60 out of 100 that stops after its debit -/

/-- One witness decides alone. -/
def oneWitness : Rules where
  electorate := fun _ => some [⟨"w", 1⟩]
  expiryBlocks := 100
  digest := fun _ => "00"
  digest_hex := fun _ c hc => by
    rw [show "00".toList = ['0', '0'] from rfl] at hc
    simp_all

def payoutOfSixty : PayoutRequest := ⟨"Hive:b", 60, "refund"⟩

def paidAfterStop : Stores :=
  List.foldl (Stores.apply oneWitness) {} ([.snapshot Chain.bondSnapshot,
    .slash { account := "a", slashBps := 1000, txID := "s", blockHeight := 10
             evidenceKind := "vsc_double_block_sign", burnDelayBlocks := 0 } 2,
    .create (some payoutOfSixty) "w" "c" 20 3,
    .vote (some "reserve_payout:00") "w" "v" 21 4])

def appliedProposal : Proposal :=
  { proposalId := "reserve_payout:00", type := .reservePayout, status := .applied
    creationBlock := 20, beneficiary := "b", appliedBlock := 21, appliedTxId := "v"
    recipient := "b", reason := "refund", amount := 60 }

theorem reserve_not_overdrawn_paidAfterStop :
    reserveTotal paidAfterStop.dbs.ledger = 40 ∧ 0 ≤ reserveTotal paidAfterStop.dbs.ledger ∧
      payoutDebited paidAfterStop.dbs.ledger "reserve_payout:00" = 60 ∧
      payoutCredited paidAfterStop.dbs.ledger "reserve_payout:00" = 60 := by
  have hrun : ReflTransGen (Run.StepBy (apply oneWitness) fun _ => Enabled fun _ => 10) {}
      paidAfterStop := Run.foldl (by decide)
  obtain ⟨htotal, hprops⟩ := reserve_not_overdrawn hrun
  obtain ⟨-, -, happlied⟩ := hprops appliedProposal (mem_docs.1 (by decide))
  exact ⟨by decide, htotal, (happlied rfl).1, (happlied rfl).2.1⟩

/-- The same proposal, approved by its creation at height 20, whose node stops with both rows
stored and the proposal still open. Met again, the request is refused: what is left of the
reserve is less than it asks for. -/
def stoppedBeforeApplied : Stores :=
  List.foldl (Stores.apply oneWitness) {} ([.snapshot Chain.bondSnapshot,
    .slash { account := "a", slashBps := 1000, txID := "s", blockHeight := 10
             evidenceKind := "vsc_double_block_sign", burnDelayBlocks := 0 } 2,
    .create (some payoutOfSixty) "w" "c" 20 4,
    .create (some payoutOfSixty) "w" "c" 20 5])

/-- A slot change counts the credit, and a vote for the open proposal moves it: the recipient
of sixty holds twice as much. -/
theorem payout_counted_twice :
    let env : SlotEnv := ⟨none, fun _ => false, fun _ => false, none⟩
    let folded := { stoppedBeforeApplied with
      dbs := updateBalances stoppedBeforeApplied.dbs env 20 29 }
    let repeated := folded.apply oneWitness (.vote (some "reserve_payout:00") "w" "v" 31 4)
    folded.dbs.getBalance "hive:b" 40 .hive = 60 ∧
      payoutCredited repeated.dbs.ledger "reserve_payout:00" = 60 ∧
      repeated.dbs.getBalance "hive:b" 40 .hive = 120 := by
  decide +kernel

end VscNode.Governance
