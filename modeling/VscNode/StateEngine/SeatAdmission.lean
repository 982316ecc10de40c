import VscNode.StateEngine.AdmissionRounds

/-!
# Admission of operators by vote

In every history a seat was seeded, or granted by two thirds of an electorate
(`seats_granted_by_two_thirds`).
-/

namespace VscNode.StateEngine

open Collection Governance List PoaSeats Seat

seal normalizeAccount

namespace Admissions

variable {rules : AdmissionRules} {es : List SeatEvent} {candidate uboId : String} {H : ℕ}
  {s : Admissions} {p : AdmitProposal} {height : ℕ} {seat : Seat}

structure Invariant (rules : AdmissionRules) (es : List SeatEvent) (H : ℕ) : Prop where
  seats : (run rules es).poaSeats.Sound
  ballots : Ballots rules es H (run rules es)
  origin : ∀ seat ∈ (run rules es).poaSeats, SeededIn rules es seat ∨ GrantedIn rules es seat

theorem SeededIn.append (h : SeededIn rules es seat) (es' : List SeatEvent) :
    SeededIn rules (es ++ es') seat := by
  obtain ⟨pre, elecResult, prevElection, h, post, request, rfl, hrest⟩ := h
  exact ⟨pre, elecResult, prevElection, h, post ++ es', request, by simp, hrest⟩

theorem GrantedIn.append (h : GrantedIn rules es seat) (es' : List SeatEvent) :
    GrantedIn rules (es ++ es') seat := by
  obtain ⟨pre, req, account, txID, h, post, rfl, hrest⟩ := h
  exact ⟨pre, req, account, txID, h, post ++ es', by simp, hrest⟩

theorem origin_congr {seat seat' : Seat} (hacct : seat.account = seat'.account)
    (hubo : seat.uboId = seat'.uboId) (h : SeededIn rules es seat ∨ GrantedIn rules es seat) :
    SeededIn rules es seat' ∨ GrantedIn rules es seat' := by
  rw [SeededIn, GrantedIn, hacct, hubo] at h
  exact h

theorem Invariant.ratify (h : Invariant rules es H) (hH : H ≤ height) {elecResult : ElectionResult}
    {prevElection : Option ElectionResult}
    (hversion : elecResult.version.meetsConsensusMin ⟨0, 9, 0⟩ = true) :
    Invariant rules (es ++ [.ratify elecResult prevElection height]) height := by
  have hwrites : ∀ w ∈ applyPoaSeatMaintenance rules.elections (run rules es).poaSeats elecResult
      prevElection height, w.Normal ∧ w.height = height ∧ ∀ request, w = .admitSeat request →
        request.uboId = "" := fun w hw => applyPoaSeatMaintenance_writes hversion hw
  generalize hws : applyPoaSeatMaintenance rules.elections (run rules es).poaSeats elecResult
    prevElection height = ws at hwrites
  have hrun : run rules (es ++ [.ratify elecResult prevElection height]) =
      { run rules es with poaSeats := (run rules es).poaSeats.writeAll ws } :=
    hws ▸ run_concat rules es _
  constructor
  · rw [hrun]
    exact h.seats.writeAll fun w hw => (hwrites w hw).1
  · rw [hrun]
    exact (h.ballots.mono hH _).withSeats _
  intro seat hseat
  rw [hrun] at hseat
  rcases mem_writeAll hseat with ⟨old, hold, hacct, hubo⟩ | ⟨request, hmem, hacct, hubo, -⟩
  · exact (origin_congr hacct hubo (h.origin old hold)).imp (·.append _) (·.append _)
  obtain ⟨hnormal, -, howner⟩ := hwrites _ hmem
  exact .inl ⟨es, elecResult, prevElection, height, [], request, rfl, hws ▸ hmem,
    hacct.trans hnormal, hubo.trans (howner request rfl)⟩

theorem Ballots.castIn_of_mem (h : Ballots rules es H s) (hp : p ∈ s.proposals) {a : String}
    (ha : a ∈ s.voterSetSince p.proposalId p.creationBlock) :
    ∃ h', p.creationBlock ≤ h' ∧ CastIn rules es p.candidate p.uboId a p.creationBlock h' := by
  obtain ⟨v, hv, rfl⟩ := mem_map.1 ha
  obtain ⟨hv, hround⟩ := List.mem_filter.1 hv
  obtain ⟨hid, hle⟩ := of_decide_eq_true hround
  exact ⟨v.blockHeight, hle, h.cast p hp v hv hid hle⟩

theorem Invariant.admitVote (h090 : rules.Under090) (h : Invariant rules es H) (hH : H ≤ height)
    (hsize : (run rules es).poaSeats.docs.length + 2 < 2 ^ 63) (payload : Option AdmitRequest)
    (voterAccount txID : String) :
    Invariant rules (es ++ [.admitVote payload voterAccount txID height]) height := by
  have hrun : run rules (es ++ [.admitVote payload voterAccount txID height]) =
      handleAdmitVote rules (run rules es) payload voterAccount txID height := run_concat rules es _
  have hkept : ∀ seat ∈ (run rules es).poaSeats,
      SeededIn rules (es ++ [.admitVote payload voterAccount txID height]) seat ∨
        GrantedIn rules (es ++ [.admitVote payload voterAccount txID height]) seat :=
    fun seat hseat => (h.origin seat hseat).imp (·.append _) (·.append _)
  rcases handleAdmitVote_cases h090 (run rules es) payload voterAccount txID height with
    hsame | ⟨req, candidate, uboId, p, rfl, hpair, hseat, hround, hcast⟩
  · rw [hsame] at hrun
    exact ⟨hrun ▸ h.seats, hrun ▸ h.ballots.mono hH _, hrun ▸ hkept⟩
  obtain ⟨hb, rfl, rfl⟩ := h.ballots.round hH (plausible_pair hpair) hround
  have hb' : Ballots rules (es ++ [.admitVote (some req) voterAccount txID height]) height
    ((run rules es).saveProposal p) := hb.mono le_rfl _
  have hmem : p ∈ ((run rules es).saveProposal p).proposals := mem_put_self _ _
  -- this vote is cast in the round, if the round is in the store afterwards
  have hthis : (∃ q ∈ (run rules (es ++ [.admitVote (some req) voterAccount txID height])).proposals,
      q.candidate = p.candidate ∧ q.uboId = p.uboId ∧ q.creationBlock = p.creationBlock) →
      CastIn rules (es ++ [.admitVote (some req) voterAccount txID height]) p.candidate p.uboId
        (normalizeAccount voterAccount) p.creationBlock height := fun hq =>
    ⟨es, req, voterAccount, txID, [], rfl, rfl, hpair, hq⟩
  generalize hresult : handleAdmitVote rules (run rules es) (some req) voterAccount txID height =
    result at hcast hrun
  cases hcast with
  | nothing => exact ⟨hrun ▸ h.seats, hrun ▸ hb', hrun ▸ hkept⟩
  | expire hover =>
    refine ⟨hrun ▸ h.seats, hrun ▸ ?_, hrun ▸ hkept⟩
    exact hb'.saveProposal (hb'.proposalId p hmem) (hb'.beneficiary p hmem)
      (hb'.plausibleNames p hmem) (hb'.created p hmem) (fun _ => hover) (hb'.before p hmem)
      (hb'.cast p hmem)
  | vote hlive =>
    have hcast := hthis (by
      rw [hrun, recordVote_proposals]
      exact ⟨p, hmem, rfl, rfl, rfl⟩)
    refine ⟨?_, hrun ▸ hb'.recordVote hmem txID hlive hcast, ?_⟩
    · rw [hrun, recordVote_poaSeats]
      exact h.seats
    · rw [hrun, recordVote_poaSeats]
      exact hkept
  | admitSeat snapshot seats hlive hsnap happroved hadm =>
    have hnormal := normalizeAccount_of_isPlausibleHiveAccount (hb'.plausibleNames p hmem).1
    have hcast := hthis (by
      rw [hrun]
      exact ⟨_, mem_put_self _ _, rfl, rfl, rfl⟩)
    have hb'' := hb'.recordVote hmem txID hlive hcast
    have hmem'' : p ∈ (((run rules es).saveProposal p).recordVote
        ⟨p.proposalId, normalizeAccount voterAccount, height, txID⟩).proposals := by
      rwa [recordVote_proposals]
    refine ⟨?_, ?_, ?_⟩
    · rw [hrun]
      exact h.seats.admitSeat hnormal hadm
    · rw [hrun]
      exact (hb''.withSeats seats).saveProposal (hb'.proposalId p hmem) (hb'.beneficiary p hmem)
        (hb'.plausibleNames p hmem) (hb'.created p hmem) nofun (hb''.before p hmem'')
        (hb''.cast p hmem'')
    intro seat hseat'
    rw [hrun] at hseat'
    obtain ⟨-, -, -, -, hget, rfl⟩ := admitSeat_eq_ok.1 hadm
    dsimp only at hget
    rw [hnormal] at hget
    rcases mem_of_mem_put hseat' with hnew | hold
    · rw [hb'.beneficiary p hmem] at happroved
      obtain ⟨accounts, hsub, hthirds, hvoters⟩ :=
        exists_voters_of_isApproved h.seats.normal hsnap hnormal hget hsize happroved
      have hgranted : GrantedIn rules (es ++ [.admitVote (some req) voterAccount txID height])
          ⟨p.candidate, p.uboId, height, 0, 0⟩ := by
        refine ⟨es, req, voterAccount, txID, height, [], rfl, hget,
          { p with status := .applied, appliedBlock := height, appliedTxId := txID }, ?_, rfl,
          rfl, snapshot, hsnap, accounts, hsub, hthirds, fun a ha => ?_⟩
        · rw [hrun]
          exact mem_put_self _ _
        · exact hb''.castIn_of_mem hmem'' (hvoters a ha)
      exact origin_congr (by rw [hnew]; exact hnormal.symm) (by rw [hnew]) (.inr hgranted)
    · exact hkept seat hold

theorem keeps_apply (h090 : rules.Under090) (s : Admissions) (e : SeatEvent) :
    s.poaSeats.Keeps (s.apply rules e).poaSeats := by
  cases e with
  | ratify elecResult prevElection height => exact keeps_writeAll _ _
  | admitVote payload voterAccount txID height =>
    rw [apply]
    rcases poaSeats_handleAdmitVote h090 s payload voterAccount txID height with hsame | ⟨_, hadm⟩
    · rw [hsame]
      exact .refl _
    · exact keeps_admitSeat hadm

theorem keeps_run (h090 : rules.Under090) (es es' : List SeatEvent) :
    (run rules es).poaSeats.Keeps (run rules (es ++ es')).poaSeats := by
  induction es' using reverseRecOn with
  | nil =>
    rw [append_nil]
    exact .refl _
  | append_singleton es' e ih =>
    rw [← append_assoc, run_concat]
    exact ih.trans (keeps_apply h090 _ e)

end Admissions

theorem PoaSeats.Keeps.length_le {a b : PoaSeats} (h : a.Keeps b) :
    a.docs.length ≤ b.docs.length := by
  have hsub : a.docs.map account ⊆ b.docs.map account := by
    intro account haccount
    obtain ⟨seat, hseat, rfl⟩ := mem_map.1 haccount
    obtain ⟨seat', hseat', hacct, -⟩ := h seat hseat
    exact mem_map.2 ⟨seat', hseat', hacct⟩
  have hlen := (subperm_of_subset a.nodup_keys hsub).length_le
  rwa [length_map, length_map] at hlen

namespace Admissions

structure History (rules : AdmissionRules) (es : List SeatEvent) : Prop where
  sorted : es.Pairwise fun e e' => e.height ≤ e'.height
  versions : ∀ elecResult prevElection height, .ratify elecResult prevElection height ∈ es →
    elecResult.version.meetsConsensusMin ⟨0, 9, 0⟩ = true

variable {es : List SeatEvent}
  {es' : List SeatEvent} {e : SeatEvent} {account : String} {height : ℕ}

theorem History.of_append (h : History rules (es ++ es')) : History rules es :=
  ⟨(pairwise_append.1 h.sorted).1, fun _ _ _ hmem =>
    h.versions _ _ _ (mem_append_left es' hmem)⟩

theorem History.height_le (h : History rules (es ++ [e])) {e' : SeatEvent} (he' : e' ∈ es) :
    e'.height ≤ e.height :=
  (pairwise_append.1 h.sorted).2.2 e' he' e (mem_singleton_self e)

def reached (es : List SeatEvent) : ℕ := (es.getLast?.map SeatEvent.height).getD 0

theorem reached_concat (es : List SeatEvent) (e : SeatEvent) : reached (es ++ [e]) = e.height := by
  rw [reached, getLast?_concat]
  rfl

theorem History.reached_le (h : History rules (es ++ [e])) : reached es ≤ e.height := by
  rcases eq_nil_or_concat' es with rfl | ⟨es, e', rfl⟩
  · exact Nat.zero_le _
  · rw [reached_concat]
    exact h.height_le (by simp)

theorem invariant_run (h090 : rules.Under090) (h : History rules es)
    (hsize : (run rules es).poaSeats.docs.length + 2 < 2 ^ 63) :
    Invariant rules es (reached es) := by
  induction es using reverseRecOn with
  | nil =>
    refine ⟨⟨?_, ?_⟩, ⟨?_, ?_, ?_, ?_, ?_, ?_, ?_, ?_⟩, ?_⟩ <;>
      exact fun x hx => absurd hx (not_mem_empty x)
  | append_singleton es e ih =>
    have hlen := (keeps_run h090 es [e]).length_le
    have ih := ih h.of_append (by omega)
    rw [reached_concat]
    cases e with
    | admitVote payload voterAccount txID height =>
      exact ih.admitVote h090 h.reached_le (by omega) payload voterAccount txID
    | ratify elecResult prevElection height =>
      exact ih.ratify h.reached_le (h.versions elecResult prevElection height (by simp))

theorem holds_apply (h090 : rules.Under090) {s : Admissions} (hsound : s.poaSeats.Sound)
    (hversions : ∀ elecResult prevElection height, e = .ratify elecResult prevElection height →
      elecResult.version.meetsConsensusMin ⟨0, 9, 0⟩ = true)
    (hheight : height ≤ e.height) (h : PoaSeats.Holds rules s.poaSeats height account) :
    PoaSeats.Holds rules (s.apply rules e).poaSeats height account := by
  cases e with
  | ratify elecResult prevElection at_ =>
    have hwrites : ∀ w ∈ applyPoaSeatMaintenance rules.elections s.poaSeats elecResult
        prevElection at_, w.Normal ∧ w.height = at_ ∧ _ := fun w hw =>
      applyPoaSeatMaintenance_writes (hversions elecResult prevElection at_ rfl) hw
    exact h.writeAll hsound (fun w hw => (hwrites w hw).1) fun w hw =>
      hheight.trans (hwrites w hw).2.1.ge
  | admitVote payload voterAccount txID at_ =>
    rw [apply]
    rcases poaSeats_handleAdmitVote h090 s payload voterAccount txID at_ with hsame | ⟨_, hadm⟩
    · rwa [hsame]
    · exact h.admitSeat hadm

/-- Who votes in a round at one point of a history votes in it at every later point. -/
theorem holds_run (h090 : rules.Under090) (h : History rules (es ++ es'))
    (hsize : (run rules (es ++ es')).poaSeats.docs.length + 2 < 2 ^ 63)
    (hheight : ∀ e ∈ es', height ≤ e.height)
    (hholds : PoaSeats.Holds rules (run rules es).poaSeats height account) :
    PoaSeats.Holds rules (run rules (es ++ es')).poaSeats height account := by
  induction es' using reverseRecOn with
  | nil => rwa [append_nil]
  | append_singleton es' e ih =>
    rw [← append_assoc] at h hsize ⊢
    have hlen := (keeps_run h090 (es ++ es') [e]).length_le
    rw [run_concat]
    refine holds_apply h090 (invariant_run h090 h.of_append (by omega)).seats ?_
      (hheight e (by simp)) (ih h.of_append (by omega) fun e' he' => hheight e' (by simp [he']))
    rintro elecResult prevElection at_ rfl
    exact h.versions elecResult prevElection at_ (by simp)

/-- Seats are granted by two thirds of the seats. After every history under the rules of
0.9.0, a seat was seeded by an election or granted by a vote that took the votes of the
round over two thirds of its electorate; no account and no owner has two seats; seats are
kept; and the electorate of a round does not shrink. -/
theorem seats_granted_by_two_thirds (h090 : rules.Under090) {es : List SeatEvent}
    (h : History rules es) (hsize : (run rules es).poaSeats.docs.length + 2 < 2 ^ 63) :
    (∀ seat ∈ (run rules es).poaSeats, SeededIn rules es seat ∨ GrantedIn rules es seat) ∧
    (∀ seat ∈ (run rules es).poaSeats, ∀ seat' ∈ (run rules es).poaSeats,
      seat.account = seat'.account ∨ (seat.uboId ≠ "" ∧ seat.uboId = seat'.uboId) → seat = seat') ∧
    ∀ es₁ es₂, es = es₁ ++ es₂ → (run rules es₁).poaSeats.Keeps (run rules es).poaSeats ∧
      ∀ p ∈ (run rules es₁).proposals, ∀ q ∈ (run rules es).proposals,
        q.proposalId = p.proposalId → q.creationBlock = p.creationBlock →
          ∀ snapshot, poaSeatElectorate rules (run rules es₁).poaSeats p.creationBlock = some snapshot →
            ∃ snapshot', poaSeatElectorate rules (run rules es).poaSeats q.creationBlock =
              some snapshot' ∧ snapshot.length ≤ snapshot'.length ∧ snapshot ⊆ snapshot' := by
  have hinv := invariant_run h090 h hsize
  refine ⟨hinv.origin, ?_, ?_⟩
  · rintro seat hseat seat' hseat' (hacct | ⟨hne, hubo⟩)
    · exact eq_of_key_eq hseat hseat' hacct
    · exact hinv.seats.owners seat hseat seat' hseat' hne hubo
  rintro es₁ es₂ rfl
  refine ⟨keeps_run h090 es₁ es₂, fun p hp q _ _ hround snapshot hsnap => ?_⟩
  have hlen := (keeps_run h090 es₁ es₂).length_le
  have hinv₁ := invariant_run h090 h.of_append (by omega)
  rw [hround]
  refine exists_poaSeatElectorate h090 hinv₁.seats.normal hinv.seats.normal
    (fun account => holds_run h090 h hsize ?_) hsnap
  -- the round was opened before what comes after
  intro e he
  rcases eq_nil_or_concat' es₁ with rfl | ⟨es₁, e₁, rfl⟩
  · cases hp
  have hcreated := hinv₁.ballots.created p hp
  rw [reached_concat] at hcreated
  exact hcreated.trans ((pairwise_append.1 h.sorted).2.2 e₁ (by simp) e he)

/-- A network under 0.9.0 with the default windows. -/
def plainRules : AdmissionRules where
  netId := "vsc"
  poaAdmitVoteWindowBlocks := 0
  poa := ⟨0, fun _ => true⟩
  elections := SeatEngine.openRules
  activeConsensusVersion _ := ⟨0, 9, 0⟩
  digest := id
  digest_injective := Function.injective_id

def twoVotes : List SeatEvent :=
  [.ratify ⟨2, 200, [⟨"k0", "alice"⟩, ⟨"k1", "bob"⟩, ⟨"k2", "carol"⟩], ⟨0, 9, 0⟩⟩
      (some ⟨1, 100, [⟨"k0", "alice"⟩, ⟨"k1", "bob"⟩, ⟨"k2", "carol"⟩], ⟨0, 6, 0⟩⟩) 200,
    .admitVote (some ⟨"dave", "ubo-1", "vsc"⟩) "alice" "t0" 210,
    .admitVote (some ⟨"dave", "UBO-1", "vsc"⟩) "hive:bob" "t1" 215]

theorem history_twoVotes : History plainRules twoVotes where
  sorted := by decide
  versions elecResult prevElection height h := by
    simp only [twoVotes, mem_cons, SeatEvent.ratify.injEq, reduceCtorEq, not_mem_nil,
      or_false] at h
    rw [h.1]
    rfl

theorem seats_granted_by_two_thirds_twoVotes :
    (run plainRules twoVotes).poaSeats.docs.map Seat.account = ["alice", "bob", "carol", "dave"] ∧
      ∀ seat ∈ (run plainRules twoVotes).poaSeats,
        SeededIn plainRules twoVotes seat ∨ GrantedIn plainRules twoVotes seat :=
  ⟨by decide +kernel, (seats_granted_by_two_thirds (fun _ => rfl) history_twoVotes
    (by decide +kernel)).1⟩

end Admissions

end VscNode.StateEngine
