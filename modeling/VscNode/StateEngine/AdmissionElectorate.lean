import VscNode.StateEngine.AdmissionVotes

/-!
# The electorate of a round

A seat row moves while a round is open: an operator is seated, leaves, comes back. What
it does then is dated after the opening of the round, so a seat that had a vote at the
opening keeps it (`Holds.write`).
-/

namespace VscNode.StateEngine

open Collection Governance List PoaSeats Seat

seal normalizeAccount

variable {rules : AdmissionRules} {seats : PoaSeats} {height : ℕ} {seat : Seat}
  {candidate : String} {snapshot : List Member} {voters : List String}

def AdmissionRules.Under090 (rules : AdmissionRules) : Prop :=
  ∀ height, (rules.activeConsensusVersion height).meetsConsensusMin ⟨0, 9, 0⟩ = true

theorem mem_votingSeats (h090 : rules.Under090) :
    seat ∈ votingSeats rules seats height ↔ seat ∈ seats ∧ seat.admittedHeight ≤ height ∧
      seatHoldsAdmissionVote seat height rules.poa.effectivePoaVoteDeparture = true := by
  simp [votingSeats, getSeatsAtHeight, poaElectorateDropsDepartedActive, h090 height,
    and_assoc, mem_docs]

theorem mem_of_mem_votingSeats (h : seat ∈ votingSeats rules seats height) : seat ∈ seats := by
  have hfound := (mem_filter.1 h).1
  rw [getSeatsAtHeight, mem_insertionSort] at hfound
  exact (List.mem_filter.1 hfound).1

def PoaSeats.Normal (seats : PoaSeats) : Prop :=
  ∀ seat ∈ seats, normalizeAccount seat.account = seat.account ∧ seat.admittedHeight ≠ 0

theorem poaSeatElectorate_eq_some (hnormal : seats.Normal) {electorate : List Member}
    (h : poaSeatElectorate rules seats height = some electorate) :
    electorate = (votingSeats rules seats height).map fun seat => ⟨seat.account, 1⟩ := by
  rw [poaSeatElectorate] at h
  split at h
  · cases h
  dsimp only at h
  split at h
  · cases h
  cases h
  rw [seatElectorate, map_map]
  refine map_congr_left fun seat hseat => ?_
  have hacct := (hnormal seat (mem_of_mem_votingSeats hseat)).1
  simp only [Function.comp_apply, hacct]

theorem nodup_votingSeats (seats : PoaSeats) (height : ℕ) :
    ((votingSeats rules seats height).map account).Nodup := by
  refine (filter_sublist.map account).nodup ?_
  rw [getSeatsAtHeight, ((perm_insertionSort _ _).map account).nodup_iff]
  exact (filter_sublist.map account).nodup seats.nodup_keys

theorem length_votingSeats_le (rules : AdmissionRules) (seats : PoaSeats) (height : ℕ) :
    (votingSeats rules seats height).length ≤ seats.docs.length := by
  refine (length_filter_le _ _).trans ?_
  rw [getSeatsAtHeight, length_insertionSort]
  exact length_filter_le _ _

theorem weightOf_ones {l : List Member} (hones : ∀ m ∈ l, m.weight = 1) (hlen : l.length < 2 ^ 64)
    (counts : String → Bool) :
    weightOf l counts = (l.filter fun m => counts (normalizeAccount m.account)).length := by
  have hfold : ∀ total, total + l.length < 2 ^ 64 → l.foldl (fun total m =>
        if counts (normalizeAccount m.account) then (total + m.weight) % 2 ^ 64 else total) total =
      total + (l.filter fun m => counts (normalizeAccount m.account)).length := by
    clear hlen
    induction l with
    | nil => intro total _; rfl
    | cons m l ih =>
      intro total htotal
      rw [length_cons] at htotal
      rw [foldl_cons, hones m mem_cons_self]
      have ih := fun total h => ih (fun x hx => hones x (mem_cons_of_mem _ hx)) total h
      by_cases hm : counts (normalizeAccount m.account) = true
      · rw [if_pos hm, filter_cons, if_pos hm, Nat.mod_eq_of_lt (by omega),
          ih _ (by omega), length_cons]
        omega
      · rw [if_neg hm, filter_cons, if_neg hm, ih _ (by omega)]
  rw [weightOf, hfold 0 (by omega), Nat.zero_add]

section Approved

variable (hnormal : seats.Normal) (hsnap : poaSeatElectorate rules seats height = some snapshot)
  (hcandidate : normalizeAccount candidate = candidate) (hseat : seats.get? candidate = none)
  (hlen : seats.docs.length + 2 < 2 ^ 63) (happroved : isApproved snapshot candidate voters = true)
include hnormal hsnap hcandidate hseat hlen happroved

theorem two_thirds_of_isApproved : 2 * snapshot.length ≤
      3 * ((votingSeats rules seats height).filter fun seat => seat.account ∈ voters).length := by
  have hother : ∀ seat ∈ votingSeats rules seats height,
      normalizeAccount seat.account = seat.account ∧ seat.account ≠ candidate := fun seat hs =>
    ⟨(hnormal seat (mem_of_mem_votingSeats hs)).1,
      get?_eq_none_iff.1 hseat seat (mem_of_mem_votingSeats hs)⟩
  have hle := length_votingSeats_le rules seats height
  obtain rfl := poaSeatElectorate_eq_some hnormal hsnap
  generalize votingSeats rules seats height = voting at hother hle happroved
  have hcount : ∀ counts : String → Bool,
      weightOf (voting.map fun seat => ⟨seat.account, 1⟩) counts =
        (voting.filter fun seat => counts seat.account).length := fun counts => by
    rw [weightOf_ones (by simp) (by simp; omega), filter_map, length_map]
    exact congrArg length (filter_congr fun seat hs => by
      simp [(hother seat hs).1])
  have heffective : effectiveWeight (voting.map fun seat => ⟨seat.account, 1⟩) candidate =
      voting.length := by
    rw [effectiveWeight, hcount, hcandidate]
    exact congrArg length (filter_eq_self.2 fun seat hs => by
      simpa using (hother seat hs).2)
  have htally : tally (voting.map fun seat => ⟨seat.account, 1⟩) candidate voters =
      (voting.filter fun seat => seat.account ∈ voters).length := by
    rw [tally, hcount, hcandidate]
    exact congrArg length (filter_congr fun seat hs => by
      simp [(hother seat hs).2])
  rw [isApproved, requiredWeight, heffective, htally] at happroved
  rw [length_map]
  split at happroved
  · omega
  split at happroved
  · cases happroved
  · rw [decide_eq_true_eq] at happroved
    omega

theorem exists_voters_of_isApproved :
    ∃ accounts : Finset String, (∀ a ∈ accounts, a ∈ snapshot.map Member.account) ∧
      2 * snapshot.length ≤ 3 * accounts.card ∧ ∀ a ∈ accounts, a ∈ voters := by
  have hthirds := two_thirds_of_isApproved hnormal hsnap hcandidate hseat hlen happroved
  have hnodup : (((votingSeats rules seats height).filter fun seat =>
      seat.account ∈ voters).map account).Nodup :=
    (filter_sublist.map account).nodup (nodup_votingSeats seats height)
  refine ⟨(((votingSeats rules seats height).filter fun seat =>
    seat.account ∈ voters).map account).toFinset, ?_, ?_, ?_⟩
  · intro a ha
    obtain ⟨seat, hs, rfl⟩ := mem_map.1 (mem_toFinset.1 ha)
    rw [poaSeatElectorate_eq_some hnormal hsnap, map_map]
    exact mem_map.2 ⟨seat, (mem_filter.1 hs).1, rfl⟩
  · rw [toFinset_card_of_nodup hnodup, length_map]
    exact hthirds
  intro a ha
  obtain ⟨seat, hs, rfl⟩ := mem_map.1 (mem_toFinset.1 ha)
  exact of_decide_eq_true (mem_filter.1 hs).2

end Approved

/-! ## Seat rows -/

namespace PoaSeats

inductive Marks (seat : Seat) : SeatWrite → Seat → Prop
  | same (w : SeatWrite) : Marks seat w seat
  | seated (account : String) (height : ℕ) : Marks seat (.setSeating account height)
      { seat with lastSeatedHeight := height, exitHeight := 0 }
  | left (account : String) (height : ℕ) :
      Marks seat (.setExit account height) { seat with exitHeight := height }

theorem updateOne_marks (seats : PoaSeats) (account : String) (guard : Seat → Bool) {s : Seat → Seat}
    (hs : ∀ seat, (s seat).account = seat.account) {w : SeatWrite} (hw : ∀ seat, Marks seat w (s seat)) :
    ∃ f hf, seats.updateOne account guard s hs = seats.modify f hf ∧
      ∀ seat, Marks seat w (f seat) := by
  refine ⟨_, _, rfl, fun seat => ?_⟩
  split
  · exact hw seat
  · exact .same w

theorem write_cases (seats : PoaSeats) (w : SeatWrite) : seats.write w = seats ∨
      (∃ request seats', w = .admitSeat request ∧ seats.admitSeat request = .ok seats' ∧
        seats.write w = seats') ∨
      ∃ f hf, seats.write w = seats.modify f hf ∧ ∀ seat, Marks seat w (f seat) := by
  cases w with
  | admitSeat request =>
    cases hadm : seats.admitSeat request with
    | error e =>
      left
      rw [write, hadm]
      rfl
    | ok seats' =>
      right; left
      refine ⟨request, seats', rfl, hadm, ?_⟩
      rw [write, hadm]
      rfl
  | setSeating account height =>
    rw [write, setSeating]
    split
    · exact .inl rfl
    exact .inr (.inr (seats.updateOne_marks _ _ _ fun _ => .seated ..))
  | setExit account height =>
    rw [write, setExit]
    split
    · exact .inl rfl
    exact .inr (.inr (seats.updateOne_marks _ _ _ fun _ => .left ..))

/-- Names are in normal form, and no owner has two seats. -/
structure Sound (seats : PoaSeats) : Prop where
  normal : seats.Normal
  owners : ∀ seat ∈ seats, ∀ seat' ∈ seats, seat.uboId ≠ "" → seat.uboId = seat'.uboId →
    seat = seat'

variable {request : Seat} {seats' : PoaSeats} {f : Seat → Seat} {seat : Seat} {ws : List SeatWrite}
  {account : String}

theorem Sound.admitSeat (h : seats.Sound)
    (hrequest : normalizeAccount request.account = request.account)
    (hadm : seats.admitSeat request = .ok seats') : seats'.Sound := by
  obtain ⟨-, hheight, -, hubo, -, rfl⟩ := admitSeat_eq_ok.1 hadm
  rw [hrequest]
  have howner : ∀ seat ∈ seats, request.uboId ≠ "" → seat.uboId ≠ request.uboId := fun seat hs hne =>
    (getSeatByUbo_eq_none.1 hubo).resolve_left hne seat hs
  constructor
  · exact forall_mem_put ⟨hrequest, hheight⟩ h.normal
  intro seat hseat seat' hseat' hne heq
  rcases mem_of_mem_put hseat with rfl | hseat
  · rcases mem_of_mem_put hseat' with rfl | hseat'
    · rfl
    · exact (howner seat' hseat' hne heq.symm).elim
  rcases mem_of_mem_put hseat' with rfl | hseat'
  · exact (howner seat hseat (heq ▸ hne) heq).elim
  · exact h.owners seat hseat seat' hseat' hne heq

theorem Sound.modify (h : seats.Sound) {hf : ∀ seat, (f seat).account = seat.account}
    (hkeep : ∀ seat, (f seat).uboId = seat.uboId ∧ (f seat).admittedHeight = seat.admittedHeight) :
    Sound (seats.modify f hf) := by
  constructor
  · intro _ hmem
    obtain ⟨seat, hseat, rfl⟩ := mem_modify.1 hmem
    rw [hf, (hkeep seat).2]
    exact h.normal seat hseat
  intro _ hmem _ hmem' hne heq
  obtain ⟨seat, hseat, rfl⟩ := mem_modify.1 hmem
  obtain ⟨seat', hseat', rfl⟩ := mem_modify.1 hmem'
  rw [(hkeep seat).1] at hne heq
  rw [(hkeep seat').1] at heq
  rw [h.owners seat hseat seat' hseat' hne heq]

variable {w : SeatWrite}

theorem Marks.keeps_owner {seat' : Seat} (h : Marks seat w seat') :
    seat'.uboId = seat.uboId ∧ seat'.admittedHeight = seat.admittedHeight := by
  cases h <;> exact ⟨rfl, rfl⟩

theorem Sound.write (h : seats.Sound) (hw : w.Normal) : (seats.write w).Sound := by
  rcases seats.write_cases w with heq | ⟨request, seats', rfl, hadm, heq⟩ | ⟨f, hf, heq, hcases⟩
  · rwa [heq]
  · rw [heq]
    exact h.admitSeat hw hadm
  · rw [heq]
    exact h.modify fun seat => (hcases seat).keeps_owner

theorem Sound.writeAll (h : seats.Sound) (hws : ∀ w ∈ ws, w.Normal) :
    (seats.writeAll ws).Sound := by
  induction ws generalizing seats with
  | nil => exact h
  | cons w ws ih =>
    exact ih (h.write (hws w mem_cons_self)) fun w hw => hws w (mem_cons_of_mem _ hw)

theorem mem_write (h : seat ∈ seats.write w) :
    (∃ old ∈ seats, old.account = seat.account ∧ old.uboId = seat.uboId) ∨
      ∃ request, w = .admitSeat request ∧ seat.account = normalizeAccount request.account ∧
        seat.uboId = request.uboId ∧ seats.get? seat.account = none := by
  rcases seats.write_cases w with heq | ⟨request, seats', rfl, hadm, heq⟩ | ⟨f, hf, heq, hcases⟩
  · rw [heq] at h
    exact .inl ⟨seat, h, rfl, rfl⟩
  · obtain ⟨-, -, -, -, hget, rfl⟩ := admitSeat_eq_ok.1 hadm
    rw [heq] at h
    rcases mem_of_mem_put h with rfl | h
    · exact .inr ⟨request, rfl, rfl, rfl, hget⟩
    · exact .inl ⟨seat, h, rfl, rfl⟩
  rw [heq] at h
  obtain ⟨old, hold, rfl⟩ := mem_modify.1 h
  exact .inl ⟨old, hold, (hf old).symm, (hcases old).keeps_owner.1.symm⟩

theorem mem_writeAll (h : seat ∈ seats.writeAll ws) :
    (∃ old ∈ seats, old.account = seat.account ∧ old.uboId = seat.uboId) ∨
      ∃ request, .admitSeat request ∈ ws ∧ seat.account = normalizeAccount request.account ∧
        seat.uboId = request.uboId ∧ seats.get? seat.account = none := by
  induction ws generalizing seats with
  | nil => exact .inl ⟨seat, h, rfl, rfl⟩
  | cons w ws ih =>
    rcases ih h with ⟨mid, hmid, hacct, hubo⟩ | ⟨request, hmem, hacct, hubo, hget⟩
    · rcases mem_write hmid with ⟨old, hold, hacct', hubo'⟩ | ⟨request, rfl, hacct', hubo', hget⟩
      · exact .inl ⟨old, hold, hacct'.trans hacct, hubo'.trans hubo⟩
      · exact .inr ⟨request, mem_cons_self, hacct.symm.trans hacct', hubo.symm.trans hubo',
          hacct ▸ hget⟩
    · exact .inr ⟨request, mem_cons_of_mem _ hmem, hacct, hubo,
        (keeps_write seats w).get?_eq_none hget⟩

def Holds (rules : AdmissionRules) (seats : PoaSeats) (height : ℕ) (account : String) : Prop :=
  ∃ seat ∈ seats, seat.account = account ∧ seat.admittedHeight ≤ height ∧
    seatHoldsAdmissionVote seat height rules.poa.effectivePoaVoteDeparture = true

theorem effectivePoaVoteDeparture_pos (rules : PoaRules) :
    0 < rules.effectivePoaVoteDeparture ∧ rules.effectivePoaVoteDeparture < 2 ^ 64 := by
  have hhalt : 0 < rules.effectivePoaExitHalt := by
    rw [PoaRules.effectivePoaExitHalt]
    split
    · decide
    · omega
  have hten : poaVoteDepartureHalts = 10 := rfl
  rw [PoaRules.effectivePoaVoteDeparture]
  split
  · omega
  · rw [hten] at *
    omega

section

variable (h : Holds rules seats height account)

include h

theorem Holds.admitSeat (hadm : seats.admitSeat request = .ok seats') :
    Holds rules seats' height account := by
  obtain ⟨seat, hseat, hrest⟩ := h
  obtain ⟨-, -, -, -, hget, rfl⟩ := admitSeat_eq_ok.1 hadm
  exact ⟨seat, mem_put.2 (.inr ⟨hseat, get?_eq_none_iff.1 hget seat hseat⟩), hrest⟩

theorem Holds.write (hnormal : seats.Normal)
    (hw : height ≤ w.height) : Holds rules (seats.write w) height account := by
  rcases seats.write_cases w with heq | ⟨request, seats', rfl, hadm, heq⟩ | ⟨f, hf, heq, hcases⟩
  · rwa [heq]
  · rw [heq]
    exact h.admitSeat hadm
  rw [heq]
  obtain ⟨seat, hseat, hacct, hadmitted, hholds⟩ := h
  have hpos := (hnormal seat hseat).2
  refine ⟨f seat, mem_modify.2 ⟨seat, hseat, rfl⟩, (hf seat).trans hacct, ?_, ?_⟩
  · rw [(hcases seat).keeps_owner.2]
    exact hadmitted
  have hmarks := hcases seat
  generalize f seat = seat' at hmarks
  cases hmarks with
  | same => exact hholds
  | seated _ at_ =>
    -- seated at a height above the admission
    rw [seatHoldsAdmissionVote]
    have hat : 0 < at_ := by simp only [SeatWrite.height] at hw; omega
    simp [hat]
  | left _ at_ =>
    -- the departure window runs from a height that is not below `height`
    rw [seatHoldsAdmissionVote]
    obtain ⟨hdpos, hdlt⟩ := effectivePoaVoteDeparture_pos rules.poa
    simp only [SeatWrite.height] at hw
    have hne : at_ ≠ 0 := by omega
    simp only [hne, false_and, if_false]
    split
    · rfl
    · rw [decide_eq_true_eq]
      omega

theorem Holds.writeAll (hsound : seats.Sound)
    (hnormal : ∀ w ∈ ws, w.Normal) (hws : ∀ w ∈ ws, height ≤ w.height) :
    Holds rules (seats.writeAll ws) height account := by
  induction ws generalizing seats with
  | nil => exact h
  | cons w ws ih =>
    exact ih (h.write hsound.normal (hws w mem_cons_self))
      (hsound.write (hnormal w mem_cons_self)) (fun w hw => hnormal w (mem_cons_of_mem _ hw))
      fun w hw => hws w (mem_cons_of_mem _ hw)

end

theorem holds_iff (h090 : rules.Under090) : Holds rules seats height account ↔
      account ∈ (votingSeats rules seats height).map Seat.account := by
  simp only [Holds, mem_map, mem_votingSeats h090]
  exact ⟨fun ⟨seat, hseat, hacct, hrest⟩ => ⟨seat, ⟨hseat, hrest⟩, hacct⟩,
    fun ⟨seat, ⟨hseat, hrest⟩, hacct⟩ => ⟨seat, hseat, hacct, hrest⟩⟩

theorem exists_poaSeatElectorate (h090 : rules.Under090) (hnormal : seats.Normal)
    (hnormal' : seats'.Normal)
    (hholds : ∀ account, Holds rules seats height account → Holds rules seats' height account)
    {electorate : List Member} (h : poaSeatElectorate rules seats height = some electorate) :
    ∃ electorate', poaSeatElectorate rules seats' height = some electorate' ∧
      electorate.length ≤ electorate'.length ∧ electorate ⊆ electorate' := by
  have hsub : (votingSeats rules seats height).map Seat.account ⊆
      (votingSeats rules seats' height).map Seat.account := fun account haccount =>
    (holds_iff h090).1 (hholds account ((holds_iff h090).2 haccount))
  have hne : votingSeats rules seats height ≠ [] := by
    rw [poaSeatElectorate] at h
    split at h
    · cases h
    · intro hnil
      simp [hnil] at h
  have hne' : votingSeats rules seats' height ≠ [] := fun hnil => by
    rw [hnil] at hsub
    exact hne (map_eq_nil_iff.1 (subset_nil.1 hsub))
  have hfound : seats'.getSeatsAtHeight height ≠ [] := fun hnil => hne' (by simp [votingSeats, hnil])
  have hmember : ∀ l : List Seat, l.map (fun seat => (⟨seat.account, 1⟩ : Member)) =
      (l.map Seat.account).map fun a => ⟨a, 1⟩ := fun l => by simp
  obtain rfl := poaSeatElectorate_eq_some hnormal h
  have h' : ∃ electorate', poaSeatElectorate rules seats' height = some electorate' := by
    rw [poaSeatElectorate, if_neg hfound]
    dsimp only
    rw [if_neg (by simpa using hne')]
    exact ⟨_, rfl⟩
  obtain ⟨electorate', h'⟩ := h'
  refine ⟨electorate', h', ?_⟩
  obtain rfl := poaSeatElectorate_eq_some hnormal' h'
  rw [hmember, hmember]
  refine ⟨?_, map_subset _ hsub⟩
  simpa only [length_map] using
    (subperm_of_subset (nodup_votingSeats seats height) hsub).length_le

end PoaSeats

theorem applyPoaSeatMaintenance_writes {elections : ElectionRules} {elecResult : ElectionResult}
    {prevElection : Option ElectionResult}
    (hversion : elecResult.version.meetsConsensusMin ⟨0, 9, 0⟩ = true)
    {w : SeatWrite} (h : w ∈ applyPoaSeatMaintenance elections seats elecResult prevElection height) :
    w.Normal ∧ w.height = height ∧ ∀ request, w = .admitSeat request → request.uboId = "" := by
  have hseed : ∀ members current, w ∈ seedPoaSeats elections elecResult height members current →
        w.Normal ∧ w.height = height ∧ ∀ request, w = .admitSeat request → request.uboId = "" := by
    intro members current hw
    rw [seedPoaSeats] at hw
    split at hw
    · cases hw
    split at hw
    · cases hw
    rw [poaBootstrapProvesKeysActive, if_pos hversion] at hw
    dsimp only at hw
    split at hw
    · cases hw
    obtain ⟨acct, hacct, rfl⟩ := mem_map.1 hw
    rw [mem_insertionSort] at hacct
    have hproofs := of_decide_eq_true (mem_filter.1 hacct).2
    refine ⟨elections.proofs_normal acct height (by rw [hproofs]; rfl), rfl, ?_⟩
    rintro request hrequest
    cases hrequest
    rfl
  rw [applyPoaSeatMaintenance] at h
  split at h
  · cases h
  dsimp only at h
  split at h
  · exact hseed _ _ h
  split at h
  · split at h
    · exact hseed _ _ h
    · cases h
  obtain ⟨seat, -, rfl⟩ := mem_map.1 h
  split
  · exact ⟨trivial, rfl, nofun⟩
  · exact ⟨trivial, rfl, nofun⟩

end VscNode.StateEngine
