import VscNode.Chain.Election
import VscNode.Chain.Slot
import VscNode.Pendulum.Warmup

/-!
# Reward reductions of an epoch

A settlement reduces the reward of a witness by what it missed in the ticks of the
epoch: slots it did not produce, blocks it did not sign, key ceremonies it was left
out of, and quotes far from the price. A node derives the reductions from its stores
whenever it composes or checks a settlement.

All inputs of a tick but one are read from stores by height. A store read below a
height does not change once the height is passed, except for what is dated back
(`L2History.Unmoved`); the diverging quotes are those of the price feed as it is when
the node asks, and are charged to every tick of the epoch.
-/

namespace VscNode.Pendulum

open Collection FeedTracker List Nat

/-! ## Scores -/

def blockProductionMissBps : ℕ := 200
def blockAttestationMissBps : ℕ := 25
def tssReshareExclusionBps : ℕ := 1000
def tssKeygenExclusionBps : ℕ := 1000
def tssBlameBps : ℕ := 150
def tssSignNonParticipationBps : ℕ := 30
def oracleQuoteDivergenceBps : ℕ := 150
def oracleQuoteDivergenceThresholdBps : Int := 300
def perTickCapBps : ℕ := 1000
def perEpochCapBps : ℕ := 10000
def perEpochForgivenessBps : ℕ := 250

inductive CommitmentType
  | reshare | keygen | blame | signResult
  | other (name : String)
  deriving DecidableEq

structure TssCommitment where
  type : CommitmentType
  keyId : String
  (blockHeight epoch : ℕ)
  (commitment bitSet : String)
  deriving DecidableEq

def TssCommitment.key (c : TssCommitment) : String × ℕ × CommitmentType :=
  (c.keyId, c.blockHeight, c.type)

structure SlotProposer where
  slotHeight : ℕ
  account : String
  deriving DecidableEq

structure WithCommittee where
  commitment : TssCommitment
  committee : List String
  deriving DecidableEq

structure TickInputs where
  committee : List String
  slots : List SlotProposer
  producedSlotHeights : List ℕ
  signersOfBlocks : List (List String)
  (reshares keygens blames signs : List WithCommittee)
  divergingOracleWitnesses : List String
  deriving DecidableEq

def scoreBlockProduction (slots : List SlotProposer) (producedSlotHeights : List ℕ)
    (committee : List String) (w : String) : ℕ :=
  if w = "" ∨ w ∉ committee then 0
  else (slots.filter fun s => s.account = w ∧ s.slotHeight ∉ producedSlotHeights).length *
    blockProductionMissBps

def scoreAttestationFromHeaders (signersOfBlocks : List (List String)) (committee : List String)
    (w : String) : ℕ :=
  if w = "" ∨ w ∉ committee then 0
  else (signersOfBlocks.filter fun signers => w ∉ signers).length * blockAttestationMissBps

def decodeBitset (s : String) : Option ℕ :=
  if s = "" then none
  else
    match Text.base64RawUrl s with
    | (raw, true) => some (Text.bigEndian raw)
    | (_, false) => none

/-- A charge for each seat of a witness whose bit is the one looked for. -/
def scoreBits (text : TssCommitment → String) (bit : Bool) (bps : ℕ) (rows : List WithCommittee)
    (w : String) : ℕ :=
  if w = "" then 0
  else
    (rows.map fun row =>
      match decodeBitset (text row.commitment) with
      | none => 0
      | some bits =>
        (row.committee.zipIdx.filter fun m => m.1 = w ∧ bits.testBit m.2 = bit).length * bps).sum

def scoreTssReshareExclusion : List WithCommittee → String → ℕ :=
  scoreBits TssCommitment.commitment false tssReshareExclusionBps

def scoreTssKeygenExclusion : List WithCommittee → String → ℕ :=
  scoreBits TssCommitment.commitment false tssKeygenExclusionBps

def scoreTssBlame : List WithCommittee → String → ℕ :=
  scoreBits TssCommitment.commitment true tssBlameBps

def scoreTssSignNonParticipation : List WithCommittee → String → ℕ :=
  scoreBits TssCommitment.bitSet false tssSignNonParticipationBps

def scoreOracleQuoteDivergence (divergingWitnesses : List String) (committee : List String)
    (w : String) : ℕ :=
  if w = "" ∨ w ∉ committee then 0
  else if w ∈ divergingWitnesses then oracleQuoteDivergenceBps else 0

def clampPerTick (v : ℕ) : ℕ := min v perTickCapBps

variable (inp : TickInputs) (provider : ℕ → Option TickInputs) (fromBh toBh tickInterval : ℕ)
  (w : String)

def TickInputs.bps : ℕ :=
  let signals := [scoreBlockProduction inp.slots inp.producedSlotHeights inp.committee w,
    scoreAttestationFromHeaders inp.signersOfBlocks inp.committee w,
    scoreTssReshareExclusion inp.reshares w, scoreTssKeygenExclusion inp.keygens w,
    scoreTssBlame inp.blames w, scoreTssSignNonParticipation inp.signs w,
    scoreOracleQuoteDivergence inp.divergingOracleWitnesses inp.committee w]
  clampPerTick ((signals.map clampPerTick).foldl max 0)

structure WitnessRewardReductionRecord where
  witness : String
  bps : ℕ
  deriving DecidableEq

def aggregateTick : List WitnessRewardReductionRecord :=
  (inp.committee.insertionSort (· ≤ ·)).map fun w => ⟨w, inp.bps w⟩

/-- The ticks in `(fromBh, toBh]`. -/
def epochTicks : List ℕ :=
  let firstTick := fromBh + tickInterval - fromBh % tickInterval
  if toBh < firstTick then []
  else (List.range ((toBh - firstTick) / tickInterval + 1)).map fun i => firstTick + i * tickInterval

def rawTotal (ticks : List ℕ) (w : String) : ℕ :=
  ((ticks.flatMap fun tick => ((provider tick).elim [] aggregateTick).filter fun r =>
    r.witness = w).map WitnessRewardReductionRecord.bps).sum

/-- The reduction of each witness; 0 where the source has no entry. -/
def computeReductionsForEpoch : ℕ :=
  if tickInterval = 0 ∨ toBh ≤ fromBh then 0
  else min (rawTotal provider (epochTicks fromBh toBh tickInterval) w - perEpochForgivenessBps)
    perEpochCapBps

/-! ## Stores -/

structure VscHeader where
  slotHeight : ℕ
  signers : List String
  deriving DecidableEq

/-- An L1 history with what its blocks bring to the stores: elections, VSC blocks, given by
their signers, and commitments, each of them accepted. -/
structure L2History extends L1History where
  elections : ℕ → List ElectionResult
  signed : ℕ → List (List String)
  commitments : ℕ → List TssCommitment

/-- The rules that the inputs of a tick depend on. -/
structure SettlementRules where
  generateSchedule : ElectionResult → ℕ → List SlotProposer
  vaultRotationV2 : ℕ → Version → Bool

def storeHeader (headers : List VscHeader) (header : VscHeader) : List VscHeader :=
  if headers.any fun x => x.slotHeight = header.slotHeight then headers else headers ++ [header]

namespace L2History

variable (c : L2History)

def electionDb : ℕ → ElectionDb
  | 0 => Collection.empty
  | n + 1 => (electionDb n).putAll
      ((c.elections (n + 1)).map fun e => { e with blockHeight := n + 1 })

def vscBlocks : ℕ → List VscHeader
  | 0 => []
  | n + 1 => ((c.signed (n + 1)).map (VscHeader.mk (slotStart (n + 1)))).foldl storeHeader
      (vscBlocks n)

/-- A commitment keeps the height it was made for. -/
def tssCommitments : ℕ → Collection TssCommitment.key
  | 0 => Collection.empty
  | n + 1 => (tssCommitments n).putAll (c.commitments (n + 1))

/-! ## The inputs of a tick -/

def getElectionByHeight (n height : ℕ) : Option ElectionResult :=
  (c.electionDb n).getElectionByHeight height

def activeConsensusVersion (n height : ℕ) : Version :=
  (c.electionDb n).activeConsensusVersion height

def settlementClosedSlotsActive (v : Version) : Bool := v.meetsConsensusMin ⟨0, 9, 0⟩

def tickSlotRange (fromBlock tickHeight slotLen : ℕ) (closedOnly : Bool) : ℕ × ℕ :=
  let down := fromBlock - fromBlock % slotLen
  let first := if down < fromBlock then down + slotLen else down
  if closedOnly then
    if tickHeight < slotLen then (1, 0)
    else (first, tickHeight - slotLen - (tickHeight - slotLen) % slotLen)
  else (first, tickHeight - tickHeight % slotLen)

def getBlocksInSlotRange (n first last : ℕ) : List VscHeader :=
  ((c.vscBlocks n).filter fun x => first ≤ x.slotHeight ∧ x.slotHeight ≤ last).insertionSort
    fun x y => x.slotHeight ≤ y.slotHeight

def findCommitments (n : ℕ) (types : List CommitmentType) (fromBlock toBlock : ℕ) :
    List TssCommitment :=
  (c.tssCommitments n).docs.filter fun x =>
    x.type ∈ types ∧ fromBlock < x.blockHeight ∧ x.blockHeight ≤ toBlock

def committeeAccountsForEpoch (n epoch : ℕ) : List String :=
  ((c.electionDb n).get? epoch).elim [] ElectionResult.accounts

def committeeAccountsAtHeight (n height : ℕ) : List String :=
  (c.getElectionByHeight n height).elim [] ElectionResult.accounts

def leaderOf (schedule : List SlotProposer) (slot : ℕ) : Option SlotProposer :=
  match schedule.find? fun s => s.slotHeight = slot with
  | none => none
  | some s => if s.account = "" then none else some ⟨slot, s.account⟩

variable (rules : SettlementRules)

def scoredSlots (n first last : ℕ) : List SlotProposer :=
  ((List.range ((last - first) / slotLength + 1)).map fun i => first + i * slotLength).filterMap
    fun slot => leaderOf ((c.getElectionByHeight n slot).elim [] fun e =>
      rules.generateSchedule e slot) slot

def rowsOf (n : ℕ) (commits : List TssCommitment) (type : CommitmentType)
    (committeeOf : TssCommitment → List String) : List WithCommittee :=
  (commits.filter fun x => x.type = type ∧ c.committeeAccountsForEpoch n x.epoch ≠ [] ∧
    committeeOf x ≠ []).map fun x => ⟨x, committeeOf x⟩

def fromBlock (tickHeight : ℕ) : ℕ :=
  if defaultTickIntervalBlocks < tickHeight then tickHeight - defaultTickIntervalBlocks else 0

def slotRange (n tickHeight : ℕ) : ℕ × ℕ :=
  tickSlotRange (fromBlock tickHeight) tickHeight slotLength
    (settlementClosedSlotsActive (c.activeConsensusVersion n tickHeight))

def commitTypes (n tickHeight : ℕ) : List CommitmentType :=
  [.reshare, .blame, .signResult] ++
    if rules.vaultRotationV2 tickHeight (c.activeConsensusVersion n tickHeight) then [.keygen]
    else []

/-- The evidence for a tick as a node that has processed the first `n` blocks sees it. -/
def buildTickInputs (n tickHeight : ℕ) : Option TickInputs :=
  if tickHeight = 0 then none
  else
    match c.getElectionByHeight n tickHeight with
    | none => none
    | some election =>
      if election.members = [] then none
      else
        let range := c.slotRange n tickHeight
        let blocks := c.getBlocksInSlotRange n range.1 range.2
        let commits := c.findCommitments n (c.commitTypes rules n tickHeight)
          (fromBlock tickHeight) tickHeight
        let epochCommittee := fun x : TssCommitment => c.committeeAccountsForEpoch n x.epoch
        some
          { committee := election.accounts
            slots := if range.1 ≤ range.2 then c.scoredSlots rules n range.1 range.2 else []
            producedSlotHeights := if range.1 ≤ range.2 then blocks.map VscHeader.slotHeight else []
            signersOfBlocks := if range.1 ≤ range.2 then blocks.map VscHeader.signers else []
            reshares := c.rowsOf n commits .reshare epochCommittee
            keygens := c.rowsOf n commits .keygen epochCommittee
            blames := c.rowsOf n commits .blame epochCommittee
            signs := c.rowsOf n commits .signResult fun x =>
              c.committeeAccountsAtHeight n x.blockHeight
            divergingOracleWitnesses :=
              (c.follow n).divergingTrustedWitnesses oracleQuoteDivergenceThresholdBps }

def reductions (n fromBh toBh : ℕ) (w : String) : ℕ :=
  computeReductionsForEpoch (c.buildTickInputs rules n) fromBh toBh defaultTickIntervalBlocks w

/-! ## Reads below a height -/

variable {c} {n m height : ℕ}

def NewEpochs (c : L2History) (n m : ℕ) : Prop :=
  ∀ b, n < b → b ≤ m → ∀ e ∈ c.elections b, (c.electionDb n).get? e.epoch = none

theorem mem_electionDb (hnm : n ≤ m) {e : ElectionResult} (he : e ∈ c.electionDb m) :
    e ∈ c.electionDb n ∨ n < e.blockHeight := by
  induction m, hnm using le_induction with
  | base => exact .inl he
  | succ m hnm ih =>
    rcases mem_of_mem_putAll he with he | he
    · obtain ⟨e', -, rfl⟩ := mem_map.1 he
      exact .inr (lt_succ_of_le hnm)
    · exact ih he

theorem eq_of_succ_eq {α : Type} {f : ℕ → α} (hnm : n ≤ m)
    (hstep : ∀ k, n ≤ k → k < m → f (k + 1) = f k) : f m = f n := by
  induction m, hnm using le_induction with
  | base => rfl
  | succ m hnm ih =>
    rw [hstep m hnm m.lt_succ_self, ih fun k hnk hkm => hstep k hnk (hkm.trans m.lt_succ_self)]

theorem filter_electionDb (hnm : n ≤ m) (hnew : c.NewEpochs n m) (hheight : height ≤ n + 1) :
    (c.electionDb m).docs.filter (fun e => e.blockHeight < height) =
      (c.electionDb n).docs.filter fun e => e.blockHeight < height := by
  refine eq_of_succ_eq (f := fun k => (c.electionDb k).docs.filter _) hnm fun k hnk hkm => ?_
  refine filter_docs_putAll (fun e he => ?_) fun e he y hy hkey => ?_
  · obtain ⟨e', -, rfl⟩ := mem_map.1 he
    simp only [decide_eq_false_iff_not]
    omega
  obtain ⟨e', he', rfl⟩ := mem_map.1 he
  rcases mem_electionDb hnk hy with hy | hy
  · have hget := get?_of_mem hy
    rw [hkey, hnew (k + 1) (by omega) hkm e' he'] at hget
    cases hget
  · simp only [decide_eq_false_iff_not]
    omega

theorem getElectionByHeight_eq (hnm : n ≤ m) (hnew : c.NewEpochs n m) (hheight : height ≤ n + 1) :
    c.getElectionByHeight m height = c.getElectionByHeight n height := by
  rw [getElectionByHeight, ElectionDb.getElectionByHeight, filter_electionDb hnm hnew hheight]
  rfl

theorem committeeAccountsForEpoch_eq (hnm : n ≤ m) {epoch : ℕ}
    (hepoch : ∀ b, n < b → b ≤ m → ∀ e ∈ c.elections b, e.epoch ≠ epoch) :
    c.committeeAccountsForEpoch m epoch = c.committeeAccountsForEpoch n epoch := by
  have hget : (c.electionDb m).get? epoch = (c.electionDb n).get? epoch := by
    refine eq_of_succ_eq (f := fun k => (c.electionDb k).get? epoch) hnm fun k hnk hkm => ?_
    refine get?_putAll_of_not_mem fun e he => ?_
    obtain ⟨e', he', rfl⟩ := mem_map.1 he
    exact hepoch (k + 1) (by omega) hkm e' he'
  rw [committeeAccountsForEpoch, hget]
  rfl

theorem filter_foldl_storeHeader {p : VscHeader → Bool} {xs : List VscHeader}
    (hx : ∀ x ∈ xs, p x = false) (headers : List VscHeader) :
    (xs.foldl storeHeader headers).filter p = headers.filter p := by
  induction xs generalizing headers with
  | nil => rfl
  | cons x xs ih =>
    rw [foldl_cons, ih fun y hy => hx y (mem_cons_of_mem _ hy), storeHeader]
    split
    · rfl
    · rw [filter_append, filter_cons_of_neg (by simp [hx x mem_cons_self]),
        filter_nil, append_nil]

theorem getBlocksInSlotRange_eq (hnm : n ≤ m) {first last : ℕ}
    (hlate : ∀ b, n < b → b ≤ m → slotStart b ≤ last → c.signed b = []) :
    c.getBlocksInSlotRange m first last = c.getBlocksInSlotRange n first last := by
  have hfilter : (c.vscBlocks m).filter (fun x => first ≤ x.slotHeight ∧ x.slotHeight ≤ last) =
      (c.vscBlocks n).filter fun x => first ≤ x.slotHeight ∧ x.slotHeight ≤ last := by
    refine eq_of_succ_eq (f := fun k => (c.vscBlocks k).filter _) hnm fun k hnk hkm => ?_
    refine filter_foldl_storeHeader (fun x hx => ?_) _
    obtain ⟨signers, hsigners, rfl⟩ := mem_map.1 hx
    simp only [decide_eq_false_iff_not, not_and]
    intro _ hle
    rw [hlate (k + 1) (by omega) hkm hle] at hsigners
    cases hsigners
  rw [getBlocksInSlotRange, hfilter]
  rfl

theorem findCommitments_eq (hnm : n ≤ m) {t : List CommitmentType} {fromBlock toBlock : ℕ}
    (hlate : ∀ b, n < b → b ≤ m → ∀ x ∈ c.commitments b,
      ¬(fromBlock < x.blockHeight ∧ x.blockHeight ≤ toBlock)) :
    c.findCommitments m t fromBlock toBlock = c.findCommitments n t fromBlock toBlock := by
  refine eq_of_succ_eq (f := fun k => c.findCommitments k t fromBlock toBlock) hnm
    fun k hnk hkm => ?_
  have hlast := hlate (k + 1) (by omega) hkm
  refine filter_docs_putAll (fun x hx => ?_) fun x hx y _ hkey => ?_
  · simpa using fun _ => not_and.1 (hlast x hx)
  have hheight : y.blockHeight = x.blockHeight := congrArg (fun k => k.2.1) hkey
  simpa [hheight] using fun _ => not_and.1 (hlast x hx)

theorem tickSlotRange_le (fromBlock tickHeight : ℕ) (closedOnly : Bool) :
    (tickSlotRange fromBlock tickHeight slotLength closedOnly).2 ≤ tickHeight := by
  simp only [tickSlotRange]
  split
  · split
    · exact zero_le _
    · simp only [slotLength]
      omega
  · omega

theorem tickSlotRange_closed {fromBlock tickHeight b : ℕ} (hb : tickHeight < b)
    (hrange : (tickSlotRange fromBlock tickHeight slotLength true).1 ≤
      (tickSlotRange fromBlock tickHeight slotLength true).2) :
    (tickSlotRange fromBlock tickHeight slotLength true).2 < slotStart b := by
  by_cases hshort : tickHeight < slotLength
  · simp [tickSlotRange, hshort] at hrange
  simp only [tickSlotRange, if_true, if_neg hshort, slotStart]
  simp only [slotLength] at hshort ⊢
  omega

/-! ## Two nodes past the last tick -/

structure Unmoved (c : L2History) (n m fromBh toBh : ℕ) : Prop where
  /-- An election does not replace one that is stored. -/
  epochs : c.NewEpochs n m
  /-- No commitment is of an epoch whose election comes later. -/
  members : ∀ b, n < b → b ≤ m → ∀ e ∈ c.elections b, ∀ x ∈ c.tssCommitments n, e.epoch ≠ x.epoch
  /-- Ticks score closed slots only, or no VSC block of a tick's slot comes after it. -/
  slots : ∀ tick ∈ epochTicks fromBh toBh defaultTickIntervalBlocks,
    settlementClosedSlotsActive (c.activeConsensusVersion n tick) = true ∨
      ∀ b, n < b → b ≤ m → slotStart b ≤ tick → c.signed b = []
  /-- No commitment is dated back into a tick. -/
  commitments : ∀ tick ∈ epochTicks fromBh toBh defaultTickIntervalBlocks,
    ∀ b, n < b → b ≤ m → ∀ x ∈ c.commitments b, ¬(fromBlock tick < x.blockHeight ∧ x.blockHeight ≤ tick)
  /-- The members of the ticks' committees diverge from the price now as then. -/
  diverging : ∀ tick ∈ epochTicks fromBh toBh defaultTickIntervalBlocks,
    ∀ w ∈ c.committeeAccountsAtHeight n tick,
      (w ∈ (c.follow n).divergingTrustedWitnesses oracleQuoteDivergenceThresholdBps ↔
        w ∈ (c.follow m).divergingTrustedWitnesses oracleQuoteDivergenceThresholdBps)

section Unmoved

variable {fromBh toBh tick : ℕ}

section

variable (H : c.Unmoved n m fromBh toBh)
include H

theorem Unmoved.rowsOf_eq (hnm : n ≤ m) {commits : List TssCommitment}
    (hcommits : ∀ x ∈ commits, x ∈ c.tssCommitments n) (type : CommitmentType)
    {f g : TssCommitment → List String} (hfg : ∀ x ∈ commits, f x = g x) :
    c.rowsOf m commits type f = c.rowsOf n commits type g := by
  have hepoch : ∀ x ∈ commits,
      c.committeeAccountsForEpoch m x.epoch = c.committeeAccountsForEpoch n x.epoch := fun x hx =>
    committeeAccountsForEpoch_eq hnm fun b hb hbm e he => H.members b hb hbm e he x (hcommits x hx)
  rw [rowsOf, rowsOf, filter_congr (q := fun x => decide (x.type = type ∧
    c.committeeAccountsForEpoch n x.epoch ≠ [] ∧ g x ≠ []))
    fun x hx => by rw [hepoch x hx, hfg x hx]]
  exact map_congr_left fun x hx => by rw [hfg x (mem_filter.1 hx).1]

theorem Unmoved.blocks_eq (hnm : n ≤ m)
    (htick : tick ∈ epochTicks fromBh toBh defaultTickIntervalBlocks) (hle : tick ≤ n)
    (hrange : (c.slotRange n tick).1 ≤ (c.slotRange n tick).2) :
    c.getBlocksInSlotRange m (c.slotRange n tick).1 (c.slotRange n tick).2 =
      c.getBlocksInSlotRange n (c.slotRange n tick).1 (c.slotRange n tick).2 := by
  refine getBlocksInSlotRange_eq hnm fun b hb hbm hslot => ?_
  rcases H.slots tick htick with hclosed | hnone
  · rw [slotRange, hclosed] at hrange hslot
    exact absurd hslot (not_le.2 (tickSlotRange_closed (hle.trans_lt hb) hrange))
  · exact hnone b hb hbm (hslot.trans (tickSlotRange_le _ _ _))

theorem Unmoved.scoredSlots_eq (hnm : n ≤ m) (rules : SettlementRules) {first last : ℕ}
    (hrange : first ≤ last) (hlast : last ≤ n) :
    c.scoredSlots rules m first last = c.scoredSlots rules n first last := by
  refine filterMap_congr fun slot hslot => ?_
  obtain ⟨i, hi, rfl⟩ := mem_map.1 hslot
  have hle : i * slotLength ≤ last - first :=
    (Nat.mul_le_mul_right _ (Nat.lt_succ_iff.1 (mem_range.1 hi))).trans
      (div_mul_le_self _ _)
  rw [getElectionByHeight_eq hnm H.epochs (by omega)]

theorem Unmoved.buildTickInputs_eq (hnm : n ≤ m) (rules : SettlementRules)
    (htick : tick ∈ epochTicks fromBh toBh defaultTickIntervalBlocks) (hle : tick ≤ n) :
    c.buildTickInputs rules m tick = (c.buildTickInputs rules n tick).map fun inp =>
      { inp with divergingOracleWitnesses :=
          (c.follow m).divergingTrustedWitnesses oracleQuoteDivergenceThresholdBps } := by
  have helection : ∀ height ≤ tick, c.getElectionByHeight m height = c.getElectionByHeight n height :=
    fun height hheight => getElectionByHeight_eq hnm H.epochs (by omega)
  have hversion : c.activeConsensusVersion m tick = c.activeConsensusVersion n tick :=
    congrArg (·.elim ⟨0, 0, 0⟩ ElectionResult.version) (helection tick le_rfl)
  have hslots : c.slotRange m tick = c.slotRange n tick := by
    rw [slotRange, hversion]
    rfl
  have htypes : c.commitTypes rules m tick = c.commitTypes rules n tick := by
    rw [commitTypes, hversion]
    rfl
  have hlast : (c.slotRange n tick).2 ≤ n := (tickSlotRange_le _ _ _).trans hle
  have hfind := findCommitments_eq hnm (t := c.commitTypes rules n tick)
    (H.commitments tick htick)
  have hstored : ∀ x ∈ c.findCommitments n (c.commitTypes rules n tick) (fromBlock tick) tick,
      x ∈ c.tssCommitments n ∧ x.blockHeight ≤ tick := by
    intro x hx
    obtain ⟨hx, hdate⟩ := List.mem_filter.1 hx
    rw [decide_eq_true_iff] at hdate
    exact ⟨hx, hdate.2.2⟩
  generalize hcommits : c.findCommitments n (c.commitTypes rules n tick) (fromBlock tick) tick =
    commits at hfind hstored
  have hepoch (type : CommitmentType) :
      c.rowsOf m commits type (fun x => c.committeeAccountsForEpoch m x.epoch) =
        c.rowsOf n commits type fun x => c.committeeAccountsForEpoch n x.epoch := by
    refine H.rowsOf_eq hnm (fun x hx => (hstored x hx).1) type fun x hx => ?_
    exact committeeAccountsForEpoch_eq hnm fun b hb hbm e he =>
      H.members b hb hbm e he x (hstored x hx).1
  have hsigns : c.rowsOf m commits .signResult (fun x => c.committeeAccountsAtHeight m x.blockHeight) =
      c.rowsOf n commits .signResult fun x => c.committeeAccountsAtHeight n x.blockHeight := by
    refine H.rowsOf_eq hnm (fun x hx => (hstored x hx).1) _ fun x hx => ?_
    rw [committeeAccountsAtHeight, helection _ (hstored x hx).2]
    rfl
  simp only [buildTickInputs]
  split
  · rfl
  rw [helection tick le_rfl]
  cases c.getElectionByHeight n tick with
  | none => rfl
  | some election =>
    dsimp only
    split
    · rfl
    rw [hslots, htypes, hfind, hcommits, hepoch, hepoch, hepoch, hsigns]
    -- the slots and blocks are read only where the range is not empty
    by_cases hrange : (c.slotRange n tick).1 ≤ (c.slotRange n tick).2
    · rw [H.scoredSlots_eq hnm rules hrange hlast, H.blocks_eq hnm htick hle hrange]
      rfl
    · simp only [if_neg hrange]
      rfl

end

end Unmoved

variable {d : List String} {inp : TickInputs}

theorem bps_congr_diverging {w : String}
    (h : w ∈ inp.committee → (w ∈ inp.divergingOracleWitnesses ↔ w ∈ d)) :
    ({ inp with divergingOracleWitnesses := d } : TickInputs).bps w = inp.bps w := by
  have hscore : scoreOracleQuoteDivergence d inp.committee w =
      scoreOracleQuoteDivergence inp.divergingOracleWitnesses inp.committee w := by
    rw [scoreOracleQuoteDivergence, scoreOracleQuoteDivergence]
    split
    · rfl
    rename_i hw
    rw [not_or, not_not] at hw
    simp only [h hw.2]
  simp only [TickInputs.bps, hscore]

theorem aggregateTick_congr_diverging
    (h : ∀ w ∈ inp.committee, (w ∈ inp.divergingOracleWitnesses ↔ w ∈ d)) :
    aggregateTick { inp with divergingOracleWitnesses := d } = aggregateTick inp := by
  refine map_congr_left fun w _ => ?_
  rw [bps_congr_diverging (h w)]

theorem committee_of_buildTickInputs {rules : SettlementRules} {tick : ℕ}
    (h : c.buildTickInputs rules n tick = some inp) :
    inp.committee = c.committeeAccountsAtHeight n tick ∧ inp.divergingOracleWitnesses =
      (c.follow n).divergingTrustedWitnesses oracleQuoteDivergenceThresholdBps := by
  simp only [buildTickInputs] at h
  split at h
  · cases h
  split at h
  · cases h
  rename_i election helection
  split at h
  · cases h
  · cases h
    exact ⟨by rw [committeeAccountsAtHeight, helection]; rfl, rfl⟩

/-- Two nodes that are past the last tick of an epoch derive the same reductions, if what
one has processed more leaves the evidence alone. -/
theorem reductions_eq_of_unmoved (rules : SettlementRules) {fromBh toBh : ℕ} (hnm : n ≤ m)
    (hpast : ∀ tick ∈ epochTicks fromBh toBh defaultTickIntervalBlocks, tick ≤ n)
    (H : c.Unmoved n m fromBh toBh) (w : String) :
    c.reductions rules m fromBh toBh w = c.reductions rules n fromBh toBh w := by
  have htick : ∀ tick ∈ epochTicks fromBh toBh defaultTickIntervalBlocks,
      (c.buildTickInputs rules m tick).elim [] aggregateTick =
        (c.buildTickInputs rules n tick).elim [] aggregateTick := by
    intro tick htick
    rw [H.buildTickInputs_eq hnm rules htick (hpast tick htick)]
    cases hinp : c.buildTickInputs rules n tick with
    | none => rfl
    | some inp =>
      obtain ⟨hcommittee, hdiverging⟩ := committee_of_buildTickInputs hinp
      refine aggregateTick_congr_diverging fun w hw => ?_
      rw [hdiverging]
      exact H.diverging tick htick w (hcommittee ▸ hw)
  have htotal : rawTotal (c.buildTickInputs rules m)
        (epochTicks fromBh toBh defaultTickIntervalBlocks) w =
      rawTotal (c.buildTickInputs rules n)
        (epochTicks fromBh toBh defaultTickIntervalBlocks) w := by
    rw [rawTotal, flatMap_congr fun tick ht => by rw [htick tick ht]]
    rfl
  rw [reductions, computeReductionsForEpoch, htotal]
  rfl

/-- Two producers with prices 10% apart; after the second tick one of them publishes the
mean. -/
def requoted : L2History where
  block n :=
    if n = 205 then { witness := "bob", ops := [.feedPublish "bob" (some ⟨1050, 1000⟩)] }
    else if n % 2 = 0 then { witness := "alice", ops := [.feedPublish "alice" (some ⟨1000, 1000⟩)] }
    else if n ≤ 200 then { witness := "bob", ops := [.feedPublish "bob" (some ⟨1100, 1000⟩)] }
    else { witness := "bob", ops := [] }
  named n := by
    split
    · decide
    split
    · decide
    · split <;> decide
  elections n := if n = 1 then [⟨0, 1, [⟨"k0", "alice"⟩, ⟨"k1", "bob"⟩], ⟨0, 9, 0⟩⟩] else []
  signed _ := []
  commitments _ := []

def noSchedule : SettlementRules := ⟨fun _ _ => [], fun _ _ => false⟩

theorem elections_requoted {b : ℕ} (hb : 200 < b) : requoted.elections b = [] :=
  if_neg (by omega)

theorem unmoved_requoted : requoted.Unmoved 200 204 0 200 where
  epochs b hb _ e he := by
    rw [elections_requoted hb] at he
    cases he
  members b hb _ e he := by
    rw [elections_requoted hb] at he
    cases he
  slots _ _ := .inr fun _ _ _ _ => rfl
  commitments _ _ _ _ _ _ hx := nomatch hx
  diverging := by decide +kernel

theorem reductions_eq_of_unmoved_requoted :
    requoted.reductions noSchedule 204 0 200 "bob" = requoted.reductions noSchedule 200 0 200 "bob" :=
  reductions_eq_of_unmoved noSchedule (by decide) (by decide) unmoved_requoted "bob"

/-- A node that derives the reductions five blocks later charges less. -/
theorem reductions_requoted :
    requoted.reductions noSchedule 200 0 200 "bob" = 50 ∧
      requoted.reductions noSchedule 205 0 200 "bob" = 0 := by
  decide +kernel

end L2History

end VscNode.Pendulum
