import VscNode.Lib.Collection
import VscNode.Lib.Window
import VscNode.Pendulum.Params

/-!
# The price feed

`FeedTracker` follows the L1 chain: who produced the last hundred blocks, the latest
price and interest rate each witness has published, and the last prices of the
pendulum. Every hundred blocks a tick drops the feeds that have grown old and takes
the price from the witnesses that have produced enough and have published lately.

The maps of the source are collections; what a tick reads from them does not depend
on their order, so two trackers with the same entries come to the same tick
(`tick_congr`). An operation is given with what decoding it yields, and a value that
comes with an `ok` flag is an `Option`.
-/

namespace VscNode.Pendulum

open Collection FixedPoint List Option

/-! ## Prices -/

structure Quote where
  (hbdRaw hiveRaw : Int)
  deriving DecidableEq

def Quote.priceBps (q : Quote) : Int :=
  if q.hiveRaw ≤ 0 then 0
  else
    let num := (q.hbdRaw * bpsScale).tdiv q.hiveRaw
    if IsInt64 num then num else 0

def defaultMinBlocksProduced : ℕ := 4

def feedTrust (blocksInWindow : ℕ) (publishedPriceUpdate : Bool) (minBlocks : ℕ) : Bool :=
  let minBlocks := if minBlocks < 1 then defaultMinBlocksProduced else minBlocks
  publishedPriceUpdate && decide (minBlocks ≤ blocksInWindow)

structure Feed where
  witness : String
  quote : Quote
  lastFeedBlk : ℕ
  deriving DecidableEq

abbrev Feeds := Collection Feed.witness

def feedFreshnessBlocks : ℕ := 1200

def Feed.fresh (blockHeight : ℕ) (f : Feed) : Bool :=
  blockHeight < f.lastFeedBlk + feedFreshnessBlocks

/-- The mean of the prices without the lowest and the highest quarter. -/
def trustedHivePriceBps (feeds : Feeds) (trusted : String → Bool) : Option Int :=
  let named := feeds.docs.filter fun f =>
    trusted f.witness ∧ 0 < f.quote.hbdRaw ∧ 0 < f.quote.hiveRaw
  let prices := (named.map fun f =>
    (f.quote.hbdRaw * bpsScale).tdiv f.quote.hiveRaw).insertionSort (· ≤ ·)
  let trim := prices.length / 4
  let kept := (prices.take (prices.length - trim)).drop trim
  if kept = [] then none
  else
    let mean := kept.sum.tdiv kept.length
    if IsInt64 mean then some mean else none

variable {trusted trusted' : String → Bool}

theorem trustedHivePriceBps_congr {feeds feeds' : Feeds}
    (hfeeds : ∀ w, feeds.get? w = feeds'.get? w)
    (htrusted : ∀ f ∈ feeds, trusted f.witness = trusted' f.witness) :
    trustedHivePriceBps feeds trusted = trustedHivePriceBps feeds' trusted' := by
  have hnamed : feeds.docs.filter (fun f =>
      trusted f.witness ∧ 0 < f.quote.hbdRaw ∧ 0 < f.quote.hiveRaw) =
      feeds.docs.filter fun f =>
        trusted' f.witness ∧ 0 < f.quote.hbdRaw ∧ 0 < f.quote.hiveRaw :=
    filter_congr fun f hf => by rw [htrusted f hf]
  have hprices := List.Perm.eq_of_pairwise'
    (pairwise_insertionSort (· ≤ ·) _) (pairwise_insertionSort (· ≤ ·) _)
    (((perm_insertionSort (· ≤ ·) _).trans (((perm_docs hfeeds).filter fun f =>
        trusted' f.witness ∧ 0 < f.quote.hbdRaw ∧ 0 < f.quote.hiveRaw).map fun f =>
          (f.quote.hbdRaw * bpsScale).tdiv f.quote.hiveRaw)).trans
      (perm_insertionSort (· ≤ ·) _).symm)
  simp only [trustedHivePriceBps, hnamed, hprices]

/-! ## The trusted group -/

def defaultWitnessGroupSize : ℕ := 20

/-- The busier witness first, then by name. -/
def ranksBefore (blocksInWindow : String → ℕ) (a b : String) : Prop :=
  blocksInWindow b < blocksInWindow a ∨ (blocksInWindow a = blocksInWindow b ∧ a ≤ b)

instance (blocksInWindow : String → ℕ) : DecidableRel (ranksBefore blocksInWindow) :=
  fun _ _ => inferInstanceAs (Decidable (_ ∨ _))

instance (blocksInWindow : String → ℕ) : Std.Total (ranksBefore blocksInWindow) where
  total a b := by
    rcases lt_trichotomy (blocksInWindow a) (blocksInWindow b) with h | h | h
    · exact .inr (.inl h)
    · rcases le_total a b with hab | hab
      · exact .inl (.inr ⟨h, hab⟩)
      · exact .inr (.inr ⟨h.symm, hab⟩)
    · exact .inl (.inl h)

instance (blocksInWindow : String → ℕ) : IsTrans String (ranksBefore blocksInWindow) where
  trans a b c := by
    rintro (hab | ⟨hab, hle⟩) (hbc | ⟨hbc, hle'⟩)
    · exact .inl (hbc.trans hab)
    · exact .inl (hbc ▸ hab)
    · exact .inl (hab ▸ hbc)
    · exact .inr ⟨hab.trans hbc, hle.trans hle'⟩

instance (blocksInWindow : String → ℕ) : Std.Antisymm (ranksBefore blocksInWindow) where
  antisymm a b := by
    rintro (hab | ⟨hab, hle⟩) (hba | ⟨hba, hle'⟩)
    · omega
    · omega
    · omega
    · exact le_antisymm hle hle'

def runningWitnessGroup (names : List String) (trusted : String → Bool)
    (blocksInWindow : String → ℕ) (maxWitnesses : ℕ) : List String :=
  let maxWitnesses := if maxWitnesses < 1 then defaultWitnessGroupSize else maxWitnesses
  ((names.filter fun w => trusted w ∧ w ≠ "").insertionSort (ranksBefore blocksInWindow)).take
    maxWitnesses

theorem runningWitnessGroup_congr {names names' : List String} {blocks blocks' : String → ℕ}
    {maxWitnesses : ℕ} (hnames : names.Perm names') (htrusted : ∀ w ∈ names, trusted w = trusted' w)
    (hblocks : ∀ w ∈ names, blocks w = blocks' w) :
    runningWitnessGroup names trusted blocks maxWitnesses =
      runningWitnessGroup names' trusted' blocks' maxWitnesses := by
  have hfilter : names.filter (fun w => trusted w ∧ w ≠ "") =
      names.filter fun w => trusted' w ∧ w ≠ "" :=
    filter_congr fun w hw => by rw [htrusted w hw]
  have hperm := hnames.filter fun w => trusted' w ∧ w ≠ ""
  -- The witnesses sorted by either count are sorted by the other.
  have hsorted : ((names'.filter fun w => trusted' w ∧ w ≠ "").insertionSort
      (ranksBefore blocks')).Pairwise (ranksBefore blocks) := by
    refine (pairwise_insertionSort (ranksBefore blocks') _).imp_of_mem ?_
    intro a b ha hb hab
    have hmem : ∀ w ∈ (names'.filter fun w => trusted' w ∧ w ≠ "").insertionSort
        (ranksBefore blocks'), blocks w = blocks' w := fun w hw =>
      hblocks w (hnames.mem_iff.2 (mem_filter.1 ((mem_insertionSort _).1 hw)).1)
    rwa [ranksBefore, hmem a ha, hmem b hb]
  have hsort := List.Perm.eq_of_pairwise' (pairwise_insertionSort (ranksBefore blocks) _)
    hsorted (((perm_insertionSort (ranksBefore blocks) _).trans hperm).trans
      (perm_insertionSort (ranksBefore blocks') _).symm)
  simp only [runningWitnessGroup, hfilter, hsort]

/-! ## The interest rate -/

def maxHBDInterestRateBps : ℕ := 10000

structure WitnessProperties where
  witness : String
  hbdInterestRateBps : ℕ
  deriving DecidableEq

structure RateTally where
  counted : List ℕ
  (bestRate bestCount : ℕ)

def RateTally.add (t : RateTally) (r : ℕ) : RateTally :=
  let c := t.counted.count r + 1
  if t.bestCount < c ∨ (c = t.bestCount ∧ r < t.bestRate) then ⟨r :: t.counted, r, c⟩
  else { t with counted := r :: t.counted }

def hbdAPRModeFromGroup (group : List String) (rateOf : String → Option ℕ) : Option ℕ :=
  let tally := ((group.filterMap rateOf).filter fun r => r ≤ maxHBDInterestRateBps).foldl
    RateTally.add ⟨[], 0, 0⟩
  if tally.bestCount = 0 then none else some tally.bestRate

theorem hbdAPRModeFromGroup_congr {group : List String} {rateOf rateOf' : String → Option ℕ}
    (h : ∀ w ∈ group, rateOf w = rateOf' w) :
    hbdAPRModeFromGroup group rateOf = hbdAPRModeFromGroup group rateOf' := by
  rw [hbdAPRModeFromGroup, hbdAPRModeFromGroup, filterMap_congr h]

/-! ## The moving average -/

def defaultMovingAvgTicks : ℕ := 3

/-- The ring of the last prices, oldest first. Prices that are not positive are not
stored. -/
def pushPrice (ma : List Int) (v : Int) : List Int :=
  if v ≤ 0 then ma else Window.push defaultMovingAvgTicks ma v

def meanPrice (ma : List Int) : Option Int :=
  if ma = [] then none
  else some ((ma.foldl (fun s v => wrap64 (s + v)) 0).tdiv ma.length)

/-! ## The tracker -/

def defaultTickIntervalBlocks : ℕ := 100
def windowWidth : ℕ := 100

structure FeedTickSnapshot where
  tickBlockHeight : ℕ
  (trustedHivePriceBps hiveMovingAvgBps : Option Int)
  hbdInterestRateBps : Option ℕ
  trustedWitnessGroup : List String
  deriving DecidableEq

structure FeedTracker where
  /-- The producers of the last blocks, oldest first. -/
  win : List String
  feeds : Feeds
  witnessProps : Collection WitnessProperties.witness
  ma : List Int
  last : FeedTickSnapshot

/-- An operation with what decoding it yields. -/
inductive FeedOp
  | feedPublish (publisher : String) (quote : Option Quote)
  | witnessSetProperties (owner : String) (quote : Option Quote) (rate : Option ℕ)
  deriving DecidableEq

/-- An L1 block: its producer and its feed operations in the order of its transactions. -/
structure HiveBlock where
  witness : String
  ops : List FeedOp
  deriving DecidableEq

namespace FeedOp

def account : FeedOp → String
  | feedPublish publisher _ => publisher
  | witnessSetProperties owner _ _ => owner

def quote : FeedOp → Option Quote
  | feedPublish _ quote => quote
  | witnessSetProperties _ quote _ => quote

def rate : FeedOp → Option ℕ
  | feedPublish _ _ => none
  | witnessSetProperties _ _ rate => rate

end FeedOp

namespace FeedTracker

def new : FeedTracker :=
  { win := [], feeds := Collection.empty, witnessProps := Collection.empty, ma := []
    last := ⟨0, none, none, none, []⟩ }

variable (t : FeedTracker) (blockHeight : ℕ) (witness : String)

def blocksProducedBy : ℕ :=
  if witness = "" then 0 else t.win.count witness

def recordWitnessBlock : FeedTracker :=
  if witness = "" then t else { t with win := Window.push windowWidth t.win witness }

def witnessIsActive (account : String) : Bool := 1 ≤ t.blocksProducedBy account

def putFeed (blockHeight : ℕ) : Option Quote → FeedTracker
  | none => t
  | some q => { t with feeds := t.feeds.put ⟨witness, q, blockHeight⟩ }

def putRate : Option ℕ → FeedTracker
  | none => t
  | some r => { t with witnessProps := t.witnessProps.put ⟨witness, r⟩ }

def ingestFeedPublish (publisher : String) (quote : Option Quote) : FeedTracker :=
  if publisher = "" then t
  else if t.witnessIsActive publisher = false then t
  else t.putFeed publisher blockHeight quote

def ingestWitnessSetProperties (owner : String) (quote : Option Quote) (rate : Option ℕ) :
    FeedTracker :=
  if owner = "" then t
  else if t.witnessIsActive owner = false then t
  else (t.putFeed owner blockHeight quote).putRate owner rate

def ingestOp (t : FeedTracker) : FeedOp → FeedTracker
  | .feedPublish publisher quote => t.ingestFeedPublish blockHeight publisher quote
  | .witnessSetProperties owner quote rate =>
    t.ingestWitnessSetProperties blockHeight owner quote rate

def ingestTransactionOps (ops : List FeedOp) : FeedTracker :=
  ops.foldl (ingestOp blockHeight) t

/-- Drops the feeds that have grown old, and what else is known of their witnesses. -/
def evict : FeedTracker :=
  { t with
    feeds := t.feeds.filter (Feed.fresh blockHeight)
    witnessProps := t.witnessProps.filter fun p =>
      ((t.feeds.get? p.witness).all (Feed.fresh blockHeight)) }

/-- Whether the price of a witness counts. -/
def trusts : Bool :=
  match t.feeds.get? witness with
  | none => false
  | some f => feedTrust (t.blocksProducedBy witness)
      (0 < f.lastFeedBlk && Feed.fresh blockHeight f) defaultMinBlocksProduced

def trustedPrice : Option Int :=
  VscNode.Pendulum.trustedHivePriceBps t.feeds (t.trusts blockHeight)

def trustedGroup : List String :=
  runningWitnessGroup (t.feeds.docs.map Feed.witness) (t.trusts blockHeight) t.blocksProducedBy
    defaultWitnessGroupSize

def rateOf : Option ℕ :=
  (t.witnessProps.get? witness).map WitnessProperties.hbdInterestRateBps

def aggregate : FeedTracker :=
  let price := t.trustedPrice blockHeight
  let ma := price.elim t.ma (pushPrice t.ma)
  let group := t.trustedGroup blockHeight
  { t with
    ma := ma
    last :=
      { tickBlockHeight := blockHeight, trustedHivePriceBps := price
        hiveMovingAvgBps := meanPrice ma, hbdInterestRateBps := hbdAPRModeFromGroup group t.rateOf
        trustedWitnessGroup := group } }

def tickIfDue : FeedTracker :=
  if blockHeight = 0 ∨ blockHeight % defaultTickIntervalBlocks ≠ 0 then t
  else (t.evict blockHeight).aggregate blockHeight

/-- What the state engine, and the replay at a start, do with a block. -/
def processBlock (block : HiveBlock) : FeedTracker :=
  ((t.recordWitnessBlock block.witness).ingestTransactionOps blockHeight block.ops).tickIfDue
    blockHeight

def divergingTrustedWitnesses (thresholdBps : Int) : List String :=
  if thresholdBps ≤ 0 then []
  else
    match t.last.trustedHivePriceBps with
    | none => []
    | some meanBps =>
      if meanBps ≤ 0 then []
      else
        ((t.last.trustedWitnessGroup.filter fun w =>
          match t.feeds.get? w with
          | none => false
          | some f =>
            let qBps := f.quote.priceBps
            0 < qBps ∧ thresholdBps ≤ (wrap64 (|qBps - meanBps| * 10000)).tdiv meanBps).dedup).insertionSort
          (· ≤ ·)

/-! ### What the operations of a block write -/

theorem gate_eq (t u : FeedTracker) (w : String) :
    (if w = "" then t else if t.witnessIsActive w = false then t else u) =
      if t.witnessIsActive w then u else t := by
  by_cases hw : w = ""
  · subst hw
    rfl
  · rw [if_neg hw]
    cases t.witnessIsActive w <;> rfl

section

variable (t : FeedTracker)

theorem ingestOp_eq (n : ℕ) (op : FeedOp) :
    t.ingestOp n op =
      if t.witnessIsActive op.account then (t.putFeed op.account n op.quote).putRate op.account op.rate
      else t := by
  cases op with
  | feedPublish publisher quote => exact gate_eq t _ publisher
  | witnessSetProperties owner quote rate => exact gate_eq t _ owner

section

variable (w : String)

section

variable (q : Option Quote)

@[simp] theorem putFeed_win (n : ℕ) : (t.putFeed w n q).win = t.win := by cases q <;> rfl

@[simp] theorem putFeed_witnessProps (n : ℕ) :
    (t.putFeed w n q).witnessProps = t.witnessProps := by cases q <;> rfl

@[simp] theorem putFeed_ma (n : ℕ) : (t.putFeed w n q).ma = t.ma := by cases q <;> rfl

end

variable (r : Option ℕ)

@[simp] theorem putRate_win : (t.putRate w r).win = t.win := by cases r <;> rfl

@[simp] theorem putRate_feeds : (t.putRate w r).feeds = t.feeds := by cases r <;> rfl

@[simp] theorem putRate_ma : (t.putRate w r).ma = t.ma := by cases r <;> rfl

theorem get?_putFeed (n : ℕ) (q : Option Quote) (x : String) :
    (t.putFeed w n q).feeds.get? x =
      if w = x then (q.map fun q => Feed.mk x q n).or (t.feeds.get? x) else t.feeds.get? x := by
  cases q with
  | none => simp [putFeed]
  | some q =>
    rw [putFeed, get?_put]
    split
    · rename_i h
      subst h
      rfl
    · rfl

theorem get?_putRate (x : String) :
    (t.putRate w r).witnessProps.get? x =
      if w = x then (r.map fun r => WitnessProperties.mk x r).or (t.witnessProps.get? x)
      else t.witnessProps.get? x := by
  cases r with
  | none => simp [putRate]
  | some r =>
    rw [putRate, get?_put]
    split
    · rename_i h
      subst h
      rfl
    · rfl

end

end

variable {t u : FeedTracker} {x : String} {α : Type} {ops : List FeedOp}

theorem witnessIsActive_eq (h : t.win = u.win) (x : String) :
    t.witnessIsActive x = u.witnessIsActive x := by
  rw [witnessIsActive, witnessIsActive, blocksProducedBy, blocksProducedBy, h]

theorem witnessIsActive_iff {t : FeedTracker} (hx : x ≠ "") :
    t.witnessIsActive x = true ↔ x ∈ t.win := by
  rw [witnessIsActive, blocksProducedBy, if_neg hx, decide_eq_true_eq, Nat.one_le_iff_ne_zero,
    ← Nat.pos_iff_ne_zero, count_pos_iff]

/-- The last of some values that an account publishes in a list of operations. -/
def lastOf {α : Type} (value : FeedOp → Option α) (x : String) (ops : List FeedOp) : Option α :=
  ops.foldl (fun found op => if op.account = x then (value op).or found else found) none

theorem lastOf_append_singleton (value : FeedOp → Option α) (x : String) (ops : List FeedOp)
    (op : FeedOp) :
    lastOf value x (ops ++ [op]) =
      if op.account = x then (value op).or (lastOf value x ops) else lastOf value x ops :=
  foldl_concat ..

variable {value : FeedOp → Option α}

theorem lastOf_eq_none (h : ∀ op ∈ ops, op.account = x → value op = none) :
    lastOf value x ops = none := by
  induction ops using reverseRecOn with
  | nil => rfl
  | append_singleton ops op ih =>
    rw [lastOf_append_singleton, ih fun op' hop' => h op' (mem_append_left _ hop')]
    split
    · rename_i hx
      rw [h op (by simp) hx, none_or]
    · rfl

theorem isSome_lastOf {op : FeedOp} (hop : op ∈ ops) (hx : op.account = x)
    (hvalue : (value op).isSome = true) : (lastOf value x ops).isSome = true := by
  induction ops using reverseRecOn with
  | nil => cases hop
  | append_singleton ops op' ih =>
    rw [lastOf_append_singleton]
    rcases mem_append.1 hop with hop | hop
    · split
      · rw [isSome_or, ih hop, Bool.or_true]
      · exact ih hop
    rw [mem_singleton] at hop
    subst hop
    rw [if_pos hx, isSome_or, hvalue, Bool.true_or]

/-- The operations of a block leave the window and the prices alone, and store for each
active witness the last price and the last rate it publishes. -/
structure Ingests (t u : FeedTracker) (n : ℕ) (ops : List FeedOp) : Prop where
  win : u.win = t.win
  ma : u.ma = t.ma
  feeds : ∀ x, u.feeds.get? x =
    if t.witnessIsActive x then
      ((lastOf FeedOp.quote x ops).map fun q => Feed.mk x q n).or (t.feeds.get? x)
    else t.feeds.get? x
  props : ∀ x, u.witnessProps.get? x =
    if t.witnessIsActive x then
      ((lastOf FeedOp.rate x ops).map fun r => WitnessProperties.mk x r).or (t.witnessProps.get? x)
    else t.witnessProps.get? x

theorem ingests_ingestTransactionOps (t : FeedTracker) (n : ℕ) (ops : List FeedOp) :
    Ingests t (t.ingestTransactionOps n ops) n ops := by
  induction ops using reverseRecOn with
  | nil => exact ⟨rfl, rfl, fun x => by simp [ingestTransactionOps, lastOf],
      fun x => by simp [ingestTransactionOps, lastOf]⟩
  | append_singleton ops op ih =>
    have hstep : t.ingestTransactionOps n (ops ++ [op]) =
        (t.ingestTransactionOps n ops).ingestOp n op := foldl_concat ..
    have hactive := witnessIsActive_eq ih.win op.account
    rw [hstep, ingestOp_eq, hactive]
    cases hact : t.witnessIsActive op.account with
    | false =>
      rw [if_neg Bool.false_ne_true]
      have hskip : ∀ {α : Type} (value : FeedOp → Option α) (x : String),
          t.witnessIsActive x = true → lastOf value x (ops ++ [op]) = lastOf value x ops := by
        intro α value x hx
        rw [lastOf_append_singleton, if_neg]
        rintro rfl
        rw [hact] at hx
        cases hx
      refine ⟨ih.win, ih.ma, fun x => ?_, fun x => ?_⟩
      · rw [ih.feeds x]
        split
        · rw [hskip _ x ‹_›]
        · rfl
      rw [ih.props x]
      split
      · rw [hskip _ x ‹_›]
      · rfl
    | true =>
      rw [if_pos rfl]
      refine ⟨by simpa using ih.win, by simpa using ih.ma, fun x => ?_, fun x => ?_⟩
      · rw [putRate_feeds, get?_putFeed, lastOf_append_singleton, ih.feeds x]
        by_cases hx : op.account = x
        · subst hx
          rw [if_pos rfl, if_pos rfl, if_pos hact, if_pos hact]
          cases op.quote <;> rfl
        · rw [if_neg hx, if_neg hx]
      rw [get?_putRate, putFeed_witnessProps, lastOf_append_singleton, ih.props x]
      by_cases hx : op.account = x
      · subst hx
        rw [if_pos rfl, if_pos rfl, if_pos hact, if_pos hact]
        cases op.rate <;> rfl
      · rw [if_neg hx, if_neg hx]

/-! ### Ticks -/

theorem get?_feeds_evict (t : FeedTracker) (n : ℕ) (x : String) :
    (t.evict n).feeds.get? x = (t.feeds.get? x).filter (Feed.fresh n) :=
  get?_filter ..

theorem get?_witnessProps_evict (t : FeedTracker) (n : ℕ) (x : String) :
    (t.evict n).witnessProps.get? x =
      if (t.feeds.get? x).all (Feed.fresh n) then t.witnessProps.get? x else none := by
  rw [evict, get?_filter]
  cases hp : t.witnessProps.get? x with
  | none => simp
  | some p =>
    have hx : p.witness = x := (get?_eq_some_iff.1 hp).2
    rw [filter_some, hx]

theorem trusts_congr {n : ℕ} (hfeeds : t.feeds.get? x = u.feeds.get? x)
    (hblocks : (t.feeds.get? x).isSome = true → t.blocksProducedBy x = u.blocksProducedBy x) :
    t.trusts n x = u.trusts n x := by
  rw [trusts, trusts, ← hfeeds]
  cases h : t.feeds.get? x with
  | none => rfl
  | some f => rw [hblocks (by rw [h]; rfl)]

section

variable {t u : FeedTracker} {n : ℕ} (hfeeds : ∀ x, t.feeds.get? x = u.feeds.get? x)
  (hblocks : ∀ x, (t.feeds.get? x).isSome = true → t.blocksProducedBy x = u.blocksProducedBy x)

include hfeeds hblocks

theorem trustedPrice_congr : t.trustedPrice n = u.trustedPrice n :=
  trustedHivePriceBps_congr hfeeds fun f _ => trusts_congr (hfeeds f.witness) (hblocks f.witness)

theorem trustedGroup_congr : t.trustedGroup n = u.trustedGroup n := by
  have hsome : ∀ x ∈ t.feeds.docs.map Feed.witness, (t.feeds.get? x).isSome = true := by
    intro x hx
    obtain ⟨f, hf, rfl⟩ := mem_map.1 hx
    rw [get?_of_mem hf]
    rfl
  exact runningWitnessGroup_congr ((perm_docs hfeeds).map _)
    (fun x _ => trusts_congr (hfeeds x) (hblocks x)) fun x hx => hblocks x (hsome x hx)

theorem aggregate_congr (hma : t.ma = u.ma)
    (hrates : ∀ x ∈ t.trustedGroup n, t.rateOf x = u.rateOf x) :
    (t.aggregate n).last = (u.aggregate n).last := by
  simp only [aggregate, trustedPrice_congr hfeeds hblocks, hma,
    ← trustedGroup_congr (n := n) hfeeds hblocks, hbdAPRModeFromGroup_congr hrates]

end

theorem divergingTrustedWitnesses_congr (hlast : t.last = u.last)
    (hfeeds : ∀ x, t.feeds.get? x = u.feeds.get? x) (thresholdBps : Int) :
    t.divergingTrustedWitnesses thresholdBps = u.divergingTrustedWitnesses thresholdBps := by
  simp only [divergingTrustedWitnesses, hlast, hfeeds]

/-! ### Blocks -/

def IsTick : Prop :=
  blockHeight ≠ 0 ∧ blockHeight % defaultTickIntervalBlocks = 0
  deriving Decidable

def ingested (t : FeedTracker) (blockHeight : ℕ) (block : HiveBlock) : FeedTracker :=
  (t.recordWitnessBlock block.witness).ingestTransactionOps blockHeight block.ops

def accepts (t : FeedTracker) (block : HiveBlock) (x : String) : Bool :=
  (t.recordWitnessBlock block.witness).witnessIsActive x

variable {t : FeedTracker} {n : ℕ} {block : HiveBlock}

theorem processBlock_of_tick (hn : IsTick n) :
    t.processBlock n block = ((t.ingested n block).evict n).aggregate n := by
  rw [processBlock, tickIfDue, if_neg (by rw [not_or, not_not]; exact hn)]
  rfl

theorem processBlock_of_not_tick (hn : ¬IsTick n) :
    t.processBlock n block = t.ingested n block := by
  rw [IsTick, not_and_or, not_not] at hn
  rw [processBlock, tickIfDue, if_pos hn]
  rfl

theorem recordWitnessBlock_frame (w : String) : (t.recordWitnessBlock w).feeds = t.feeds ∧
    (t.recordWitnessBlock w).witnessProps = t.witnessProps ∧ (t.recordWitnessBlock w).ma = t.ma := by
  unfold recordWitnessBlock
  split <;> exact ⟨rfl, rfl, rfl⟩

theorem recordWitnessBlock_win {w : String} (hw : w ≠ "") :
    (t.recordWitnessBlock w).win = Window.push windowWidth t.win w := by
  rw [recordWitnessBlock, if_neg hw]

theorem win_ingested (hw : block.witness ≠ "") :
    (t.ingested n block).win = Window.push windowWidth t.win block.witness := by
  rw [ingested, (ingests_ingestTransactionOps ..).win, recordWitnessBlock_win hw]

theorem win_processBlock (hw : block.witness ≠ "") :
    (t.processBlock n block).win = Window.push windowWidth t.win block.witness := by
  by_cases hn : IsTick n
  · rw [processBlock_of_tick hn]
    exact win_ingested hw
  · rw [processBlock_of_not_tick hn, win_ingested hw]

variable (x : String)

theorem get?_feeds_ingested : (t.ingested n block).feeds.get? x = if t.accepts block x then
        ((lastOf FeedOp.quote x block.ops).map fun q => Feed.mk x q n).or (t.feeds.get? x)
      else t.feeds.get? x := by
  rw [ingested, (ingests_ingestTransactionOps ..).feeds x, (recordWitnessBlock_frame _).1]
  rfl

theorem get?_witnessProps_ingested : (t.ingested n block).witnessProps.get? x =
      if t.accepts block x then
        ((lastOf FeedOp.rate x block.ops).map fun r => WitnessProperties.mk x r).or
          (t.witnessProps.get? x)
      else t.witnessProps.get? x := by
  rw [ingested, (ingests_ingestTransactionOps ..).props x, (recordWitnessBlock_frame _).2.1]
  rfl

theorem ma_ingested : (t.ingested n block).ma = t.ma := by
  rw [ingested, (ingests_ingestTransactionOps ..).ma, (recordWitnessBlock_frame _).2.2]

theorem get?_feeds_processBlock : (t.processBlock n block).feeds.get? x =
      if IsTick n then ((t.ingested n block).feeds.get? x).filter (Feed.fresh n)
      else (t.ingested n block).feeds.get? x := by
  by_cases hn : IsTick n
  · rw [processBlock_of_tick hn, if_pos hn]
    exact get?_feeds_evict ..
  · rw [processBlock_of_not_tick hn, if_neg hn]

theorem get?_witnessProps_processBlock : (t.processBlock n block).witnessProps.get? x =
      if IsTick n ∧ ((t.ingested n block).feeds.get? x).all (Feed.fresh n) = false then none
      else (t.ingested n block).witnessProps.get? x := by
  by_cases hn : IsTick n
  · rw [processBlock_of_tick hn]
    refine (get?_witnessProps_evict ..).trans ?_
    cases ((t.ingested n block).feeds.get? x).all (Feed.fresh n) <;> simp [hn]
  · rw [processBlock_of_not_tick hn, if_neg fun h => hn h.1]

def pushed (t : FeedTracker) (n : ℕ) (block : HiveBlock) : Option Int :=
  if IsTick n then (((t.ingested n block).evict n).trustedPrice n).filter (0 < ·) else none

theorem ma_processBlock : (t.processBlock n block).ma =
      (t.pushed n block).elim t.ma (Window.push defaultMovingAvgTicks t.ma) := by
  by_cases hn : IsTick n
  · have hma : (t.processBlock n block).ma =
        (((t.ingested n block).evict n).trustedPrice n).elim t.ma (pushPrice t.ma) := by
      have hold : ((t.ingested n block).evict n).ma = t.ma := ma_ingested
      rw [processBlock_of_tick hn, aggregate, hold]
    rw [hma, pushed, if_pos hn]
    cases ((t.ingested n block).evict n).trustedPrice n with
    | none => rfl
    | some v =>
      rw [filter_some, elim_some, pushPrice]
      by_cases hv : v ≤ 0
      · rw [if_pos hv, if_neg (by simpa using hv)]
        rfl
      · rw [if_neg hv, if_pos (by simpa using hv)]
        rfl
  · rw [processBlock_of_not_tick hn, ma_ingested, pushed, if_neg hn]
    rfl

theorem last_processBlock (hn : IsTick n) :
    (t.processBlock n block).last = (((t.ingested n block).evict n).aggregate n).last := by
  rw [processBlock_of_tick hn]

end FeedTracker

end VscNode.Pendulum
