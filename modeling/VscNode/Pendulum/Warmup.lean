import VscNode.Pendulum.FeedTracker

/-!
# Restarting the price feed

The tracker lives in memory. A node that starts again rebuilds it by replaying the
last `warmupDistanceBlocks` stored blocks and then follows the stream, which begins
with the last processed block: that block is delivered once more.

`Restartable` says when the rebuilt tracker comes to the ticks of one that never
stopped. The replay is long enough for the prices (`FeedTracker.Agree`), but the
second delivery counts the producer of the restart block twice for the next hundred
blocks, and a rate or a past price may be older than the replay.
-/

namespace VscNode.Pendulum

open Collection FeedOp FeedTracker List Nat Window

/-! ## Trackers that agree -/

structure FeedTracker.Agree (S : Set String) (t u : FeedTracker) : Prop where
  feeds : ∀ x, t.feeds.get? x = u.feeds.get? x
  props : ∀ x ∈ S, t.witnessProps.get? x = u.witnessProps.get? x
  ma : t.ma = u.ma

section

variable {S : Set String} {t u : FeedTracker} {n : ℕ} {block : HiveBlock}

variable {x : String}

theorem accepts_iff (hw : block.witness ≠ "") (hx : x ≠ "") :
    t.accepts block x = true ↔ x ∈ (t.processBlock n block).win := by
  rw [accepts, witnessIsActive_iff hx, recordWitnessBlock_win hw, win_processBlock hw]

theorem accepts_congr (hw : block.witness ≠ "")
    (h : x ∈ (t.processBlock n block).win ↔ x ∈ (u.processBlock n block).win) :
    t.accepts block x = u.accepts block x := by
  by_cases hx : x = ""
  · subst hx
    rfl
  · rw [Bool.eq_iff_iff, accepts_iff hw hx, accepts_iff hw hx, h]

theorem lastOf_of_accepts_ne {α : Type} (value : FeedOp → Option α)
    (hops : ∀ op ∈ block.ops, t.accepts block op.account = u.accepts block op.account)
    (hx : t.accepts block x ≠ u.accepts block x) : lastOf value x block.ops = none := by
  refine lastOf_eq_none fun op hop hacct => ?_
  subst hacct
  exact absurd (hops op hop) hx

section

variable (hops : ∀ op ∈ block.ops, t.accepts block op.account = u.accepts block op.account)

include hops

theorem get?_feeds_ingested_congr {x : String} (hx : t.feeds.get? x = u.feeds.get? x) :
    (t.ingested n block).feeds.get? x = (u.ingested n block).feeds.get? x := by
  rw [get?_feeds_ingested, get?_feeds_ingested, hx]
  by_cases hacc : t.accepts block x = u.accepts block x
  · rw [hacc]
  · rw [lastOf_of_accepts_ne _ hops hacc]
    simp

theorem get?_witnessProps_ingested_congr {x : String}
    (hx : t.witnessProps.get? x = u.witnessProps.get? x) :
    (t.ingested n block).witnessProps.get? x = (u.ingested n block).witnessProps.get? x := by
  rw [get?_witnessProps_ingested, get?_witnessProps_ingested, hx]
  by_cases hacc : t.accepts block x = u.accepts block x
  · rw [hacc]
  · rw [lastOf_of_accepts_ne _ hops hacc]
    simp

end

structure FeedTracker.SeeAlike (t u : FeedTracker) (n : ℕ) (block : HiveBlock) : Prop where
  active : ∀ op ∈ block.ops,
    op.account ∈ (t.processBlock n block).win ↔ op.account ∈ (u.processBlock n block).win
  counts : IsTick n → ∀ x, ((t.processBlock n block).feeds.get? x).isSome = true →
    (t.processBlock n block).win.count x = (u.processBlock n block).win.count x

theorem blocksProducedBy_congr (h : t.win.count x = u.win.count x) :
    t.blocksProducedBy x = u.blocksProducedBy x := by
  rw [blocksProducedBy, blocksProducedBy, h]

theorem FeedTracker.SeeAlike.blocks_evict (halike : SeeAlike t u n block) (hn : IsTick n)
    (x : String) (hx : (((t.ingested n block).evict n).feeds.get? x).isSome = true) :
    ((t.ingested n block).evict n).blocksProducedBy x =
      ((u.ingested n block).evict n).blocksProducedBy x := by
  have hcount := halike.counts hn x (by rwa [processBlock_of_tick hn])
  rw [processBlock_of_tick hn, processBlock_of_tick hn] at hcount
  exact blocksProducedBy_congr hcount

variable (hw : block.witness ≠ "") (hagree : Agree S t u) (halike : SeeAlike t u n block)

include hw hagree halike

theorem FeedTracker.Agree.feeds_ingested (x : String) :
    (t.ingested n block).feeds.get? x = (u.ingested n block).feeds.get? x :=
  get?_feeds_ingested_congr (fun op hop => accepts_congr hw (halike.active op hop)) (hagree.feeds x)

theorem FeedTracker.Agree.props_ingested (hx : x ∈ S) :
    (t.ingested n block).witnessProps.get? x = (u.ingested n block).witnessProps.get? x :=
  get?_witnessProps_ingested_congr (fun op hop => accepts_congr hw (halike.active op hop))
    (hagree.props x hx)

theorem FeedTracker.Agree.feeds_evict (x : String) :
    ((t.ingested n block).evict n).feeds.get? x = ((u.ingested n block).evict n).feeds.get? x := by
  rw [get?_feeds_evict, get?_feeds_evict, hagree.feeds_ingested hw halike]

theorem FeedTracker.Agree.pushed : t.pushed n block = u.pushed n block := by
  unfold FeedTracker.pushed
  split
  · rename_i hn
    rw [trustedPrice_congr (hagree.feeds_evict hw halike) (halike.blocks_evict hn)]
  · rfl

theorem FeedTracker.Agree.processBlock :
    Agree S (t.processBlock n block) (u.processBlock n block) where
  feeds x := by
    rw [get?_feeds_processBlock, get?_feeds_processBlock, hagree.feeds_ingested hw halike]
  props x hx := by
    rw [get?_witnessProps_processBlock, get?_witnessProps_processBlock,
      hagree.feeds_ingested hw halike, hagree.props_ingested hw halike hx]
  ma := by
    rw [ma_processBlock, ma_processBlock, hagree.pushed hw halike, hagree.ma]

theorem FeedTracker.Agree.last (hn : IsTick n)
    (hgroup : ∀ x ∈ (t.processBlock n block).last.trustedWitnessGroup, x ∈ S) :
    (t.processBlock n block).last = (u.processBlock n block).last := by
  rw [last_processBlock hn] at hgroup
  rw [last_processBlock hn, last_processBlock hn]
  refine aggregate_congr (hagree.feeds_evict hw halike) (halike.blocks_evict hn) ?_ ?_
  · exact ma_ingested.trans (hagree.ma.trans ma_ingested.symm)
  intro x hx
  rw [rateOf, rateOf, get?_witnessProps_evict, get?_witnessProps_evict,
    hagree.feeds_ingested hw halike, hagree.props_ingested hw halike (hgroup x hx)]

end

theorem agree_processBlock_again {t : FeedTracker} {n : ℕ} {block : HiveBlock}
    (hw : block.witness ≠ "") (hn : ¬IsTick n) :
    Agree Set.univ (t.processBlock n block) ((t.processBlock n block).processBlock n block) := by
  -- The second time no witness is accepted that was not the first time.
  have hacc : ∀ x, (t.processBlock n block).accepts block x = true → t.accepts block x = true := by
    intro x hx
    by_cases hempty : x = ""
    · subst hempty
      cases hx
    rw [accepts_iff (n := n) hw hempty, win_processBlock hw, push] at hx
    rw [accepts_iff (n := n) hw hempty]
    rcases mem_append.1 (mem_of_mem_drop hx) with hx | hx
    · exact hx
    rw [mem_singleton.1 hx, win_processBlock hw, push, windowWidth,
      rtake_concat_succ]
    exact mem_append_right _ mem_cons_self
  rw [processBlock_of_not_tick (t := t.processBlock n block) hn]
  refine ⟨fun x => ?_, fun x _ => ?_, ma_ingested.symm⟩
  · rw [get?_feeds_ingested]
    split
    · rename_i hx
      rw [processBlock_of_not_tick hn, get?_feeds_ingested, if_pos (hacc x hx)]
      cases lastOf FeedOp.quote x block.ops <;> rfl
    · rfl
  rw [get?_witnessProps_ingested]
  split
  · rename_i hx
    rw [processBlock_of_not_tick hn, get?_witnessProps_ingested, if_pos (hacc x hx)]
    cases lastOf rate x block.ops <;> rfl
  · rfl

theorem FeedTracker.Agree.trans {S : Set String} {t u v : FeedTracker} (htu : Agree S t u)
    (huv : Agree Set.univ u v) : Agree S t v where
  feeds x := (htu.feeds x).trans (huv.feeds x)
  props x hx := (htu.props x hx).trans (huv.props x trivial)
  ma := htu.ma.trans huv.ma

/-! ## A tracker that has seen less -/

structure FeedTracker.Shadows (c : ℕ) (t u : FeedTracker) : Prop where
  sub : ∀ x f, u.feeds.get? x = some f → t.feeds.get? x = some f
  recent : ∀ x f, t.feeds.get? x = some f → c ≤ f.lastFeedBlk → u.feeds.get? x = some f

section

variable {c n : ℕ} {t u : FeedTracker} {block : HiveBlock}

section

variable (hs : Shadows c t u)

include hs

theorem FeedTracker.Shadows.feeds_eq
    (hnew : ∀ x f, t.feeds.get? x = some f → c ≤ f.lastFeedBlk) (x : String) :
    t.feeds.get? x = u.feeds.get? x := by
  cases ht : t.feeds.get? x with
  | some f => rw [hs.recent x f ht (hnew x f ht)]
  | none =>
    cases hu : u.feeds.get? x with
    | none => rfl
    | some f => rw [hs.sub x f hu] at ht; cases ht

theorem FeedTracker.Shadows.ingested (hacc : ∀ x, t.accepts block x = u.accepts block x) :
    Shadows c (t.ingested n block) (u.ingested n block) := by
  refine ⟨fun x f hf => ?_, fun x f hf hc => ?_⟩
  · rw [get?_feeds_ingested, ← hacc] at hf
    rw [get?_feeds_ingested]
    cases hx : t.accepts block x <;> rw [hx] at hf
    · exact hs.sub x f hf
    cases hq : lastOf FeedOp.quote x block.ops <;> rw [hq] at hf
    · exact hs.sub x f hf
    · exact hf
  rw [get?_feeds_ingested] at hf
  rw [get?_feeds_ingested, ← hacc]
  cases hx : t.accepts block x <;> rw [hx] at hf
  · exact hs.recent x f hf hc
  cases hq : lastOf FeedOp.quote x block.ops <;> rw [hq] at hf
  · exact hs.recent x f hf hc
  · exact hf

theorem FeedTracker.Shadows.evict : Shadows c (t.evict n) (u.evict n) := by
  refine ⟨fun x f hf => ?_, fun x f hf hc => ?_⟩
  · rw [get?_feeds_evict, Option.filter_eq_some_iff] at hf ⊢
    exact ⟨hs.sub x f hf.1, hf.2⟩
  · rw [get?_feeds_evict, Option.filter_eq_some_iff] at hf ⊢
    exact ⟨hs.recent x f hf.1 hc, hf.2⟩

theorem FeedTracker.Shadows.processBlock (hacc : ∀ x, t.accepts block x = u.accepts block x) :
    Shadows c (t.processBlock n block) (u.processBlock n block) := by
  have hing : Shadows c (t.ingested n block) (u.ingested n block) := hs.ingested hacc
  by_cases hn : IsTick n
  · rw [processBlock_of_tick hn, processBlock_of_tick hn]
    exact ⟨hing.evict.sub, hing.evict.recent⟩
  · rwa [processBlock_of_not_tick hn, processBlock_of_not_tick hn]

/-- A tick that is late enough drops every feed that may be missing. -/
theorem FeedTracker.Shadows.feeds_evict (hn : c + feedFreshnessBlocks ≤ n + 1)
    (x : String) : (t.evict n).feeds.get? x = (u.evict n).feeds.get? x := by
  refine hs.evict.feeds_eq (fun x f hf => ?_) x
  rw [get?_feeds_evict, Option.filter_eq_some_iff] at hf
  have hfresh : n < f.lastFeedBlk + feedFreshnessBlocks := of_decide_eq_true hf.2
  omega

end

theorem accepts_of_win_eq (hwin : t.win = u.win) (x : String) :
    t.accepts block x = u.accepts block x := by
  refine witnessIsActive_eq ?_ x
  rw [recordWitnessBlock, recordWitnessBlock]
  split
  · exact hwin
  · rw [hwin]

theorem FeedTracker.Shadows.pushed (hs : Shadows c t u) (hwin : t.win = u.win)
    (hw : block.witness ≠ "") (hn : c + feedFreshnessBlocks ≤ n + 1) :
    t.pushed n block = u.pushed n block := by
  have hing : Shadows c (t.ingested n block) (u.ingested n block) :=
    hs.ingested (accepts_of_win_eq hwin)
  have hcount : ((t.ingested n block).evict n).win = ((u.ingested n block).evict n).win := by
    refine Eq.trans (win_ingested hw) (Eq.trans ?_ (win_ingested hw).symm)
    rw [hwin]
  rw [FeedTracker.pushed, FeedTracker.pushed,
    trustedPrice_congr (hing.feeds_evict hn) fun x _ => blocksProducedBy_congr (by rw [hcount])]

theorem FeedTracker.Shadows.props_processBlock (hs : Shadows c t u)
    (hacc : ∀ x, t.accepts block x = u.accepts block x) {x : String}
    (hprops : ∀ p, (t.ingested n block).witnessProps.get? x = some p →
      (u.ingested n block).witnessProps.get? x = some p) {p : WitnessProperties}
    (hp : (t.processBlock n block).witnessProps.get? x = some p) :
    (u.processBlock n block).witnessProps.get? x = some p := by
  have hing : Shadows c (t.ingested n block) (u.ingested n block) := hs.ingested hacc
  rw [get?_witnessProps_processBlock] at hp ⊢
  split at hp
  · cases hp
  rename_i hkept
  rw [if_neg]
  · exact hprops p hp
  rintro ⟨hn, hstale⟩
  rw [Option.all_eq_false] at hstale
  obtain ⟨f, hf, hold⟩ := hstale
  refine hkept ⟨hn, ?_⟩
  rw [hing.sub x f hf, Option.all_some, hold]

end

/-! ## Histories -/

structure L1History where
  block : ℕ → HiveBlock
  named : ∀ n, (block n).witness ≠ ""

def warmupDistanceBlocks : ℕ :=
  feedFreshnessBlocks + (defaultMovingAvgTicks + 2) * defaultTickIntervalBlocks

namespace L1History

variable (h : L1History)

def producer (n : ℕ) : String := (h.block n).witness

def deliver (t : FeedTracker) (start : ℕ) : ℕ → FeedTracker
  | 0 => t
  | k + 1 => (deliver t start k).processBlock (start + k) (h.block (start + k))

/-- The tracker that processes every block once. -/
def follow (n : ℕ) : FeedTracker := h.deliver .new 1 n

def warmupStart (head : ℕ) : ℕ :=
  if warmupDistanceBlocks < head then head - warmupDistanceBlocks + 1 else 1

def warmup (head : ℕ) : FeedTracker :=
  if head = 0 then .new else h.deliver .new (warmupStart head) (head + 1 - warmupStart head)

def restarted (head n : ℕ) : FeedTracker := h.deliver (h.warmup head) head (n + 1 - head)

theorem follow_succ (n : ℕ) :
    h.follow (n + 1) = (h.follow n).processBlock (n + 1) (h.block (n + 1)) := by
  rw [follow, deliver, add_comm 1 n]
  rfl

variable (t : FeedTracker)

variable (start k : ℕ)

theorem deliver_succ :
    h.deliver t start (k + 1) = (h.deliver t start k).processBlock (start + k) (h.block (start + k)) :=
  rfl

/-! ## Windows -/

def producers : List String := (List.range' start k).map h.producer

theorem producers_succ :
    h.producers start (k + 1) = h.producers start k ++ [h.producer (start + k)] := by
  rw [producers, range'_1_concat, map_append]
  rfl

@[simp] theorem length_producers : (h.producers start k).length = k := by
  rw [producers, length_map, length_range']

theorem producers_append (start j k : ℕ) :
    h.producers start j ++ h.producers (start + j) k = h.producers start (j + k) := by
  rw [producers, producers, ← map_append, range'_append_1]
  rfl

variable {x : String} {m : ℕ}

theorem mem_producers {start k : ℕ} :
    x ∈ h.producers start k ↔ ∃ m, start ≤ m ∧ m < start + k ∧ h.producer m = x := by
  simp only [producers, mem_map, mem_range'_1, and_assoc]

theorem rtake_producers (start k w : ℕ) :
    (h.producers start k).rtake w = h.producers (start + (k - w)) (k - (k - w)) := by
  rw [rtake, length_producers, producers, ← map_drop, drop_range', mul_one]
  rfl

theorem win_deliver (ht : t.win.length ≤ windowWidth) (start k : ℕ) :
    (h.deliver t start k).win = (t.win ++ h.producers start k).rtake windowWidth := by
  rw [← foldl_push _ ht]
  induction k with
  | zero => rfl
  | succ k ih =>
    rw [deliver_succ, win_processBlock (h.named _), producers_succ, foldl_concat, ih]
    rfl

theorem win_deliver_new (start k : ℕ) :
    (h.deliver .new start k).win = (h.producers start k).rtake windowWidth :=
  h.win_deliver .new (zero_le _) start k

theorem win_follow (n : ℕ) : (h.follow n).win = (h.producers 1 n).rtake windowWidth :=
  h.win_deliver_new 1 n

/-! ## The replay -/

theorem two_le_windowWidth : 2 ≤ windowWidth := by decide

def replay (start n : ℕ) : FeedTracker := h.deliver .new start (n + 1 - start)

variable {h} {start n : ℕ}

theorem follow_eq_replay : h.follow n = h.replay 1 n := rfl

theorem deliver_upTo (hn : start ≤ n + 1) : h.deliver t start (n + 1 + 1 - start) =
      (h.deliver t start (n + 1 - start)).processBlock (n + 1) (h.block (n + 1)) := by
  have hcount : n + 1 + 1 - start = (n + 1 - start) + 1 := by omega
  have hlast : start + (n + 1 - start) = n + 1 := by omega
  rw [hcount, deliver_succ, hlast]

theorem replay_succ (hn : start ≤ n + 1) :
    h.replay start (n + 1) = (h.replay start n).processBlock (n + 1) (h.block (n + 1)) :=
  deliver_upTo _ hn

theorem mem_win_replay : x ∈ (h.replay start n).win ↔
      ∃ m, start ≤ m ∧ m ≤ n ∧ n < m + windowWidth ∧ h.producer m = x := by
  rw [replay, win_deliver_new, rtake_producers, mem_producers]
  refine exists_congr fun m => ?_
  simp only [← and_assoc]
  refine and_congr_left fun _ => ?_
  simp only [windowWidth]
  omega

theorem mem_win_follow :
    x ∈ (h.follow n).win ↔ ∃ m, 1 ≤ m ∧ m ≤ n ∧ n < m + windowWidth ∧ h.producer m = x :=
  mem_win_replay

theorem win_replay_eq (hstart : 1 ≤ start) (hn : start + windowWidth ≤ n + 1) :
    (h.follow n).win = (h.replay start n).win := by
  rw [win_follow, replay, win_deliver_new, rtake_producers, rtake_producers]
  congr 1 <;> omega

theorem lastFeedBlk_le_follow {f : Feed} (hf : (h.follow n).feeds.get? x = some f) :
    f.lastFeedBlk ≤ n := by
  induction n generalizing f with
  | zero => cases hf
  | succ n ih =>
    rw [follow_succ, get?_feeds_processBlock] at hf
    have hing : ((h.follow n).ingested (n + 1) (h.block (n + 1))).feeds.get? x = some f := by
      split at hf
      · exact (Option.filter_eq_some_iff.1 hf).1
      · exact hf
    rw [get?_feeds_ingested] at hing
    split at hing
    · cases hq : lastOf FeedOp.quote x (h.block (n + 1)).ops <;> rw [hq] at hing
      · exact (ih hing).trans n.le_succ
      · cases hing
        exact le_rfl
    · exact (ih hing).trans n.le_succ

theorem replay_self (hstart : 1 ≤ start) : h.replay start (start - 1) = .new := by
  rw [replay, Nat.sub_add_cancel hstart, Nat.sub_self]
  rfl

theorem win_replay_subset (hstart : 1 ≤ start) (hx : x ∈ (h.replay start n).win) :
    x ∈ (h.follow n).win := by
  obtain ⟨m, hm, hrest⟩ := mem_win_replay.1 hx
  exact mem_win_follow.2 ⟨m, hstart.trans hm, hrest⟩

theorem ne_empty_of_mem_win (hx : x ∈ (h.replay start n).win) : x ≠ "" := by
  obtain ⟨m, -, -, -, rfl⟩ := mem_win_replay.1 hx
  exact h.named m

section

variable (hstart : 1 ≤ start)
include hstart

theorem feeds_of_replay (hn : start ≤ n + 1) (hfill : n + 1 < start + windowWidth) {f : Feed}
    (hf : (h.replay start n).feeds.get? x = some f) :
    (h.follow n).feeds.get? x = some f ∧ x ∈ (h.replay start n).win := by
  obtain ⟨s, rfl⟩ : ∃ s, start = s + 1 := ⟨start - 1, by omega⟩
  rw [add_le_add_iff_right] at hn
  induction n, hn using le_induction generalizing f with
  | base =>
    have hnew : h.replay (s + 1) s = .new := replay_self hstart
    rw [hnew] at hf
    cases hf
  | succ n hn ih =>
    rw [replay_succ (by omega)] at hf ⊢
    rw [follow_succ]
    have hfull : ∀ x ∈ (h.replay (s + 1) n).win,
        x ∈ ((h.replay (s + 1) n).processBlock (n + 1) (h.block (n + 1))).win := by
      intro x hx
      rw [← replay_succ (by omega)]
      obtain ⟨m, hm, hmn, -, hprod⟩ := mem_win_replay.1 hx
      exact mem_win_replay.2 ⟨m, hm, by omega, by omega, hprod⟩
    have hsub : ∀ x ∈ ((h.replay (s + 1) n).processBlock (n + 1) (h.block (n + 1))).win,
        x ≠ "" ∧ x ∈ ((h.follow n).processBlock (n + 1) (h.block (n + 1))).win := by
      intro x hx
      rw [← replay_succ (by omega)] at hx
      rw [← follow_succ]
      exact ⟨ne_empty_of_mem_win hx, win_replay_subset hstart hx⟩
    -- What the replay has after the operations, the other tracker has too.
    have hing :
        ∀ f, ((h.replay (s + 1) n).ingested (n + 1) (h.block (n + 1))).feeds.get? x = some f →
        ((h.follow n).ingested (n + 1) (h.block (n + 1))).feeds.get? x = some f ∧
          x ∈ ((h.replay (s + 1) n).processBlock (n + 1) (h.block (n + 1))).win := by
      intro f hf
      rw [get?_feeds_ingested] at hf
      by_cases hacc : x ∈ ((h.replay (s + 1) n).processBlock (n + 1) (h.block (n + 1))).win
      · obtain ⟨hx, hfollow⟩ := hsub x hacc
        rw [if_pos ((accepts_iff (h.named _) hx).2 hacc)] at hf
        rw [get?_feeds_ingested, if_pos ((accepts_iff (h.named _) hx).2 hfollow)]
        refine ⟨?_, hacc⟩
        cases hq : lastOf FeedOp.quote x (h.block (n + 1)).ops <;> rw [hq] at hf
        · exact (ih (by omega) hf).1
        · exact hf
      have hold : (h.replay (s + 1) n).feeds.get? x = some f := by
        split at hf
        · rename_i hact
          by_cases hx : x = ""
          · subst hx
            cases hact
          · exact absurd ((accepts_iff (h.named _) hx).1 hact) hacc
        · exact hf
      exact absurd (hfull x (ih (by omega) hold).2) hacc
    rw [get?_feeds_processBlock] at hf ⊢
    split at hf
    · obtain ⟨hf, hfresh⟩ := Option.filter_eq_some_iff.1 hf
      rw [if_pos ‹_›]
      exact ⟨Option.filter_eq_some_iff.2 ⟨(hing f hf).1, hfresh⟩, (hing f hf).2⟩
    · rw [if_neg ‹_›]
      exact hing f hf

theorem accepts_replay (hn : start + windowWidth ≤ n + 2) (x : String) :
    (h.follow n).accepts (h.block (n + 1)) x = (h.replay start n).accepts (h.block (n + 1)) x := by
  refine accepts_congr (n := n + 1) (h.named _) ?_
  rw [← follow_succ, ← replay_succ (by have := two_le_windowWidth; omega),
    win_replay_eq hstart (by omega)]

theorem shadows_replay (hn : start + windowWidth ≤ n + 2) :
    Shadows (start + windowWidth - 1) (h.follow n) (h.replay start n) := by
  obtain ⟨m, hm⟩ : ∃ m, m + 2 = start + windowWidth := ⟨start + windowWidth - 2, by
    have := two_le_windowWidth
    omega⟩
  have hmn : m ≤ n := by omega
  induction n, hmn using le_induction with
  | base =>
    refine ⟨fun x f hf => (feeds_of_replay hstart ?_ ?_ hf).1, fun x f hf hc => ?_⟩
    · have := two_le_windowWidth
      omega
    · omega
    · have hle := lastFeedBlk_le_follow hf
      omega
  | succ n hmn ih =>
    have hs := ih (by omega)
    rw [follow_succ, replay_succ (by have := two_le_windowWidth; omega)]
    exact hs.processBlock (accepts_replay hstart (by omega))

theorem feeds_replay_eq (htick : IsTick m) (hm : start + windowWidth + feedFreshnessBlocks ≤ m + 2)
    (hmn : m ≤ n) (x : String) : (h.follow n).feeds.get? x = (h.replay start n).feeds.get? x := by
  have hpos : 1 ≤ m := pos_of_ne_zero htick.1
  have hwidth := two_le_windowWidth
  induction n, hmn using le_induction with
  | base =>
    obtain ⟨k, rfl⟩ : ∃ k, m = k + 1 := ⟨m - 1, by omega⟩
    have hfull : start + windowWidth ≤ k + 2 := by simp only [feedFreshnessBlocks] at hm; omega
    have hs : Shadows _ ((h.follow k).ingested (k + 1) (h.block (k + 1)))
        ((h.replay start k).ingested (k + 1) (h.block (k + 1))) :=
      (shadows_replay hstart hfull).ingested (accepts_replay hstart hfull)
    rw [follow_succ, replay_succ (by omega), processBlock_of_tick htick, processBlock_of_tick htick]
    exact hs.feeds_evict (by omega) x
  | succ n hmn ih =>
    have hfull : start + windowWidth ≤ n + 2 := by omega
    rw [follow_succ, replay_succ (by omega), get?_feeds_processBlock, get?_feeds_processBlock,
      get?_feeds_ingested_congr (fun op _ => accepts_replay hstart hfull op.account) ih]

end

/-! ### Prices of the replay -/

variable (h) in
def pushes (t : FeedTracker) (start : ℕ) : ℕ → List Int
  | 0 => []
  | k + 1 => pushes t start k ++
      ((h.deliver t start k).pushed (start + k) (h.block (start + k))).toList

theorem ma_deliver (ht : t.ma.length ≤ defaultMovingAvgTicks) (k : ℕ) :
    (h.deliver t start k).ma = (t.ma ++ h.pushes t start k).rtake defaultMovingAvgTicks := by
  rw [← foldl_push _ ht]
  induction k with
  | zero => rfl
  | succ k ih =>
    rw [deliver_succ, ma_processBlock, ih, pushes, foldl_append]
    cases (h.deliver t start k).pushed (start + k) (h.block (start + k)) <;> rfl

theorem deliver_add (j k : ℕ) :
    h.deliver t start (j + k) = h.deliver (h.deliver t start j) (start + j) k := by
  induction k with
  | zero => rfl
  | succ k ih => rw [← add_assoc, deliver_succ, deliver_succ, ih, add_assoc]

theorem replay_eq_deliver (hm : start ≤ m + 1) (hmn : m ≤ n) :
    h.replay start n = h.deliver (h.replay start m) (m + 1) (n - m) := by
  have hcount : n + 1 - start = (m + 1 - start) + (n - m) := by omega
  have hnext : start + (m + 1 - start) = m + 1 := by omega
  rw [replay, hcount, deliver_add, hnext]
  rfl

theorem length_ma_replay : (h.replay start n).ma.length ≤ defaultMovingAvgTicks := by
  rw [replay, ma_deliver .new (zero_le _), rtake, length_drop]
  omega

theorem pushes_replay (hstart : 1 ≤ start)
    (hm : start + windowWidth + feedFreshnessBlocks ≤ m + 3) (k : ℕ) :
    h.pushes (h.follow m) (m + 1) k = h.pushes (h.replay start m) (m + 1) k := by
  induction k with
  | zero => rfl
  | succ k ih =>
    have hfollow : h.deliver (h.follow m) (m + 1) k = h.follow (m + k) := by
      rw [follow_eq_replay, follow_eq_replay,
        replay_eq_deliver (m := m) (n := m + k) (by omega) (by omega),
        Nat.add_sub_cancel_left]
    have hreplay : h.deliver (h.replay start m) (m + 1) k = h.replay start (m + k) := by
      rw [replay_eq_deliver (m := m) (n := m + k)
        (by simp only [windowWidth, feedFreshnessBlocks] at hm; omega) (by omega),
        Nat.add_sub_cancel_left]
    have hfull : start + windowWidth ≤ m + k + 1 := by
      simp only [feedFreshnessBlocks] at hm
      omega
    have hs := shadows_replay (h := h) (n := m + k) hstart (by omega)
    rw [pushes, pushes, ih, hfollow, hreplay,
      hs.pushed (win_replay_eq hstart hfull) (h.named _) (by omega)]

/-! ### Rates of the replay -/

variable (h) in
def PublishesRate (x : String) (n : ℕ) : Prop :=
  x ∈ (h.follow n).win ∧ ∃ op ∈ (h.block n).ops, op.account = x ∧ op.rate.isSome = true

theorem lastOf_rate_eq_none (hx : x ∈ (h.follow n).win) (hnot : ¬h.PublishesRate x n) :
    lastOf rate x (h.block n).ops = none := by
  refine lastOf_eq_none fun op hop hacct => ?_
  by_contra hrate
  exact hnot ⟨hx, op, hop, hacct, Option.isSome_iff_ne_none.2 hrate⟩

theorem props_replay_eq_none (hstart : 1 ≤ start) (hn : start ≤ n + 1)
    (hnot : ∀ m, start ≤ m → m ≤ n → ¬h.PublishesRate x m) :
    (h.replay start n).witnessProps.get? x = none := by
  obtain ⟨s, rfl⟩ : ∃ s, start = s + 1 := ⟨start - 1, by omega⟩
  rw [add_le_add_iff_right] at hn
  induction n, hn using le_induction with
  | base =>
    have hnew : h.replay (s + 1) s = .new := replay_self hstart
    rw [hnew]
    rfl
  | succ n hn ih =>
    have hold := ih fun m hm hmn => hnot m hm (by omega)
    rw [replay_succ (by omega), get?_witnessProps_processBlock, get?_witnessProps_ingested, hold]
    split
    · rfl
    split
    · rename_i hacc
      by_cases hx : x = ""
      · subst hx
        cases hacc
      have hwin := (accepts_iff (n := n + 1) (h.named _) hx).1 hacc
      rw [← replay_succ (by omega)] at hwin
      rw [lastOf_rate_eq_none (win_replay_subset hstart hwin) (hnot _ (by omega) le_rfl)]
      rfl
    · rfl

theorem props_replay_of_publishesRate (hstart : 1 ≤ start) (hm : start + windowWidth ≤ m + 1)
    (hpub : h.PublishesRate x m) (hmn : m ≤ n) {p : WitnessProperties}
    (hp : (h.follow n).witnessProps.get? x = some p) :
    (h.replay start n).witnessProps.get? x = some p := by
  induction n, hmn using le_induction generalizing p with
  | base =>
    obtain ⟨k, rfl⟩ : ∃ k, m = k + 1 := ⟨m - 1, by have := two_le_windowWidth; omega⟩
    rw [follow_succ] at hp
    rw [replay_succ (by have := two_le_windowWidth; omega)]
    refine (shadows_replay hstart (by omega)).props_processBlock
      (accepts_replay hstart (by omega)) (fun p hp => ?_) hp
    -- Both trackers take the rate of this block.
    obtain ⟨hwin, op, hop, hacct, hrate⟩ := hpub
    have hx : x ≠ "" := ne_empty_of_mem_win hwin
    have hacc : (h.follow k).accepts (h.block (k + 1)) x = true := by
      rw [accepts_iff (n := k + 1) (h.named _) hx, ← follow_succ]
      exact hwin
    obtain ⟨r, hr⟩ := Option.isSome_iff_exists.1 (isSome_lastOf hop hacct hrate)
    rw [get?_witnessProps_ingested, hacc, hr] at hp
    rw [get?_witnessProps_ingested, ← accepts_replay hstart (by omega), hacc, hr]
    exact hp
  | succ n hmn ih =>
    rw [follow_succ] at hp
    rw [replay_succ (by have := two_le_windowWidth; omega)]
    refine (shadows_replay hstart (by omega)).props_processBlock
      (accepts_replay hstart (by omega)) (fun p hp => ?_) hp
    rw [get?_witnessProps_ingested] at hp ⊢
    rw [← accepts_replay hstart (by omega)]
    cases hacc : (h.follow n).accepts (h.block (n + 1)) x <;> rw [hacc] at hp
    · exact ih hp
    cases hr : lastOf rate x (h.block (n + 1)).ops <;> rw [hr] at hp
    · exact ih hp
    · exact hp

/-! ## After the restart -/

variable {head : ℕ}

theorem warmupStart_le (hhead : 0 < head) : 1 ≤ warmupStart head ∧ warmupStart head ≤ head := by
  unfold warmupStart
  split <;> simp only [warmupDistanceBlocks, feedFreshnessBlocks, defaultMovingAvgTicks,
    defaultTickIntervalBlocks] at * <;> omega

theorem warmup_eq (hhead : 0 < head) :
    h.warmup head = h.deliver .new (warmupStart head) (head + 1 - warmupStart head) :=
  if_neg hhead.ne'

theorem restarted_self :
    h.restarted head head = (h.warmup head).processBlock head (h.block head) := by
  rw [restarted, Nat.add_sub_cancel_left]
  rfl

theorem restarted_succ (hn : head ≤ n) :
    h.restarted head (n + 1) = (h.restarted head n).processBlock (n + 1) (h.block (n + 1)) :=
  deliver_upTo _ (hn.trans n.le_succ)

section

variable (hhead : 0 < head)
include hhead

theorem win_restarted :
    (h.restarted head n).win =
      (h.producers (warmupStart head) (head + 1 - warmupStart head) ++
        h.producers head (n + 1 - head)).rtake windowWidth := by
  have hlen : (h.warmup head).win.length ≤ windowWidth := by
    rw [warmup_eq hhead, win_deliver_new, rtake_producers, length_producers]
    omega
  rw [restarted, win_deliver _ _ hlen, warmup_eq hhead, win_deliver_new, rtake_rtake_append]

theorem mem_win_restarted (hn : head < n) :
    x ∈ (h.restarted head n).win ↔
      ∃ m, warmupStart head ≤ m ∧ m ≤ n ∧
        (n + 1 < m + windowWidth ∨ (head ≤ m ∧ n < m + windowWidth)) ∧ h.producer m = x := by
  obtain ⟨hpos, hle⟩ := warmupStart_le hhead
  rw [win_restarted hhead, rtake_append, mem_append, length_producers, rtake_producers,
    rtake_producers, mem_producers, mem_producers, ← exists_or]
  refine exists_congr fun m => ?_
  simp only [← and_assoc, ← or_and_right]
  refine and_congr_left fun _ => ?_
  simp only [windowWidth]
  omega

theorem win_restarted_of_le (hn : head + windowWidth ≤ n + 1) :
    (h.restarted head n).win = (h.follow n).win := by
  have hfull : windowWidth ≤ (h.producers head (n + 1 - head)).length := by
    rw [length_producers]
    omega
  rw [win_restarted hhead, rtake_append_of_le hfull, win_follow, rtake_producers,
    rtake_producers]
  congr 1 <;> omega

theorem count_win_restarted (hn : head < n) (hfull : windowWidth ≤ n)
    (hlt : n + 1 < head + windowWidth) (x : String) :
    (h.restarted head n).win.count x + [h.producer (n + 1 - windowWidth)].count x =
      (h.follow n).win.count x + [h.producer head].count x := by
  obtain ⟨hpos, hle⟩ := warmupStart_le hhead
  -- The blocks both windows hold begin at `a`.
  obtain ⟨a, ha⟩ : ∃ a, n + 2 = a + windowWidth := ⟨n + 2 - windowWidth, by omega⟩
  have hstart : warmupStart head ≤ a := by
    unfold warmupStart
    split <;> simp only [warmupDistanceBlocks, feedFreshnessBlocks, defaultMovingAvgTicks,
      defaultTickIntervalBlocks, windowWidth] at * <;> omega
  have hcommon : h.producers a (head - a) ++ h.producers head (n + 1 - head) =
      h.producers a (n + 1 - a) := by
    have happend := h.producers_append a (head - a) (n + 1 - head)
    rwa [show a + (head - a) = head by omega,
      show head - a + (n + 1 - head) = n + 1 - a by omega] at happend
  have hrestarted : (h.restarted head n).win =
      h.producers a (head - a) ++ [h.producer head] ++ h.producers head (n + 1 - head) := by
    have hlast := h.producers_succ a (head - a)
    rw [show a + (head - a) = head by omega] at hlast
    rw [win_restarted hhead, rtake_append, length_producers, rtake_producers,
      rtake_producers, ← hlast]
    congr 2 <;> omega
  have hfollow : (h.follow n).win =
      [h.producer (n + 1 - windowWidth)] ++ h.producers a (n + 1 - a) := by
    have hfirst := h.producers_append (n + 1 - windowWidth) 1 (n + 1 - a)
    rw [show n + 1 - windowWidth + 1 = a by omega] at hfirst
    rw [win_follow, rtake_producers,
      show [h.producer (n + 1 - windowWidth)] = h.producers (n + 1 - windowWidth) 1 from rfl, hfirst]
    congr 1 <;> omega
  rw [hrestarted, hfollow, ← hcommon]
  simp only [count_append]
  omega

end

/-! ## Restartable heights -/

def nextTick (head : ℕ) : ℕ :=
  (head / defaultTickIntervalBlocks + 1) * defaultTickIntervalBlocks

/-- The last blocks of a replay, whose ticks see every feed they need. -/
def settledBlocks : ℕ := warmupDistanceBlocks + 2 - feedFreshnessBlocks - windowWidth

variable (h)

def RateReplayed (head : ℕ) (x : String) : Prop :=
  if ((h.follow head).witnessProps.get? x).isSome then
    ∃ m, warmupStart head + windowWidth ≤ m + 1 ∧ m ≤ head ∧ h.PublishesRate x m
  else ∀ m, warmupStart head ≤ m → m ≤ head → ¬h.PublishesRate x m

def laterTrusted (head : ℕ) : Set String :=
  {x | ∃ n, head < n ∧ IsTick n ∧ x ∈ (h.follow n).last.trustedWitnessGroup}

structure Restartable (head : ℕ) : Prop where
  pos : 0 < head
  /-- The block that is delivered twice is not a tick. -/
  not_tick : ¬IsTick head
  /-- At the next tick the counts that differ are one witness's, or of no account. -/
  standing : h.producer head = h.producer (nextTick head + 1 - windowWidth) ∨
    ∀ x, x = h.producer head ∨ x = h.producer (nextTick head + 1 - windowWidth) →
      (h.follow (nextTick head)).feeds.get? x = none
  /-- No witness publishes that is active only by the block that is missing. -/
  active : ∀ n, head < n → n + 1 < head + windowWidth → windowWidth ≤ n →
    ∀ op ∈ (h.block n).ops, op.account = h.producer (n + 1 - windowWidth) →
      ∃ m, n + 1 - windowWidth < m ∧ m ≤ n ∧ h.producer m = op.account
  /-- The past prices are recent. -/
  prices : warmupDistanceBlocks < head → defaultMovingAvgTicks ≤
    (h.pushes (h.follow (head - settledBlocks)) (head - settledBlocks + 1) settledBlocks).length
  rates : warmupDistanceBlocks < head → ∀ x ∈ h.laterTrusted head, h.RateReplayed head x

variable {h}

theorem warmup_eq_replay (hhead : 0 < head) : h.warmup head = h.replay (warmupStart head) head :=
  warmup_eq hhead

theorem ma_replay_eq (hstart : 1 ≤ start) (hmn : m ≤ n)
    (hm : start + windowWidth + feedFreshnessBlocks ≤ m + 3)
    (hpushes : defaultMovingAvgTicks ≤ (h.pushes (h.follow m) (m + 1) (n - m)).length) :
    (h.follow n).ma = (h.replay start n).ma := by
  have hstart' : start ≤ m + 1 := by
    simp only [windowWidth, feedFreshnessBlocks] at hm
    omega
  rw [follow_eq_replay, replay_eq_deliver (by omega) hmn,
    replay_eq_deliver hstart' hmn, ma_deliver _ length_ma_replay, ma_deliver _ length_ma_replay,
    ← pushes_replay hstart hm, ← follow_eq_replay, rtake_append_of_le hpushes,
    rtake_append_of_le hpushes]

section

variable (hr : h.Restartable head)

include hr

/-- The replay rebuilds the tracker. -/
theorem Restartable.agree_warmup : Agree (h.laterTrusted head) (h.follow head) (h.warmup head) := by
  rw [warmup_eq_replay hr.pos]
  by_cases hlong : warmupDistanceBlocks < head
  · have hstart : warmupStart head = head - warmupDistanceBlocks + 1 := if_pos hlong
    have hconst : warmupDistanceBlocks = 1700 ∧ settledBlocks = 402 ∧ windowWidth = 100 ∧
        feedFreshnessBlocks = 1200 := by decide
    obtain ⟨hdist, hsettled, hwidth, hfresh⟩ := hconst
    have hprices := hr.prices hlong
    have hcount : head - (head - settledBlocks) = settledBlocks := by omega
    refine ⟨fun x => ?_, fun x hx => ?_, ?_⟩
    · refine feeds_replay_eq (m := head / 100 * 100) (by omega) ⟨by omega, ?_⟩ (by omega)
        (by omega) x
      exact mul_mod_left ..
    · have hrate := hr.rates hlong x hx
      unfold RateReplayed at hrate
      cases hp : (h.follow head).witnessProps.get? x with
      | some p =>
        rw [hp, Option.isSome_some, if_pos rfl] at hrate
        obtain ⟨m, hm, hmn, hpub⟩ := hrate
        rw [props_replay_of_publishesRate (by omega) hm hpub hmn hp]
      | none =>
        rw [hp, if_neg (by simp)] at hrate
        rw [props_replay_eq_none (by omega) (by omega) hrate]
    · refine ma_replay_eq (m := head - settledBlocks) (by omega) (by omega) (by omega) ?_
      rwa [hcount]
  have hstart : warmupStart head = 1 := if_neg hlong
  rw [hstart]
  exact ⟨fun _ => rfl, fun _ _ => rfl, rfl⟩

theorem Restartable.agree_self :
    Agree (h.laterTrusted head) (h.follow head) (h.restarted head head) := by
  obtain ⟨hpos, hle⟩ := warmupStart_le hr.pos
  obtain ⟨k, hk⟩ : ∃ k, head = k + 1 := ⟨head - 1, by have := hr.pos; omega⟩
  have hlast : h.warmup head = (h.replay (warmupStart head) k).processBlock head (h.block head) := by
    rw [warmup_eq_replay hr.pos]
    nth_rewrite 2 [hk]
    rw [replay_succ (by omega), ← hk]
  refine hr.agree_warmup.trans ?_
  rw [restarted_self, hlast]
  exact agree_processBlock_again (h.named _) hr.not_tick

theorem Restartable.seeAlike (hn : head ≤ n) :
    SeeAlike (h.follow n) (h.restarted head n) (n + 1) (h.block (n + 1)) := by
  have hpos := hr.pos
  have hwidth : windowWidth = 100 := rfl
  have hstart : warmupStart head = 1 ∨ warmupStart head + 1699 = head := by
    have hdist : warmupDistanceBlocks = 1700 := rfl
    unfold warmupStart
    split
    · exact .inr (by omega)
    · exact .inl rfl
  refine ⟨fun op hop => ?_, fun htick x hx => ?_⟩
  · rw [← follow_succ, ← restarted_succ hn, mem_win_follow, mem_win_restarted hpos (by omega)]
    constructor
    · rintro ⟨m, hm, hmn, hmw, hprod⟩
      by_cases holdest : m + windowWidth = n + 2 ∧ n + 2 < head + windowWidth
      · have hm' : n + 1 + 1 - windowWidth = m := by omega
        obtain ⟨m', hlt, hle, hprod'⟩ := hr.active (n + 1) (by omega) (by omega) (by omega) op hop
          (by rw [hm', hprod])
        exact ⟨m', by omega, hle, by omega, hprod'⟩
      · exact ⟨m, by omega, hmn, by omega, hprod⟩
    · rintro ⟨m, hm, hmn, hmw, hprod⟩
      exact ⟨m, by omega, hmn, by omega, hprod⟩
  rw [← follow_succ] at hx
  rw [← follow_succ, ← restarted_succ hn]
  by_cases hfar : head + windowWidth ≤ n + 1 + 1
  · rw [win_restarted_of_le hpos hfar]
  have hnext : nextTick head = n + 1 := by
    have hmod := htick.2
    simp only [nextTick, defaultTickIntervalBlocks] at hmod ⊢
    omega
  have hfull : windowWidth ≤ n + 1 := by
    have hmod := htick.2
    simp only [defaultTickIntervalBlocks] at hmod
    omega
  have hcount := count_win_restarted (h := h) hpos (by omega) hfull (by omega) x
  have hstanding := hr.standing
  rw [hnext] at hstanding
  rcases hstanding with hsame | hnone
  · rw [hsame] at hcount
    omega
  -- The two witnesses whose counts differ have no feed.
  have hne : ∀ y, y = h.producer head ∨ y = h.producer (n + 1 + 1 - windowWidth) →
      [y].count x = 0 := by
    intro y hy
    rw [count_eq_zero, mem_singleton]
    rintro rfl
    rw [hnone x hy] at hx
    cases hx
  rw [hne _ (.inl rfl), hne _ (.inr rfl)] at hcount
  omega

theorem Restartable.agree (hn : head ≤ n) :
    Agree (h.laterTrusted head) (h.follow n) (h.restarted head n) := by
  induction n, hn using le_induction with
  | base => exact hr.agree_self
  | succ n hn ih =>
    rw [follow_succ, restarted_succ hn]
    exact ih.processBlock (h.named _) (hr.seeAlike hn)

end

/-- After a restart at such a height the tracker comes to the ticks of one that never
stopped, and finds the same witnesses diverging. -/
theorem restarted_agrees (hr : h.Restartable head) (hn : head < n) (htick : IsTick n) :
    (h.restarted head n).last = (h.follow n).last ∧
      ∀ thresholdBps, (h.restarted head n).divergingTrustedWitnesses thresholdBps =
        (h.follow n).divergingTrustedWitnesses thresholdBps := by
  obtain ⟨k, rfl⟩ : ∃ k, n = k + 1 := ⟨n - 1, by omega⟩
  have hgroup : ∀ x ∈ (h.follow (k + 1)).last.trustedWitnessGroup, x ∈ h.laterTrusted head :=
    fun x hx => ⟨k + 1, hn, htick, hx⟩
  have hlast : (h.follow (k + 1)).last = (h.restarted head (k + 1)).last := by
    rw [follow_succ] at hgroup ⊢
    rw [restarted_succ (by omega)]
    exact (hr.agree (by omega)).last (h.named _) (hr.seeAlike (by omega)) htick hgroup
  exact ⟨hlast.symm, divergingTrustedWitnesses_congr hlast.symm fun x =>
    ((hr.agree hn.le).feeds x).symm⟩

def steady : L1History where
  block _ := { witness := "alice", ops := [.feedPublish "alice" (some ⟨250, 1000⟩)] }
  named _ := by decide

theorem restartable_steady : steady.Restartable 150 := by
  have hshort : ¬warmupDistanceBlocks < 150 := by
    have hdist : warmupDistanceBlocks = 1700 := rfl
    omega
  constructor
  case pos => decide
  case not_tick => decide
  case standing =>
    left
    rfl
  case active =>
    intro n _ _ hn op hop _
    refine ⟨n, by simp only [windowWidth] at hn ⊢; omega, le_rfl, ?_⟩
    rw [mem_singleton.1 hop]
    rfl
  case prices =>
    intro hlong
    exact (hshort hlong).elim
  case rates =>
    intro hlong
    exact (hshort hlong).elim

theorem restarted_agrees_steady : (steady.restarted 150 200).last = (steady.follow 200).last ∧
      ∀ thresholdBps, (steady.restarted 150 200).divergingTrustedWitnesses thresholdBps =
        (steady.follow 200).divergingTrustedWitnesses thresholdBps :=
  restarted_agrees restartable_steady (by decide) (by decide)

/-- A witness that has produced three of the first hundred blocks, the last of them at
height 50. -/
def thrice : L1History where
  block n :=
    if n = 10 ∨ n = 20 ∨ n = 50 then
      { witness := "bob", ops := [.feedPublish "bob" (some ⟨250, 1000⟩)] }
    else { witness := "carol", ops := [] }
  named n := by split <;> decide

/-- Restarted at 50, the tracker counts a fourth block and takes the witness's price, which
is not trusted otherwise. -/
theorem restarted_thrice : (thrice.follow 100).last.trustedHivePriceBps = none ∧
      (thrice.follow 100).last.trustedWitnessGroup = [] ∧
      (thrice.restarted 50 100).last.trustedHivePriceBps = some 2500 ∧
      (thrice.restarted 50 100).last.trustedWitnessGroup = ["bob"] := by
  decide +kernel

end L1History

end VscNode.Pendulum
