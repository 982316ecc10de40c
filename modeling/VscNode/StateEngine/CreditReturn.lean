import Mathlib.Algebra.BigOperators.Ring.List
import Mathlib.Algebra.Order.Field.Basic
import VscNode.StateEngine.ResourceCredits

/-!
# How credits come back

A record holds all that an account has frozen under one height, and each slot in which
the account uses credits moves that height on. What is frozen is still no less than if
every use had come back on its own, linearly over the return period
(`credits_return_linearly`): two decays one after the other leave more than one over
the whole time.
-/

namespace VscNode

open Collection List RcDb

/-- What is left of a unit that comes back linearly. -/
def decay (elapsed : ℕ) : ℚ := max 0 (1 - elapsed / rcReturnPeriod)

theorem one_sub_add_le {x y : ℚ} (hx : 0 ≤ x) (hy : 0 ≤ y) :
    1 - (x + y) ≤ max 0 (1 - x) * max 0 (1 - y) := by
  by_cases h : x ≤ 1 ∧ y ≤ 1
  · rw [max_eq_right (sub_nonneg.2 h.1), max_eq_right (sub_nonneg.2 h.2)]
    nlinarith [mul_nonneg hx hy]
  · refine le_trans ?_ (mul_nonneg (le_max_left 0 (1 - x)) (le_max_left 0 (1 - y)))
    rcases not_and_or.1 h with h | h <;> linarith

theorem decay_add_le (m n : ℕ) : decay (m + n) ≤ decay m * decay n := by
  refine max_le (mul_nonneg (le_max_left ..) (le_max_left ..)) ?_
  rw [Nat.cast_add, add_div]
  exact one_sub_add_le (by positivity) (by positivity)

theorem calculateFrozenBal_bounds {start end_ : ℕ} (h : start ≤ end_) {amt : Int} (hamt : 0 ≤ amt) :
    amt * decay (end_ - start) ≤ calculateFrozenBal start end_ amt ∧
      calculateFrozenBal start end_ amt ≤ amt := by
  have hperiod : (0 : ℚ) < rcReturnPeriod := by norm_num [rcReturnPeriod]
  rw [calculateFrozenBal]
  split
  · obtain rfl : amt = 0 := by omega
    simp
  split
  · obtain rfl : start = end_ := by omega
    simp [decay]
  split
  · rename_i hlong
    have hdecay : decay (end_ - start) = 0 := by
      refine max_eq_left (sub_nonpos.2 ((one_le_div hperiod).2 ?_))
      exact_mod_cast hlong
    simp [hdecay, hamt]
  rename_i hshort
  set d := end_ - start
  have hd : (d : ℚ) ≤ rcReturnPeriod := by exact_mod_cast (not_le.1 hshort).le
  set ret := amt * (d : ℕ) / (rcReturnPeriod : Int) with hret
  have hret0 : 0 ≤ ret := Int.ediv_nonneg (by positivity) (by positivity)
  have hle : (ret : ℚ) ≤ amt * d / rcReturnPeriod := by
    rw [le_div_iff₀ hperiod]
    exact_mod_cast Int.ediv_mul_le (amt * d) (by decide : (rcReturnPeriod : Int) ≠ 0)
  have hamt' : (0 : ℚ) ≤ amt := by exact_mod_cast hamt
  have hdecay : decay d = 1 - d / rcReturnPeriod :=
    max_eq_right (sub_nonneg.2 ((div_le_one hperiod).2 hd))
  have hretle : ret ≤ amt := by
    have : (ret : ℚ) ≤ amt := hle.trans (by rw [div_le_iff₀ hperiod]; gcongr)
    exact_mod_cast this
  dsimp only
  rw [min_eq_right hretle, max_eq_right hret0, hdecay]
  constructor
  · push_cast
    rw [mul_sub, mul_one, ← mul_div_assoc]
    exact sub_le_sub_left hle _
  · omega

/-- The end of a slot: the state it is recorded in, and what the accounts have used. -/
structure RcSlot where
  height : ℕ
  dbs : LedgerDbs
  hiveFreeAmount : Int
  keys : List String
  used : String → Int

namespace RcSlot

variable (s : RcSlot) (db : RcDb) (account : String)

def write (s : RcSlot) : RcDb :=
  db.updateRcMap s.dbs s.hiveFreeAmount s.height (s.keys.map fun k => (k, s.used k))

/-- The records after some slots. -/
def run (slots : List RcSlot) : RcDb := slots.foldl write Collection.empty

def cap : Int :=
  rcAllowance s.hiveFreeAmount account (s.dbs.getBalance account s.height .hbd)

def Binds : Prop :=
  account ∈ s.keys ∧ s.cap account < db.getFrozenAmt account s.height + s.used account

def consumed : Int := if account ∈ s.keys then s.used account else 0

structure Ordered (account : String) (slots : List RcSlot) : Prop where
  sorted : slots.Pairwise (·.height < ·.height)
  height : ∀ s ∈ slots, 0 < s.height ∧ s.height < 2 ^ 64
  used : ∀ s ∈ slots, 0 ≤ s.used account

variable {account : String} {slots : List RcSlot} {s : RcSlot} {db : RcDb} {height : ℕ}

theorem run_concat (slots : List RcSlot) (s : RcSlot) : run (slots ++ [s]) = write (run slots) s := by
  rw [run, foldl_append]
  rfl

theorem Ordered.of_append {slots' : List RcSlot} (h : Ordered account (slots ++ slots')) :
    Ordered account slots :=
  ⟨(pairwise_append.1 h.sorted).1, fun s hs => h.height s (mem_append_left _ hs),
    fun s hs => h.used s (mem_append_left _ hs)⟩

theorem mem_run {r : RcRecord} (h : r ∈ run slots) : ∃ s ∈ slots, r.blockHeight = s.height := by
  induction slots using reverseRecOn with
  | nil => exact absurd h (not_mem_empty r)
  | append_singleton slots s ih =>
    rw [run_concat] at h
    rcases mem_of_mem_putAll h with hnew | hold
    · obtain ⟨kv, -, rfl⟩ := mem_map.1 hnew
      exact ⟨s, by simp, rfl⟩
    · obtain ⟨s', hs', heq⟩ := ih hold
      exact ⟨s', by simp [hs'], heq⟩

theorem Ordered.records (h : Ordered account (slots ++ [s])) :
    ∀ r ∈ run slots, r.account = account → 0 < r.blockHeight ∧ r.blockHeight < s.height := by
  intro r hr _
  obtain ⟨s', hs', heq⟩ := mem_run hr
  rw [heq]
  exact ⟨(h.height s' (by simp [hs'])).1, (pairwise_append.1 h.sorted).2.2 s' hs' s (by simp)⟩

theorem getRecord_write (hslot : 0 < s.height ∧ s.height < 2 ^ 64)
    (h : ∀ r ∈ db, r.account = account → 0 < r.blockHeight ∧ r.blockHeight < s.height)
    (hmem : account ∈ s.keys) (hheight : s.height ≤ height) :
    (write db s).getRecord account height = ⟨account, s.height,
      max 0 (min (s.cap account) (db.getFrozenAmt account s.height + s.used account))⟩ := by
  have hcongr : (write db s).getRecord account height = (write db s).getRecord account s.height := by
    refine getRecord_congr fun r hr ha => ?_
    have hle : r.blockHeight ≤ s.height := by
      rcases mem_of_mem_putAll hr with hnew | hold
      · obtain ⟨kv, -, rfl⟩ := mem_map.1 hnew
        exact le_rfl
      · exact (h r hold ha).2.le
    omega
  rw [hcongr, write, getRecord_updateRcMap _ _ hmem fun r hr ha => (h r hr ha).2, cap,
    ← amount_nextRecord hslot h]
  rfl

theorem getFrozenAmt_write_of_not_mem (hmem : account ∉ s.keys) :
    (write db s).getFrozenAmt account height = db.getFrozenAmt account height := by
  have hne : ∀ r ∈ (s.keys.map fun k => (k, s.used k)).map
      fun kv => db.nextRecord s.dbs s.hiveFreeAmount s.height kv.1 kv.2, r.account ≠ account := by
    simp only [map_map, forall_mem_map]
    exact fun k hk heq => hmem (heq ▸ hk)
  have hrecord : (write db s).getRecord account height = db.getRecord account height := by
    rw [getRecord, getRecord, write, updateRcMap, filter_docs_putAll]
    · intro r hr
      simp [hne r hr]
    · intro r hr r' _ hkey
      simp [(congrArg Prod.fst hkey).trans_ne (hne r hr)]
  rw [getFrozenAmt, getFrozenAmt, hrecord]

theorem sum_decay_le (hused : ∀ s ∈ slots, 0 ≤ s.consumed account)
    (hslots : ∀ s' ∈ slots, s'.height ≤ s.height) (hheight : s.height ≤ height) :
    (slots.map fun s' => (s'.consumed account : ℚ) * decay (height - s'.height)).sum ≤
      (slots.map fun s' => (s'.consumed account : ℚ) * decay (s.height - s'.height)).sum *
        decay (height - s.height) := by
  rw [← sum_map_mul_right]
  refine sum_le_sum fun s' hs' => ?_
  have hsplit : height - s'.height = s.height - s'.height + (height - s.height) := by
    have := hslots s' hs'
    omega
  rw [hsplit, mul_assoc]
  exact mul_le_mul_of_nonneg_left (decay_add_le _ _) (by exact_mod_cast hused s' hs')

theorem frozen_bounds (hslots : Ordered account slots)
    (hfree : ∀ pre s, pre ++ [s] <+: slots → ¬ s.Binds (run pre) account)
    (hheight : ∀ s ∈ slots, s.height ≤ height) :
    (slots.map fun s => (s.consumed account : ℚ) * decay (height - s.height)).sum ≤
        (run slots).getFrozenAmt account height ∧
      (run slots).getFrozenAmt account height ≤ (slots.map fun s => s.consumed account).sum := by
  induction slots using reverseRecOn generalizing height with
  | nil => exact ⟨le_rfl, le_rfl⟩
  | append_singleton slots s ih =>
    have hbefore := hslots.of_append
    have hle : s.height ≤ height := hheight s (by simp)
    have hfree' : ∀ pre s, pre ++ [s] <+: slots → ¬ s.Binds (run pre) account :=
      fun pre s' hpre => hfree pre s' (hpre.trans (prefix_append ..))
    simp only [map_append, sum_append, map_singleton, sum_singleton, run_concat]
    by_cases hmem : account ∈ s.keys
    · have hlast : ∀ s' ∈ slots, s'.height ≤ s.height :=
        fun s' hs' => ((pairwise_append.1 hslots.sorted).2.2 s' hs' s (by simp)).le
      have hused := hslots.used s (by simp)
      obtain ⟨hlo, hhi⟩ := ih hbefore hfree' hlast
      have hfrozen : 0 ≤ (run slots).getFrozenAmt account s.height := calculateFrozenBal_nonneg ..
      have hcap := not_lt.1 fun hlt => hfree slots s prefix_rfl ⟨hmem, hlt⟩
      rw [getFrozenAmt, getRecord_write (hslots.height s (by simp)) hslots.records hmem hle,
        min_eq_right hcap, max_eq_right (by omega), consumed, if_pos hmem]
      obtain ⟨hdecay, hamt⟩ := calculateFrozenBal_bounds hle
        (by omega : 0 ≤ (run slots).getFrozenAmt account s.height + s.used account)
      refine ⟨le_trans ?_ hdecay, hamt.trans (by omega)⟩
      have hsum := sum_decay_le (s := s) (fun s' hs' => by
        rw [consumed]
        split
        · exact hbefore.used s' hs'
        · exact le_rfl) hlast hle
      push_cast
      rw [add_mul]
      gcongr
      exact hsum.trans (mul_le_mul_of_nonneg_right hlo (le_max_left ..))
    · rw [getFrozenAmt_write_of_not_mem hmem, consumed, if_neg hmem]
      simpa using ih hbefore hfree' fun s' hs' => hheight s' (by simp [hs'])

/-- While the cap does not bind, no less is frozen than if each use came back on its own,
and no more than was used; where it binds, the record is what the account owns. -/
theorem credits_return_linearly (hslots : Ordered account slots) :
    ((∀ pre s, pre ++ [s] <+: slots → ¬ s.Binds (run pre) account) →
      ∀ height, (∀ s ∈ slots, s.height ≤ height) →
        (slots.map fun s => (s.consumed account : ℚ) * decay (height - s.height)).sum ≤
            (run slots).getFrozenAmt account height ∧
          (run slots).getFrozenAmt account height ≤ (slots.map fun s => s.consumed account).sum) ∧
      ∀ pre s, pre ++ [s] <+: slots → s.Binds (run pre) account →
        ((run (pre ++ [s])).getRecord account s.height).amount = max 0 (s.cap account) := by
  refine ⟨fun hfree height hheight => frozen_bounds hslots hfree hheight, fun pre s hpre hbinds => ?_⟩
  obtain ⟨post, rfl⟩ := hpre
  have hpre := hslots.of_append
  rw [run_concat, getRecord_write (hpre.height s (by simp)) hpre.records hbinds.1 le_rfl,
    min_eq_left hbinds.2.le]

def aliceSlot (height : ℕ) : RcSlot := ⟨height, {}, 1000, ["hive:alice"], fun _ => 100⟩

theorem credits_return_linearly_alice :
    ((run [aliceSlot 10, aliceSlot 20]).getFrozenAmt "hive:alice" 14410 : ℚ) ≤ 200 ∧
      (100 * decay 14400 + 100 * decay 14390 : ℚ) ≤
        (run [aliceSlot 10, aliceSlot 20]).getFrozenAmt "hive:alice" 14410 := by
  have hfree : ∀ pre s, pre ++ [s] <+: [aliceSlot 10, aliceSlot 20] →
      ¬ s.Binds (run pre) "hive:alice" := by
    intro pre s hpre
    unfold Binds
    rcases pre with _ | ⟨s', _ | ⟨s'', pre⟩⟩ <;> simp at hpre
    · subst hpre
      decide
    · obtain ⟨rfl, rfl⟩ := hpre
      decide
  obtain ⟨hlo, hhi⟩ := (@credits_return_linearly "hive:alice" [aliceSlot 10, aliceSlot 20]
    ⟨by decide, by decide, by decide⟩).1 hfree 14410 (by decide)
  refine ⟨by exact_mod_cast hhi, le_trans (le_of_eq ?_) hlo⟩
  simp [aliceSlot, consumed]

/-- An account that owes HBD. -/
def indebted : RcSlot where
  height := 10
  dbs.ledger := Collection.empty.put
    { id := "debit", amount := -5, blockHeight := 1, owner := "hive:bob", type := .transfer
      asset := .hbd }
  hiveFreeAmount := 0
  keys := ["hive:bob"]
  used := fun _ => 3

/-- A cap below zero is not what is recorded. -/
theorem record_not_below_zero : indebted.cap "hive:bob" = -5 ∧ indebted.Binds (run []) "hive:bob" ∧
      ((run [indebted]).getRecord "hive:bob" 10).amount = 0 := by
  unfold Binds
  decide +kernel

end RcSlot

end VscNode
