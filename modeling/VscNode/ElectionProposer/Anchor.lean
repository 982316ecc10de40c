import Mathlib.Order.Bounds.Basic
import Mathlib.Tactic.Linarith

/-!
# The anchor of an election

The proposer of an election and its signers build it from the state at one height, which
each derives for itself from the previous election and from the height it has reached
(`electionAnchorAt`). The anchor moves on by an interval for each interval that the
election is overdue.
-/

namespace VscNode.ElectionProposer

/-- Elections are triggered at the multiples of this. -/
def cadence (slotLength : ℕ) : ℕ := if 5 * slotLength = 0 then 1 else 5 * slotLength

def canonicalElectionAnchor (slotLength prevBlockHeight electionInterval : ℕ) : ℕ :=
  let target := (prevBlockHeight + electionInterval + 1) % 2 ^ 64
  (target + cadence slotLength - 1) % 2 ^ 64 / cadence slotLength * cadence slotLength

def electionAnchorAt (slotLength prevBlockHeight electionInterval bh : ℕ) : ℕ :=
  let anchor := canonicalElectionAnchor slotLength prevBlockHeight electionInterval
  if electionInterval = 0 then anchor
  else
    let trigger := bh - bh % cadence slotLength
    if trigger < anchor ∨ trigger - anchor < electionInterval then anchor
    else anchor + (trigger - anchor) / electionInterval * electionInterval

/-- The interval test of `canHold`. -/
def IntervalPassed (prevBlockHeight electionInterval bh : ℕ) : Prop :=
  electionInterval ≤ bh ∧ prevBlockHeight < bh - electionInterval

theorem cadence_pos (slotLength : ℕ) : 0 < cadence slotLength := by
  rw [cadence]
  split <;> omega

variable (slotLength prev interval : ℕ)

theorem isLeast_canonicalElectionAnchor (hfits : prev + interval + cadence slotLength < 2 ^ 64) :
    IsLeast {bh | cadence slotLength ∣ bh ∧ IntervalPassed prev interval bh}
      (canonicalElectionAnchor slotLength prev interval) := by
  have hpos := cadence_pos slotLength
  have hle := Nat.div_mul_le_self (prev + interval + cadence slotLength) (cadence slotLength)
  have hlt := Nat.lt_div_mul_add hpos (a := prev + interval + cadence slotLength)
  have hdvd : cadence slotLength ∣ canonicalElectionAnchor slotLength prev interval :=
    Nat.dvd_mul_left ..
  have hanchor : canonicalElectionAnchor slotLength prev interval =
      (prev + interval + cadence slotLength) / cadence slotLength * cadence slotLength := by
    rw [canonicalElectionAnchor, Nat.mod_eq_of_lt (by omega), Nat.mod_eq_of_lt (by omega),
      Nat.add_right_comm, Nat.add_sub_cancel]
  rw [← hanchor] at hle hlt
  generalize canonicalElectionAnchor slotLength prev interval = anchor at *
  refine ⟨⟨hdvd, by omega, by omega⟩, fun bh ⟨hbh, hinterval, hprev⟩ => ?_⟩
  -- two triggers are a cadence apart
  by_contra hbefore
  have := Nat.le_of_dvd (by omega) (Nat.dvd_sub hdvd hbh)
  omega

theorem electionAnchorAt_eq (bh : ℕ) :
    let anchor := canonicalElectionAnchor slotLength prev interval
    electionAnchorAt slotLength prev interval bh = anchor +
      (cadence slotLength * (bh / cadence slotLength) - anchor) / interval * interval := by
  rw [electionAnchorAt, Nat.mul_div_self_eq_mod_sub_self]
  dsimp only
  generalize canonicalElectionAnchor slotLength prev interval = anchor
  split
  · rename_i hzero
    rw [hzero, Nat.mul_zero, Nat.add_zero]
  split
  · rw [Nat.div_eq_of_lt (by omega), Nat.zero_mul, Nat.add_zero]
  · rfl

/-- Proposer and signers agree on the anchor. -/
theorem anchors_agree :
    (prev + interval + cadence slotLength < 2 ^ 64 →
      IsLeast {bh | cadence slotLength ∣ bh ∧ IntervalPassed prev interval bh}
        (canonicalElectionAnchor slotLength prev interval)) ∧
    let anchorAt := electionAnchorAt slotLength prev interval
    (∀ trigger, cadence slotLength ∣ trigger →
      canonicalElectionAnchor slotLength prev interval ≤ trigger →
      (∀ bh, trigger ≤ bh → bh < trigger + cadence slotLength → anchorAt bh = anchorAt trigger) ∧
      anchorAt trigger ≤ trigger ∧ (0 < interval → trigger < anchorAt trigger + interval)) ∧
    Monotone anchorAt := by
  refine ⟨isLeast_canonicalElectionAnchor _ _ _, fun trigger ⟨k, hk⟩ hle => ?_, fun bh bh' hle => ?_⟩
  · have hpos := cadence_pos slotLength
    have hdiv : trigger / cadence slotLength = k := by rw [hk, Nat.mul_div_cancel_left _ hpos]
    refine ⟨fun bh hge hlt => ?_, ?_⟩
    · have hsame : bh / cadence slotLength = k := by
        rw [Nat.div_eq_iff hpos, Nat.mul_comm, ← hk]
        omega
      rw [electionAnchorAt_eq, electionAnchorAt_eq, hsame, hdiv]
    rw [electionAnchorAt_eq, hdiv, ← hk]
    generalize canonicalElectionAnchor slotLength prev interval = anchor at *
    have hfloor := Nat.div_mul_le_self (trigger - anchor) interval
    refine ⟨by omega, fun hinterval => ?_⟩
    have hrest := Nat.lt_div_mul_add hinterval (a := trigger - anchor)
    omega
  · rw [electionAnchorAt_eq, electionAnchorAt_eq]
    gcongr

theorem anchors_agree_overdue : cadence 10 = 50 ∧ canonicalElectionAnchor 10 100 7200 = 7350 ∧
    21700 < electionAnchorAt 10 100 7200 21700 + 7200 :=
  ⟨rfl, rfl, ((anchors_agree 10 100 7200).2.1 21700 ⟨434, rfl⟩ (by decide)).2.2 (by decide)⟩

/-- Without an interval the anchor stays where it is. -/
theorem anchor_stays :
    canonicalElectionAnchor 10 100 0 = 150 ∧ electionAnchorAt 10 100 0 200 = 150 := ⟨rfl, rfl⟩

end VscNode.ElectionProposer
