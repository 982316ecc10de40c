import Mathlib.Algebra.Order.Ring.Nat

/-!
# Slots and block ranges

L1 heights are grouped into slots of ten, and a slot is named by its first
height. A VSC block names the range of heights it covers; the second end of the
range is the height its oplog lands at. Validation compares that height with the
L1 height at which the block confirms, in 64-bit arithmetic.
-/

namespace VscNode

/-- The number of L1 blocks in a slot. -/
def slotLength : ℕ := 10

def slotStart (height : ℕ) : ℕ := height - height % slotLength

theorem slotStart_le (height : ℕ) : slotStart height ≤ height := Nat.sub_le _ _

theorem slotStart_mod (height : ℕ) : slotStart height % slotLength = 0 := by
  simp only [slotStart, slotLength]
  omega

theorem slotStart_mono {h h' : ℕ} (hle : h ≤ h') : slotStart h ≤ slotStart h' := by
  simp only [slotStart, slotLength]
  omega

theorem add_slotLength_le_of_ne {slot h : ℕ} (hslot : slot % slotLength = 0)
    (hle : slot ≤ slotStart h) (hne : slotStart h ≠ slot) : slot + slotLength ≤ slotStart h := by
  have hmod := slotStart_mod h
  simp only [slotLength] at hslot hmod ⊢
  omega

/-- A signed block bound read as an unsigned height. -/
def brHeight (br : Int) : ℕ := (br % 2 ^ 64).toNat

/-- The staleness test on the end of a block's range. -/
def isStale (br1 : Int) (confirmedAt : ℕ) : Bool :=
  (brHeight br1 + slotLength) % 2 ^ 64 ≤ confirmedAt

theorem lt_brHeight_of_not_isStale {br1 : Int} {confirmedAt e : ℕ}
    (h : isStale br1 confirmedAt = false) (he : e + slotLength ≤ confirmedAt) :
    e < brHeight br1 := by
  rw [isStale, decide_eq_false_iff_not] at h
  simp only [slotLength] at h he
  omega

end VscNode
