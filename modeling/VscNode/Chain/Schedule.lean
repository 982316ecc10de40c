import Mathlib.Data.Int.CardIntervalMod
import Mathlib.Data.List.GetD
import VscNode.Chain.Slot

/-!
# The schedule of a round

The slots of a round go to the witnesses in turn, in an order that is then shuffled; a
slot gets its height after the shuffle.
-/

namespace VscNode

open List

def scheduleLength : ℕ := 1200

variable (shuffle : List String → List String) (blockHeight : ℕ) (witnessList : List String)

def calculateRoundInfo : ℕ × ℕ :=
  let pastHeight := blockHeight - blockHeight % scheduleLength
  (pastHeight, (pastHeight + scheduleLength) % 2 ^ 64)

structure WitnessSlot where
  account : String
  slotHeight : ℕ
  deriving DecidableEq

def turns (slots : ℕ) : List String :=
  (List.range slots).map fun slot => witnessList.getD (slot % witnessList.length) ""

def generateSchedule : List WitnessSlot :=
  if witnessList = [] then []
  else
    let (start, stop) := calculateRoundInfo blockHeight
    let slots := (stop + 2 ^ 64 - start) % 2 ^ 64 / slotLength
    (shuffle (turns witnessList slots)).zipIdx.map fun (account, i) =>
      ⟨account, (i * slotLength + start) % 2 ^ 64⟩

def calculateSlotLeader : Option WitnessSlot :=
  (generateSchedule shuffle blockHeight witnessList).find? fun slot =>
    slot.slotHeight = slotStart blockHeight

section Round

variable {shuffle : List String → List String} {ws : List String}
  (hne : ws ≠ []) {height : ℕ} (hheight : height < 2 ^ 64)

include hne

theorem count_turns (hnodup : ws.Nodup) {w : String} (hw : w ∈ ws) (slots : ℕ) :
    (turns ws slots).count w = slots / ws.length ∨
      (turns ws slots).count w = slots / ws.length + 1 ∧
        slots % ws.length ≠ 0 := by
  obtain ⟨k, hk, rfl⟩ := getElem_of_mem hw
  have hresidue (i : ℕ) : ws.getD (i % ws.length) "" = ws[k] ↔
      i ≡ k [MOD ws.length] := by
    rw [getD_eq_getElem _ _ (Nat.mod_lt i (length_pos_iff.2 hne)), hnodup.getElem_inj_iff,
      Nat.ModEq, Nat.mod_eq_of_lt hk]
  have hcount : (turns ws slots).count ws[k] =
      slots.count (· ≡ k [MOD ws.length]) := by
    rw [turns, count, countP_map]
    exact countP_congr fun i _ => by simpa using hresidue i
  rw [hcount, Nat.count_modEq_card slots (length_pos_iff.2 hne)]
  split <;> omega

include hheight

theorem generateSchedule_eq : generateSchedule shuffle height ws =
      (shuffle (turns ws 120)).zipIdx.map fun (account, i) =>
        ⟨account, (i * slotLength + (calculateRoundInfo height).1) % 2 ^ 64⟩ := by
  have hslots : ((calculateRoundInfo height).2 + 2 ^ 64 - (calculateRoundInfo height).1) % 2 ^ 64 /
      slotLength = 120 := by
    simp only [calculateRoundInfo, scheduleLength, slotLength]
    omega
  rw [generateSchedule, if_neg hne]
  dsimp only
  rw [hslots]

theorem map_account : (generateSchedule shuffle height ws).map WitnessSlot.account =
    shuffle (turns ws 120) := by
  rw [generateSchedule_eq hne hheight, map_map]
  exact zipIdx_map_fst 0 _

variable (hshuffle : ∀ l, (shuffle l).Perm l)
include hshuffle

theorem map_slotHeight : (generateSchedule shuffle height ws).map WitnessSlot.slotHeight =
    (List.range 120).map fun i => (i * slotLength + (calculateRoundInfo height).1) % 2 ^ 64 := by
  have hindex : (shuffle (turns ws 120)).zipIdx.map Prod.snd = List.range 120 := by
    rw [zipIdx_map_snd, (hshuffle _).length_eq, turns, length_map, length_range, range_eq_range']
  rw [generateSchedule_eq hne hheight, map_map, ← hindex, map_map]
  rfl

theorem nodup_slotHeight :
    ((generateSchedule shuffle height ws).map WitnessSlot.slotHeight).Nodup := by
  rw [map_slotHeight hne hheight hshuffle]
  refine (nodup_range).map_on fun i hi j hj h => ?_
  rw [mem_range] at hi hj
  have hslot := (Nat.ModEq.add_right_cancel' _ h).eq_of_lt_of_lt
    (by simp only [slotLength]; omega) (by simp only [slotLength]; omega)
  exact Nat.eq_of_mul_eq_mul_right (by decide) hslot

theorem exists_calculateSlotLeader :
    ∃ slot, calculateSlotLeader shuffle height ws = some slot ∧
      slot.slotHeight = slotStart height := by
  have hmem : slotStart height ∈
      (generateSchedule shuffle height ws).map WitnessSlot.slotHeight := by
    rw [map_slotHeight hne hheight hshuffle]
    have hslot : height % 1200 / 10 * slotLength + (calculateRoundInfo height).1 =
        slotStart height := by
      simp only [calculateRoundInfo, scheduleLength, slotStart, slotLength]
      omega
    refine mem_map.2 ⟨height % 1200 / 10, mem_range.2 (by omega), ?_⟩
    rw [hslot, Nat.mod_eq_of_lt ((slotStart_le height).trans_lt hheight)]
  obtain ⟨slot, hslot, hstart⟩ := mem_map.1 hmem
  cases hleader : calculateSlotLeader shuffle height ws with
  | none => exact absurd hstart (by simpa using find?_eq_none.1 hleader slot hslot)
  | some leader => exact ⟨leader, rfl, by simpa using find?_some hleader⟩

end Round

/-- Every slot has one producer, and the slots of a round are shared evenly. -/
theorem slot_leaders {shuffle : List String → List String} (hshuffle : ∀ l, (shuffle l).Perm l)
    {ws : List String} (hne : ws ≠ []) (hnodup : ws.Nodup) {height : ℕ}
    (hheight : height < 2 ^ 64) :
    (∃ slot, calculateSlotLeader shuffle height ws = some slot ∧
      slot.slotHeight ≤ height ∧ height < slot.slotHeight + slotLength) ∧
    (∀ height' < 2 ^ 64, slotStart height' = slotStart height →
      calculateSlotLeader shuffle height' ws =
        calculateSlotLeader shuffle height ws) ∧
    (∀ i < scheduleLength / slotLength,
      ((generateSchedule shuffle height ws).map WitnessSlot.slotHeight).count
        ((i * slotLength + (calculateRoundInfo height).1) % 2 ^ 64) = 1) ∧
    ∀ w ∈ ws,
      let count := ((generateSchedule shuffle height ws).map WitnessSlot.account).count w
      count = scheduleLength / slotLength / ws.length ∨
        count = scheduleLength / slotLength / ws.length + 1 ∧
          scheduleLength / slotLength % ws.length ≠ 0 := by
  refine ⟨?_, fun height' hheight' hslot => ?_, fun i hi => ?_, fun w hw => ?_⟩
  · obtain ⟨slot, hleader, hstart⟩ := exists_calculateSlotLeader hne hheight hshuffle
    have hrest := Nat.mod_lt height (show 0 < slotLength by decide)
    refine ⟨slot, hleader, ?_, ?_⟩ <;> rw [hstart, slotStart] <;> omega
  · have hround : (calculateRoundInfo height').1 = (calculateRoundInfo height).1 := by
      simp only [calculateRoundInfo, scheduleLength, slotStart, slotLength] at hslot ⊢
      omega
    rw [calculateSlotLeader, calculateSlotLeader, generateSchedule_eq hne hheight',
      generateSchedule_eq hne hheight, hround, hslot]
  · refine count_eq_one_of_mem (nodup_slotHeight hne hheight hshuffle) ?_
    rw [map_slotHeight hne hheight hshuffle]
    exact mem_map.2 ⟨i, mem_range.2 hi, rfl⟩
  · dsimp only
    rw [map_account hne hheight, (hshuffle _).count_eq]
    exact count_turns hne hnodup hw _

theorem slot_leaders_reverse :
    ∃ slot, calculateSlotLeader reverse 1234 ["alice", "bob", "carol"] = some slot ∧
      slot.slotHeight ≤ 1234 ∧ 1234 < slot.slotHeight + slotLength :=
  (slot_leaders (fun l => reverse_perm l) (by decide) (by decide) (by decide)).1

end VscNode
