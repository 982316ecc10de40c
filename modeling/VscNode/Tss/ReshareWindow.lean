import Mathlib.Data.List.Rotate
import Mathlib.Data.List.Sort
import Mathlib.Data.String.Basic

/-!
# The keys of a rotate block

A rotate block reshares a window of the keys in the order of their ids. The window starts
where the one of the rotate block before it ended, and wraps around.
-/

namespace VscNode.Tss

open List

def maxResharesPerRotate : ℕ := 4

variable {κ : Type*} {id : κ → String} {keys : List κ} {bh rotateInterval : ℕ}

def reshareWindow (id : κ → String) (keys : List κ) (bh rotateInterval : ℕ) : List κ :=
  if keys.length ≤ maxResharesPerRotate then keys
  else
    let rotateInterval := if rotateInterval = 0 then 1 else rotateInterval
    let sorted := keys.insertionSort fun a b => id a ≤ id b
    let n := sorted.length
    let start := bh / rotateInterval * maxResharesPerRotate % 2 ^ 64 % n
    (range maxResharesPerRotate).filterMap fun i => sorted[(start + i) % n]?

theorem reshareWindow_eq (hmany : maxResharesPerRotate < keys.length)
    (hinterval : 1 ≤ rotateInterval) :
    reshareWindow id keys bh rotateInterval = ((keys.insertionSort fun a b => id a ≤ id b).rotate
      (bh / rotateInterval * maxResharesPerRotate % 2 ^ 64)).take maxResharesPerRotate := by
  rw [reshareWindow, if_neg (not_le.2 hmany)]
  simp only [if_neg (Nat.one_le_iff_ne_zero.1 hinterval)]
  rw [← length_insertionSort (fun a b => id a ≤ id b) keys] at hmany
  generalize keys.insertionSort (fun a b => id a ≤ id b) = sorted at *
  generalize bh / rotateInterval * maxResharesPerRotate % 2 ^ 64 = start
  have hget : ∀ i < maxResharesPerRotate,
      sorted[(start % sorted.length + i) % sorted.length]? = (sorted.rotate start)[i]? := by
    intro i hi
    rw [getElem?_rotate (hi.trans hmany), Nat.mod_add_mod, Nat.add_comm]
  rw [filterMap_congr fun i hi => hget i (mem_range.1 hi)]
  generalize maxResharesPerRotate = m
  induction m with
  | zero => rfl
  | succ m ih =>
    rw [range_succ, filterMap_append, ih, take_add_one]
    cases h : (sorted.rotate start)[m]? <;> simp only [filterMap_cons, filterMap_nil, h] <;> rfl

theorem insertionSort_eq_of_perm (hdistinct : (keys.map id).Nodup) {keys' : List κ}
    (h : keys'.Perm keys) : (keys'.insertionSort fun a b => id a ≤ id b) =
      keys.insertionSort fun a b => id a ≤ id b := by
  have : Std.Total fun a b : κ => id a ≤ id b := ⟨fun a b => le_total (id a) (id b)⟩
  have : IsTrans κ fun a b => id a ≤ id b := ⟨fun _ _ _ => le_trans⟩
  refine Perm.eq_of_pairwise (fun a b ha hb hab hba => ?_) (pairwise_insertionSort ..)
    (pairwise_insertionSort ..)
    ((perm_insertionSort _ keys').trans (h.trans (perm_insertionSort _ keys).symm))
  rw [mem_insertionSort] at ha hb
  exact inj_on_of_nodup_map hdistinct (h.subset ha) hb (le_antisymm hab hba)

theorem exists_window {n m t : ℕ} (hm : 0 < m) (ht : t < n) (k : ℕ) :
    ∃ j < (n + m - 1) / m, ∃ i < m, (i + (k + j) * m) % n = t := by
  -- the place is `d` places after the first window's start
  obtain ⟨d, hd, hdt⟩ : ∃ d < n, (d + k * m) % n = t := by
    refine ⟨(t + (n - k * m % n)) % n, Nat.mod_lt _ (by omega), ?_⟩
    have hkm : k * m % n < n := Nat.mod_lt _ (by omega)
    rw [Nat.mod_add_mod, ← Nat.add_mod_mod, Nat.add_assoc, Nat.sub_add_cancel hkm.le,
      Nat.add_mod_right, Nat.mod_eq_of_lt ht]
  refine ⟨d / m, ?_, d % m, Nat.mod_lt d hm, ?_⟩
  · rw [Nat.div_lt_iff_lt_mul hm]
    have := Nat.div_add_mod (n + m - 1) m
    have := Nat.mod_lt (n + m - 1) hm
    rw [Nat.mul_comm]
    omega
  · rw [← hdt, Nat.add_mul, Nat.add_left_comm, Nat.mod_add_div', Nat.add_comm]

theorem windows_cover (hdistinct : (keys.map id).Nodup) (hmany : maxResharesPerRotate < keys.length)
    (hinterval : 1 ≤ rotateInterval) (k : ℕ)
    (hfits : ∀ j < (keys.length + maxResharesPerRotate - 1) / maxResharesPerRotate,
      (k + j) * maxResharesPerRotate < 2 ^ 64) :
    (∀ bh, (reshareWindow id keys bh rotateInterval).length = maxResharesPerRotate ∧
      ((reshareWindow id keys bh rotateInterval).map id).Nodup ∧
      reshareWindow id keys bh rotateInterval ⊆ keys ∧ ∀ keys', keys'.Perm keys →
        reshareWindow id keys' bh rotateInterval = reshareWindow id keys bh rotateInterval) ∧
    ∀ key ∈ keys, ∃ j < (keys.length + maxResharesPerRotate - 1) / maxResharesPerRotate,
      key ∈ reshareWindow id keys ((k + j) * rotateInterval) rotateInterval := by
  have hperm := perm_insertionSort (fun a b => id a ≤ id b) keys
  refine ⟨fun bh => ?_, fun key hkey => ?_⟩
  · have hturned : ((keys.insertionSort fun a b => id a ≤ id b).rotate
        (bh / rotateInterval * maxResharesPerRotate % 2 ^ 64)).Perm keys :=
      (rotate_perm ..).trans hperm
    rw [reshareWindow_eq hmany hinterval]
    refine ⟨?_, ?_, ?_, fun keys' h => ?_⟩
    · rw [length_take, hturned.length_eq, min_eq_left hmany.le]
    · exact ((hturned.map id).nodup_iff.2 hdistinct).sublist ((take_sublist ..).map id)
    · exact fun _ hx => hturned.subset (mem_of_mem_take hx)
    · rw [reshareWindow_eq (h.length_eq ▸ hmany) hinterval, insertionSort_eq_of_perm hdistinct h]
  · obtain ⟨t, ht, rfl⟩ := mem_iff_getElem.1 (hperm.mem_iff.2 hkey)
    obtain ⟨j, hj, i, hi, hijt⟩ := exists_window (by decide : 0 < maxResharesPerRotate) ht k
    rw [hperm.length_eq] at hj
    refine ⟨j, hj, ?_⟩
    rw [reshareWindow_eq hmany hinterval, Nat.mul_div_cancel _ hinterval,
      Nat.mod_eq_of_lt (hfits j hj)]
    refine mem_iff_getElem.2 ⟨i, ?_, ?_⟩
    · rw [length_take, length_rotate, hperm.length_eq]
      exact lt_min hi (hi.trans hmany)
    · simp only [getElem_take, getElem_rotate, hijt]

theorem windows_cover_five : ∃ j < 2,
    "a" ∈ reshareWindow (fun key => key) ["e", "d", "c", "b", "a"] ((7 + j) * 100) 100 :=
  (@windows_cover _ _ ["e", "d", "c", "b", "a"] 100 (by decide) (by decide) (by decide) 7
    (by decide)).2 "a" (by decide)

end VscNode.Tss
