import VscNode.Lib.Collection

/-!
# Sums over dated documents

Documents of a collection carry a date, and `upTo date g h` is the total weight
of those dated at or before `h`. A checkpoint taken at `s` stays equal to
`upTo date g s` as long as later writes are dated after `s` or weigh nothing
(`upTo_put_of_lt`), and a checkpoint plus the documents dated in `(s, h]` is the
total up to `h` (`upTo_add_between`). These are the two halves of reading a
balance from a snapshot and the entries past it.
-/

namespace Collection

variable {α κ M : Type*} {key : α → κ} [AddCommGroup M]

variable (c : Collection key) (date : α → ℕ)

variable (g : α → M)

/-- The total weight of the documents dated at or before `h`. -/
def upTo (h : ℕ) : M :=
  c.sum fun x => if date x ≤ h then g x else 0

/-- The total weight of the documents dated in `[start, stop]`. -/
def between (start stop : ℕ) : M :=
  c.sum fun x => if start ≤ date x ∧ date x ≤ stop then g x else 0

theorem between_zero (h : ℕ) : c.between date g 0 h = c.upTo date g h := by
  simp [between, upTo]

/-- A checkpoint and the documents dated after it make up the whole. -/
theorem upTo_add_between {s h : ℕ} (hsh : s ≤ h) :
    c.upTo date g s + c.between date g (s + 1) h = c.upTo date g h := by
  rw [upTo, between, ← sum_add, upTo]
  apply sum_congr
  intro x _
  by_cases hs : date x ≤ s
  · have hh : date x ≤ h := hs.trans hsh
    have hn : ¬ (s + 1 ≤ date x ∧ date x ≤ h) := by omega
    rw [if_pos hs, if_neg hn, if_pos hh, add_zero]
  have hiff : (s + 1 ≤ date x ∧ date x ≤ h) ↔ date x ≤ h := by omega
  rw [if_neg hs, zero_add]
  simp only [hiff]

variable [DecidableEq κ]

variable {c : Collection key} {date : α → ℕ} {g : α → M} {s : ℕ} {x : α}

theorem upTo_put_of_lt_date (hx : s < date x) : (c.put x).upTo date g s =
      c.upTo date g s - c.valueAt (fun y => if date y ≤ s then g y else 0) (key x) := by
  rw [upTo, sum_put, if_neg (not_le.2 hx), add_zero, upTo]

theorem upTo_put_of_lt (hnew : c.get? (key x) = none) (hx : s < date x) :
    (c.put x).upTo date g s = c.upTo date g s := by
  rw [upTo_put_of_lt_date hx, valueAt_of_get?_eq_none hnew, sub_zero]

theorem upTo_put_of_eq_zero (hx : g x = 0) (hold : ∀ y, c.get? (key x) = some y → g y = 0) :
    (c.put x).upTo date g s = c.upTo date g s := by
  have hzero : c.valueAt (fun y => if date y ≤ s then g y else 0) (key x) = 0 :=
    valueAt_eq_zero fun y hy hkey => by rw [hold y (get?_eq_some_iff.2 ⟨hy, hkey⟩), ite_self]
  rw [upTo, sum_put, hzero, hx, ite_self, add_zero, sub_zero, upTo]

end Collection
