import Mathlib.Data.List.Sort

/-!
# The first of a sorted list

A query that sorts its rows and takes the first one, or the first one that meets a
condition. Where no two rows are equal in the order, that is the row before which no other
comes, whatever order the rows are stored in.
-/

namespace List

variable {α : Type*} {r : α → α → Prop} [DecidableRel r] [Std.Total r] [IsTrans α r]

variable {l : List α}

theorem find?_insertionSort_eq_some_iff {p : α → Bool}
    (hanti : ∀ a ∈ l, ∀ b ∈ l, p a → p b → r a b → r b a → a = b) {a : α} :
    (l.insertionSort r).find? p = some a ↔ a ∈ l ∧ p a ∧ ∀ b ∈ l, p b → r a b := by
  have hmem : ∀ b, b ∈ l.insertionSort r ↔ b ∈ l := fun b => mem_insertionSort r
  have hfirst : ∀ x, (l.insertionSort r).find? p = some x → x ∈ l ∧ p x ∧ ∀ b ∈ l, p b → r x b := by
    intro x hx
    obtain ⟨hpx, before, after, hsplit, hnone⟩ := find?_eq_some_iff_append.1 hx
    have hsorted := pairwise_insertionSort r l
    rw [hsplit] at hsorted hmem
    refine ⟨(hmem x).1 (by simp), hpx, fun b hb hpb => ?_⟩
    rcases mem_append.1 ((hmem b).2 hb) with hbefore | hrest
    · exact absurd hpb (by simpa using hnone b hbefore)
    rcases mem_cons.1 hrest with rfl | hafter
    · exact (Std.Total.total b b).elim id id
    · exact rel_of_pairwise_cons (pairwise_append.1 hsorted).2.1 hafter
  refine ⟨hfirst a, fun ⟨ha, hpa, hall⟩ => ?_⟩
  have hsome : ((l.insertionSort r).find? p).isSome := by
    rw [find?_isSome]
    exact ⟨a, (hmem a).2 ha, hpa⟩
  obtain ⟨x, hx⟩ := Option.isSome_iff_exists.1 hsome
  obtain ⟨hxl, hpx, hxall⟩ := hfirst x hx
  rw [hx, hanti x hxl a ha hpx hpa (hxall a ha hpa) (hall x hxl hpx)]

theorem head?_insertionSort_eq_some_iff (hanti : ∀ a ∈ l, ∀ b ∈ l, r a b → r b a → a = b) {a : α} :
    (l.insertionSort r).head? = some a ↔ a ∈ l ∧ ∀ b ∈ l, r a b := by
  have hfind : (l.insertionSort r).head? = (l.insertionSort r).find? fun _ => true := by
    cases l.insertionSort r <;> rfl
  rw [hfind, find?_insertionSort_eq_some_iff fun a ha b hb _ _ => hanti a ha b hb]
  simp

omit [Std.Total r] [IsTrans α r] in
theorem head?_insertionSort_eq_none_iff : (l.insertionSort r).head? = none ↔ l = [] := by
  rw [head?_eq_none_iff, ← length_eq_zero_iff, length_insertionSort, length_eq_zero_iff]

end List
