import Mathlib.Data.List.Perm.Basic
import Mathlib.Data.List.Sort

/-!
# Finite maps in order of their keys

A map is the list of its entries in strictly ascending order of the keys, so two
maps that give the same answers are equal (`SortedMap.ext_get?`). It is what a
directory is to its reader: a map from names to links whose serialized form
depends on nothing else.
-/

variable {κ α : Type} [LinearOrder κ]

def insertEntry (k : κ) (a : α) : List (κ × α) → List (κ × α)
  | [] => [(k, a)]
  | e :: l =>
    if k < e.1 then (k, a) :: e :: l
    else if k = e.1 then (k, a) :: l
    else e :: insertEntry k a l

theorem mem_insertEntry {k : κ} {a : α} {l : List (κ × α)} {e : κ × α}
    (h : e ∈ insertEntry k a l) : e = (k, a) ∨ e ∈ l := by
  induction l with
  | nil => simpa [insertEntry] using h
  | cons e' l ih =>
    rw [insertEntry] at h
    split at h
    · simpa using h
    split at h
    · rcases List.mem_cons.1 h with h | h
      · exact .inl h
      · exact .inr (List.mem_cons_of_mem _ h)
    rcases List.mem_cons.1 h with h | h
    · exact .inr (h ▸ List.mem_cons_self)
    · exact (ih h).imp_right (List.mem_cons_of_mem _)

theorem lookup_cons_eq_ite (e : κ × α) (l : List (κ × α)) (k : κ) :
    (e :: l).lookup k = if k = e.1 then some e.2 else l.lookup k := by
  obtain ⟨k', a⟩ := e
  by_cases h : k = k'
  · simp [h]
  · rw [List.lookup_cons, if_neg h, beq_eq_false_iff_ne.2 h]

theorem lookup_insertEntry (k : κ) (a : α) (l : List (κ × α)) (k' : κ) :
    (insertEntry k a l).lookup k' = if k' = k then some a else l.lookup k' := by
  induction l with
  | nil => rw [insertEntry, lookup_cons_eq_ite]
  | cons e l ih =>
    rw [insertEntry, lookup_cons_eq_ite e l]
    split
    · rw [lookup_cons_eq_ite, lookup_cons_eq_ite]
    split
    · next heq =>
        rw [lookup_cons_eq_ite, ← heq]
        by_cases h : k' = k <;> simp [h]
    next hne =>
      rw [lookup_cons_eq_ite, ih]
      by_cases h : k' = e.1
      · simp [h, Ne.symm hne]
      · simp [h]

theorem pairwise_insertEntry {k : κ} {a : α} {l : List (κ × α)}
    (hl : l.Pairwise fun e e' => e.1 < e'.1) :
    (insertEntry k a l).Pairwise fun e e' => e.1 < e'.1 := by
  induction l with
  | nil => simp [insertEntry]
  | cons e l ih =>
    obtain ⟨hhead, htail⟩ := List.pairwise_cons.1 hl
    rw [insertEntry]
    split
    · next hlt =>
        refine List.pairwise_cons.2 ⟨fun e' he' => ?_, hl⟩
        rcases List.mem_cons.1 he' with rfl | he'
        · exact hlt
        · exact hlt.trans (hhead e' he')
    split
    · next heq =>
        exact List.pairwise_cons.2 ⟨fun e' he' => heq ▸ hhead e' he', htail⟩
    next hlt hne =>
      refine List.pairwise_cons.2 ⟨fun e' he' => ?_, ih htail⟩
      rcases mem_insertEntry he' with rfl | he'
      · exact lt_of_le_of_ne (not_lt.1 hlt) (Ne.symm hne)
      · exact hhead e' he'

structure SortedMap (κ α : Type) [LinearOrder κ] where
  entries : List (κ × α)
  sorted : entries.Pairwise fun e e' => e.1 < e'.1

namespace SortedMap

def empty : SortedMap κ α := ⟨[], .nil⟩

variable (m : SortedMap κ α)

def get? (k : κ) : Option α := m.entries.lookup k

def insert (k : κ) (a : α) : SortedMap κ α :=
  ⟨insertEntry k a m.entries, pairwise_insertEntry m.sorted⟩

def erase (k : κ) : SortedMap κ α :=
  ⟨m.entries.filter fun e => e.1 ≠ k, m.sorted.filter _⟩

/-- The map of a list of entries; of two with one key the first counts. -/
def ofList (l : List (κ × α)) : SortedMap κ α := l.foldr (fun e m => m.insert e.1 e.2) empty

variable (m : SortedMap κ α)

theorem get?_insert (k : κ) (a : α) (k' : κ) :
    (m.insert k a).get? k' = if k' = k then some a else m.get? k' :=
  lookup_insertEntry k a m.entries k'

theorem get?_ofList (l : List (κ × α)) (k : κ) : (ofList l).get? k = l.lookup k := by
  induction l with
  | nil => rfl
  | cons e l ih =>
    rw [ofList, List.foldr_cons, get?_insert, lookup_cons_eq_ite, ← ih, ofList]

theorem lookup_filter_ne (l : List (κ × α)) (k k' : κ) :
    (l.filter fun e => e.1 ≠ k).lookup k' = if k' = k then none else l.lookup k' := by
  induction l with
  | nil => simp
  | cons e l ih =>
    rw [lookup_cons_eq_ite, List.filter_cons]
    by_cases hke : e.1 = k
    · rw [if_neg (by simp [hke]), ih]
      by_cases h : k' = k <;> simp [h, hke]
    rw [if_pos (by simp [hke]), lookup_cons_eq_ite, ih]
    by_cases h : k' = e.1
    · simp [h, hke]
    · simp [h]

theorem get?_erase (k k' : κ) : (m.erase k).get? k' = if k' = k then none else m.get? k' :=
  lookup_filter_ne m.entries k k'

theorem lookup_eq_some_iff_of_pairwise {l : List (κ × α)} {k : κ} {a : α}
    (hl : l.Pairwise fun e e' => e.1 < e'.1) : l.lookup k = some a ↔ (k, a) ∈ l := by
  induction l with
  | nil => simp
  | cons e l ih =>
    obtain ⟨hhead, htail⟩ := List.pairwise_cons.1 hl
    rw [lookup_cons_eq_ite, List.mem_cons]
    split
    · next heq =>
        subst heq
        have hnot : (e.1, a) ∉ l := fun hmem => lt_irrefl e.1 (hhead (e.1, a) hmem)
        simp [hnot, Prod.ext_iff, eq_comm]
    next hne =>
      rw [ih htail]
      simp [Prod.ext_iff, hne]

theorem get?_eq_some_iff {m : SortedMap κ α} {k : κ} {a : α} :
    m.get? k = some a ↔ (k, a) ∈ m.entries :=
  lookup_eq_some_iff_of_pairwise m.sorted

theorem ext_get? {m m' : SortedMap κ α} (h : ∀ k, m.get? k = m'.get? k) : m = m' := by
  have hmem : ∀ e, e ∈ m.entries ↔ e ∈ m'.entries := by
    intro e
    rw [← get?_eq_some_iff (k := e.1), ← get?_eq_some_iff (k := e.1), h]
  have hnodup : ∀ m : SortedMap κ α, m.entries.Nodup := fun m =>
    m.sorted.imp fun hlt heq => absurd (congrArg Prod.fst heq) (ne_of_lt hlt)
  have hperm := (List.perm_ext_iff_of_nodup (hnodup m) (hnodup m')).2 hmem
  have hentries := hperm.eq_of_pairwise
    (fun _ _ _ _ hab hba => absurd (hab.trans hba) (lt_irrefl _)) m.sorted m'.sorted
  obtain ⟨entries, _⟩ := m
  obtain ⟨entries', _⟩ := m'
  cases hentries
  rfl

@[simp] theorem ofList_entries : ofList m.entries = m :=
  ext_get? fun k => get?_ofList m.entries k

end SortedMap
