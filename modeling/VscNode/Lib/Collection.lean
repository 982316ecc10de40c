import Mathlib.Algebra.Order.BigOperators.Group.List
import Mathlib.Algebra.Order.Group.Int
import Mathlib.Data.List.Perm.Subperm
import Mathlib.Data.List.Sort
import Mathlib.Tactic.Abel

/-!
# Keyed collections with upsert

A `Collection key` is a document store in which a key names at most one
document: `put` replaces the document with the same key, in place, or adds a new
one at the end. Uniqueness of keys is a field of the structure, so no operation
below has to re-establish it.

Two readings are enough for everything built on a collection. `get?` looks one
key up, and `sum g` adds a weight over all documents; `get?_put` and `sum_put`
say what one write does to either. Queries are filters, and the sum over a query
is the sum of a weight that vanishes outside it.
-/

namespace List

variable {α : Type*} {P : α → Prop} {a b c d : α}

theorem mem_triple : a ∈ [b, c, d] ↔ a = b ∨ a = c ∨ a = d := by simp

theorem forall_mem_pair (ha : P a) (hb : P b) : ∀ x ∈ [a, b], P x := by simp [ha, hb]

theorem forall_mem_triple (ha : P a) (hb : P b) (hc : P c) : ∀ x ∈ [a, b, c], P x := by
  simp [ha, hb, hc]

end List

/-- A document store in which every key occurs at most once. -/
structure Collection {α κ : Type*} (key : α → κ) where
  docs : List α
  nodup_keys : (docs.map key).Nodup

namespace Collection

open List hiding mem_filter sum_eq_zero

variable {α κ : Type*} {key : α → κ}

instance : Membership α (Collection key) := ⟨fun c x => x ∈ c.docs⟩

instance (c : Collection key) (p : α → Prop) [DecidablePred p] : Decidable (∀ x ∈ c, p x) :=
  List.decidableBAll p c.docs

variable {c : Collection key} {x y : α} {l xs : List α} {k : κ}

theorem mem_docs : x ∈ c.docs ↔ x ∈ c := Iff.rfl

def empty : Collection key := ⟨[], nodup_nil⟩

@[simp] theorem not_mem_empty (x : α) : x ∉ (empty : Collection key) := not_mem_nil

theorem eq_of_key_eq (hx : x ∈ c) (hy : y ∈ c) (h : key x = key y) : x = y :=
  inj_on_of_nodup_map c.nodup_keys hx hy h

section Sum

variable {M : Type*} [AddCommGroup M]

/-- The total weight of the documents. -/
def sum (c : Collection key) (g : α → M) : M := (c.docs.map g).sum

variable {c : Collection key}

theorem sum_congr {g g' : α → M} (h : ∀ x ∈ c, g x = g' x) : c.sum g = c.sum g' := by
  rw [sum, sum, map_congr_left h]

theorem sum_eq_zero {g : α → M} (h : ∀ x ∈ c, g x = 0) : c.sum g = 0 := by
  rw [sum, map_congr_left h]
  simp

section

variable (c : Collection key)

theorem sum_add (g g' : α → M) : c.sum (fun x => g x + g' x) = c.sum g + c.sum g' := by
  simp [sum, sum_map_add]

theorem sum_comm {β ι : Type*} {key' : β → ι} (d : Collection key') (g : α → β → M) :
    (c.sum fun x => d.sum (g x)) = d.sum fun y => c.sum fun x => g x y := by
  have hlist : ∀ l : List α, (l.map fun x => d.sum (g x)).sum =
      d.sum fun y => (l.map fun x => g x y).sum := by
    intro l
    induction l with
    | nil => simp [sum]
    | cons x l ih => simp only [map_cons, sum_cons, ih, ← sum_add]
  exact hlist c.docs

theorem sum_filter (p : α → Prop) [DecidablePred p] (g : α → M) :
    ((c.docs.filter fun x => p x).map g).sum = c.sum fun x => if p x then g x else 0 := by
  rw [sum]
  induction c.docs with
  | nil => rfl
  | cons x l ih =>
    by_cases hx : p x
    · simp [hx, ih]
    · simp [hx, ih]

end

end Sum

/-! ### Matched weights -/

private theorem sum_filter_add_sum_filter_not (g : α → ℤ) (l : List α) :
    ((l.filter fun x => g x < 0).map g).sum + ((l.filter fun x => 0 ≤ g x).map g).sum =
      (l.map g).sum := by
  induction l with
  | nil => rfl
  | cons x l ih =>
    by_cases hx : g x < 0
    · simp [hx, not_le.2 hx, ← ih, add_assoc]
    · simp [hx, not_lt.1 hx, ← ih, add_left_comm]

/-- Where every document of negative weight takes back one other document's weight,
the total is at least that of documents nothing is taken from. -/
theorem le_sum_of_matched {g : α → ℤ} (partner : α → α)
    (hmem : ∀ x ∈ c, g x < 0 → partner x ∈ c ∧ g (partner x) = -g x)
    (hinj : ∀ x ∈ c, ∀ y ∈ c, g x < 0 → g y < 0 → partner x = partner y → x = y) {kept : List α}
    (hkept : kept.Nodup) (hpos : ∀ y ∈ kept, y ∈ c ∧ 0 ≤ g y)
    (hfree : ∀ x ∈ c, g x < 0 → partner x ∉ kept) : (kept.map g).sum ≤ c.sum g := by
  have hnodup : (kept ++ (c.docs.filter fun x => g x < 0).map partner).Nodup := by
    refine hkept.append ?_ ?_
    · refine List.Nodup.map_on ?_ (c.nodup_keys.of_map.filter _)
      intro x hx y hy h
      simp only [List.mem_filter, decide_eq_true_eq, mem_docs] at hx hy
      exact hinj x hx.1 y hy.1 hx.2 hy.2 h
    intro y hy hmap
    obtain ⟨x, hx, rfl⟩ := mem_map.1 hmap
    simp only [List.mem_filter, decide_eq_true_eq, mem_docs] at hx
    exact hfree x hx.1 hx.2 hy
  have hsub : kept ++ (c.docs.filter fun x => g x < 0).map partner ⊆
      c.docs.filter fun x => 0 ≤ g x := by
    intro y hy
    rw [List.mem_filter, decide_eq_true_eq, mem_docs]
    rcases mem_append.1 hy with hy | hy
    · exact hpos y hy
    obtain ⟨x, hx, rfl⟩ := mem_map.1 hy
    simp only [List.mem_filter, decide_eq_true_eq, mem_docs] at hx
    obtain ⟨hc, hw⟩ := hmem x hx.1 hx.2
    exact ⟨hc, by omega⟩
  obtain ⟨l, hperm, hl⟩ := hnodup.subperm hsub
  have hle : (l.map g).sum ≤ ((c.docs.filter fun x => 0 ≤ g x).map g).sum := by
    refine (hl.map g).sum_le_sum ?_
    intro w hw
    obtain ⟨x, hx, rfl⟩ := mem_map.1 hw
    simpa using (List.mem_filter.1 hx).2
  have hneg : (((c.docs.filter fun x => g x < 0).map partner).map g).sum =
      -((c.docs.filter fun x => g x < 0).map g).sum := by
    rw [sum_neg, map_map, map_map]
    refine congrArg List.sum (map_congr_left fun x hx => ?_)
    simp only [List.mem_filter, decide_eq_true_eq, mem_docs] at hx
    exact (hmem x hx.1 hx.2).2
  have hsplit := sum_filter_add_sum_filter_not g c.docs
  rw [(hperm.map g).sum_eq, map_append, sum_append, hneg] at hle
  rw [sum]
  omega

/-- Rewrite every document in place, keeping its key. -/
def modify (c : Collection key) (f : α → α) (hf : ∀ x, key (f x) = key x) : Collection key :=
  ⟨c.docs.map f, by
    have hkey : key ∘ f = key := funext hf
    rw [map_map, hkey]
    exact c.nodup_keys⟩

theorem mem_modify {f : α → α} {hf : ∀ x, key (f x) = key x} :
    y ∈ c.modify f hf ↔ ∃ x ∈ c, f x = y :=
  mem_map

theorem sum_modify {M : Type*} [AddCommGroup M] (c : Collection key) (f : α → α)
    (hf : ∀ x, key (f x) = key x) (g : α → M) :
    (c.modify f hf).sum g = c.sum fun x => g (f x) := by
  rw [sum, sum, modify, map_map]
  rfl

/-- The documents that pass a test. -/
def filter (c : Collection key) (p : α → Bool) : Collection key :=
  ⟨c.docs.filter p, c.nodup_keys.sublist (filter_sublist.map key)⟩

variable {p : α → Bool} {d : Collection key} {P : α → Prop}

theorem mem_filter : x ∈ c.filter p ↔ x ∈ c ∧ p x = true :=
  List.mem_filter

def drop (c : Collection key) (n : ℕ) : Collection key :=
  ⟨c.docs.drop n, c.nodup_keys.sublist ((drop_sublist n c.docs).map key)⟩

/-- A document is among the first ones or among the others, not both. -/
theorem mem_drop_iff {n : ℕ} : x ∈ c.drop n ↔ x ∈ c ∧ x ∉ c.docs.take n := by
  have hnodup : (c.docs.take n ++ c.docs.drop n).Nodup := by
    rw [take_append_drop]
    exact c.nodup_keys.of_map
  constructor
  · intro hx
    exact ⟨mem_of_mem_drop hx, fun ht => disjoint_of_nodup_append hnodup ht hx⟩
  rintro ⟨hx, hnot⟩
  rw [← mem_docs, ← take_append_drop n c.docs, mem_append] at hx
  exact hx.resolve_left hnot

variable [DecidableEq κ]

def upsert (key : α → κ) (x : α) : List α → List α
  | [] => [x]
  | y :: l => if key y = key x then x :: l else y :: upsert key x l

theorem upsert_of_not_mem (h : key x ∉ l.map key) : upsert key x l = l ++ [x] := by
  induction l with
  | nil => rfl
  | cons y l ih =>
    simp only [map_cons, mem_cons, not_or] at h
    rw [upsert, if_neg (Ne.symm h.1), ih h.2, cons_append]

theorem map_upsert_of_mem (h : key x ∈ l.map key) : (upsert key x l).map key = l.map key := by
  induction l with
  | nil => simp at h
  | cons y l ih =>
    rw [upsert]
    by_cases hy : key y = key x
    · simp [hy]
    have hl : key x ∈ l.map key := by
      rcases mem_cons.1 h with h | h
      · exact absurd h.symm hy
      · exact h
    rw [if_neg hy, map_cons, ih hl, map_cons]

theorem nodup_map_upsert (h : (l.map key).Nodup) : ((upsert key x l).map key).Nodup := by
  by_cases hx : key x ∈ l.map key
  · rw [map_upsert_of_mem hx]
    exact h
  · rw [upsert_of_not_mem hx, map_append, map_singleton]
    simpa using h.concat hx

/-- Write one document: the document with its key is replaced, or it is new. -/
def put (c : Collection key) (x : α) : Collection key :=
  ⟨upsert key x c.docs, nodup_map_upsert c.nodup_keys⟩

/-- Write documents one after another. -/
def putAll (c : Collection key) (xs : List α) : Collection key := xs.foldl put c

section

variable (c : Collection key)

@[simp] theorem putAll_nil : c.putAll [] = c := rfl

@[simp] theorem putAll_cons (x : α) (xs : List α) : c.putAll (x :: xs) = (c.put x).putAll xs := rfl

theorem putAll_append (xs ys : List α) :
    c.putAll (xs ++ ys) = (c.putAll xs).putAll ys := foldl_append

end

/-- The document stored under a key. -/
def get? (c : Collection key) (k : κ) : Option α := c.docs.find? fun x => key x = k

theorem get?_eq_some_iff : c.get? k = some x ↔ x ∈ c ∧ key x = k := by
  constructor
  · intro h
    exact ⟨mem_of_find?_eq_some h, by simpa using find?_some h⟩
  rintro ⟨hx, rfl⟩
  cases h : c.get? (key x) with
  | none =>
    have hnone := find?_eq_none.1 h x hx
    simp at hnone
  | some y =>
    have hy : y ∈ c := mem_of_find?_eq_some h
    have hk : key y = key x := by simpa using find?_some h
    rw [eq_of_key_eq hy hx hk]

theorem get?_of_mem (h : x ∈ c) : c.get? (key x) = some x :=
  get?_eq_some_iff.2 ⟨h, rfl⟩

theorem get?_eq_none_iff : c.get? k = none ↔ ∀ x ∈ c, key x ≠ k := by
  simp [get?, find?_eq_none, mem_docs]

@[simp] theorem get?_empty (k : κ) : (empty : Collection key).get? k = none := rfl

private theorem find?_upsert (x : α) (l : List α) (k : κ) :
    (upsert key x l).find? (fun y => key y = k) =
      if key x = k then some x else l.find? fun y => key y = k := by
  induction l with
  | nil => by_cases h : key x = k <;> simp [upsert, h]
  | cons y l ih =>
    by_cases hy : key y = key x
    · by_cases hk : key x = k
      · simp [upsert, hy, hk]
      · have hyk : key y ≠ k := hy ▸ hk
        simp [upsert, hy, hk]
    by_cases hyk : key y = k
    · have hk : key x ≠ k := fun hx => hy (hyk.trans hx.symm)
      rw [upsert, if_neg hy, if_neg hk]
      simp [hyk]
    · simp [upsert, hy, hyk, ih]

theorem get?_put (c : Collection key) (x : α) (k : κ) :
    (c.put x).get? k = if key x = k then some x else c.get? k :=
  find?_upsert x c.docs k

@[simp] theorem get?_put_self (c : Collection key) (x : α) : (c.put x).get? (key x) = some x := by
  rw [get?_put, if_pos rfl]

theorem get?_put_of_ne (h : key x ≠ k) : (c.put x).get? k = c.get? k := by
  rw [get?_put, if_neg h]

theorem get?_filter (c : Collection key) (p : α → Bool) (k : κ) :
    (c.filter p).get? k = (c.get? k).filter p := by
  ext x
  rw [get?_eq_some_iff, mem_filter, Option.filter_eq_some_iff, get?_eq_some_iff, and_right_comm]

theorem perm_docs (h : ∀ k, c.get? k = d.get? k) : c.docs.Perm d.docs := by
  rw [perm_ext_iff_of_nodup c.nodup_keys.of_map d.nodup_keys.of_map]
  intro x
  have hmem : ∀ e : Collection key, x ∈ e.docs ↔ e.get? (key x) = some x := fun e =>
    ⟨fun hx => get?_of_mem hx, fun hx => (get?_eq_some_iff.1 hx).1⟩
  rw [hmem, hmem, h]

theorem filter_docs_put (hx : p x = false) (hold : ∀ y ∈ c, key y = key x → p y = false) :
    (c.put x).docs.filter p = c.docs.filter p := by
  obtain ⟨l, hl⟩ := c
  have hold' : ∀ y ∈ l, key y = key x → p y = false := hold
  clear hold
  change (upsert key x l).filter p = l.filter p
  clear hl
  induction l with
  | nil => simp [upsert, hx]
  | cons y l ih =>
    rw [upsert]
    split
    · rename_i hy
      rw [filter_cons_of_neg (by simp [hx]),
        filter_cons_of_neg (by simp [hold' y mem_cons_self hy])]
    · rw [filter_cons, filter_cons, ih fun z hz => hold' z (mem_cons_of_mem _ hz)]

theorem put_of_mem (h : x ∈ c) : c.put x = c := by
  have hupsert : ∀ l : List α, (l.map key).Nodup → x ∈ l → upsert key x l = l := by
    intro l hl hx
    induction l with
    | nil => cases hx
    | cons y l ih =>
      rw [upsert]
      by_cases hy : key y = key x
      · rw [if_pos hy]
        rcases mem_cons.1 hx with rfl | hx
        · rfl
        · exact absurd (mem_map.2 ⟨x, hx, hy.symm⟩) (nodup_cons.1 hl).1
      · rw [if_neg hy, ih (nodup_cons.1 hl).2
          ((mem_cons.1 hx).resolve_left fun hxy => hy (by rw [hxy]))]
  obtain ⟨l, hl⟩ := c
  simp only [put, hupsert l hl h]

theorem mem_put : y ∈ c.put x ↔ y = x ∨ (y ∈ c ∧ key y ≠ key x) := by
  constructor
  · intro hy
    have hget := get?_of_mem hy
    rw [get?_put] at hget
    by_cases h : key x = key y
    · rw [if_pos h] at hget
      exact .inl (Option.some.inj hget).symm
    · rw [if_neg h] at hget
      exact .inr ⟨(get?_eq_some_iff.1 hget).1, fun h' => h h'.symm⟩
  rintro (rfl | ⟨hy, hne⟩)
  · exact (get?_eq_some_iff.1 (get?_put_self c y)).1
  have hget : (c.put x).get? (key y) = some y := by
    rw [get?_put_of_ne (Ne.symm hne), get?_of_mem hy]
  exact (get?_eq_some_iff.1 hget).1

theorem mem_put_self (c : Collection key) (x : α) : x ∈ c.put x := mem_put.2 (.inl rfl)

theorem mem_of_mem_put (h : y ∈ c.put x) : y = x ∨ y ∈ c :=
  (mem_put.1 h).imp_right And.left

theorem forall_mem_put (hx : P x) (hc : ∀ y ∈ c, P y) : ∀ y ∈ c.put x, P y := by
  intro y hy
  rcases mem_of_mem_put hy with rfl | hy
  · exact hx
  · exact hc y hy

theorem mem_of_mem_putAll (h : y ∈ c.putAll xs) : y ∈ xs ∨ y ∈ c := by
  induction xs generalizing c with
  | nil => exact .inr h
  | cons x xs ih =>
    rcases ih h with h | h
    · exact .inl (mem_cons_of_mem _ h)
    rcases mem_of_mem_put h with rfl | h
    · exact .inl mem_cons_self
    · exact .inr h

theorem filter_docs_putAll (hx : ∀ x ∈ xs, p x = false)
    (hold : ∀ x ∈ xs, ∀ y ∈ c, key y = key x → p y = false) :
    (c.putAll xs).docs.filter p = c.docs.filter p := by
  induction xs generalizing c with
  | nil => rfl
  | cons x xs ih =>
    have hput := filter_docs_put (hx x mem_cons_self) (hold x mem_cons_self)
    refine (ih (fun z hz => hx z (mem_cons_of_mem _ hz)) fun z hz y hy hkey => ?_).trans hput
    rcases mem_of_mem_put hy with rfl | hy
    · exact hx y mem_cons_self
    · exact hold z (mem_cons_of_mem _ hz) y hy hkey

theorem exists_get?_putAll (h : (∃ y, c.get? k = some y) ∨ ∃ x ∈ xs, key x = k) :
    ∃ y, (c.putAll xs).get? k = some y := by
  induction xs generalizing c with
  | nil => exact h.resolve_right (by simp)
  | cons x xs ih =>
    rw [putAll_cons]
    apply ih
    by_cases hx : key x = k
    · exact .inl ⟨x, by rw [get?_put, if_pos hx]⟩
    rw [get?_put_of_ne hx]
    refine h.imp_right fun ⟨y, hy, hk⟩ => ⟨y, ?_, hk⟩
    exact (mem_cons.1 hy).resolve_left fun hyx => hx (hyx ▸ hk)

theorem forall_mem_putAll (hc : ∀ x ∈ c, P x) (hxs : ∀ x ∈ xs, P x) : ∀ x ∈ c.putAll xs, P x := by
  intro x hx
  rcases mem_of_mem_putAll hx with hx | hx
  · exact hxs x hx
  · exact hc x hx

theorem get?_putAll_of_not_mem (h : ∀ x ∈ xs, key x ≠ k) : (c.putAll xs).get? k = c.get? k := by
  induction xs generalizing c with
  | nil => rfl
  | cons x xs ih =>
    rw [putAll_cons, ih fun y hy => h y (mem_cons_of_mem _ hy),
      get?_put_of_ne (h x mem_cons_self)]

theorem mem_of_get?_putAll (h : (c.putAll xs).get? k = some y) (hk : ∃ x ∈ xs, key x = k) :
    y ∈ xs := by
  induction xs generalizing c with
  | nil => simp at hk
  | cons x xs ih =>
    by_cases hrest : ∃ z ∈ xs, key z = k
    · exact mem_cons_of_mem _ (ih h hrest)
    obtain rfl : key x = k := by
      obtain ⟨z, hz, hkey⟩ := hk
      rcases mem_cons.1 hz with rfl | hz
      · exact hkey
      · exact absurd ⟨z, hz, hkey⟩ hrest
    rw [putAll_cons, get?_putAll_of_not_mem fun z hz hkey => hrest ⟨z, hz, hkey⟩,
      get?_put_self] at h
    exact Option.some.inj h ▸ mem_cons_self

theorem get?_putAll_congr (h : ∀ k, (∀ x ∈ xs, key x ≠ k) → c.get? k = d.get? k) (k : κ) :
    (c.putAll xs).get? k = (d.putAll xs).get? k := by
  induction xs generalizing c d with
  | nil => exact h k nofun
  | cons x xs ih =>
    refine ih fun k hk => ?_
    rw [get?_put, get?_put]
    split_ifs with hx
    · rfl
    refine h k fun y hy => ?_
    rcases mem_cons.1 hy with rfl | hy
    · exact hx
    · exact hk y hy

theorem mem_putAll_of_nodup (hnodup : (xs.map key).Nodup) (hx : x ∈ xs) : x ∈ c.putAll xs := by
  induction xs generalizing c with
  | nil => cases hx
  | cons y xs ih =>
    obtain ⟨hy, hnodup⟩ := nodup_cons.1 hnodup
    rcases mem_cons.1 hx with rfl | hx
    · have hget : (c.putAll (x :: xs)).get? (key x) = some x := by
        rw [putAll_cons, get?_putAll_of_not_mem fun z hz hkey => hy (mem_map.2 ⟨z, hz, hkey⟩)]
        exact get?_put_self c x
      exact (get?_eq_some_iff.1 hget).1
    · exact ih hnodup hx

theorem putAll_of_mem (h : ∀ x ∈ xs, x ∈ c) : c.putAll xs = c := by
  induction xs with
  | nil => rfl
  | cons x xs ih =>
    rw [putAll_cons, put_of_mem (h x mem_cons_self)]
    exact ih fun y hy => h y (mem_cons_of_mem _ hy)

theorem docs_putAll (h : ((c.docs ++ xs).map key).Nodup) : (c.putAll xs).docs = c.docs ++ xs := by
  induction xs generalizing c with
  | nil => simp
  | cons x xs ih =>
    have hput : (c.put x).docs = c.docs ++ [x] := by
      refine upsert_of_not_mem fun hx => ?_
      rw [map_append, nodup_append] at h
      exact h.2.2 _ hx _ mem_cons_self rfl
    rw [putAll_cons, ih, hput, append_assoc, singleton_append]
    rwa [hput, append_assoc, singleton_append]

theorem empty_putAll_docs (c : Collection key) : empty.putAll c.docs = c := by
  have hdocs : ((empty : Collection key).putAll c.docs).docs = c.docs := docs_putAll c.nodup_keys
  obtain ⟨docs, hnodup⟩ := c
  generalize (empty : Collection key).putAll docs = d at hdocs ⊢
  cases d
  simpa using hdocs

section Sum

variable {M : Type*} [AddCommGroup M]

/-- The weight of the document under a key, zero where there is none. -/
def valueAt (c : Collection key) (g : α → M) (k : κ) : M := (c.get? k).elim 0 g

variable {c : Collection key}

variable {k : κ} {x : α} {g : α → M} {xs : List α}

theorem valueAt_of_get?_eq_none (h : c.get? k = none) (g : α → M) : c.valueAt g k = 0 := by
  rw [valueAt, h]
  rfl

theorem valueAt_of_get?_eq_some (h : c.get? k = some x) (g : α → M) : c.valueAt g k = g x := by
  rw [valueAt, h]
  rfl

theorem valueAt_eq_zero (h : ∀ x ∈ c, key x = k → g x = 0) : c.valueAt g k = 0 := by
  cases hget : c.get? k with
  | none => exact valueAt_of_get?_eq_none hget g
  | some x =>
    obtain ⟨hx, hkey⟩ := get?_eq_some_iff.1 hget
    rw [valueAt_of_get?_eq_some hget, h x hx hkey]

theorem valueAt_put (c : Collection key) (g : α → M) (x : α) (k : κ) :
    (c.put x).valueAt g k = if key x = k then g x else c.valueAt g k := by
  rw [valueAt, get?_put]
  split <;> rfl

theorem sum_eq_valueAt (h : ∀ x ∈ c, key x ≠ k → g x = 0) : c.sum g = c.valueAt g k := by
  obtain ⟨l, hl⟩ := c
  change (l.map g).sum = (l.find? fun x => key x = k).elim 0 g
  induction l with
  | nil => rfl
  | cons y l ih =>
    have hnot := (nodup_cons.1 hl).1
    rw [map_cons, sum_cons, find?_cons]
    by_cases hy : key y = k
    · have hrest : (l.map g).sum = 0 := by
        refine List.sum_eq_zero fun v hv => ?_
        obtain ⟨x, hx, rfl⟩ := mem_map.1 hv
        refine h x (mem_cons_of_mem _ hx) fun hxk => hnot ?_
        exact mem_map.2 ⟨x, hx, hxk.trans hy.symm⟩
      simp [hy, hrest]
    rw [h y mem_cons_self hy, zero_add, ih (nodup_cons.1 hl).2
      fun x hx => h x (mem_cons_of_mem _ hx)]
    simp [hy]

section

variable (g : α → M)

section

variable (c : Collection key)

theorem sum_ite_eq [DecidableEq α] (hx : x ∈ c) :
    (c.sum fun y => if x = y then g y else 0) = g x := by
  have hother : ∀ y ∈ c, key y ≠ key x → (if x = y then g y else 0) = 0 := by
    intro y _ hne
    exact if_neg fun h => hne (by rw [h])
  rw [sum_eq_valueAt hother, valueAt_of_get?_eq_some (get?_of_mem hx), if_pos rfl]

theorem sum_mem_keys {ks : List κ} (hnodup : ks.Nodup) :
    (c.sum fun x => if key x ∈ ks then g x else 0) = (ks.map fun k => c.valueAt g k).sum := by
  induction ks with
  | nil => exact sum_eq_zero fun x _ => if_neg not_mem_nil
  | cons k ks ih =>
    obtain ⟨hk, hnodup⟩ := nodup_cons.1 hnodup
    have hsplit : ∀ x ∈ c, (if key x ∈ k :: ks then g x else 0) =
        (if key x = k then g x else 0) + if key x ∈ ks then g x else 0 := by
      intro x _
      by_cases hx : key x = k
      · simp [hx, hk]
      · simp [hx]
    have hone : (c.sum fun x => if key x = k then g x else 0) = c.valueAt g k := by
      rw [sum_eq_valueAt (k := k) fun x _ hx => if_neg hx]
      cases hget : c.get? k with
      | none => rw [valueAt_of_get?_eq_none hget, valueAt_of_get?_eq_none hget]
      | some x =>
        rw [valueAt_of_get?_eq_some hget, valueAt_of_get?_eq_some hget,
          if_pos (get?_eq_some_iff.1 hget).2]
    rw [sum_congr hsplit, sum_add, hone, ih hnodup, map_cons, sum_cons]

theorem sum_except (k : κ) :
    (c.sum fun x => if key x = k then 0 else g x) = c.sum g - c.valueAt g k := by
  have hone : (c.sum fun x => if key x = k then g x else 0) = c.valueAt g k := by
    simpa using c.sum_mem_keys g (nodup_singleton k)
  rw [← hone, eq_sub_iff_add_eq, ← sum_add]
  refine sum_congr fun x _ => ?_
  by_cases hx : key x = k <;> simp [hx]

end

theorem valueAt_putAll_of_not_mem (h : ∀ x ∈ xs, key x ≠ k) :
    (c.putAll xs).valueAt g k = c.valueAt g k := by
  rw [valueAt, get?_putAll_of_not_mem h, valueAt]

private theorem sum_map_upsert (x : α) (l : List α) :
    ((upsert key x l).map g).sum =
      (l.map g).sum + g x - ((l.find? fun y => key y = key x).elim 0 g) := by
  induction l with
  | nil => simp [upsert]
  | cons y l ih =>
    by_cases hy : key y = key x
    · rw [upsert, if_pos hy]
      simp only [map_cons, sum_cons, find?_cons, hy, decide_true, Option.elim_some]
      abel
    rw [upsert, if_neg hy]
    simp only [map_cons, sum_cons, ih, find?_cons, hy, decide_false]
    abel

/-- What a write does to sums: the new document counts, the one it replaces no
longer does. -/
theorem sum_put (c : Collection key) (x : α) :
    (c.put x).sum g = c.sum g + g x - c.valueAt g (key x) :=
  sum_map_upsert g x c.docs

end

theorem sum_put_new (h : c.get? (key x) = none) : (c.put x).sum g = c.sum g + g x := by
  rw [sum_put, valueAt_of_get?_eq_none h, sub_zero]

theorem sum_putAll_of_eq_zero (hxs : ∀ x ∈ xs, g x = 0)
    (hc : ∀ y ∈ c, (∃ x ∈ xs, key x = key y) → g y = 0) : (c.putAll xs).sum g = c.sum g := by
  induction xs generalizing c with
  | nil => rfl
  | cons x xs ih =>
    have hx := hxs x mem_cons_self
    have hold : c.valueAt g (key x) = 0 :=
      valueAt_eq_zero fun y hy hkey => hc y hy ⟨x, mem_cons_self, hkey.symm⟩
    rw [putAll_cons, ih (fun y hy => hxs y (mem_cons_of_mem _ hy)) ?_, sum_put, hx, hold]
    · abel
    rintro y hy ⟨z, hz, hkey⟩
    rcases mem_of_mem_put hy with rfl | hy
    · exact hx
    · exact hc y hy ⟨z, mem_cons_of_mem _ hz, hkey⟩

theorem sum_putAll (hnodup : (xs.map key).Nodup) (g : α → M) :
    (c.putAll xs).sum g = c.sum g + (xs.map fun x => g x - c.valueAt g (key x)).sum := by
  induction xs generalizing c with
  | nil => simp
  | cons x xs ih =>
    rw [map_cons, nodup_cons] at hnodup
    have hrest : xs.map (fun y => g y - (c.put x).valueAt g (key y)) =
        xs.map fun y => g y - c.valueAt g (key y) := by
      refine map_congr_left fun y hy => ?_
      have hne : key x ≠ key y := fun h => hnodup.1 (h ▸ mem_map_of_mem hy)
      rw [valueAt_put, if_neg hne]
    rw [putAll_cons, ih hnodup.2, sum_put, hrest, map_cons, sum_cons]
    abel

end Sum

end Collection
