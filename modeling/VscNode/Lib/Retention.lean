import VscNode.Lib.Collection
import VscNode.Lib.Newest
import Mathlib.Data.Finset.Max

/-!
# Collections that keep the newest records

Records are stored under an owner and a height. Each time a record is stored, the owner's
records are cut down to the `n` newest heights (`store`). `newestBelow` reads the newest
record of an owner below a height.

What is read below a height stays the same while records are stored at or above it, until
the owner has used `n` different heights there; from then on nothing is read
(`Kept.newestBelow`).
-/

namespace Retention

open List hiding mem_filter
open Collection

variable {α κ : Type*} {key : α → κ × ℕ}

/-! ## Newest first -/

/-- The records in falling height. -/
def latestFirst (key : α → κ × ℕ) (xs : List α) : List α :=
  xs.insertionSort fun x y => (key y).2 ≤ (key x).2

instance total_le : Std.Total fun x y : α => (key y).2 ≤ (key x).2 :=
  ⟨fun x y => le_total (key y).2 (key x).2⟩

instance trans_le : IsTrans α fun x y => (key y).2 ≤ (key x).2 := ⟨fun _ _ _ h h' => h'.trans h⟩

variable {x : α} {k : κ} {c : Collection key} {xs : List α} {h : ℕ} {n : ℕ}

theorem mem_latestFirst : x ∈ latestFirst key xs ↔ x ∈ xs :=
  mem_insertionSort _

theorem find?_latestFirst_eq_some_iff [DecidableEq κ] (hkeys : (xs.map key).Nodup) :
    (latestFirst key xs).find? (fun y => (key y).1 = k) = some x ↔
      x ∈ xs ∧ (key x).1 = k ∧ ∀ y ∈ xs, (key y).1 = k → (key y).2 ≤ (key x).2 := by
  rw [latestFirst, find?_insertionSort_eq_some_iff]
  · simp
  intro a ha b hb hak hbk hab hba
  refine inj_on_of_nodup_map hkeys ha hb (Prod.ext ?_ (le_antisymm hba hab))
  rw [of_decide_eq_true hak, of_decide_eq_true hbk]

variable [DecidableEq κ]

def newestBelow (c : Collection key) (k : κ) (h : ℕ) : Option α :=
  (latestFirst key (c.docs.filter fun x => (key x).1 = k ∧ (key x).2 < h)).head?

theorem newestBelow_eq_some_iff :
    newestBelow c k h = some x ↔ x ∈ c ∧ (key x).1 = k ∧ (key x).2 < h ∧
      ∀ y ∈ c, (key y).1 = k → (key y).2 < h → (key y).2 ≤ (key x).2 := by
  have hanti : ∀ a ∈ c.docs.filter fun x => (key x).1 = k ∧ (key x).2 < h,
      ∀ b ∈ c.docs.filter fun x => (key x).1 = k ∧ (key x).2 < h,
        (key b).2 ≤ (key a).2 → (key a).2 ≤ (key b).2 → a = b := by
    intro a ha b hb hab hba
    simp only [List.mem_filter, mem_docs, decide_eq_true_eq] at ha hb
    exact eq_of_key_eq ha.1 hb.1 (Prod.ext (ha.2.1.trans hb.2.1.symm) (le_antisymm hba hab))
  rw [newestBelow, latestFirst, head?_insertionSort_eq_some_iff hanti]
  simp only [List.mem_filter, mem_docs, decide_eq_true_eq, and_imp, and_assoc]

theorem newestBelow_eq_none_iff :
    newestBelow c k h = none ↔ ∀ x ∈ c, (key x).1 = k → h ≤ (key x).2 := by
  rw [newestBelow, latestFirst, head?_insertionSort_eq_none_iff, filter_eq_nil_iff]
  simp only [mem_docs, decide_eq_true_eq, not_and, not_lt]

theorem find?_latestFirst_window (c : Collection key) (k : κ) (lo h : ℕ) :
    (latestFirst key (c.docs.filter fun x => lo ≤ (key x).2 ∧ (key x).2 < h)).find?
        (fun x => (key x).1 = k) = (newestBelow c k h).filter fun x => lo ≤ (key x).2 := by
  refine Option.ext fun x => ?_
  have hkeys : ((c.docs.filter fun x => lo ≤ (key x).2 ∧ (key x).2 < h).map key).Nodup :=
    (c.filter _).nodup_keys
  rw [find?_latestFirst_eq_some_iff hkeys, Option.filter_eq_some_iff, newestBelow_eq_some_iff]
  simp only [List.mem_filter, mem_docs, decide_eq_true_eq]
  constructor
  · rintro ⟨⟨hx, hlo, hlt⟩, hk, hmax⟩
    refine ⟨⟨hx, hk, hlt, fun y hy hyk hyh => ?_⟩, hlo⟩
    rcases Nat.lt_or_ge (key y).2 lo with hlow | hhigh
    · exact (hlow.trans_le hlo).le
    · exact hmax y ⟨hy, hhigh, hyh⟩ hyk
  · rintro ⟨⟨hx, hk, hlt, hmax⟩, hlo⟩
    exact ⟨⟨hx, hlo, hlt⟩, hk, fun y hy hyk => hmax y hy.1 hyk hy.2.2⟩

/-! ## Cutting down to the newest records -/

/-- The heights of an owner's records. -/
def heights (c : Collection key) (k : κ) : Finset ℕ :=
  ((c.docs.filter fun x => (key x).1 = k).map fun x => (key x).2).toFinset

theorem mem_heights {t : ℕ} : t ∈ heights c k ↔ ∃ x ∈ c, (key x).1 = k ∧ (key x).2 = t := by
  simp [heights, mem_docs, and_assoc]

/-- Drops the records of an owner below its `n` newest ones. -/
def keepNewest (n : ℕ) (k : κ) (c : Collection key) : Collection key :=
  match ((latestFirst key (c.docs.filter fun x => (key x).1 = k)).take n).getLast? with
  | none => c
  | some oldest => c.filter fun x => ¬((key x).1 = k ∧ (key x).2 < (key oldest).2)

theorem le_getLast_take_iff {f : α → ℕ} {l : List α} (hl : l.Pairwise fun x y => f y < f x)
    (hx : x ∈ l) {oldest : α} (hlast : (l.take n).getLast? = some oldest) :
    f oldest ≤ f x ↔ (l.filter fun y => f x < f y).length < n := by
  induction l generalizing n with
  | nil => cases hx
  | cons a l ih =>
    obtain ⟨ha, hl⟩ := pairwise_cons.1 hl
    cases n with
    | zero => cases hlast
    | succ n =>
      rw [take_succ_cons] at hlast
      rcases mem_cons.1 hx with rfl | hxl
      · have hnone : (x :: l).filter (fun y => f x < f y) = [] := by
          rw [filter_eq_nil_iff]
          intro y hy
          rcases mem_cons.1 hy with rfl | hy
          · simp
          · simpa using (ha y hy).le
        rw [hnone]
        refine iff_of_true ?_ n.succ_pos
        rcases mem_cons.1 (mem_of_getLast? hlast) with rfl | hmem
        · exact le_rfl
        · exact (ha oldest (mem_of_mem_take hmem)).le
      rw [filter_cons_of_pos (by simpa using ha x hxl), length_cons,
        Nat.add_lt_add_iff_right]
      cases hrest : l.take n with
      | nil =>
        -- only the newest entry is kept
        have hn : n = 0 := by
          rw [take_eq_nil_iff] at hrest
          exact hrest.resolve_right (ne_nil_of_mem hxl)
        rw [hrest, getLast?_singleton] at hlast
        cases hlast
        simpa [hn] using ha x hxl
      | cons b rest =>
        rw [hrest, getLast?_cons_cons, ← hrest] at hlast
        exact ih hl hxl hlast

/-- A record is kept if fewer than `n` of its owner's are newer. -/
theorem mem_keepNewest (hn : 0 < n) : x ∈ keepNewest n k c ↔
      x ∈ c ∧ ((key x).1 = k → ((heights c k).filter ((key x).2 < ·)).card < n) := by
  set rows := c.docs.filter fun x => (key x).1 = k with hrows
  have hmem : ∀ y, y ∈ rows ↔ y ∈ c ∧ (key y).1 = k := fun y => by
    simp [hrows, mem_docs]
  have hnodup : (rows.map fun y => (key y).2).Nodup := by
    refine (nodup_map_iff_inj_on ?_).2 fun a ha b hb hab => ?_
    · exact (List.Nodup.of_map key c.nodup_keys).filter _
    · rw [hmem] at ha hb
      exact eq_of_key_eq ha.1 hb.1 (Prod.ext (ha.2.trans hb.2.symm) hab)
  have hsorted : (latestFirst key rows).Pairwise fun x y => (key y).2 < (key x).2 := by
    have hle := pairwise_insertionSort (fun x y => (key y).2 ≤ (key x).2) rows
    have hne : ((latestFirst key rows).map fun y => (key y).2).Nodup :=
      ((perm_insertionSort _ rows).map _).nodup_iff.2 hnodup
    exact (hle.and (pairwise_map.1 hne)).imp fun h => lt_of_le_of_ne h.1 h.2.symm
  -- the rows above a height, counted in the sorted list and as a set
  have hcount : ∀ t, ((latestFirst key rows).filter fun y => t < (key y).2).length =
      ((heights c k).filter (t < ·)).card := by
    intro t
    have hset : (heights c k).filter (t < ·) =
        ((rows.map fun y => (key y).2).filter fun s => t < s).toFinset := by
      ext s
      simp [heights, hrows]
    rw [hset, toFinset_card_of_nodup (hnodup.filter _), filter_map, length_map]
    exact ((perm_insertionSort _ rows).filter _).length_eq
  rw [keepNewest, ← hrows]
  split
  · rename_i hlast
    rw [getLast?_eq_none_iff, take_eq_nil_iff] at hlast
    have hnil : latestFirst key rows = [] := hlast.resolve_left hn.ne'
    refine ⟨fun hx => ⟨hx, fun hk => ?_⟩, And.left⟩
    have hxrow : x ∈ latestFirst key rows := mem_latestFirst.2 ((hmem x).2 ⟨hx, hk⟩)
    rw [hnil] at hxrow
    cases hxrow
  rename_i oldest hlast
  rw [mem_filter, decide_eq_true_eq, not_and, not_lt]
  refine and_congr_right fun hx => forall_congr' fun hk => ?_
  rw [le_getLast_take_iff hsorted (mem_latestFirst.2 ((hmem x).2 ⟨hx, hk⟩)) hlast, hcount]

/-! ## Storing -/

def store (n : ℕ) (c : Collection key) (x : α) : Collection key :=
  keepNewest n (key x).1 (c.put x)

/-- A record is added, and what goes is the owner's below some height. -/
theorem exists_floor_store (n : ℕ) (c : Collection key) (x : α) :
    ∃ floor, ∀ y, y ∈ store n c x ↔ (y = x ∨ y ∈ c ∧ key y ≠ key x) ∧
      ((key y).1 = (key x).1 → floor ≤ (key y).2) := by
  rw [store, keepNewest]
  split
  · exact ⟨0, fun y => by simp [mem_put]⟩
  · rename_i oldest _
    refine ⟨(key oldest).2, fun y => ?_⟩
    rw [mem_filter, mem_put, decide_eq_true_eq, not_and, not_lt]

theorem mem_store_of_ne (hn : 0 < n) {y : α} (hne : (key y).1 ≠ (key x).1) :
    y ∈ store n c x ↔ y ∈ c := by
  rw [store, mem_keepNewest hn, mem_put]
  constructor
  · rintro ⟨rfl | ⟨hy, _⟩, _⟩
    · exact absurd rfl hne
    · exact hy
  · intro hy
    exact ⟨.inr ⟨hy, fun hkey => hne (congrArg Prod.fst hkey)⟩, fun hk => absurd hk hne⟩

theorem heights_put (c : Collection key) (x : α) :
    heights (c.put x) (key x).1 = insert (key x).2 (heights c (key x).1) := by
  ext t
  rw [Finset.mem_insert, mem_heights, mem_heights]
  constructor
  · rintro ⟨y, hy, hk, rfl⟩
    rcases mem_put.1 hy with rfl | ⟨hy, _⟩
    · exact .inl rfl
    · exact .inr ⟨y, hy, hk, rfl⟩
  rintro (rfl | ⟨y, hy, hk, rfl⟩)
  · exact ⟨x, mem_put_self c x, rfl, rfl⟩
  by_cases hkey : key y = key x
  · exact ⟨x, mem_put_self c x, rfl, by rw [hkey]⟩
  · exact ⟨y, mem_put.2 (.inr ⟨hy, hkey⟩), hk, rfl⟩

/-- An owner that stores a record has one afterwards, and no other owner loses its last. -/
theorem exists_mem_store_iff (hn : 0 < n) :
    (∃ y ∈ store n c x, (key y).1 = k) ↔ (key x).1 = k ∨ ∃ y ∈ c, (key y).1 = k := by
  by_cases hk : (key x).1 = k
  · subst hk
    refine iff_of_true ?_ (.inl rfl)
    -- the newest record has none above it
    have hne : (heights (c.put x) (key x).1).Nonempty :=
      ⟨(key x).2, mem_heights.2 ⟨x, mem_put_self c x, rfl, rfl⟩⟩
    obtain ⟨y, hy, hyk, hmax⟩ := mem_heights.1 (Finset.max'_mem _ hne)
    refine ⟨y, (mem_keepNewest hn).2 ⟨hy, fun _ => ?_⟩, hyk⟩
    have hnone : (heights (c.put x) (key x).1).filter ((key y).2 < ·) = ∅ := by
      rw [Finset.filter_eq_empty_iff]
      intro t ht
      rw [hmax, not_lt]
      exact Finset.le_max' _ t ht
    rw [hnone]
    exact hn
  constructor
  · rintro ⟨y, hy, rfl⟩
    exact .inr ⟨y, (mem_store_of_ne hn (Ne.symm hk)).1 hy, rfl⟩
  rintro (h | ⟨y, hy, rfl⟩)
  · exact absurd h hk
  · exact ⟨y, (mem_store_of_ne hn (Ne.symm hk)).2 hy, rfl⟩

/-! ## Reads below a height -/

/-- What holds of the records of an owner after others have been stored at or above `h`,
at the heights `later` for this owner. -/
structure Kept (n : ℕ) (k : κ) (h : ℕ) (c₀ : Collection key) (later : Finset ℕ)
    (c : Collection key) : Prop where
  above : ∀ t ∈ later, h ≤ t
  old : ∀ x ∈ c, (key x).1 = k → (key x).2 < h → x ∈ c₀
  heights : later.card < n → ∀ t, h ≤ t → (t ∈ heights c k ↔ t ∈ later)
  newest : later.card < n → ∀ r, newestBelow c₀ k h = some r → r ∈ c
  gone : n ≤ later.card → ∀ x ∈ c, (key x).1 = k → h ≤ (key x).2

namespace Kept

variable {n : ℕ} {k : κ} {h : ℕ} {c₀ c : Collection key} {later : Finset ℕ}

theorem start (hn : 0 < n) (hbelow : ∀ x ∈ c₀, (key x).2 < h) : Kept n k h c₀ ∅ c₀ where
  above t ht := absurd ht (Finset.notMem_empty t)
  old x hx _ _ := hx
  heights _ t ht := by
    refine iff_of_false (fun hmem => ?_) (Finset.notMem_empty t)
    obtain ⟨x, hx, _, rfl⟩ := mem_heights.1 hmem
    exact absurd (hbelow x hx) ht.not_gt
  newest _ r hr := (newestBelow_eq_some_iff.1 hr).1
  gone hle := absurd hle (by simpa using hn.ne')

theorem store_of_ne (hn : 0 < n) (hkept : Kept n k h c₀ later c) {x : α} (hne : k ≠ (key x).1) :
    Kept n k h c₀ later (store n c x) := by
  have hmem : ∀ y, (key y).1 = k → (y ∈ store n c x ↔ y ∈ c) :=
    fun y hy => mem_store_of_ne hn (hy ▸ hne)
  refine ⟨hkept.above, fun y hy hk => hkept.old y ((hmem y hk).1 hy) hk, fun hfew t ht => ?_,
    fun hfew r hr => ?_, fun hmany y hy hk => hkept.gone hmany y ((hmem y hk).1 hy) hk⟩
  · rw [← hkept.heights hfew t ht, mem_heights, mem_heights]
    exact exists_congr fun y =>
      ⟨fun ⟨hy, hk, ht⟩ => ⟨(hmem y hk).1 hy, hk, ht⟩, fun ⟨hy, hk, ht⟩ => ⟨(hmem y hk).2 hy, hk, ht⟩⟩
  · exact (hmem r (newestBelow_eq_some_iff.1 hr).2.1).2 (hkept.newest hfew r hr)

theorem store_self (hn : 0 < n) {x : α} (hkept : Kept n (key x).1 h c₀ later c)
    (hx : h ≤ (key x).2) :
    Kept n (key x).1 h c₀ (insert (key x).2 later) (store n c x) := by
  have habove : ∀ t ∈ insert (key x).2 later, h ≤ t := by
    intro t ht
    rcases Finset.mem_insert.1 ht with rfl | ht
    · exact hx
    · exact hkept.above t ht
  -- a record below `h` was there before
  have hbelow : ∀ y ∈ c.put x, (key y).2 < h → y ∈ c := by
    intro y hy hlt
    rcases mem_put.1 hy with rfl | ⟨hy, _⟩
    · exact absurd hlt hx.not_gt
    · exact hy
  -- with fewer than `n` heights, the heights at or above `h` are the new ones
  have hheights : (insert (key x).2 later).card < n → ∀ t, h ≤ t →
      (t ∈ Retention.heights (c.put x) (key x).1 ↔ t ∈ insert (key x).2 later) := by
    intro hfew t ht
    rw [heights_put, Finset.mem_insert, Finset.mem_insert,
      hkept.heights ((Finset.card_le_card (Finset.subset_insert _ _)).trans_lt hfew) t ht]
  refine ⟨habove, fun y hy hk hlt => ?_, fun hfew t ht => ?_, fun hfew r hr => ?_,
    fun hmany y hy hk => ?_⟩
  · exact hkept.old y (hbelow y ((mem_keepNewest hn).1 hy).1 hlt) hk hlt
  · rw [← hheights hfew t ht, mem_heights, mem_heights]
    refine exists_congr fun y => ⟨fun ⟨hy, hk, ht⟩ => ⟨((mem_keepNewest hn).1 hy).1, hk, ht⟩, ?_⟩
    rintro ⟨hy, hk, rfl⟩
    refine ⟨(mem_keepNewest hn).2 ⟨hy, fun _ => lt_of_le_of_lt (Finset.card_le_card ?_) hfew⟩, hk, rfl⟩
    intro s hs
    rw [Finset.mem_filter] at hs
    exact (hheights hfew s (ht.trans hs.2.le)).1 hs.1
  · have hfew' := (Finset.card_le_card (Finset.subset_insert (key x).2 later)).trans_lt hfew
    obtain ⟨-, hrk, hrh, hmax⟩ := newestBelow_eq_some_iff.1 hr
    have hrmem : r ∈ c.put x := mem_put.2 (.inr ⟨hkept.newest hfew' r hr, fun hkey =>
      absurd hx (by rw [← hkey]; exact hrh.not_ge)⟩)
    refine (mem_keepNewest hn).2 ⟨hrmem, fun _ => lt_of_le_of_lt (Finset.card_le_card ?_) hfew⟩
    intro s hs
    obtain ⟨hs, hrs⟩ := Finset.mem_filter.1 hs
    -- nothing lies between the newest record below `h` and `h`
    refine (hheights hfew s (le_of_not_gt fun hlt => ?_)).1 hs
    obtain ⟨y, hy, hyk, rfl⟩ := mem_heights.1 hs
    exact absurd (hmax y (hkept.old y (hbelow y hy hlt) hyk hlt) hyk hlt) hrs.not_ge
  obtain ⟨hy, hcount⟩ := (mem_keepNewest hn).1 hy
  by_contra hlt
  rw [not_le] at hlt
  have hyc := hbelow y hy hlt
  rcases Nat.lt_or_ge later.card n with hfew | hmany'
  · -- all the new heights are above the record
    have hsub : insert (key x).2 later ⊆
        (Retention.heights (c.put x) (key x).1).filter ((key y).2 < ·) := by
      intro t ht
      rw [Finset.mem_filter, heights_put, Finset.mem_insert]
      refine ⟨?_, hlt.trans_le (habove t ht)⟩
      rcases Finset.mem_insert.1 ht with rfl | ht
      · exact .inl rfl
      · exact .inr ((hkept.heights hfew t (hkept.above t ht)).2 ht)
    exact absurd (hcount hk) (hmany.trans (Finset.card_le_card hsub)).not_gt
  · exact absurd (hkept.gone hmany' y hyc hk) hlt.not_ge

theorem newestBelow (hkept : Kept n k h c₀ later c) :
    newestBelow c k h = if later.card < n then Retention.newestBelow c₀ k h else none := by
  split
  · rename_i hfew
    cases hr : Retention.newestBelow c₀ k h with
    | none =>
      rw [newestBelow_eq_none_iff] at hr ⊢
      intro x hx hk
      by_contra hlt
      rw [not_le] at hlt
      exact absurd (hr x (hkept.old x hx hk hlt) hk) hlt.not_ge
    | some r =>
      obtain ⟨-, hrk, hrh, hmax⟩ := newestBelow_eq_some_iff.1 hr
      exact newestBelow_eq_some_iff.2 ⟨hkept.newest hfew r hr, hrk, hrh, fun y hy hyk hyh =>
        hmax y (hkept.old y hy hyk hyh) hyk hyh⟩
  · rename_i hmany
    exact newestBelow_eq_none_iff.2 (hkept.gone (not_lt.1 hmany))

theorem newestBelow_eq_iff (hkept : Kept n k h c₀ later c) :
    Retention.newestBelow c k h = Retention.newestBelow c₀ k h ↔
      Retention.newestBelow c₀ k h = none ∨ later.card < n := by
  rw [hkept.newestBelow]
  by_cases hfew : later.card < n
  · rw [if_pos hfew]
    exact iff_of_true rfl (.inr hfew)
  · rw [if_neg hfew]
    exact ⟨fun heq => .inl heq.symm, fun heq => (heq.resolve_right hfew).symm⟩

end Kept

end Retention
