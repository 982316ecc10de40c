import Mathlib.Algebra.BigOperators.Ring.Finset
import Mathlib.Algebra.Order.BigOperators.Group.Finset
import Mathlib.Data.String.Basic

/-!
# Quorums of elected weight

An election seats members with keys and weights. A key may sit at two seats, and an
aggregate signature then verifies for both of them although one holder signed.
`foldSignedWeight` therefore counts a key once, with the weight of its first seat,
among the signers and in the total alike. `quorumMet` asks for two thirds of that
total.

The weights are unsigned 64-bit numbers. As long as their sum fits, the folds are
sums over sets of keys.
-/

namespace VscNode

open List Nat

def foldSeats (weightByDID : String → Option ℕ) (total : ℕ) :
    List (String × ℕ) → (String → Option ℕ) × ℕ
  | [] => (weightByDID, total)
  | (did, weight) :: seats =>
    -- A duplicate seat cannot sign on its own.
    if (weightByDID did).isSome then foldSeats weightByDID total seats
    else
      foldSeats (Function.update weightByDID did (some weight)) ((total + weight) % 2 ^ 64) seats

/-- The loop over the signers. -/
def foldIncluded (weightByDID : String → Option ℕ) : List String → ℕ → List String → ℕ
  | _, signed, [] => signed
  | counted, signed, did :: dids =>
    if did ∈ counted then foldIncluded weightByDID counted signed dids
    else
      foldIncluded weightByDID (did :: counted) ((signed + (weightByDID did).getD 0) % 2 ^ 64) dids

variable (memberKeys : List String) (weights : List ℕ) (included : List String)

def foldSignedWeight : Option (ℕ × ℕ) :=
  if memberKeys = [] ∨ memberKeys.length ≠ weights.length then none
  else
    let (weightByDID, total) := foldSeats (fun _ => none) 0 (memberKeys.zip weights)
    if total = 0 then none else some (foldIncluded weightByDID [] 0 included, total)

def twoThirdsMet (signed total : ℕ) : Bool :=
  if total = 0 then false else total - total / 3 ≤ signed

def quorumMet : Bool :=
  match foldSignedWeight memberKeys weights included with
  | none => false
  | some (signed, total) => twoThirdsMet signed total

/-! ## The folds as sums -/

def seatWeight (seats : List (String × ℕ)) (k : String) : ℕ :=
  (seats.find? fun s => s.1 = k).elim 0 Prod.snd

@[simp] theorem seatWeight_cons_self (k : String) (w : ℕ) (seats : List (String × ℕ)) :
    seatWeight ((k, w) :: seats) k = w := by
  simp [seatWeight]

theorem seatWeight_cons_of_ne {k k' : String} (h : k ≠ k') (w : ℕ) (seats : List (String × ℕ)) :
    seatWeight ((k, w) :: seats) k' = seatWeight seats k' := by
  simp [seatWeight, h]

theorem sum_seatWeight_cons {k : String} {ks : Finset String} (h : k ∉ ks) (w : ℕ)
    (seats : List (String × ℕ)) :
    ∑ k' ∈ ks, seatWeight ((k, w) :: seats) k' = ∑ k' ∈ ks, seatWeight seats k' :=
  Finset.sum_congr rfl fun _ hk' => seatWeight_cons_of_ne (ne_of_mem_of_not_mem hk' h).symm w seats

variable {k : String} {seats : List (String × ℕ)} {weights : List ℕ} {m : String → Option ℕ}
  {included' : List String}

theorem seatWeight_of_not_mem (h : k ∉ seats.map Prod.fst) : seatWeight seats k = 0 := by
  have hnone : seats.find? (fun s => s.1 = k) = none := by
    rw [find?_eq_none]
    rintro s hs hk
    exact h (mem_map.2 ⟨s, hs, by simpa using hk⟩)
  rw [seatWeight, hnone]
  rfl

def distinctWeight (seats : List (String × ℕ)) : ℕ :=
  ∑ k ∈ (seats.map Prod.fst).toFinset, seatWeight seats k

section

variable (seats : List (String × ℕ))

theorem sum_seatWeight_le (ks : Finset String) :
    ∑ k ∈ ks, seatWeight seats k ≤ distinctWeight seats := by
  rw [distinctWeight, ← Finset.sum_filter_add_sum_filter_not ks (· ∈ seats.map Prod.fst)]
  have hout : ∑ k ∈ ks.filter (· ∉ seats.map Prod.fst), seatWeight seats k = 0 :=
    Finset.sum_eq_zero fun k hk => seatWeight_of_not_mem (Finset.mem_filter.1 hk).2
  rw [hout, add_zero]
  refine Finset.sum_le_sum_of_subset fun k hk => ?_
  exact mem_toFinset.2 (Finset.mem_filter.1 hk).2

theorem distinctWeight_le : distinctWeight seats ≤ (seats.map Prod.snd).sum := by
  induction seats with
  | nil => rfl
  | cons s seats ih =>
    obtain ⟨k, w⟩ := s
    have hinsert : (((k, w) :: seats).map Prod.fst).toFinset =
        insert k ((seats.map Prod.fst).toFinset.erase k) := by
      ext k'
      by_cases hk : k' = k <;> simp [hk]
    rw [distinctWeight, hinsert, Finset.sum_insert (Finset.notMem_erase _ _),
      seatWeight_cons_self, sum_seatWeight_cons (Finset.notMem_erase _ _), map_cons, sum_cons]
    exact Nat.add_le_add_left ((sum_seatWeight_le seats _).trans ih) w

theorem sum_seatWeight_le_seats (ks : Finset String) :
    ∑ k ∈ ks, seatWeight seats k ≤ ((seats.filter fun s => s.1 ∈ ks).map Prod.snd).sum := by
  have hfilter : ∀ k ∈ ks, seatWeight seats k = seatWeight (seats.filter fun s => s.1 ∈ ks) k := by
    intro k hk
    rw [seatWeight, seatWeight, find?_filter]
    congr 2
    funext s
    by_cases hs : s.1 = k <;> simp [hs, hk]
  rw [Finset.sum_congr rfl hfilter]
  exact (sum_seatWeight_le _ ks).trans (distinctWeight_le _)

theorem foldSeats_fst (m : String → Option ℕ) (total : ℕ) (k : String) :
    (foldSeats m total seats).1 k = (m k).or ((seats.find? fun s => s.1 = k).map Prod.snd) := by
  induction seats generalizing m total with
  | nil => simp [foldSeats]
  | cons s seats ih =>
    obtain ⟨did, w⟩ := s
    rw [foldSeats]
    split
    · rename_i hsome
      rw [ih]
      by_cases hk : did = k
      · subst hk
        obtain ⟨v, hv⟩ := Option.isSome_iff_exists.1 hsome
        simp [hv]
      · simp [hk]
    rename_i hnone
    rw [ih]
    by_cases hk : did = k
    · subst hk
      simp only [Bool.not_eq_true, Option.isSome_eq_false_iff, Option.isNone_iff_eq_none] at hnone
      simp [hnone]
    · rw [Function.update_of_ne (Ne.symm hk)]
      simp [hk]

theorem foldSeats_snd (m : String → Option ℕ) {total : ℕ} (htotal : total < 2 ^ 64) :
    (foldSeats m total seats).2 =
      (total + ∑ k ∈ (seats.map Prod.fst).toFinset with m k = none, seatWeight seats k) %
        2 ^ 64 := by
  induction seats generalizing m total with
  | nil => simpa [foldSeats] using (mod_eq_of_lt htotal).symm
  | cons s seats ih =>
    obtain ⟨did, w⟩ := s
    rw [foldSeats]
    split
    · rename_i hsome
      have hset : ({k ∈ (((did, w) :: seats).map Prod.fst).toFinset | m k = none} : Finset _) =
          {k ∈ (seats.map Prod.fst).toFinset | m k = none} := by
        rw [map_cons, toFinset_cons, Finset.filter_insert, if_neg]
        intro hnone
        simp [hnone] at hsome
      rw [ih m htotal, hset, sum_seatWeight_cons]
      intro hmem
      simp [(Finset.mem_filter.1 hmem).2] at hsome
    rename_i hnone
    simp only [Bool.not_eq_true, Option.isSome_eq_false_iff, Option.isNone_iff_eq_none] at hnone
    have hset : ({k ∈ (((did, w) :: seats).map Prod.fst).toFinset | m k = none} : Finset _) =
        insert did {k ∈ (seats.map Prod.fst).toFinset |
          Function.update m did (some w) k = none} := by
      ext k
      by_cases hk : k = did
      · simp [hk, hnone]
      · simp [hk]
    have hdid : did ∉ ({k ∈ (seats.map Prod.fst).toFinset |
        Function.update m did (some w) k = none} : Finset _) := by simp
    rw [ih _ (Nat.mod_lt _ (Nat.two_pow_pos 64)), hset, Finset.sum_insert hdid,
      seatWeight_cons_self, sum_seatWeight_cons hdid, mod_add_mod, add_assoc]

end

theorem foldIncluded_eq (m : String → Option ℕ) (included : List String) (counted : List String)
    {signed : ℕ} (hsigned : signed < 2 ^ 64) :
    foldIncluded m counted signed included =
      (signed + ∑ k ∈ included.toFinset \ counted.toFinset, (m k).getD 0) % 2 ^ 64 := by
  induction included generalizing counted signed with
  | nil => simpa [foldIncluded] using (mod_eq_of_lt hsigned).symm
  | cons did dids ih =>
    rw [foldIncluded]
    split
    · rename_i hmem
      have hset : (did :: dids).toFinset \ counted.toFinset = dids.toFinset \ counted.toFinset := by
        rw [toFinset_cons, Finset.insert_sdiff_of_mem _ (mem_toFinset.2 hmem)]
      rw [ih counted hsigned, hset]
    rename_i hmem
    have hset : (did :: dids).toFinset \ counted.toFinset =
        insert did (dids.toFinset \ (did :: counted).toFinset) := by
      ext k
      by_cases hk : k = did
      · simp [hk, hmem]
      · simp [hk]
    rw [ih _ (Nat.mod_lt _ (Nat.two_pow_pos 64)), hset, Finset.sum_insert (by simp),
      mod_add_mod, add_assoc]

variable {memberKeys included : List String}

theorem foldSignedWeight_eq (hlen : memberKeys.length = weights.length)
    (hfits : weights.sum < 2 ^ 64) (included : List String) :
    foldSignedWeight memberKeys weights included =
      if distinctWeight (memberKeys.zip weights) = 0 then none
      else some (∑ k ∈ included.toFinset, seatWeight (memberKeys.zip weights) k,
        distinctWeight (memberKeys.zip weights)) := by
  have hsnd : (memberKeys.zip weights).map Prod.snd = weights :=
    map_snd_zip (by omega)
  have htotal : distinctWeight (memberKeys.zip weights) < 2 ^ 64 :=
    (distinctWeight_le _).trans_lt (by rwa [hsnd])
  have hseats : (foldSeats (fun _ => none) 0 (memberKeys.zip weights)).2 =
      distinctWeight (memberKeys.zip weights) := by
    rw [foldSeats_snd _ _ (Nat.two_pow_pos 64), Nat.zero_add]
    simpa [distinctWeight] using mod_eq_of_lt htotal
  have hincluded : foldIncluded (foldSeats (fun _ => none) 0 (memberKeys.zip weights)).1 [] 0
      included = ∑ k ∈ included.toFinset, seatWeight (memberKeys.zip weights) k := by
    have hweight : ∀ k, ((foldSeats (fun _ => none) 0 (memberKeys.zip weights)).1 k).getD 0 =
        seatWeight (memberKeys.zip weights) k := by
      intro k
      rw [foldSeats_fst, seatWeight]
      cases (memberKeys.zip weights).find? fun s => s.1 = k <;> rfl
    rw [foldIncluded_eq _ _ _ (Nat.two_pow_pos 64), Nat.zero_add]
    simp only [hweight, toFinset_nil, Finset.sdiff_empty]
    exact mod_eq_of_lt ((sum_seatWeight_le _ _).trans_lt htotal)
  rw [foldSignedWeight]
  by_cases hnil : memberKeys = []
  · simp [hnil, distinctWeight]
  · rw [if_neg (by simp [hnil, hlen])]
    simp only [hseats, hincluded]

theorem quorumMet_iff (hlen : memberKeys.length = weights.length) (hfits : weights.sum < 2 ^ 64)
    (included : List String) :
    quorumMet memberKeys weights included = true ↔ 0 < distinctWeight (memberKeys.zip weights) ∧
        distinctWeight (memberKeys.zip weights) - distinctWeight (memberKeys.zip weights) / 3 ≤
          ∑ k ∈ included.toFinset, seatWeight (memberKeys.zip weights) k := by
  rw [quorumMet, foldSignedWeight_eq hlen hfits]
  by_cases hzero : distinctWeight (memberKeys.zip weights) = 0
  · simp [hzero]
  · simp [hzero, twoThirdsMet, pos_of_ne_zero hzero]

theorem length_eq_of_quorumMet (h : quorumMet memberKeys weights included = true) :
    memberKeys.length = weights.length := by
  by_contra hne
  simp [quorumMet, foldSignedWeight, hne] at h

/-- Two sets of keys that share none of the keys of a third. -/
theorem sum_seatWeight_add_le (seats : List (String × ℕ)) {A B H : Finset String}
    (h : ∀ k ∈ H, k ∈ A → k ∉ B) :
    ∑ k ∈ A, seatWeight seats k + ∑ k ∈ B, seatWeight seats k + ∑ k ∈ H, seatWeight seats k ≤
      2 * distinctWeight seats := by
  have hdisjoint : Disjoint (A ∩ B) H := by
    rw [Finset.disjoint_left]
    intro k hk hH
    exact h k hH (Finset.mem_of_mem_inter_left hk) (Finset.mem_of_mem_inter_right hk)
  have hunion := sum_seatWeight_le seats (A ∪ B)
  have hinter := sum_seatWeight_le seats (A ∩ B ∪ H)
  rw [Finset.sum_union hdisjoint] at hinter
  have hsum : ∑ k ∈ A ∪ B, seatWeight seats k + ∑ k ∈ A ∩ B, seatWeight seats k =
      ∑ k ∈ A, seatWeight seats k + ∑ k ∈ B, seatWeight seats k := Finset.sum_union_inter
  omega

/-! ## What the fold depends on -/

theorem foldSeats_append (seats dups : List (String × ℕ)) (m : String → Option ℕ) (total : ℕ) :
    foldSeats m total (seats ++ dups) =
      foldSeats (foldSeats m total seats).1 (foldSeats m total seats).2 dups := by
  induction seats generalizing m total with
  | nil => rfl
  | cons s seats ih =>
    obtain ⟨did, w⟩ := s
    simp only [cons_append, foldSeats]
    split
    · exact ih m total
    · exact ih _ _

theorem foldSeats_of_seen {dups : List (String × ℕ)} (total : ℕ) (h : ∀ s ∈ dups, (m s.1).isSome) :
    foldSeats m total dups = (m, total) := by
  induction dups with
  | nil => rfl
  | cons s dups ih =>
    obtain ⟨did, w⟩ := s
    rw [foldSeats, if_pos (h _ mem_cons_self)]
    exact ih fun s hs => h s (mem_cons_of_mem _ hs)

theorem foldSeats_isSome (h : k ∈ seats.map Prod.fst) :
    ((foldSeats (fun _ => none) 0 seats).1 k).isSome := by
  obtain ⟨s, hs, rfl⟩ := mem_map.1 h
  rw [foldSeats_fst, Option.none_or, Option.isSome_map, find?_isSome]
  exact ⟨s, hs, by simp⟩

theorem foldIncluded_congr (h : ∀ k, (m k).isSome → (k ∈ included ↔ k ∈ included')) :
    foldIncluded m [] 0 included = foldIncluded m [] 0 included' := by
  have hknown : ∀ l : List String,
      ∑ k ∈ l.toFinset, (m k).getD 0 = ∑ k ∈ l.toFinset with (m k).isSome, (m k).getD 0 := by
    intro l
    refine (Finset.sum_filter_of_ne fun k _ hne => ?_).symm
    by_contra hnone
    rw [Bool.not_eq_true, Option.isSome_eq_false_iff, Option.isNone_iff_eq_none] at hnone
    exact hne (by rw [hnone]; rfl)
  have hsame : ({k ∈ included.toFinset | (m k).isSome} : Finset _) =
      {k ∈ included'.toFinset | (m k).isSome} := by
    ext k
    simp only [Finset.mem_filter, mem_toFinset]
    exact and_congr_left (h k)
  rw [foldIncluded_eq _ _ _ (Nat.two_pow_pos 64), foldIncluded_eq _ _ _ (Nat.two_pow_pos 64)]
  simp only [toFinset_nil, Finset.sdiff_empty, hknown, hsame]

theorem foldSignedWeight_congr (memberKeys : List String) (weights : List ℕ)
    (h : ∀ k ∈ memberKeys, k ∈ included ↔ k ∈ included') :
    foldSignedWeight memberKeys weights included =
      foldSignedWeight memberKeys weights included' := by
  have hincluded : foldIncluded (foldSeats (fun _ => none) 0 (memberKeys.zip weights)).1 [] 0
      included = foldIncluded (foldSeats (fun _ => none) 0 (memberKeys.zip weights)).1 [] 0
        included' := by
    refine foldIncluded_congr fun k hk => h k ?_
    -- A key with a weight has a seat.
    rw [foldSeats_fst, Option.none_or, Option.isSome_map, find?_isSome] at hk
    obtain ⟨s, hs, hsk⟩ := hk
    rw [← of_decide_eq_true hsk]
    exact (of_mem_zip hs).1
  simp only [foldSignedWeight, hincluded]

theorem foldSignedWeight_append {dups : List String} {weights dupWeights : List ℕ}
    (hlen : dups.length = dupWeights.length) (h : ∀ k ∈ dups, k ∈ memberKeys)
    (included : List String) :
    foldSignedWeight (memberKeys ++ dups) (weights ++ dupWeights) included =
      foldSignedWeight memberKeys weights included := by
  have hempty : memberKeys ++ dups = [] ↔ memberKeys = [] := by
    refine ⟨fun hnil => (append_eq_nil_iff.1 hnil).1, fun hnil => ?_⟩
    subst hnil
    exact eq_nil_iff_forall_not_mem.2 fun k hk => not_mem_nil (h k hk)
  have hlens : (memberKeys ++ dups).length ≠ (weights ++ dupWeights).length ↔
      memberKeys.length ≠ weights.length := by
    rw [length_append, length_append]
    omega
  by_cases heq : memberKeys.length = weights.length
  · have hseats : foldSeats (fun _ => none) 0 ((memberKeys ++ dups).zip (weights ++ dupWeights)) =
        foldSeats (fun _ => none) 0 (memberKeys.zip weights) := by
      rw [zip_append heq, foldSeats_append, foldSeats_of_seen]
      intro s hs
      refine foldSeats_isSome ?_
      rw [map_fst_zip heq.le]
      exact h _ (of_mem_zip hs).1
    simp only [foldSignedWeight, hempty, hlens, hseats]
  · rw [foldSignedWeight, foldSignedWeight, if_pos (.inr (hlens.2 heq)), if_pos (.inr heq)]

/-- Two quorums share a third of the weight, each key counted at its first seat. The fold only depends on which members
a list includes, and on the first seat of each key. -/
theorem quorums_intersect {memberKeys : List String} {weights : List ℕ}
    (hfits : weights.sum < 2 ^ 64) :
    (∀ A B, quorumMet memberKeys weights A = true → quorumMet memberKeys weights B = true →
        let both := ∑ k ∈ A.toFinset ∩ B.toFinset, seatWeight (memberKeys.zip weights) k
        let total := distinctWeight (memberKeys.zip weights)
        foldSignedWeight memberKeys weights (memberKeys.filter fun k => k ∈ A ∧ k ∈ B) =
            some (both, total) ∧ total ≤ 3 * both) ∧
      (∀ A A', (∀ k ∈ memberKeys, k ∈ A ↔ k ∈ A') →
        foldSignedWeight memberKeys weights A = foldSignedWeight memberKeys weights A') ∧
      ∀ (dups : List String) (dupWeights : List ℕ) (A : List String),
        dups.length = dupWeights.length → (∀ k ∈ dups, k ∈ memberKeys) →
          foldSignedWeight (memberKeys ++ dups) (weights ++ dupWeights) A =
            foldSignedWeight memberKeys weights A := by
  refine ⟨fun A B hA hB => ?_, fun A A' h => foldSignedWeight_congr _ _ h,
    fun dups dupWeights A hlen h => foldSignedWeight_append hlen h A⟩
  have hlen := length_eq_of_quorumMet hA
  obtain ⟨hpos, hA⟩ := (quorumMet_iff hlen hfits A).1 hA
  obtain ⟨-, hB⟩ := (quorumMet_iff hlen hfits B).1 hB
  -- The members in both lists weigh what the intersection of the lists weighs.
  have hinter : (A.filter (· ∈ B)).toFinset = A.toFinset ∩ B.toFinset := by
    ext k
    simp
  intro both total
  constructor
  · calc foldSignedWeight memberKeys weights (memberKeys.filter fun k => k ∈ A ∧ k ∈ B)
        = foldSignedWeight memberKeys weights (A.filter (· ∈ B)) :=
          foldSignedWeight_congr _ _ fun k hk => by simp [hk]
      _ = _ := by rw [foldSignedWeight_eq hlen hfits, if_neg hpos.ne', hinter]
  have hunion := sum_seatWeight_le (memberKeys.zip weights) (A.toFinset ∪ B.toFinset)
  have hsum : ∑ k ∈ A.toFinset ∪ B.toFinset, seatWeight (memberKeys.zip weights) k +
      ∑ k ∈ A.toFinset ∩ B.toFinset, seatWeight (memberKeys.zip weights) k =
        ∑ k ∈ A.toFinset, seatWeight (memberKeys.zip weights) k +
          ∑ k ∈ B.toFinset, seatWeight (memberKeys.zip weights) k := Finset.sum_union_inter
  simp only [both, total]
  omega

theorem quorums_intersect_duplicateKey :
    quorumMet ["a", "b", "a", "c"] [1, 1, 9, 1] ["b", "a", "x"] = true ∧
      quorumMet ["a", "b", "a", "c"] [1, 1, 9, 1] ["c", "b", "b"] = true ∧
      ∃ both total, foldSignedWeight ["a", "b", "a", "c"] [1, 1, 9, 1]
          (["a", "b", "a", "c"].filter fun k => k ∈ ["b", "a", "x"] ∧ k ∈ ["c", "b", "b"]) =
            some (both, total) ∧ total ≤ 3 * both :=
  ⟨by decide, by decide, _, _, (quorums_intersect (by decide)).1 _ _ (by decide) (by decide)⟩

end VscNode
