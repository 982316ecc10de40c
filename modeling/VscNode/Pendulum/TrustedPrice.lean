import Mathlib.Data.List.MinMax
import VscNode.Lib.Trimmed
import VscNode.Pendulum.FeedTracker

/-!
# What a minority can do to the trusted price

The price is the mean of the middle half of the trusted quotes. A quarter of the
quotes is dropped at either end, so that no more than a quarter of them cannot take
it out of the range of the others (`trusted_price_resists`).
-/

namespace VscNode.Pendulum

open FixedPoint Collection List

def Feed.price (f : Feed) : Int := (f.quote.hbdRaw * bpsScale).tdiv f.quote.hiveRaw

def Feed.Valid (f : Feed) : Prop := 0 < f.quote.hbdRaw ∧ 0 < f.quote.hiveRaw ∧ IsInt64 f.price

variable (feeds : Feeds) (trusted : String → Bool)

/-- The quotes that count for the price. -/
def trustedQuotes : List Feed :=
  feeds.docs.filter fun f => trusted f.witness ∧ 0 < f.quote.hbdRaw ∧ 0 < f.quote.hiveRaw

def sortedPrices : List Int :=
  ((trustedQuotes feeds trusted).map Feed.price).insertionSort (· ≤ ·)

/-- The middle half. -/
def keptPrices : List Int :=
  let prices := sortedPrices feeds trusted
  (prices.take (prices.length - prices.length / 4)).drop (prices.length / 4)

def Raised (feeds feeds' : Feeds) : Prop :=
  List.Forall₂ (fun f f' : Feed => f'.witness = f.witness ∧ f.price ≤ f'.price) feeds.docs feeds'.docs

variable {feeds feeds' : Feeds} {trusted : String → Bool}

theorem trustedHivePriceBps_eq (feeds : Feeds) (trusted : String → Bool) :
    trustedHivePriceBps feeds trusted =
      if keptPrices feeds trusted = [] then none
      else
        let mean := (keptPrices feeds trusted).sum.tdiv (keptPrices feeds trusted).length
        if IsInt64 mean then some mean else none := rfl

theorem length_sortedPrices (feeds : Feeds) (trusted : String → Bool) :
    (sortedPrices feeds trusted).length = (trustedQuotes feeds trusted).length := by
  rw [sortedPrices, length_insertionSort, length_map]

/-- Where all but a quarter of the quotes keep to a range, the middle half does. -/
theorem mem_keptPrices {lo hi : Int}
    (hlo : (trustedQuotes feeds trusted).countP (fun f => f.price < lo) ≤
      (trustedQuotes feeds trusted).length / 4)
    (hhi : (trustedQuotes feeds trusted).countP (fun f => hi < f.price) ≤
      (trustedQuotes feeds trusted).length / 4) :
    ∀ p ∈ keptPrices feeds trusted, lo ≤ p ∧ p ≤ hi := by
  intro p hp
  have hlength := length_sortedPrices feeds trusted
  have hcount : ∀ q : Int → Bool, (sortedPrices feeds trusted).countP q =
      (trustedQuotes feeds trusted).countP (q ∘ Feed.price) := fun q => by
    rw [sortedPrices, (perm_insertionSort _ _).countP_eq, countP_map]
  have hsorted : (sortedPrices feeds trusted).Pairwise (· ≤ ·) := pairwise_insertionSort ..
  have hdrop : p ∈ (sortedPrices feeds trusted).drop ((sortedPrices feeds trusted).length / 4) := by
    rw [keptPrices, drop_take] at hp
    exact mem_of_mem_take hp
  have htake : p ∈ (sortedPrices feeds trusted).reverse.drop
      ((sortedPrices feeds trusted).length / 4) := by
    rw [drop_reverse, mem_reverse]
    exact mem_of_mem_drop hp
  rw [hlength] at hdrop htake
  constructor
  · refine not_lt.1 (of_decide_eq_false (Trimmed.not_of_mem_drop hsorted
      (p := fun q => decide (q < lo)) (fun x y hxy hy => ?_) ((hcount _).trans_le hlo) hdrop))
    exact decide_eq_true (hxy.trans_lt (of_decide_eq_true hy))
  refine not_lt.1 (of_decide_eq_false (Trimmed.not_of_mem_drop
    (pairwise_reverse.2 hsorted) (p := fun q => decide (hi < q)) (fun x y hxy hy => ?_)
    (((reverse_perm _).countP_eq _).trans_le ((hcount _).trans_le hhi)) htake))
  exact decide_eq_true ((of_decide_eq_true hy).trans_le hxy)

theorem keptPrices_ne_nil (h : trustedQuotes feeds trusted ≠ []) : keptPrices feeds trusted ≠ [] := by
  have hlength := length_sortedPrices feeds trusted
  have hpos := length_pos_of_ne_nil h
  rw [← length_pos_iff, keptPrices, length_drop, length_take]
  omega

theorem mean_bounds {l : List Int} (hne : l ≠ []) {lo hi : Int} (hlo : 0 ≤ lo)
    (h : ∀ p ∈ l, lo ≤ p ∧ p ≤ hi) : lo ≤ l.sum.tdiv l.length ∧ l.sum.tdiv l.length ≤ hi := by
  have hpos : (0 : Int) < l.length := by exact_mod_cast length_pos_of_ne_nil hne
  have hge := card_nsmul_le_sum l lo fun p hp => (h p hp).1
  have hle := sum_le_card_nsmul l hi fun p hp => (h p hp).2
  rw [nsmul_eq_mul] at hge hle
  rw [Int.tdiv_eq_ediv_of_nonneg ((mul_nonneg hpos.le hlo).trans hge)]
  constructor
  · rw [Int.le_ediv_iff_mul_le hpos]
    linarith
  · refine Int.ediv_le_of_le_mul hpos ?_
    linarith

section

variable (hvalid : ∀ f ∈ feeds, trusted f.witness = true → f.Valid)

include hvalid

theorem trustedQuotes_of_valid :
    trustedQuotes feeds trusted = feeds.docs.filter fun f => trusted f.witness := by
  refine filter_congr fun f hf => ?_
  rw [Bool.eq_iff_iff, decide_eq_true_eq]
  exact and_iff_left_of_imp fun h => ⟨(hvalid f hf h).1, (hvalid f hf h).2.1⟩

theorem valid_of_mem {f : Feed} (h : f ∈ trustedQuotes feeds trusted) : f.Valid :=
  hvalid f (List.mem_filter.1 h).1 (of_decide_eq_true (List.mem_filter.1 h).2).1

theorem price_nonneg {f : Feed} (h : f ∈ trustedQuotes feeds trusted) : 0 ≤ f.price := by
  obtain ⟨hhbd, hhive, -⟩ := valid_of_mem hvalid h
  exact Int.tdiv_nonneg (Int.mul_nonneg hhbd.le (by decide)) hhive.le

theorem keptPrices_nonneg : ∀ p ∈ keptPrices feeds trusted, 0 ≤ p := by
  intro p hp
  have hmem := mem_of_mem_take (mem_of_mem_drop hp)
  rw [sortedPrices, mem_insertionSort] at hmem
  obtain ⟨f, hf, rfl⟩ := mem_map.1 hmem
  exact price_nonneg hvalid hf

theorem keptPrices_raised (hvalid' : ∀ f ∈ feeds', trusted f.witness = true → f.Valid)
    (h : Raised feeds feeds') :
    List.Forall₂ (· ≤ ·) (keptPrices feeds trusted) (keptPrices feeds' trusted) := by
  have hquotes : List.Forall₂ (fun f f' : Feed => f'.witness = f.witness ∧ f.price ≤ f'.price)
      (trustedQuotes feeds trusted) (trustedQuotes feeds' trusted) := by
    rw [trustedQuotes_of_valid hvalid, trustedQuotes_of_valid hvalid']
    exact rel_filter (fun f f' hff' => by simp [hff'.1]) h
  have hsorted : List.Forall₂ (· ≤ ·) (sortedPrices feeds trusted) (sortedPrices feeds' trusted) :=
    Trimmed.forall₂_insertionSort (rel_map (fun _ _ hff' => hff'.2) hquotes)
  rw [keptPrices, keptPrices, hsorted.length_eq]
  exact forall₂_drop _ (forall₂_take _ hsorted)

/-- The price is one between those of two quotes that the minority has not chosen, does
not depend on the order of the quotes, and does not fall when quotes are raised. -/
theorem trusted_price_resists (hquotes : trustedQuotes feeds trusted ≠ [])
    (adversary : String → Bool)
    (hminority : (trustedQuotes feeds trusted).countP (fun f => adversary f.witness) ≤
      (trustedQuotes feeds trusted).length / 4) :
    ∃ price, trustedHivePriceBps feeds trusted = some price ∧
      (∃ f ∈ trustedQuotes feeds trusted, adversary f.witness = false ∧ f.price ≤ price) ∧
      (∃ f ∈ trustedQuotes feeds trusted, adversary f.witness = false ∧ price ≤ f.price) ∧
      (∀ feeds' : Feeds, (∀ w, feeds.get? w = feeds'.get? w) →
        trustedHivePriceBps feeds' trusted = some price) ∧
      ∀ feeds' : Feeds, (∀ f ∈ feeds', trusted f.witness = true → f.Valid) → Raised feeds feeds' →
        ∀ price', trustedHivePriceBps feeds' trusted = some price' → price ≤ price' := by
  set quotes := trustedQuotes feeds trusted with hdef
  have hhonest : (quotes.filter fun f => adversary f.witness = false) ≠ [] := by
    intro hnil
    have hall : quotes.countP (fun f => adversary f.witness) = quotes.length :=
      countP_eq_length.2 fun f hf => by
        by_contra hnot
        exact filter_eq_nil_iff.1 hnil f hf (by simpa using hnot)
    have hpos := length_pos_of_ne_nil hquotes
    omega
  obtain ⟨f, hmin⟩ := Option.ne_none_iff_exists'.1
    (mt (argmin_eq_none (f := Feed.price)).1 hhonest)
  obtain ⟨f', hmax⟩ := Option.ne_none_iff_exists'.1
    (mt (argmax_eq_none (f := Feed.price)).1 hhonest)
  obtain ⟨hf, hadv⟩ := mem_filter.1 (argmin_mem hmin)
  obtain ⟨hf', hadv'⟩ := mem_filter.1 (argmax_mem hmax)
  -- Only the quotes of the minority are outside of the range of the others.
  have hbounds : ∀ p ∈ keptPrices feeds trusted, f.price ≤ p ∧ p ≤ f'.price := by
    refine mem_keptPrices ((countP_mono_left fun g hg hlt => ?_).trans hminority)
      ((countP_mono_left fun g hg hlt => ?_).trans hminority)
    · by_contra hnot
      exact not_le.2 (of_decide_eq_true hlt)
        (le_of_mem_argmin (List.mem_filter.2 ⟨hg, by simpa using hnot⟩) hmin)
    by_contra hnot
    exact not_le.2 (of_decide_eq_true hlt)
      (le_of_mem_argmax (List.mem_filter.2 ⟨hg, by simpa using hnot⟩) hmax)
  have hkept := keptPrices_ne_nil hquotes
  obtain ⟨hlo, hhi⟩ := mean_bounds hkept (price_nonneg hvalid hf) hbounds
  have hprice : trustedHivePriceBps feeds trusted =
      some ((keptPrices feeds trusted).sum.tdiv (keptPrices feeds trusted).length) := by
    have hmin64 := (valid_of_mem hvalid hf).2.2
    have hmax64 := (valid_of_mem hvalid hf').2.2
    rw [trustedHivePriceBps_eq, if_neg hkept]
    exact if_pos ⟨hmin64.1.trans hlo, hhi.trans_lt hmax64.2⟩
  refine ⟨_, hprice, ⟨f, hf, of_decide_eq_true hadv, hlo⟩, ⟨f', hf', of_decide_eq_true hadv', hhi⟩,
    fun feeds' hsame => ?_, fun feeds' hvalid' hraised price' hprice' => ?_⟩
  · rw [← hprice]
    exact (trustedHivePriceBps_congr hsame fun _ _ => rfl).symm
  have hrel := keptPrices_raised hvalid hvalid' hraised
  have hkept' : keptPrices feeds' trusted ≠ [] := by
    rw [← length_pos_iff, ← hrel.length_eq]
    exact length_pos_of_ne_nil hkept
  have hsum := sum_nonneg (keptPrices_nonneg hvalid)
  rw [trustedHivePriceBps_eq, if_neg hkept'] at hprice'
  obtain rfl := Option.some.inj (Option.ite_none_right_eq_some.1 hprice').2
  rw [Int.tdiv_eq_ediv_of_nonneg hsum, Int.tdiv_eq_ediv_of_nonneg (hsum.trans hrel.sum_le_sum),
    ← hrel.length_eq]
  exact Int.ediv_le_ediv (by exact_mod_cast length_pos_of_ne_nil hkept) hrel.sum_le_sum

end

/-- Four quotes, of which `"d"` has chosen a thousandfold price. -/
def fourFeeds : Feeds := Collection.empty.putAll
  [⟨"a", ⟨250, 1000⟩, 1⟩, ⟨"b", ⟨260, 1000⟩, 1⟩, ⟨"c", ⟨270, 1000⟩, 1⟩, ⟨"d", ⟨250, 1⟩, 1⟩]

theorem fourFeeds_resists :
    (trustedQuotes fourFeeds fun _ => true).countP (fun f => f.witness == "d") = 1 ∧
      ∃ price, trustedHivePriceBps fourFeeds (fun _ => true) = some price ∧
        ∃ f ∈ trustedQuotes fourFeeds fun _ => true, (f.witness == "d") = false ∧ price ≤ f.price := by
  obtain ⟨price, hprice, -, hhi, -⟩ := @trusted_price_resists fourFeeds (fun _ => true)
    (by unfold Feed.Valid; decide) (by decide) (fun w => w == "d") (by decide)
  refine ⟨by decide, ?_⟩
  exact ⟨price, hprice, hhi⟩

end VscNode.Pendulum
