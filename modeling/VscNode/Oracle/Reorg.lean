import VscNode.Oracle.ChainWitness

/-!
# Repairs after a reorganisation

Where the header that a mapping contract has stored at its tip is not the canonical one,
`checkForReorg` walks back until the two agree and reports the canonical headers on the
way. It also stops where a header cannot be read, and reports what it has as if the chains
agreed there: the repair connects to the stored chain exactly when they do wherever a read
fails below blocks that all differ (`repairs_iff`).
-/

namespace VscNode.Oracle

open DataLayer Tss List

/-- The height `i` blocks below `h`. -/
def back (h i : ℕ) : ℕ := (h + 2 ^ 64 - i) % 2 ^ 64

def headersFrom (canonical : ℕ → String) (h d : ℕ) : List String :=
  ((range d).map fun i => canonical (back h i)).reverse

/-- A repair with `d` headers replaces all that differs, down to a block where the chains
agree, to the maximum depth or to the start. -/
structure Repairs (canonical stored : ℕ → String) (h : ℕ) (text : String) (d : ℕ) : Prop where
  text : text = (headersFrom canonical h d).foldl (· ++ ·) ""
  differs : ∀ i < d, stored (back h i) ≠ canonical (back h i)
  connects : d ≠ maxReorgDepth → back h d ≠ 0 → stored (back h d) = canonical (back h d)

namespace ChainOracle

def Reads (c : ChainOracle) (chain : ChainRelay) (contractId : String) (height : ℕ) : Prop :=
  (∃ x, chain.getCanonicalBlockHeader height = .ok x) ∧
    ∃ x, c.getStoredBlockHeaderHex contractId height = .ok x

/-- What is known of the blocks a walk has gone past. -/
structure Passed (c : ChainOracle) (chain : ChainRelay) (contractId : String)
    (canonical stored : ℕ → String) (h i : ℕ) : Prop where
  differs : stored (back h i) ≠ canonical (back h i)
  reads : c.Reads chain contractId (back h i)
  pos : 0 < i → back h i ≠ 0

/-- Wherever a header cannot be read, less than the maximum depth below `h` and above the
start, and all blocks over it differ, the chains agree. -/
def AgreesWhereUnread (c : ChainOracle) (chain : ChainRelay) (contractId : String)
    (canonical stored : ℕ → String) (h : ℕ) : Prop :=
  ∀ i < maxReorgDepth, (∀ j < i, stored (back h j) ≠ canonical (back h j)) →
    (∀ j ≤ i, 0 < j → back h j ≠ 0) → ¬ c.Reads chain contractId (back h i) →
    stored (back h i) = canonical (back h i)

section

variable {c : ChainOracle} {chain : ChainRelay} {contractId : String} {canonical stored : ℕ → String}
  (hcanonical : ∀ k x, chain.getCanonicalBlockHeader k = .ok x → x = canonical k)
  (hstored : ∀ k x, c.getStoredBlockHeaderHex contractId k = .ok x → x = stored k)

include hcanonical hstored

theorem walkBack_eq {h : ℕ} (n : ℕ) {k : ℕ} (hk : 0 < k)
    (hpassed : ∀ i < k, c.Passed chain contractId canonical stored h i) :
    ∃ d ≤ k + n, 0 < d ∧ c.walkBack chain contractId h n k (headersFrom canonical h k) =
        headersFrom canonical h d ∧
      (∀ i < d, c.Passed chain contractId canonical stored h i) ∧
      (d = k + n ∨ back h d = 0 ∨ stored (back h d) = canonical (back h d) ∨
        ¬ c.Reads chain contractId (back h d)) := by
  induction n generalizing k with
  | zero => exact ⟨k, le_refl _, hk, rfl, hpassed, .inl rfl⟩
  | succ n ih =>
    rw [walkBack, show (h + 2 ^ 64 - k) % 2 ^ 64 = back h k from rfl]
    split
    · rename_i hzero
      exact ⟨k, Nat.le_add_right .., hk, rfl, hpassed, .inr (.inl hzero)⟩
    rename_i hzero
    cases hread : chain.getCanonicalBlockHeader (back h k) with
    | error e =>
      exact ⟨k, Nat.le_add_right .., hk, rfl, hpassed, .inr (.inr (.inr (by simp [Reads, hread])))⟩
    | ok x =>
      cases hread' : c.getStoredBlockHeaderHex contractId (back h k) with
      | error e =>
        exact ⟨k, Nat.le_add_right .., hk, rfl, hpassed, .inr (.inr (.inr (by simp [Reads, hread'])))⟩
      | ok y =>
        obtain rfl := hcanonical _ _ hread
        obtain rfl := hstored _ _ hread'
        dsimp only
        split
        · rename_i hsame
          exact ⟨k, Nat.le_add_right .., hk, rfl, hpassed, .inr (.inr (.inl hsame))⟩
        rename_i hdiff
        have hcons : canonical (back h k) :: headersFrom canonical h k =
            headersFrom canonical h (k + 1) := by simp [headersFrom, range_succ]
        have hnext : c.Passed chain contractId canonical stored h k :=
          ⟨hdiff, ⟨⟨_, hread⟩, _, hread'⟩, fun _ => hzero⟩
        obtain ⟨d, hle, hd⟩ := ih (k := k + 1) k.succ_pos fun i hi =>
          (Nat.lt_succ_iff_lt_or_eq.1 hi).elim (hpassed i) fun heq => heq ▸ hnext
        rw [Nat.add_right_comm] at hle hd
        exact ⟨d, hle, by rwa [hcons]⟩

/-- A report is the walk's: it names the blocks the walk has gone past, and the walk ended
at the maximum depth, at the start, where the chains agree or at a failed read. -/
theorem passed_of_checkForReorg {h : ℕ} (hh : h < 2 ^ 64) {text : String} {d : ℕ}
    (hreorg : c.checkForReorg chain contractId h = .ok (some (text, d))) :
    d ≤ maxReorgDepth ∧ 0 < d ∧ text = (headersFrom canonical h d).foldl (· ++ ·) "" ∧
      (∀ i < d, c.Passed chain contractId canonical stored h i) ∧
      (d = maxReorgDepth ∨ back h d = 0 ∨ stored (back h d) = canonical (back h d) ∨
        ¬ c.Reads chain contractId (back h d)) := by
  have htip : back h 0 = h := by rw [back, Nat.sub_zero, Nat.add_mod_right, Nat.mod_eq_of_lt hh]
  rw [checkForReorg] at hreorg
  split at hreorg
  · cases hreorg
  rename_i x hread
  obtain rfl := hcanonical _ _ hread
  split at hreorg
  · cases hreorg
  split at hreorg
  · cases hreorg
  rename_i y hread'
  obtain rfl := hstored _ _ hread'
  split at hreorg
  · cases hreorg
  rename_i hdiff
  have hone : headersFrom canonical h 1 = [canonical h] := by simp [headersFrom, htip]
  have hpassed : c.Passed chain contractId canonical stored h 0 := by
    constructor
    · rwa [htip]
    · rw [htip]
      exact ⟨⟨_, hread⟩, _, hread'⟩
    · exact fun h0 => absurd h0 (Nat.lt_irrefl 0)
  obtain ⟨d', hle, hpos, hwalk, hwalked, hends⟩ := walkBack_eq (c := c) (h := h) hcanonical hstored
    (maxReorgDepth - 1) Nat.one_pos fun i hi => Nat.lt_one_iff.1 hi ▸ hpassed
  rw [hone] at hwalk
  simp only [hwalk, Except.ok.injEq, Option.some.injEq, Prod.mk.injEq] at hreorg
  obtain ⟨rfl, rfl⟩ := hreorg
  have hlength : (headersFrom canonical h d').length = d' := by simp [headersFrom]
  rw [hlength]
  exact ⟨hle, hpos, rfl, hwalked, hends⟩

/-- **A reported repair** replaces the whole reorganised part exactly if the chains agree
wherever a header cannot be read below blocks that all differ. -/
theorem repairs_iff {h : ℕ} (hh : h < 2 ^ 64) {text : String} {d : ℕ}
    (hreorg : c.checkForReorg chain contractId h = .ok (some (text, d))) :
    Repairs canonical stored h text d ↔ c.AgreesWhereUnread chain contractId canonical stored h := by
  obtain ⟨hle, hpos, htext, hpassed, hends⟩ :=
    passed_of_checkForReorg (c := c) hcanonical hstored hh hreorg
  constructor
  · intro hrepairs i hi hdiffers hheights hunread
    -- The walk has read every block it went past, and it stops where the chains agree.
    rcases Nat.lt_trichotomy i d with hlt | rfl | hgt
    · exact absurd (hpassed i hlt).reads hunread
    · exact hrepairs.connects (by omega) (hheights i (le_refl i) hpos)
    · exact absurd (hrepairs.connects (by omega) (hheights d hgt.le hpos)) (hdiffers d hgt)
  intro hagrees
  refine ⟨htext, fun i hi => (hpassed i hi).differs, fun hmax hzero => ?_⟩
  by_cases hreads : c.Reads chain contractId (back h d)
  · exact ((hends.resolve_left hmax).resolve_left hzero).resolve_right (not_not.2 hreads)
  refine hagrees d (by omega) (fun j hj => (hpassed j hj).differs) (fun j hj hj0 => ?_) hreads
  rcases Nat.lt_or_eq_of_le hj with hlt | rfl
  · exact (hpassed j hlt).pos hj0
  · exact hzero

end

/-- The contract has stored a header of its own at its last two heights. -/
def forkedWitness : ChainOracle :=
  { mainnetWitness with state := { preparedState with
      parseCid := fun text => if text = "root" then
        some (.dir [("b-4", .value [0]), ("b-5", .value [0])]) else none } }

def silentAt (height : ℕ) : ChainRelay :=
  ⟨"BTC", "vsc1btc", fun _ _ _ => .ok [], fun h => if h = height then .error "timeout" else .ok "aa"⟩

/-- What the contract has stored, and canonical headers where it has nothing. -/
def kept (height : ℕ) : String :=
  (forkedWitness.getStoredBlockHeaderHex "vsc1evil" height).toOption.getD "aa"

theorem canonical_silentAt (height k : ℕ) (x : String)
    (h : (silentAt height).getCanonicalBlockHeader k = .ok x) : x = "aa" := by
  simp only [silentAt] at h
  split at h <;> cases h
  rfl

theorem stored_forkedWitness (k : ℕ) (x : String)
    (h : forkedWitness.getStoredBlockHeaderHex "vsc1evil" k = .ok x) : x = kept k := by
  rw [kept, h]
  rfl

/-- One header is replaced where two differ. -/
theorem repair_does_not_connect :
    forkedWitness.checkForReorg (silentAt 4) "vsc1evil" 5 = .ok (some ("aa", 1)) ∧
      ¬ Repairs (fun _ => "aa") kept 5 "aa" 1 :=
  ⟨rfl, fun h => absurd (h.connects (by decide) (by decide)) (by decide)⟩

theorem repairs_iff_silentAt_three :
    forkedWitness.checkForReorg (silentAt 3) "vsc1evil" 5 = .ok (some ("aaaa", 2)) ∧
      Repairs (fun _ => "aa") kept 5 "aaaa" 2 := by
  refine ⟨rfl, (repairs_iff (canonical_silentAt 3) stored_forkedWitness (by decide) rfl).2 ?_⟩
  intro i _ hdiffers _ hunread
  obtain rfl | rfl | rfl | hi : i = 0 ∨ i = 1 ∨ i = 2 ∨ 2 < i := by omega
  · exact absurd ⟨⟨_, rfl⟩, _, rfl⟩ hunread
  · exact absurd ⟨⟨_, rfl⟩, _, rfl⟩ hunread
  · rfl
  · exact absurd (by decide) (hdiffers 2 hi)

end ChainOracle

end VscNode.Oracle
