import VscNode.Chain.Election

/-!
# Key commitments

A keygen or a reshare ends in a commitment: a bit set over the members of the
election of its epoch that says who took part and so holds a share of the key.
One row is kept for a key, a height and a type (`SetCommitmentData`), so what
the readers do about duplicate rows changes nothing here.
-/

namespace VscNode.Tss

open List Collection

open TransactionPool (includedDIDs)

inductive CommitmentType
  | keygen | reshare | blame | signResult
  deriving DecidableEq

structure TssCommitment where
  type : CommitmentType
  (blockHeight epoch : ℕ)
  /-- The bit set of the parties, in base64. -/
  (commitment keyId txId : String)
  deriving DecidableEq

namespace TssCommitment

variable (c : TssCommitment)

def semanticKey : String × ℕ × CommitmentType := (c.keyId, c.blockHeight, c.type)

/-- The bit set as a number; a text that does not decode is the empty set. -/
def bits : ℕ :=
  let (raw, ok) := Text.base64RawUrl c.commitment
  if ok then Text.bigEndian raw else 0

def parties (accounts : List String) : List String :=
  includedDIDs c.bits 0 accounts

/-- The commitment gives its parties a share of the key. -/
def SharesKey (keyId : String) : Prop :=
  c.keyId = keyId ∧ (c.type = .keygen ∨ c.type = .reshare)
  deriving Decidable

def NewerOrSame (c c' : TssCommitment) : Prop :=
  c'.blockHeight < c.blockHeight ∨
    c'.blockHeight = c.blockHeight ∧ (c.type = .reshare ∨ c'.type ≠ .reshare)

instance : DecidableRel NewerOrSame := fun _ _ => inferInstanceAs (Decidable (_ ∨ _))

instance : Std.Total NewerOrSame where
  total c c' := by
    by_cases h : c.type = .reshare
    · rcases lt_trichotomy c.blockHeight c'.blockHeight with hlt | heq | hlt
      · exact .inr (.inl hlt)
      · exact .inl (.inr ⟨heq.symm, .inl h⟩)
      · exact .inl (.inl hlt)
    rcases lt_trichotomy c.blockHeight c'.blockHeight with hlt | heq | hlt
    · exact .inr (.inl hlt)
    · exact .inr (.inr ⟨heq, .inr h⟩)
    · exact .inl (.inl hlt)

instance : IsTrans TssCommitment NewerOrSame where
  trans c c' c'' h h' := by
    rcases h with h | ⟨heq, h⟩
    · rcases h' with h' | ⟨heq', -⟩
      · exact .inl (h'.trans h)
      · exact .inl (heq' ▸ h)
    rcases h' with h' | ⟨heq', h'⟩
    · exact .inl (heq ▸ h')
    refine .inr ⟨heq'.trans heq, ?_⟩
    rcases h with h | h
    · exact .inl h
    · exact .inr (h'.resolve_left h)

end TssCommitment

abbrev CommitmentDb := Collection TssCommitment.semanticKey

namespace CommitmentDb

def findCommitmentsSimple (db : CommitmentDb) (keyId : String) (toBlock : ℕ) : List TssCommitment :=
  db.docs.filter fun c => c.SharesKey keyId ∧ c.blockHeight ≤ toBlock

/-- The newest keygen or reshare of a key below a height. -/
def getCommitmentByHeight (db : CommitmentDb) (keyId : String) (height : ℕ) :
    Option TssCommitment :=
  ((db.docs.filter fun c => c.SharesKey keyId ∧ c.blockHeight < height).insertionSort
    TssCommitment.NewerOrSame).head?

variable {c : TssCommitment} {db : CommitmentDb} {keyId : String}

theorem mem_findCommitmentsSimple {toBlock : ℕ} : c ∈ db.findCommitmentsSimple keyId toBlock ↔
      c ∈ db ∧ c.SharesKey keyId ∧ c.blockHeight ≤ toBlock := by
  simp [findCommitmentsSimple, mem_docs]

structure Newest (db : CommitmentDb) (keyId : String) (height : ℕ) (c : TssCommitment) : Prop where
  mem : c ∈ db
  shares : c.SharesKey keyId
  below : c.blockHeight < height
  newest : ∀ c' ∈ db, c'.SharesKey keyId → c'.blockHeight < height → c.NewerOrSame c'

theorem eq_of_newerOrSame {c c' : TssCommitment} (hc : c ∈ db) (hc' : c' ∈ db)
    (hs : c.SharesKey keyId) (hs' : c'.SharesKey keyId) (h : c.NewerOrSame c')
    (h' : c'.NewerOrSame c) : c = c' := by
  have hheight : c.blockHeight = c'.blockHeight := by
    rcases h with h | h <;> rcases h' with h' | h' <;> omega
  have htype : c.type = c'.type := by
    have h₁ := (h.resolve_left (by omega)).2
    have h₂ := (h'.resolve_left (by omega)).2
    rcases hs.2 with ht | ht <;> rcases hs'.2 with ht' | ht' <;> simp_all
  exact eq_of_key_eq hc hc'
    (by rw [TssCommitment.semanticKey, TssCommitment.semanticKey, hs.1, hs'.1, hheight, htype])

theorem getCommitmentByHeight_of_newest {height : ℕ} (h : Newest db keyId height c) :
    db.getCommitmentByHeight keyId height = some c := by
  rw [getCommitmentByHeight]
  have hmem : ∀ c', c' ∈ (db.docs.filter fun c => c.SharesKey keyId ∧
      c.blockHeight < height).insertionSort TssCommitment.NewerOrSame ↔
      c' ∈ db ∧ c'.SharesKey keyId ∧ c'.blockHeight < height := by
    intro c'
    rw [mem_insertionSort, List.mem_filter, mem_docs, decide_eq_true_eq]
  have hsorted := pairwise_insertionSort TssCommitment.NewerOrSame
    (db.docs.filter fun c => c.SharesKey keyId ∧ c.blockHeight < height)
  cases hl : (db.docs.filter fun c => c.SharesKey keyId ∧
      c.blockHeight < height).insertionSort TssCommitment.NewerOrSame with
  | nil =>
    rw [hl] at hmem
    exact absurd ((hmem c).2 ⟨h.mem, h.shares, h.below⟩) not_mem_nil
  | cons first rest =>
    rw [hl] at hmem hsorted
    obtain ⟨hfirst, hshares, hbelow⟩ := (hmem first).1 mem_cons_self
    rcases mem_cons.1 ((hmem c).2 ⟨h.mem, h.shares, h.below⟩) with heq | hrest
    · rw [head?_cons, heq]
    have hnewer := (pairwise_cons.1 hsorted).1 c hrest
    rw [head?_cons, eq_of_newerOrSame hfirst h.mem hshares h.shares hnewer
      (h.newest first hfirst hshares hbelow)]

end CommitmentDb

end VscNode.Tss
