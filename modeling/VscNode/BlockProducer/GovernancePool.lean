import VscNode.BlockProducer.Node
import VscNode.Lib.Run

/-!
# What becomes of a governance record

Every node puts the records it meets on L1 into its pool, and composing a block
takes records out of the pool of the node that composes, be it the leader or a
signer. Nothing puts them back when the block is not signed, not broadcast or not
the one the leader proposed, so a record can leave every pool without being in an
applied block.

A record is kept exactly as long as no compose takes it out of a pool before a
block with it is applied, and no other record of the same key takes its place.
-/

namespace VscNode.BlockProducer

open Text Collection Relation

variable {ι β : Type*}

/-! ## The pool -/

variable {p : Pool} {r : SafetySlashReverseRecord}

theorem Pool.mem_enqueueSlashReverse_iff (r' : SafetySlashReverseRecord) (hr : r ∈ p) :
    r ∈ (p.enqueueSlashReverse r').1 ↔ validReverseShape r'.normalize = true →
      reverseDedupKey r'.normalize = reverseDedupKey r → r'.normalize = r := by
  have hput : r ∈ p.put r'.normalize ↔
      (reverseDedupKey r'.normalize = reverseDedupKey r → r'.normalize = r) := by
    rw [mem_put]
    constructor
    · rintro (rfl | ⟨-, hne⟩) hkey
      · rfl
      · exact absurd hkey.symm hne
    intro h
    by_cases hkey : reverseDedupKey r'.normalize = reverseDedupKey r
    · exact .inl (h hkey).symm
    · exact .inr ⟨hr, Ne.symm hkey⟩
  rw [enqueueSlashReverse]
  split
  · rename_i hshape
    simp [hshape, hr]
  rename_i hshape
  have hgoal : (validReverseShape r'.normalize = true →
      reverseDedupKey r'.normalize = reverseDedupKey r → r'.normalize = r) ↔
      (reverseDedupKey r'.normalize = reverseDedupKey r → r'.normalize = r) := by
    simp [Bool.not_eq_false _ ▸ hshape]
  rw [hgoal]
  split
  · exact hput
  rename_i hnone
  split
  · -- a full pool turns the record down, which has a key of its own
    refine iff_of_true hr fun hkey => absurd ?_ hnone
    rw [hkey, get?_of_mem hr]
    rfl
  · exact hput

theorem Pool.mem_drainSlashReverses_iff {max : ℕ} :
    r ∈ (p.drainSlashReverses max).1 ↔ r ∈ p ∧ r ∉ (p.drainSlashReverses max).2 :=
  mem_drop_iff

theorem Node.handleBlockMsg_pool [DecidableEq β] (n : Node β) (m : BlockMsg β) :
    (n.handleBlockMsg m).1.pool =
      if n.derives m then (n.pool.drainSlashReverses maxGovernanceOpsPerBlock).1 else n.pool := by
  rw [handleBlockMsg]
  split
  · rename_i haccept
    have hderive : n.derives m = false := by simp [derives, haccept]
    rw [hderive]
    rfl
  split
  · rename_i hown
    have hderive : n.derives m = false := by simp [derives, hown]
    rw [hderive]
    rfl
  split
  · rename_i hderive
    rw [hderive]
    rfl
  rename_i hderive
  rw [Bool.not_eq_false] at hderive
  rw [if_pos hderive]
  rfl

/-! ## Runs -/

structure Network (ι β : Type*) where
  nodes : ι → Node β
  applied : List (Block β) := []

/-- What can happen: a node meets a record on L1, its state engine moves on, it composes
a block as leader or handles the message of one, or a block is applied. -/
inductive Event (ι β : Type*)
  | enqueue (i : ι) (r : SafetySlashReverseRecord)
  | advance (i : ι) (n : Node β)
  | produce (i : ι) (slotHeight : ℕ) (transactions : List String)
  | handle (i : ι) (m : BlockMsg β)
  | applyBlock (b : Block β)

namespace Network

variable [DecidableEq ι]

variable (s : Network ι β) (i : ι) (n : Node β)

def setNode : Network ι β :=
  { s with nodes := Function.update s.nodes i n }

@[simp] theorem setNode_self : (s.setNode i n).nodes i = n := by simp [setNode]

theorem setNode_of_ne {i j : ι} (hj : j ≠ i) (n : Node β) :
    (s.setNode i n).nodes j = s.nodes j := by simp [setNode, hj]

variable [DecidableEq β]

def apply (s : Network ι β) : Event ι β → Network ι β
  | .enqueue i r =>
    s.setNode i ((s.nodes i).withPool ((s.nodes i).pool.enqueueSlashReverse r).1)
  | .advance i n => s.setNode i (n.withPool (s.nodes i).pool)
  | .produce i slotHeight transactions =>
    s.setNode i ((s.nodes i).produceBlock slotHeight transactions).1
  | .handle i m => s.setNode i ((s.nodes i).handleBlockMsg m).1
  | .applyBlock b => { s with applied := b :: s.applied }

section

variable (s : Network ι β) (r : SafetySlashReverseRecord)

/-- A block with the record has been applied. -/
def Applied : Prop :=
  ∃ b ∈ s.applied, r ∈ b.reverses

/-- Every node still has the record in its pool, or a block with it has been applied. -/
def Kept : Prop :=
  ∀ i, r ∈ (s.nodes i).pool ∨ s.Applied r

/-- The record is not among those that composing takes out of a pool. -/
def NotTaken (i : ι) : Prop :=
  r ∉ ((s.nodes i).pool.drainSlashReverses maxGovernanceOpsPerBlock).2

/-- An event that leaves the record where it is. -/
def Keeps (s : Network ι β) : Event ι β → Prop
  | .enqueue _ r' => s.Applied r ∨ (validReverseShape r'.normalize = true →
      reverseDedupKey r'.normalize = reverseDedupKey r → r'.normalize = r)
  | .advance _ _ => True
  | .produce i _ _ => s.Applied r ∨ s.NotTaken r i
  | .handle i m => s.Applied r ∨ ((s.nodes i).derives m = true → s.NotTaken r i)
  | .applyBlock _ => True

end

variable {s : Network ι β} {r : SafetySlashReverseRecord}

omit [DecidableEq β] in
theorem kept_setNode_iff (h : s.Kept r) (i : ι) (n : Node β) :
    (s.setNode i n).Kept r ↔ r ∈ n.pool ∨ s.Applied r := by
  constructor
  · intro hkept
    have hi := hkept i
    rw [setNode_self] at hi
    exact hi
  intro hn j
  by_cases hj : j = i
  · subst hj
    rw [setNode_self]
    exact hn
  · rw [setNode_of_ne s hj]
    exact h j

theorem kept_apply_iff (h : s.Kept r) (e : Event ι β) : (s.apply e).Kept r ↔ Keeps r s e := by
  cases e with
  | enqueue i r' =>
    refine (kept_setNode_iff h i _).trans ?_
    by_cases happ : s.Applied r
    · exact iff_of_true (.inr happ) (.inl happ)
    have hr := (h i).resolve_right happ
    rw [Keeps, or_iff_left happ, or_iff_right happ, Node.withPool_pool]
    exact Pool.mem_enqueueSlashReverse_iff r' hr
  | advance i n => exact (kept_setNode_iff h i _).trans (iff_of_true (h i) trivial)
  | produce i slotHeight transactions =>
    refine (kept_setNode_iff h i _).trans ?_
    have hpool : ((s.nodes i).produceBlock slotHeight transactions).1.pool =
        ((s.nodes i).pool.drainSlashReverses maxGovernanceOpsPerBlock).1 := rfl
    rw [hpool, Pool.mem_drainSlashReverses_iff, Keeps, NotTaken]
    have hi := h i
    tauto
  | handle i m =>
    refine (kept_setNode_iff h i _).trans ?_
    rw [Node.handleBlockMsg_pool, Keeps, NotTaken]
    have hi := h i
    by_cases hderive : (s.nodes i).derives m = true
    · rw [if_pos hderive, Pool.mem_drainSlashReverses_iff]
      tauto
    · rw [if_neg hderive]
      tauto
  | applyBlock b =>
    refine iff_of_true (fun i => (h i).imp_right ?_) trivial
    rintro ⟨b', hb', hr⟩
    exact ⟨b', List.mem_cons_of_mem _ hb', hr⟩

/-- A record that every node has in its pool stays kept by an event exactly if the event
leaves it where it is, and so along every run of such events. -/
theorem reverse_kept_iff (h : ∀ i, r ∈ (s.nodes i).pool) :
    (∀ e : Event ι β, (s.apply e).Kept r ↔ Keeps r s e) ∧
      ∀ t, ReflTransGen (Run.StepBy apply (Keeps r)) s t → t.Kept r := by
  have hkept : s.Kept r := fun i => .inl (h i)
  refine ⟨kept_apply_iff hkept, fun t hrun => ?_⟩
  refine Run.preserves (P := fun s => s.Kept r) ?_ hrun hkept
  rintro s - ⟨e, hok, rfl⟩ hs
  exact (kept_apply_iff hs e).2 hok

/-! ### A leader and a signer -/

def wrongfulSlash : SafetySlashReverseRecord :=
  { slashTxID := "s", evidenceKind := "vsc_double_block_sign", slashedAccount := "hive:a"
    action := .both, amount := 100 }

def idleNode (account : String) (body : ℕ → ℕ) : Node ℕ :=
  { account := account, bh := 20, lastProcessed := 20, getSlot := fun _ => some "leader"
    txDb := fun _ => none, nonceDb := fun _ => 0, body := body, pool := Collection.empty
    blockSigning := none }

/-- Both nodes have met the record; they differ in what they derive for slot 20. -/
def bothEnqueued : Network Bool ℕ :=
  List.foldl apply ⟨fun i => if i then idleNode "leader" id else idleNode "signer" (· + 1), []⟩
    ([.enqueue true wrongfulSlash, .enqueue false wrongfulSlash])

/-- The leader composes and the signer does not come to the same block. -/
def afterMismatch : Network Bool ℕ :=
  List.foldl apply bothEnqueued ([.produce true 20 [],
    .handle false ((bothEnqueued.nodes true).produceBlock 20 []).2])

/-- The record has left both pools, and no block has been applied or signed. -/
theorem reverse_lost_afterMismatch : (∀ i, wrongfulSlash ∈ (bothEnqueued.nodes i).pool) ∧
      ((bothEnqueued.nodes false).handleBlockMsg
        ((bothEnqueued.nodes true).produceBlock 20 []).2).2 = none ∧
      (∀ i, (afterMismatch.nodes i).pool.docs = []) ∧ afterMismatch.applied = [] ∧
      ¬afterMismatch.Kept wrongfulSlash := by
  have hpools : ∀ i, (afterMismatch.nodes i).pool.docs = [] := by decide
  refine ⟨fun i => mem_docs.1 ?_, by decide, hpools, rfl, fun hkept => ?_⟩
  · revert i
    decide
  rcases hkept true with hmem | ⟨b, hb, -⟩
  · rw [← mem_docs, hpools true] at hmem
    cases hmem
  · cases hb

/-- A block with the record is applied before the next leader composes. -/
def afterApplied : Network Bool ℕ :=
  List.foldl apply bothEnqueued ([.applyBlock ⟨10, [], 10, [wrongfulSlash]⟩, .produce true 20 []])

theorem reverse_kept_afterApplied :
    (∀ i, wrongfulSlash ∈ (bothEnqueued.nodes i).pool) ∧ afterApplied.Kept wrongfulSlash := by
  have hall : ∀ i, wrongfulSlash ∈ (bothEnqueued.nodes i).pool := by
    refine fun i => mem_docs.1 ?_
    revert i
    decide
  refine ⟨hall, (reverse_kept_iff hall).2 afterApplied (Run.foldl ⟨trivial, .inl ?_, trivial⟩)⟩
  exact ⟨⟨10, [], 10, [wrongfulSlash]⟩, List.mem_cons_self, List.mem_cons_self⟩

end Network

end VscNode.BlockProducer
