import VscNode.Lib.Collection
import VscNode.Lib.Newest

/-!
# Stored contract versions

A contract is stored as one row per version. A version names the block it was submitted
in and the height from which it is active, and the row of a version is found by contract
and block of submission: a second version submitted in one block is written over the
first (`registerContract`). A pending version can be cancelled; its row stays, marked.
-/

namespace VscNode.Contracts

open Collection

structure Contract where
  (id code name description creator owner txId : String)
  creationHeight : ℕ
  runtime : String
  activationHeight : ℕ
  proposer : String
  latest : Bool := true
  cancelled : Bool := false
  cancelledHeight : ℕ := 0
  cancelledTx : String := ""
  deriving DecidableEq

namespace Contract

variable (c : Contract) (id : String)

def key : String × ℕ := (c.id, c.creationHeight)

/-- A version of the contract that has been reached at a height and was not cancelled. -/
def ActiveAt (height : ℕ) : Prop :=
  c.id = id ∧ c.activationHeight ≤ height ∧ c.cancelled = false
  deriving Decidable

/-- Later activation first, then later submission. -/
def NewerOrSame (c c' : Contract) : Prop :=
  c'.activationHeight < c.activationHeight ∨
    c'.activationHeight = c.activationHeight ∧ c'.creationHeight ≤ c.creationHeight

instance : DecidableRel NewerOrSame := fun _ _ => inferInstanceAs (Decidable (_ ∨ _))

instance : Std.Total NewerOrSame where
  total c c' := by
    simp only [NewerOrSame]
    omega

instance : IsTrans Contract NewerOrSame where
  trans c c' c'' h h' := by
    simp only [NewerOrSame] at *
    omega

def unsetLatest (contractId : String) (c : Contract) : Contract :=
  if c.id = contractId then { c with latest := false } else c

def PendingAt (head : ℕ) (targetTx : Option String) : Prop :=
  c.id = id ∧ head < c.activationHeight ∧ c.cancelled = false ∧ ∀ tx ∈ targetTx, c.txId = tx
  deriving Decidable

def cancel (id : String) (head cancelledHeight : ℕ) (cancelledTx : String)
    (targetTx : Option String) (c : Contract) : Contract :=
  if c.PendingAt id head targetTx then
    { c with
      cancelled := true
      cancelledHeight := cancelledHeight
      cancelledTx := cancelledTx
      latest := false }
  else c

section UnsetLatest

variable (contractId : String) (c : Contract)

@[simp] theorem unsetLatest_id : (c.unsetLatest contractId).id = c.id := by
  rw [unsetLatest]
  split <;> rfl

@[simp] theorem unsetLatest_creationHeight :
    (c.unsetLatest contractId).creationHeight = c.creationHeight := by
  rw [unsetLatest]
  split <;> rfl

@[simp] theorem unsetLatest_activationHeight :
    (c.unsetLatest contractId).activationHeight = c.activationHeight := by
  rw [unsetLatest]
  split <;> rfl

@[simp] theorem unsetLatest_cancelled : (c.unsetLatest contractId).cancelled = c.cancelled := by
  rw [unsetLatest]
  split <;> rfl

@[simp] theorem key_unsetLatest : (c.unsetLatest contractId).key = c.key := by
  rw [key, unsetLatest_id, unsetLatest_creationHeight, key]

end UnsetLatest

section Cancel

variable (id : String) (head cancelledHeight : ℕ) (cancelledTx : String)
  (targetTx : Option String) (c : Contract)

@[simp] theorem cancel_creationHeight :
    (c.cancel id head cancelledHeight cancelledTx targetTx).creationHeight = c.creationHeight := by
  rw [cancel]
  split <;> rfl

@[simp] theorem cancel_activationHeight :
    (c.cancel id head cancelledHeight cancelledTx targetTx).activationHeight =
      c.activationHeight := by
  rw [cancel]
  split <;> rfl

@[simp] theorem key_cancel :
    (c.cancel id head cancelledHeight cancelledTx targetTx).key = c.key := by
  rw [cancel]
  split <;> rfl

end Cancel

end Contract

abbrev ContractDb := Collection Contract.key

namespace ContractDb

variable (db : ContractDb) (contractId : String)

def contractById (height : ℕ) : Option Contract :=
  ((db.docs.filter fun c => c.ActiveAt contractId height).insertionSort Contract.NewerOrSame).head?

/-- The row a version is written to. A row that is there keeps whether it was cancelled. -/
def registered (args : Contract) : Contract :=
  let old := db.get? (contractId, args.creationHeight)
  { args with
    id := contractId
    activationHeight := max args.activationHeight args.creationHeight
    latest := true
    cancelled := old.elim false (·.cancelled)
    cancelledHeight := old.elim 0 (·.cancelledHeight)
    cancelledTx := old.elim "" (·.cancelledTx) }

def registerContract (args : Contract) : ContractDb :=
  (db.modify (Contract.unsetLatest contractId) (Contract.key_unsetLatest contractId)).put
    (db.registered contractId args)

def cancelPendingUpdate (db : ContractDb) (contractId : String) (head cancelledHeight : ℕ)
    (cancelledTx : String) (targetTx : Option String) : ContractDb × ℕ :=
  (db.modify (Contract.cancel contractId head cancelledHeight cancelledTx targetTx)
      (Contract.key_cancel contractId head cancelledHeight cancelledTx targetTx),
    db.docs.countP fun c => c.PendingAt contractId head targetTx)

variable {db : ContractDb} {contractId : String} {height : ℕ} {c : Contract}

theorem eq_of_newerOrSame {c' : Contract} (hc : c ∈ db) (hc' : c' ∈ db) (hid : c.id = c'.id)
    (h : c.NewerOrSame c') (h' : c'.NewerOrSame c) : c = c' := by
  refine eq_of_key_eq hc hc' ?_
  have hheight : c.creationHeight = c'.creationHeight := by
    simp only [Contract.NewerOrSame] at h h'
    omega
  rw [Contract.key, Contract.key, hid, hheight]

theorem contractById_eq_some_iff : db.contractById contractId height = some c ↔
      c ∈ db ∧ c.ActiveAt contractId height ∧
        ∀ c' ∈ db, c'.ActiveAt contractId height → c.NewerOrSame c' := by
  rw [contractById, List.head?_insertionSort_eq_some_iff]
  · simp [mem_docs, and_assoc]
  intro a ha b hb
  simp only [List.mem_filter, mem_docs, decide_eq_true_eq] at ha hb
  exact eq_of_newerOrSame ha.1 hb.1 (ha.2.1.trans hb.2.1.symm)

theorem contractById_eq_none_iff :
    db.contractById contractId height = none ↔ ∀ c ∈ db, ¬ c.ActiveAt contractId height := by
  rw [contractById, List.head?_insertionSort_eq_none_iff]
  simp [mem_docs]

theorem map_contractById_congr {β : Type*} {g : Contract → β} {db' : ContractDb} {height' : ℕ}
    (h : ∀ c ∈ db, c.ActiveAt contractId height → ∃ c' ∈ db', c'.ActiveAt contractId height' ∧
      g c' = g c ∧ c'.activationHeight = c.activationHeight ∧
      c'.creationHeight = c.creationHeight)
    (h' : ∀ c' ∈ db', c'.ActiveAt contractId height' → ∃ c ∈ db, c.ActiveAt contractId height ∧
      c'.activationHeight = c.activationHeight ∧ c'.creationHeight = c.creationHeight) :
    (db'.contractById contractId height').map g = (db.contractById contractId height).map g := by
  cases hfound : db.contractById contractId height with
  | none =>
    rw [contractById_eq_none_iff] at hfound
    have hnone : db'.contractById contractId height' = none := by
      rw [contractById_eq_none_iff]
      intro c' hc' hactive
      obtain ⟨c, hc, hcactive, -⟩ := h' c' hc' hactive
      exact hfound c hc hcactive
    rw [hnone]
  | some c =>
    obtain ⟨hc, hactive, hnewest⟩ := contractById_eq_some_iff.1 hfound
    obtain ⟨c', hc', hactive', hg, hact, hcre⟩ := h c hc hactive
    have hsome : db'.contractById contractId height' = some c' := by
      refine contractById_eq_some_iff.2 ⟨hc', hactive', fun d' hd' hdactive' => ?_⟩
      obtain ⟨d, hd, hdactive, hdact, hdcre⟩ := h' d' hd' hdactive'
      have := hnewest d hd hdactive
      rwa [Contract.NewerOrSame, hact, hcre, hdact, hdcre]
    rw [hsome, Option.map_some, Option.map_some, hg]

variable {args : Contract} {cancelledTx : String} {head cancelledHeight : ℕ}
  {targetTx : Option String}

theorem mem_registerContract : c ∈ db.registerContract contractId args ↔
      c = db.registered contractId args ∨ (∃ c₀ ∈ db, c₀.unsetLatest contractId = c) ∧
          c.key ≠ (contractId, args.creationHeight) := by
  rw [registerContract, mem_put, mem_modify]
  rfl

theorem mem_cancelPendingUpdate :
    c ∈ (db.cancelPendingUpdate contractId head cancelledHeight cancelledTx targetTx).1 ↔
      ∃ c₀ ∈ db, c₀.cancel contractId head cancelledHeight cancelledTx targetTx = c := by
  rw [cancelPendingUpdate, mem_modify]

theorem mem_registerContract_of_ne (hne : c.id ≠ contractId) :
    c ∈ db.registerContract contractId args ↔ c ∈ db := by
  have hunset : ∀ c₀ : Contract, c₀.unsetLatest contractId = c ↔ c₀ = c := by
    intro c₀
    rw [Contract.unsetLatest]
    split
    · rename_i hid
      constructor
      · rintro rfl
        exact absurd hid hne
      · rintro rfl
        exact absurd hid hne
    · exact Iff.rfl
  rw [mem_registerContract]
  constructor
  · rintro (rfl | ⟨⟨c₀, hc₀, heq⟩, -⟩)
    · exact absurd rfl hne
    · exact (hunset c₀).1 heq ▸ hc₀
  · exact fun hc => .inr ⟨⟨c, hc, (hunset c).2 rfl⟩, fun hkey => hne (Prod.mk.inj hkey).1⟩

theorem mem_cancelPendingUpdate_of_ne (hne : c.id ≠ contractId) :
    c ∈ (db.cancelPendingUpdate contractId head cancelledHeight cancelledTx targetTx).1 ↔
      c ∈ db := by
  rw [mem_cancelPendingUpdate]
  constructor
  · rintro ⟨c₀, hc₀, rfl⟩
    rw [Contract.cancel] at hne ⊢
    split at hne
    · rename_i hpending
      exact absurd hpending.1 hne
    · rename_i hpending
      rwa [if_neg hpending]
  · exact fun hc => ⟨c, hc, if_neg fun hpending => hne hpending.1⟩

end ContractDb

end VscNode.Contracts
