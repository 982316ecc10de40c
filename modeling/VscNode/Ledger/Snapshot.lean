import VscNode.Chain.Slot
import VscNode.Ledger.UpdateBalances

/-!
# Where the snapshots stand

A slot change writes snapshots at the slot it closes, and it happens while an L1
block of a later slot is processed. Every snapshot therefore lies at least a slot
length below the height being processed, and below the open slot. A new snapshot
holds what a balance read at its height returns.
-/

namespace VscNode

open Collection

variable {r : BalanceRecord} {s : LedgerDbs}

theorem foldAccount_field {lastClaim : Option ℕ} {endBlock : ℕ} {account : String}
    (h : foldAccount s lastClaim endBlock account = some r) {asset : Asset}
    (hasset : asset ∈ snapshotAssets) :
    r.account = account ∧ r.blockHeight = endBlock ∧
      r.field asset = s.getBalance account endBlock asset := by
  simp only [foldAccount] at h
  split at h
  · cases h
  cases h
  refine ⟨rfl, rfl, ?_⟩
  have hsum : ∀ start : ℕ, ((s.ledger.getLedgerRange account start endBlock none []).map fun v =>
          if v.asset = asset ∧ isProtocolMetaLedgerType v.type = false then v.amount else 0).sum =
        s.ledger.between (·.blockHeight) (·.moves account asset) start endBlock := by
    intro start
    rw [LedgerDb.sum_getLedgerRange, between]
    apply sum_congr
    intro v _
    by_cases hw : start ≤ v.blockHeight ∧ v.blockHeight ≤ endBlock <;>
      by_cases ho : v.owner = account <;> simp [LedgerRecord.moves, hw, ho]
  rw [LedgerDbs.getBalance_eq hasset, ← hsum]
  simp only [snapshotAssets, List.mem_cons, List.not_mem_nil, or_false] at hasset
  rcases hasset with rfl | rfl | rfl | rfl <;> rfl

theorem mem_balances_updateBalances {env : SlotEnv} {startBlock endBlock : ℕ}
    (h : r ∈ (updateBalances s env startBlock endBlock).balances) :
    r ∈ s.balances ∨ r.blockHeight = endBlock ∧ ∀ asset ∈ snapshotAssets, r.field asset =
        ({ updateBalances s env startBlock endBlock with balances := s.balances } :
          LedgerDbs).getBalance r.account endBlock asset := by
  rcases mem_of_mem_putAll h with h | h
  · obtain ⟨account, -, hfold⟩ := List.mem_filterMap.1 h
    refine .inr ⟨(foldAccount_field hfold (show Asset.hive ∈ snapshotAssets by decide)).2.1, ?_⟩
    intro asset hasset
    obtain ⟨hacct, -, hfield⟩ := foldAccount_field hfold hasset
    rw [hfield, hacct]
    rfl
  · exact .inl h

theorem exists_mem_putAll {db : BalanceDb} {rows : List BalanceRecord} (hr : r ∈ db ∨ r ∈ rows) :
    ∃ r' ∈ db.putAll rows, r'.account = r.account ∧ r'.blockHeight = r.blockHeight := by
  obtain ⟨r', hr'⟩ := exists_get?_putAll
    (hr.imp (fun hr => ⟨r, get?_of_mem hr⟩) fun hr => ⟨r, hr, rfl⟩)
  obtain ⟨hmem, hkey⟩ := get?_eq_some_iff.1 hr'
  exact ⟨r', hmem, congrArg Prod.fst hkey, congrArg Prod.snd hkey⟩

structure SnapshotsBehind (balances : BalanceDb) (head slot : ℕ) : Prop where
  slot_mod : slot % slotLength = 0
  slot_le : slot ≤ slotStart head
  lt_slot : ∀ r ∈ balances, r.blockHeight < slot
  add_le_head : ∀ r ∈ balances, r.blockHeight + slotLength ≤ head

namespace SnapshotsBehind

variable {balances : BalanceDb} {head slot : ℕ}

theorem empty (head : ℕ) : SnapshotsBehind Collection.empty head (slotStart head) where
  slot_mod := slotStart_mod head
  slot_le := le_rfl
  lt_slot := fun r hr => absurd hr (not_mem_empty r)
  add_le_head := fun r hr => absurd hr (not_mem_empty r)

theorem lt_head (h : SnapshotsBehind balances head slot) {r : BalanceRecord} (hr : r ∈ balances) :
    r.blockHeight < head := by
  have hlen : 0 < slotLength := by decide
  have := h.add_le_head r hr
  omega

theorem next (h : SnapshotsBehind balances head slot) {height : ℕ} (hnext : head < height) :
    SnapshotsBehind balances height slot where
  slot_mod := h.slot_mod
  slot_le := h.slot_le.trans (slotStart_mono hnext.le)
  lt_slot := h.lt_slot
  add_le_head := fun r hr => (h.add_le_head r hr).trans hnext.le

theorem slotChange {s : LedgerDbs} (h : SnapshotsBehind s.balances head slot) (env : SlotEnv)
    (startBlock : ℕ) (hslot : slotStart head ≠ slot) :
    SnapshotsBehind (updateBalances s env startBlock slot).balances head (slotStart head) := by
  have hended : slot + slotLength ≤ slotStart head :=
    add_slotLength_le_of_ne h.slot_mod h.slot_le hslot
  have hlen : 0 < slotLength := by decide
  have hle := slotStart_le head
  refine ⟨slotStart_mod _, le_rfl, ?_, ?_⟩
  · intro r hr
    rcases mem_balances_updateBalances hr with hr | ⟨hr, -⟩
    · have := h.lt_slot r hr
      omega
    · omega
  intro r hr
  rcases mem_balances_updateBalances hr with hr | ⟨hr, -⟩
  · exact h.add_le_head r hr
  · omega

end SnapshotsBehind

end VscNode
