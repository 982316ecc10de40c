import VscNode.Ledger.SafetySlash

/-!
# Which row an identifier names

Row identifiers are texts joined with `#`. The legs of a slash end in the tag of
the leg and the slashed account; every other writer ends its identifiers in a
word of its own, or writes identifiers without a separator. `rowClass` reads the
writer off the end of an identifier. Since an account starts with `hive:`, no
writer overwrites the rows of another one, whatever operation identifiers the
oplog carries.
-/

namespace VscNode

open Text List

/-- A Hive account as the ledger writes it, without the separator of row ids. -/
def HiveAccount (acct : String) : Prop := Free '#' acct ∧ hasPrefix acct "hive:" = true
  deriving Decidable

theorem hasPrefix_normalizeHiveConsensusAccount {a : String}
    (h : normalizeHiveConsensusAccount a ≠ "") :
    hasPrefix (normalizeHiveConsensusAccount a) "hive:" = true := by
  simp only [normalizeHiveConsensusAccount] at h ⊢
  split
  · rename_i h'
    exact absurd (if_pos h') h
  split
  · assumption
  · rw [hasPrefix_iff, String.toList_append]
    exact prefix_append _ _

/-! ## The legs of a slash -/

theorem fields_slashBaseID (txID kind : String) :
    fields '#' (slashBaseID txID kind) = fields '#' txID ++ "safety_slash" :: fields '#' kind :=
  fields_join "safety_slash" (by rfl) (by decide) _ _

variable {s tag kind acct id : String}

theorem fields_slashLeg (hs : s.toList = '#' :: (tag.toList ++ ['#'])) (htag : Free '#' tag)
    (txID : String) (hkind : Free '#' kind) (hacct : Free '#' acct) :
    fields '#' (slashBaseID txID kind ++ s ++ acct) =
      fields '#' txID ++ ["safety_slash", kind, tag] ++ [acct] := by
  rw [fields_join tag hs htag, fields_slashBaseID, fields_of_free hkind, fields_of_free hacct]
  simp

section Legs

variable (txID : String) {kind acct : String} (hkind : Free '#' kind) (hacct : Free '#' acct)

include hkind hacct

theorem fields_slashDebitID : fields '#' (slashDebitID txID kind acct) =
    fields '#' txID ++ ["safety_slash", kind, "consensus_debit"] ++ [acct] :=
  fields_slashLeg (by rfl) (by decide) txID hkind hacct

theorem fields_slashReserveID : fields '#' (slashReserveID txID kind acct) =
    fields '#' txID ++ ["safety_slash", kind, "reserve"] ++ [acct] :=
  fields_slashLeg (by rfl) (by decide) txID hkind hacct

theorem fields_slashPendingID : fields '#' (slashPendingID txID kind acct) =
    fields '#' txID ++ ["safety_slash", kind, "hive_burn_pending"] ++ [acct] :=
  fields_slashLeg (by rfl) (by decide) txID hkind hacct

end Legs

theorem slashLeg_inj {l l' : List String} {kind' tag' acct' : String}
    (h : l ++ ["safety_slash", kind, tag] ++ [acct] = l' ++ ["safety_slash", kind', tag'] ++
      [acct']) :
    kind = kind' ∧ tag = tag' ∧ acct = acct' := by
  rw [append_assoc, append_assoc] at h
  simpa [and_assoc] using append_inj_right' h rfl

theorem slashLegID_inj (tag : String) (hs : s.toList = '#' :: (tag.toList ++ ['#']))
    (htag : Free '#' tag) {txID txID' kind' acct' : String} (hkind : Free '#' kind)
    (hkind' : Free '#' kind') (hacct : Free '#' acct) (hacct' : Free '#' acct')
    (h : slashBaseID txID kind ++ s ++ acct = slashBaseID txID' kind' ++ s ++ acct') :
    txID = txID' ∧ kind = kind' ∧ acct = acct' := by
  have hf := congrArg (fields '#') h
  rw [fields_slashLeg hs htag txID hkind hacct, fields_slashLeg hs htag txID' hkind' hacct'] at hf
  obtain ⟨rfl, -, rfl⟩ := slashLeg_inj hf
  refine ⟨?_, rfl, rfl⟩
  simpa [slashBaseID, ← String.toList_inj] using h

section Inj

variable {txID txID' kind kind' acct acct' : String} (hkind : Free '#' kind)
  (hkind' : Free '#' kind') (hacct : Free '#' acct) (hacct' : Free '#' acct')

include hkind hkind' hacct hacct'

theorem slashDebitID_inj (h : slashDebitID txID kind acct = slashDebitID txID' kind' acct') :
    txID = txID' ∧ kind = kind' ∧ acct = acct' :=
  slashLegID_inj "consensus_debit" (by rfl) (by decide) hkind hkind' hacct hacct' h

theorem slashDebitID_ne_slashReserveID :
    slashDebitID txID kind acct ≠ slashReserveID txID' kind' acct' := by
  intro h
  have hf := congrArg (fields '#') h
  rw [fields_slashDebitID txID hkind hacct, fields_slashReserveID txID' hkind' hacct'] at hf
  exact absurd (slashLeg_inj hf).2.1 (by decide)

theorem slashDebitID_ne_slashPendingID :
    slashDebitID txID kind acct ≠ slashPendingID txID' kind' acct' := by
  intro h
  have hf := congrArg (fields '#') h
  rw [fields_slashDebitID txID hkind hacct, fields_slashPendingID txID' hkind' hacct'] at hf
  exact absurd (slashLeg_inj hf).2.1 (by decide)

theorem slashReserveID_ne_slashPendingID :
    slashReserveID txID kind acct ≠ slashPendingID txID' kind' acct' := by
  intro h
  have hf := congrArg (fields '#') h
  rw [fields_slashReserveID txID hkind hacct, fields_slashPendingID txID' hkind' hacct'] at hf
  exact absurd (slashLeg_inj hf).2.1 (by decide)

end Inj

/-! ## Classes of identifiers -/

/-- The writers of ledger rows: L1 deposits and the cursor, oplog events, slashes,
what settles a pending burn, and reserve payouts. -/
inductive RowClass
  | plain | op | leg | settlement | payout
  deriving DecidableEq

def opWords : List String := ["in", "out", "edge", "total"]

def settlementWords : List String :=
  ["pending_release", "promoted_to_reserve", "finalized_marker"]

def rowClass (id : String) : RowClass :=
  match (fields '#' id).reverse with
  | last :: tag :: _ =>
    if last ∈ opWords then .op
    else if last ∈ settlementWords then .settlement
    else if last = "debit" ∨ tag = "credit" then .payout
    else .leg
  | _ => .plain

theorem rowClass_of_free (h : Free '#' id) : rowClass id = .plain := by
  rw [rowClass, fields_of_free h]
  rfl

variable {l : List String} {recipient : String}

theorem rowClass_of_fields {last : String} (h : fields '#' id = l ++ [tag, last]) : rowClass id =
      if last ∈ opWords then .op
      else if last ∈ settlementWords then .settlement
      else if last = "debit" ∨ tag = "credit" then .payout
      else .leg := by
  rw [rowClass, h, reverse_append]
  rfl

variable (word : String)

theorem exists_fields_append (hs : s.toList = '#' :: word.toList)
    (hfree : Free '#' word) (a : String) :
    ∃ l tag, fields '#' (a ++ s) = l ++ [tag, word] := by
  have hne : fields '#' a ≠ [] := by
    rw [fields, ne_eq, map_eq_nil_iff]
    exact split_ne_nil '#' a.toList
  refine ⟨(fields '#' a).dropLast, (fields '#' a).getLast hne, ?_⟩
  calc fields '#' (a ++ s) = fields '#' a ++ [word] := fields_suffix word hs hfree a
    _ = (fields '#' a).dropLast ++ [(fields '#' a).getLast hne] ++ [word] := by
      rw [dropLast_append_getLast]
    _ = (fields '#' a).dropLast ++ [(fields '#' a).getLast hne, word] := by simp

theorem rowClass_append_op (hs : s.toList = '#' :: word.toList)
    (hword : word ∈ opWords) (a : String) : rowClass (a ++ s) = .op := by
  have hfree : ∀ w ∈ opWords, Free '#' w := by decide
  obtain ⟨l, tag, hf⟩ := exists_fields_append word hs (hfree word hword) a
  rw [rowClass_of_fields hf, if_pos hword]

theorem rowClass_append_settlement (hs : s.toList = '#' :: word.toList)
    (hword : word ∈ settlementWords) (a : String) : rowClass (a ++ s) = .settlement := by
  have hfree : ∀ w ∈ settlementWords, Free '#' w ∧ w ∉ opWords := by decide
  obtain ⟨l, tag, hf⟩ := exists_fields_append word hs (hfree word hword).1 a
  rw [rowClass_of_fields hf, if_neg (hfree word hword).2, if_pos hword]

theorem pendingRelease_ne_promoted (id id' : String) :
    id ++ "#pending_release" ≠ id' ++ "#promoted_to_reserve" :=
  append_ne_append (by decide) id id'

theorem finalizedMarker_ne_pendingRelease (id id' : String) :
    id ++ "#finalized_marker" ≠ id' ++ "#pending_release" :=
  append_ne_append (by decide) id id'

theorem finalizedMarker_ne_promoted (id id' : String) :
    id ++ "#finalized_marker" ≠ id' ++ "#promoted_to_reserve" :=
  append_ne_append (by decide) id id'

theorem rowClass_out (id : String) : rowClass (id ++ "#out") = .op :=
  rowClass_append_op "out" (by rfl) (by decide) id

theorem rowClass_settlement (id : String) : rowClass (id ++ "#pending_release") = .settlement ∧
      rowClass (id ++ "#promoted_to_reserve") = .settlement ∧
      rowClass (id ++ "#finalized_marker") = .settlement :=
  ⟨rowClass_append_settlement "pending_release" (by rfl) (by decide) id,
    rowClass_append_settlement "promoted_to_reserve" (by rfl) (by decide) id,
    rowClass_append_settlement "finalized_marker" (by rfl) (by decide) id⟩

theorem rowClass_of_mem_promotionRecords {blockHeight : ℕ} {r x : LedgerRecord}
    (h : x ∈ promotionRecords blockHeight r) : rowClass x.id = .settlement := by
  rcases mem_triple.1 h with rfl | rfl | rfl
  · exact (rowClass_settlement _).1
  · exact (rowClass_settlement _).2.1
  · exact (rowClass_settlement _).2.2

theorem rowClass_finalizeCursorRecord (blockHeight scanFrom : ℕ) :
    rowClass (finalizeCursorRecord blockHeight scanFrom).id = .plain :=
  rowClass_of_free (show Free '#' safetySlashFinalizeCursorRowID by decide)

theorem HiveAccount.not_mem_opWords (h : HiveAccount acct) : acct ∉ opWords := by
  intro hmem
  simp only [opWords, mem_cons, not_mem_nil, or_false] at hmem
  rcases hmem with rfl | rfl | rfl | rfl <;> exact absurd h.2 (by decide)

theorem HiveAccount.not_mem_settlementWords (h : HiveAccount acct) : acct ∉ settlementWords := by
  intro hmem
  rcases mem_triple.1 hmem with rfl | rfl | rfl <;> exact absurd h.2 (by decide)

theorem rowClass_leg (tag : String) (hid : fields '#' id = l ++ [tag, acct]) (htag : tag ≠ "credit")
    (hacct : HiveAccount acct) : rowClass id = .leg := by
  have hdebit : acct ≠ "debit" := by
    rintro rfl
    exact absurd hacct.2 (by decide)
  rw [rowClass_of_fields hid, if_neg hacct.not_mem_opWords, if_neg hacct.not_mem_settlementWords,
    if_neg (not_or.2 ⟨hdebit, htag⟩)]

section Legs

variable (txID : String) {kind acct : String} (hkind : Free '#' kind) (hacct : HiveAccount acct)

include hkind hacct

theorem rowClass_slashDebitID : rowClass (slashDebitID txID kind acct) = .leg :=
  rowClass_leg (l := fields '#' txID ++ ["safety_slash", kind]) "consensus_debit"
    (by rw [fields_slashDebitID txID hkind hacct.1]; simp) (by decide) hacct

theorem rowClass_slashReserveID : rowClass (slashReserveID txID kind acct) = .leg :=
  rowClass_leg (l := fields '#' txID ++ ["safety_slash", kind]) "reserve"
    (by rw [fields_slashReserveID txID hkind hacct.1]; simp) (by decide) hacct

theorem rowClass_slashPendingID : rowClass (slashPendingID txID kind acct) = .leg :=
  rowClass_leg (l := fields '#' txID ++ ["safety_slash", kind]) "hive_burn_pending"
    (by rw [fields_slashPendingID txID hkind hacct.1]; simp) (by decide) hacct

end Legs

variable (proposalID : String)

theorem fields_reservePayoutDebitID : fields '#' (proposalID ++ "#reserve_payout#debit") =
      fields '#' proposalID ++ ["reserve_payout", "debit"] := by
  rw [fields_append (b := "reserve_payout#debit") (by rfl)]
  congr 1

theorem fields_creditID (proposalID recipient : String) :
    fields '#' (proposalID ++ "#reserve_payout#credit#" ++ recipient) =
      fields '#' proposalID ++ ["reserve_payout"] ++ "credit" :: fields '#' recipient := by
  have hsplit : proposalID ++ "#reserve_payout#credit#" ++ recipient =
      proposalID ++ "#reserve_payout" ++ "#credit#" ++ recipient := by
    simp [← String.toList_inj]
  rw [hsplit, fields_join "credit" (by rfl) (by decide),
    fields_suffix "reserve_payout" (by rfl) (by decide)]

theorem fields_reservePayoutCreditID (h : Free '#' recipient) :
    fields '#' (proposalID ++ "#reserve_payout#credit#" ++ recipient) =
      fields '#' proposalID ++ ["reserve_payout"] ++ ["credit", recipient] := by
  rw [fields_creditID, fields_of_free h]

theorem rowClass_reservePayoutDebitID :
    rowClass (proposalID ++ "#reserve_payout#debit") = .payout := by
  rw [rowClass_of_fields (fields_reservePayoutDebitID _)]
  rfl

theorem rowClass_reservePayoutCreditID (h : HiveAccount recipient) :
    rowClass (proposalID ++ "#reserve_payout#credit#" ++ recipient) = .payout := by
  rw [rowClass_of_fields (fields_reservePayoutCreditID _ h.1), if_neg h.not_mem_opWords,
    if_neg h.not_mem_settlementWords, if_pos (.inr rfl)]

theorem rowClass_of_mem_reservePayout {p : ReservePayoutParams} {x : LedgerRecord}
    (hp : HiveAccount (normalizeHiveConsensusAccount p.recipient))
    (h : x ∈ [reservePayoutDebit p, reservePayoutCredit p]) : rowClass x.id = .payout := by
  rcases mem_pair.1 h with rfl | rfl
  · exact rowClass_reservePayoutDebitID _
  · exact rowClass_reservePayoutCreditID _ hp

theorem reservePayoutDebitID_ne_creditID (id id' : String) {r : String} (hr : HiveAccount r) :
    id ++ "#reserve_payout#debit" ≠ id' ++ "#reserve_payout#credit#" ++ r := by
  intro h
  have hf := congrArg (fields '#') h
  rw [fields_reservePayoutDebitID, fields_reservePayoutCreditID id' hr.1] at hf
  have hlast := append_inj_right' hf rfl
  simp at hlast

theorem reservePayoutCreditID_inj {id' r r' : String} (hr : Free '#' r) (hr' : Free '#' r')
    (h : id ++ "#reserve_payout#credit#" ++ r = id' ++ "#reserve_payout#credit#" ++ r') :
    id = id' ∧ r = r' := by
  have hf := congrArg (fields '#') h
  rw [fields_reservePayoutCreditID id hr, fields_reservePayoutCreditID id' hr'] at hf
  have hlast := append_inj_right' hf rfl
  simp only [cons.injEq, true_and, and_true] at hlast
  subst hlast
  exact ⟨by simpa [← String.toList_inj] using h, rfl⟩

end VscNode
