import VscNode.Ledger.BondCycle

/-!
# The life of a slash

A slash is named by its transaction, evidence kind and account. All rows that are
ever written about it have ids made of that name and a part, so a slash can be
followed through the ledger by looking its parts up. It moves through stages:
nothing recorded; debited straight into the reserve; debited with a live pending
burn; then either promoted to the reserve or cancelled. Bond is credited back in
the last stage only. `SlashCase` says which rows a stage has, and `SlashLedger`
that every slash is in one.
-/

namespace VscNode

open List hiding sum_eq_zero
open Text Collection

structure SlashKey where
  (txID kind acct : String)
  deriving DecidableEq

/-- A name whose pieces can be read back from a row id. -/
structure SlashKey.Valid (k : SlashKey) : Prop where
  txFree : Free '#' k.txID
  kindFree : Free '#' k.kind
  acctFree : Free '#' k.acct

/-- The rows one slash can have. -/
inductive SlashPart
  | debit | reserve | pending | release | promoted | finalized | cancelRelease | cancelled
  | reverse (op : String)
  deriving DecidableEq

namespace SlashPart

/-- The field before the account. -/
def tag : SlashPart → String
  | debit => "consensus_debit"
  | reserve => "reserve"
  | reverse _ => "consensus_reverse"
  | _ => "hive_burn_pending"

/-- The fields after the account. -/
def words : SlashPart → List String
  | release => ["pending_release"]
  | promoted => ["promoted_to_reserve"]
  | finalized => ["finalized_marker"]
  | cancelRelease => ["cancel_release"]
  | cancelled => ["cancelled_marker"]
  | reverse op => if op = "" then [] else [op]
  | _ => []

def isReverse : SlashPart → Bool
  | reverse _ => true
  | _ => false

/-- The part's own text can be read back from a row id. -/
def Plain : SlashPart → Prop
  | reverse op => Free '#' op
  | _ => True

theorem plain_of_not_isReverse {part : SlashPart} (h : part.isReverse = false) : part.Plain := by
  cases part <;> trivial

theorem eq_of_tag_words {p q : SlashPart} (htag : p.tag = q.tag) (hwords : p.words = q.words) :
    p = q := by
  cases p <;> cases q <;> first | rfl | simp [tag] at htag
  case reverse.reverse op op' =>
    simp only [words] at hwords
    split at hwords <;> split at hwords <;> simp_all
  all_goals simp [words] at hwords

def type : SlashPart → LedgerType
  | debit => .safetySlashConsensus
  | reserve => .safetySlashReserve
  | pending => .safetySlashHiveBurnPending
  | release => .safetySlashHiveBurnPendingRelease
  | promoted => .safetySlashReserve
  | finalized => .safetySlashHiveBurnPendingFinalized
  | cancelRelease => .safetySlashHiveBurnPendingRelease
  | cancelled => .safetySlashHiveBurnPendingCancelled
  | reverse _ => .safetySlashConsensusReverse

def owner (k : SlashKey) : SlashPart → String
  | debit => k.acct
  | reverse _ => k.acct
  | reserve => protocolSlashReserveAccount
  | promoted => protocolSlashReserveAccount
  | _ => protocolSlashPendingBurnAccount

def asset : SlashPart → Asset
  | debit => .hiveConsensus
  | reverse _ => .hiveConsensus
  | _ => .hive

/-- What a part of a slash of `amt` moves; a credit moves what is left to credit. -/
def amount (amt : Int) : SlashPart → Int
  | debit => -amt
  | reserve => amt
  | pending => amt
  | release => -amt
  | promoted => amt
  | cancelRelease => -amt
  | _ => 0

end SlashPart

namespace SlashKey

def rowID (k : SlashKey) : SlashPart → String
  | .debit => slashDebitID k.txID k.kind k.acct
  | .reserve => slashReserveID k.txID k.kind k.acct
  | .pending => slashPendingID k.txID k.kind k.acct
  | .release => slashPendingID k.txID k.kind k.acct ++ "#pending_release"
  | .promoted => slashPendingID k.txID k.kind k.acct ++ "#promoted_to_reserve"
  | .finalized => slashPendingID k.txID k.kind k.acct ++ "#finalized_marker"
  | .cancelRelease => slashPendingID k.txID k.kind k.acct ++ "#cancel_release"
  | .cancelled => slashPendingID k.txID k.kind k.acct ++ "#cancelled_marker"
  | .reverse op =>
    if op = "" then slashReverseID k.txID k.kind k.acct
    else slashReverseID k.txID k.kind k.acct ++ "#" ++ op

variable {k k' : SlashKey}

theorem rowID_reverse (k : SlashKey) (op : String) : k.rowID (.reverse op) =
      if op = "" then slashReverseID k.txID k.kind k.acct
      else slashReverseID k.txID k.kind k.acct ++ "#" ++ op := rfl

variable {p : SlashPart}

section

variable (hk : k.Valid)
include hk

theorem Valid.fields_rowID (hp : p.Plain) :
    fields '#' (k.rowID p) =
      k.txID :: "safety_slash" :: k.kind :: p.tag :: k.acct :: p.words := by
  have hreverse : fields '#' (slashReverseID k.txID k.kind k.acct) =
      fields '#' k.txID ++ ["safety_slash", k.kind, "consensus_reverse"] ++ [k.acct] :=
    fields_slashLeg (by rfl) (by decide) k.txID hk.kindFree hk.acctFree
  have hpending := fields_slashPendingID k.txID hk.kindFree hk.acctFree
  have htx := fields_of_free hk.txFree
  cases p with
  | debit => rw [rowID, fields_slashDebitID k.txID hk.kindFree hk.acctFree, htx]; rfl
  | reserve => rw [rowID, fields_slashReserveID k.txID hk.kindFree hk.acctFree, htx]; rfl
  | pending => rw [rowID, hpending, htx]; rfl
  | release =>
    rw [rowID, fields_suffix "pending_release" (by rfl) (by decide), hpending, htx]; rfl
  | promoted =>
    rw [rowID, fields_suffix "promoted_to_reserve" (by rfl) (by decide), hpending, htx]; rfl
  | finalized =>
    rw [rowID, fields_suffix "finalized_marker" (by rfl) (by decide), hpending, htx]; rfl
  | cancelRelease =>
    rw [rowID, fields_suffix "cancel_release" (by rfl) (by decide), hpending, htx]; rfl
  | cancelled =>
    rw [rowID, fields_suffix "cancelled_marker" (by rfl) (by decide), hpending, htx]; rfl
  | reverse op =>
    rw [rowID]
    split
    · rename_i hop
      rw [hreverse, htx, SlashPart.words, if_pos hop]
      rfl
    rename_i hop
    have happ : (("#" : String) ++ op).toList = '#' :: op.toList := by simp
    rw [String.append_assoc, fields_append happ, hreverse, htx, fields_of_free hp,
      SlashPart.words, if_neg hop]
    rfl

theorem rowID_inj (hk' : k'.Valid) {p q : SlashPart} (h : k.rowID p = k'.rowID q) (hp : p.Plain)
    (hq : q.Plain) : k = k' ∧ p = q := by
  have hf := congrArg (fields '#') h
  rw [hk.fields_rowID hp, hk'.fields_rowID hq] at hf
  simp only [cons.injEq, true_and] at hf
  obtain ⟨htx, hkind, htag, hacct, hwords⟩ := hf
  cases k
  cases k'
  simp only at htx hkind hacct
  exact ⟨by rw [htx, hkind, hacct], SlashPart.eq_of_tag_words htag hwords⟩

theorem Valid.hasPrefix_rowID (hk' : k'.Valid) (hp : p.Plain) :
    hasPrefix (k.rowID p) (slashBaseID k'.txID k'.kind ++ "#") = true ↔
      k.txID = k'.txID ∧ k.kind = k'.kind := by
  constructor
  · intro h
    obtain ⟨b, hb⟩ := fields_of_hasPrefix (show ("#" : String).toList = ['#'] from rfl) h
    rw [hk.fields_rowID hp, fields_slashBaseID, fields_of_free hk'.txFree,
      fields_of_free hk'.kindFree] at hb
    simp only [nil_append, cons_append, cons.injEq, true_and] at hb
    exact ⟨hb.1, hb.2.1⟩
  rintro ⟨htx, hkind⟩
  rw [hasPrefix_iff, ← htx, ← hkind]
  cases p <;> simp [rowID, slashDebitID, slashReserveID, slashPendingID]
  case reverse op => split <;> simp [slashReverseID]

theorem Valid.hasPrefix_rowID_reverse (hk' : k'.Valid) {op : String} (hop : Free '#' op) :
    hasPrefix (k.rowID (.reverse op)) (slashBaseID k'.txID k'.kind ++ "#consensus_reverse#") = true ↔
      k.txID = k'.txID ∧ k.kind = k'.kind := by
  constructor
  · intro h
    have hsplit : slashBaseID k'.txID k'.kind ++ "#consensus_reverse#" =
        slashBaseID k'.txID k'.kind ++ "#" ++ "consensus_reverse#" := by
      simp [← String.toList_inj]
    rw [hsplit, hasPrefix_iff, String.toList_append] at h
    exact (hk.hasPrefix_rowID hk' (p := .reverse op) hop).1
      (hasPrefix_iff.2 ((prefix_append _ _).trans h))
  rintro ⟨htx, hkind⟩
  rw [hasPrefix_iff, ← htx, ← hkind, rowID]
  split <;> simp [slashReverseID]

theorem Valid.eq_of_slashDebitID {txID kind acct : String}
    (h : slashDebitID txID kind acct = k.rowID .debit) :
    txID = k.txID ∧ kind = k.kind ∧ acct = k.acct := by
  have hf := congrArg (fields '#') h
  rw [hk.fields_rowID (p := .debit) trivial, slashDebitID,
    fields_join "consensus_debit" (by rfl) (by decide),
    fields_slashBaseID] at hf
  have hlen := congrArg length hf
  simp only [length_append, length_cons, SlashPart.words, length_nil] at hlen
  have htx := fields_length_pos '#' txID
  have hkind := fields_length_pos '#' kind
  have hacct := fields_length_pos '#' acct
  rw [fields_of_free (free_of_fields_length (s := txID) (by omega)),
    fields_of_free (free_of_fields_length (s := kind) (by omega)),
    fields_of_free (free_of_fields_length (s := acct) (by omega))] at hf
  simpa [SlashPart.words, SlashPart.tag] using hf

end

end SlashKey

/-- The name of the slash of an account that a call is about. -/
def SafetySlashConsensusParams.slashKey (p : SafetySlashConsensusParams) (acct : String) :
    SlashKey := ⟨p.txID, p.evidenceKind, acct⟩

/-! ## Rows -/

structure SlashRow (k : SlashKey) (p : SlashPart) (r : LedgerRecord) : Prop where
  id : r.id = k.rowID p
  type : r.type = p.type
  owner : r.owner = p.owner k
  asset : r.asset = p.asset
  inScan : r.blockHeight ≤ maxLedgerScanHeight
  credit : p.isReverse = true → 0 < r.amount

structure ForeignRow (r : LedgerRecord) : Prop where
  id : (fields '#' r.id)[1]? ≠ some "safety_slash"
  type : r.type = .reservePayoutDebit ∨ r.type = .reservePayoutCredit ∨
    r.type = .safetySlashBurnFinalizeCursor
  owner : r.owner ≠ protocolSlashPendingBurnAccount

variable {r : LedgerRecord} {p : SlashPart} {k₀ k : SlashKey}

theorem ForeignRow.id_ne (h : ForeignRow r) {k : SlashKey} (hk : k.Valid) (hp : p.Plain) :
    r.id ≠ k.rowID p := by
  intro hid
  apply h.id
  rw [hid, hk.fields_rowID hp]
  rfl

def SlashKey.credited (k : SlashKey) (r : LedgerRecord) : Int :=
  if r.type = .safetySlashConsensusReverse ∧ r.owner = k.acct ∧
      hasPrefix r.id (slashBaseID k.txID k.kind ++ "#consensus_reverse#") then r.amount else 0

def reversedAmount (db : LedgerDb) (k : SlashKey) : Int := db.sum k.credited

theorem ForeignRow.credited (h : ForeignRow r) (k : SlashKey) : k.credited r = 0 := by
  rw [SlashKey.credited, if_neg]
  rintro ⟨htype, -⟩
  rcases h.type with h | h | h <;> rw [h] at htype <;> cases htype

theorem SlashRow.credited_of_not_isReverse (h : SlashRow k₀ p r) (hp : p.isReverse = false) :
    k.credited r = 0 := by
  rw [SlashKey.credited, if_neg]
  rintro ⟨htype, -⟩
  rw [h.type] at htype
  cases p <;> simp [SlashPart.type, SlashPart.isReverse] at htype hp

theorem SlashRow.credited_reverse (hk₀ : k₀.Valid) (hk : k.Valid) {op : String} (hop : Free '#' op)
    (h : SlashRow k₀ (.reverse op) r) : k.credited r = if k₀ = k then r.amount else 0 := by
  have htype : r.type = .safetySlashConsensusReverse := h.type
  have howner : r.owner = k₀.acct := h.owner
  rw [SlashKey.credited]
  refine if_congr ?_ rfl rfl
  rw [h.id, hk₀.hasPrefix_rowID_reverse hk hop, howner]
  constructor
  · rintro ⟨-, hacct, htx, hkind⟩
    cases k₀
    cases k
    simp_all
  · rintro rfl
    exact ⟨htype, rfl, rfl, rfl⟩

/-- Every row is a part of a slash or about something else. -/
def Shaped (db : LedgerDb) : Prop :=
  ∀ r ∈ db, ForeignRow r ∨ ∃ k p, k.Valid ∧ p.Plain ∧ SlashRow k p r

theorem SlashRow.get?_put_other {db : LedgerDb} {q : SlashPart} {k' : SlashKey}
    (hr : SlashRow k q r) (hk : k.Valid) (hq : q.Plain) (hk' : k'.Valid) (p : SlashPart)
    (hp : p.Plain) (hne : k' = k → p ≠ q) : (db.put r).get? (k'.rowID p) = db.get? (k'.rowID p) := by
  refine get?_put_of_ne fun hid => ?_
  obtain ⟨rfl, rfl⟩ := SlashKey.rowID_inj hk hk' (hr.id.symm.trans hid) hq hp
  exact hne rfl rfl

namespace Shaped

variable {db : LedgerDb} {k : SlashKey} {r : LedgerRecord} {rows : List LedgerRecord}

section

variable (h : Shaped db)
include h

theorem slashRow (hk : k.Valid) {p : SlashPart} (hr : db.get? (k.rowID p) = some r) (hp : p.Plain) :
    SlashRow k p r := by
  obtain ⟨hmem, hid⟩ := get?_eq_some_iff.1 hr
  rcases h r hmem with hforeign | ⟨k', q, hk', hq, hrow⟩
  · exact absurd hid (hforeign.id_ne hk hp)
  · obtain ⟨rfl, rfl⟩ := SlashKey.rowID_inj hk' hk (hrow.id.symm.trans hid) hq hp
    exact hrow

theorem putAll (hrows : ∀ r ∈ rows, ForeignRow r ∨ ∃ k p, k.Valid ∧ p.Plain ∧ SlashRow k p r) :
    Shaped (db.putAll rows) :=
  forall_mem_putAll h hrows

theorem credited_nonneg (hk : k.Valid) (hr : r ∈ db) : 0 ≤ k.credited r := by
  rcases h r hr with hforeign | ⟨k', p, hk', hp, hrow⟩
  · rw [hforeign.credited]
  cases p with
  | reverse op =>
    have hpos := hrow.credit rfl
    rw [hrow.credited_reverse hk' hk hp]
    split <;> omega
  | _ => rw [hrow.credited_of_not_isReverse rfl]

theorem reversedAmount_nonneg (hk : k.Valid) : 0 ≤ reversedAmount db k := by
  apply sum_nonneg
  intro x hx
  obtain ⟨r, hr, rfl⟩ := mem_map.1 hx
  exact h.credited_nonneg hk hr

theorem reversedAmount_putAll
    (hrows : ∀ r ∈ rows, ForeignRow r ∨ ∃ k p, k.Valid ∧ p.isReverse = false ∧ SlashRow k p r)
    (k : SlashKey) : reversedAmount (db.putAll rows) k = reversedAmount db k := by
  apply sum_putAll_of_eq_zero
  · intro r hr
    rcases hrows r hr with hforeign | ⟨k', p, -, hp, hrow⟩
    · exact hforeign.credited k
    · exact hrow.credited_of_not_isReverse hp
  rintro y hy ⟨r, hr, hkey⟩
  rcases hrows r hr with hforeign | ⟨k', p, hk', hp, hrow⟩
  · -- A row under a foreign id is itself foreign.
    rcases h y hy with hy | ⟨k'', q, hk'', hq, hyrow⟩
    · exact hy.credited k
    · exact absurd (hkey.trans hyrow.id) (hforeign.id_ne hk'' hq)
  have hget : db.get? (k'.rowID p) = some y :=
    get?_eq_some_iff.2 ⟨hy, hkey.symm.trans hrow.id⟩
  exact (h.slashRow hk' hget (SlashPart.plain_of_not_isReverse hp)).credited_of_not_isReverse hp

end

end Shaped

/-! ## Stages -/

inductive SlashStage
  | absent | reserved | live | promoted | cancelled
  deriving DecidableEq

def SlashStage.parts : SlashStage → List SlashPart
  | absent => []
  | reserved => [.debit, .reserve]
  | live => [.debit, .pending]
  | promoted => [.debit, .pending, .release, .promoted, .finalized]
  | cancelled => [.debit, .pending, .cancelRelease, .finalized, .cancelled]

theorem SlashStage.isReverse_of_mem {st : SlashStage} (h : p ∈ st.parts) : p.isReverse = false := by
  cases p with
  | reverse op => cases st <;> simp [parts] at h
  | _ => rfl

theorem SlashStage.plain_of_mem {st : SlashStage} (h : p ∈ st.parts) : p.Plain :=
  SlashPart.plain_of_not_isReverse (isReverse_of_mem h)

structure SlashCase (w : Carriers) (db : LedgerDb) (head slot : ℕ) (k : SlashKey)
    (st : SlashStage) (amt : Int) : Prop where
  pos : 0 < amt
  has : ∀ p ∈ st.parts, ∃ r, db.get? (k.rowID p) = some r ∧ r.amount = p.amount amt
  lacks : ∀ p : SlashPart, p.Plain → p ∉ st.parts → (p.isReverse = true → st ≠ .cancelled) →
    db.get? (k.rowID p) = none
  dated : ∀ p ∈ [SlashPart.debit, .reserve, .pending], ∀ r, db.get? (k.rowID p) = some r →
    r.blockHeight = w.txHeight k.txID
  undelayed : st = .reserved → w.burnDelay (w.txHeight k.txID) = 0
  delayed : .pending ∈ st.parts → w.burnDelay (w.txHeight k.txID) ≠ 0
  marked : ∀ r, db.get? (k.rowID .finalized) = some r → w.txHeight k.txID ≤ r.blockHeight
  closed : st = .promoted → ∀ r, db.get? (k.rowID .finalized) = some r →
    r.blockHeight < slot ∧ r.blockHeight + slotLength ≤ head
  reversed : st = .cancelled → reversedAmount db k ≤ amt

structure SlashLedger (w : Carriers) (db : LedgerDb) (head slot : ℕ) : Prop where
  shaped : Shaped db
  staged : ∀ k : SlashKey, k.Valid → ∃ st amt, SlashCase w db head slot k st amt

theorem SlashLedger.empty (w : Carriers) (head slot : ℕ) :
    SlashLedger w Collection.empty head slot where
  shaped := fun r hr => absurd hr (not_mem_empty r)
  staged := fun k _ => ⟨.absent, 1, {
    pos := one_pos
    has := by simp [SlashStage.parts]
    lacks := fun p _ _ _ => get?_empty _
    dated := by simp
    undelayed := by simp
    delayed := by simp [SlashStage.parts]
    marked := by simp
    closed := by simp
    reversed := by simp }⟩

section Frame

variable {w : Carriers} {db db' : LedgerDb} {head head' slot slot' : ℕ} {k : SlashKey}
  {st : SlashStage} {amt : Int}

namespace SlashCase

section

variable (h : SlashCase w db head slot k st amt)

include h

theorem mem_parts {p : SlashPart}
    (hp : p.isReverse = false) {r : LedgerRecord} (hr : db.get? (k.rowID p) = some r) :
    p ∈ st.parts ∧ r.amount = p.amount amt := by
  by_cases hmem : p ∈ st.parts
  · obtain ⟨r', hr', hamt⟩ := h.has p hmem
    rw [hr] at hr'
    cases hr'
    exact ⟨hmem, hamt⟩
  have hnone := h.lacks p (SlashPart.plain_of_not_isReverse hp) hmem (by simp [hp])
  rw [hr] at hnone
  cases hnone

theorem frame (hget : ∀ p : SlashPart, p.Plain → db'.get? (k.rowID p) = db.get? (k.rowID p))
    (hrev : reversedAmount db' k = reversedAmount db k) (hhead : head ≤ head')
    (hslot : slot ≤ slot') : SlashCase w db' head' slot' k st amt where
  pos := h.pos
  has := by
    intro p hp
    rw [hget p (SlashStage.plain_of_mem hp)]
    exact h.has p hp
  lacks := by
    intro p hp
    rw [hget p hp]
    exact h.lacks p hp
  dated := by
    intro p hp
    have hplain : p.Plain := by
      rcases mem_triple.1 hp with rfl | rfl | rfl <;> trivial
    rw [hget p hplain]
    exact h.dated p hp
  undelayed := h.undelayed
  delayed := h.delayed
  marked := by
    rw [hget .finalized trivial]
    exact h.marked
  closed := by
    intro hst r hr
    rw [hget .finalized trivial] at hr
    have := h.closed hst r hr
    omega
  reversed := by
    rw [hrev]
    exact h.reversed

theorem reversedAmount_eq_zero (hshaped : Shaped db)
    (hk : k.Valid) (hst : st ≠ .cancelled) : reversedAmount db k = 0 := by
  refine sum_eq_zero fun r hr => ?_
  rcases hshaped r hr with hforeign | ⟨k', p, hk', hp, hrow⟩
  · exact hforeign.credited k
  cases hrev : p.isReverse with
  | false => exact hrow.credited_of_not_isReverse hrev
  | true =>
    cases p with
    | reverse op =>
      rw [hrow.credited_reverse hk' hk hp, if_neg]
      rintro rfl
      have hget := get?_of_mem hr
      rw [hrow.id, h.lacks (.reverse op) hp
        (fun hmem => by simpa [hrev] using SlashStage.isReverse_of_mem hmem)
        (fun _ => hst)] at hget
      cases hget
    | _ => cases hrev

end

end SlashCase

/-- Rows that credit nothing back, written about one slash. -/
def FiledUnder (k : SlashKey) (row : SlashPart → LedgerRecord) (ps : List SlashPart) : Prop :=
  ∀ p ∈ ps, p.isReverse = false ∧ SlashRow k p (row p)

namespace FiledUnder

variable {row : SlashPart → LedgerRecord} {ps : List SlashPart} {q : SlashPart}

section

variable (h : FiledUnder k row ps)
include h

theorem get?_putAll (hk : k.Valid) (hq : q.Plain) :
    (db.putAll (ps.map row)).get? (k.rowID q) =
      if q ∈ ps then some (row q) else db.get? (k.rowID q) := by
  induction ps generalizing db with
  | nil => rfl
  | cons p ps ih =>
    obtain ⟨hrev, hrow⟩ := h p mem_cons_self
    rw [map_cons, putAll_cons, ih fun x hx => h x (mem_cons_of_mem _ hx), get?_put,
      hrow.id]
    by_cases hmem : q ∈ ps
    · simp [hmem]
    by_cases hpq : p = q
    · subst hpq
      simp
    have hne : k.rowID p ≠ k.rowID q := fun hid =>
      hpq (SlashKey.rowID_inj hk hk hid (SlashPart.plain_of_not_isReverse hrev) hq).2
    rw [if_neg hmem, if_neg hne, if_neg (by simp [hmem, Ne.symm hpq])]

theorem get?_putAll_of_ne (hk : k.Valid) {k' : SlashKey} (hk' : k'.Valid) (hne : k' ≠ k)
    (hq : q.Plain) : (db.putAll (ps.map row)).get? (k'.rowID q) = db.get? (k'.rowID q) := by
  apply get?_putAll_of_not_mem
  intro x hx hid
  obtain ⟨p, hp, rfl⟩ := mem_map.1 hx
  obtain ⟨hrev, hrow⟩ := h p hp
  rw [hrow.id] at hid
  exact hne (SlashKey.rowID_inj hk hk' hid (SlashPart.plain_of_not_isReverse hrev) hq).1.symm

theorem shape (hk : k.Valid) :
    ∀ r ∈ ps.map row,
    ForeignRow r ∨ ∃ k p, k.Valid ∧ p.isReverse = false ∧ SlashRow k p r := by
  intro r hr
  obtain ⟨p, hp, rfl⟩ := mem_map.1 hr
  exact .inr ⟨k, p, hk, h p hp⟩

end

end FiledUnder

structure Advances (w : Carriers) (head slot : ℕ) (k : SlashKey) (st st' : SlashStage) (amt : Int)
    (row : SlashPart → LedgerRecord) (ps : List SlashPart) : Prop where
  filed : FiledUnder k row ps
  parts : ∀ p, p ∈ st'.parts ↔ p ∈ ps ∨ p ∈ st.parts
  amount : ∀ p ∈ ps, (row p).amount = p.amount amt
  dated : ∀ p ∈ ps, p ∈ [SlashPart.debit, .reserve, .pending] →
    (row p).blockHeight = w.txHeight k.txID
  undelayed : st' = .reserved → w.burnDelay (w.txHeight k.txID) = 0
  delayed : .pending ∈ st'.parts → w.burnDelay (w.txHeight k.txID) ≠ 0
  marked : .finalized ∈ ps → w.txHeight k.txID ≤ (row .finalized).blockHeight
  closed : st' = .promoted → .finalized ∈ ps ∧ (row .finalized).blockHeight < slot ∧
    (row .finalized).blockHeight + slotLength ≤ head
  cancelled : st = .cancelled → st' = .cancelled

variable {row : SlashPart → LedgerRecord} {ps : List SlashPart}

theorem SlashCase.advance {st' : SlashStage} {amt₀ : Int} (h : SlashCase w db head slot k st amt₀)
    (hshaped : Shaped db) (hk : k.Valid) (hadv : Advances w head slot k st st' amt row ps)
    (hamt : st = .absent ∨ amt₀ = amt) (hpos : 0 < amt)
    (hrev : st' = .cancelled → reversedAmount db k ≤ amt) :
    SlashCase w (db.putAll (ps.map row)) head slot k st' amt := by
  have hget : ∀ {q : SlashPart}, q.Plain → (db.putAll (ps.map row)).get? (k.rowID q) =
      if q ∈ ps then some (row q) else db.get? (k.rowID q) := fun hq =>
    hadv.filed.get?_putAll hk hq
  have hstored : ∀ {q : SlashPart} {r : LedgerRecord},
      (db.putAll (ps.map row)).get? (k.rowID q) = some r → q.Plain →
      q ∈ ps ∧ r = row q ∨ q ∉ ps ∧ db.get? (k.rowID q) = some r := by
    intro q r hr hq
    rw [hget hq] at hr
    split at hr
    · rename_i hmem
      exact .inl ⟨hmem, (Option.some.inj hr).symm⟩
    · rename_i hmem
      exact .inr ⟨hmem, hr⟩
  refine ⟨hpos, ?_, ?_, ?_, hadv.undelayed, hadv.delayed, ?_, ?_, ?_⟩
  · intro p hp
    rw [hget (SlashStage.plain_of_mem hp)]
    split
    · rename_i hmem
      exact ⟨_, rfl, hadv.amount p hmem⟩
    rename_i hmem
    have hst := ((hadv.parts p).1 hp).resolve_left hmem
    obtain ⟨r, hr, hold⟩ := h.has p hst
    rcases hamt with rfl | rfl
    · simp [SlashStage.parts] at hst
    · exact ⟨r, hr, hold⟩
  · intro p hp hmem hnot
    have hmem' := mt (hadv.parts p).2 hmem
    rw [not_or] at hmem'
    rw [hget hp, if_neg hmem'.1]
    exact h.lacks p hp hmem'.2 fun hr hst => hnot hr (hadv.cancelled hst)
  · intro p hp r hr
    have hplain : p.Plain := by
      rcases mem_triple.1 hp with rfl | rfl | rfl <;> trivial
    rcases hstored hr hplain with ⟨hmem, rfl⟩ | ⟨-, hold⟩
    · exact hadv.dated p hmem hp
    · exact h.dated p hp r hold
  · intro r hr
    rcases hstored hr trivial with ⟨hmem, rfl⟩ | ⟨-, hold⟩
    · exact hadv.marked hmem
    · exact h.marked r hold
  · intro hst r hr
    obtain ⟨hmem, hbounds⟩ := hadv.closed hst
    rcases hstored hr trivial with ⟨-, rfl⟩ | ⟨hnot, -⟩
    · exact hbounds
    · exact absurd hmem hnot
  · rw [hshaped.reversedAmount_putAll (hadv.filed.shape hk)]
    exact hrev

theorem SlashCase.filed_ne {k' : SlashKey} (h : SlashCase w db head slot k' st amt)
    (hshaped : Shaped db) (hfile : FiledUnder k row ps) (hk : k.Valid) (hk' : k'.Valid)
    (hne : k' ≠ k) : SlashCase w (db.putAll (ps.map row)) head slot k' st amt :=
  h.frame (fun _ hq => hfile.get?_putAll_of_ne hk hk' hne hq)
    (hshaped.reversedAmount_putAll (hfile.shape hk) k') le_rfl le_rfl

section

variable (h : SlashLedger w db head slot)
include h

theorem SlashLedger.filed (hfile : FiledUnder k row ps) (hk : k.Valid)
    (hcase : ∃ st amt, SlashCase w (db.putAll (ps.map row)) head slot k st amt) :
    SlashLedger w (db.putAll (ps.map row)) head slot where
  shaped := h.shaped.putAll fun r hr => (hfile.shape hk r hr).imp_right
    fun ⟨k, p, hk, hp, hrow⟩ => ⟨k, p, hk, SlashPart.plain_of_not_isReverse hp, hrow⟩
  staged := by
    intro k' hk'
    by_cases hne : k' = k
    · rw [hne]
      exact hcase
    · obtain ⟨st, amt, hold⟩ := h.staged k' hk'
      exact ⟨st, amt, hold.filed_ne h.shaped hfile hk hk' hne⟩

theorem SlashLedger.foreign {rows : List LedgerRecord} (hrows : ∀ r ∈ rows, ForeignRow r) :
    SlashLedger w (db.putAll rows) head slot where
  shaped := h.shaped.putAll fun r hr => .inl (hrows r hr)
  staged := by
    intro k hk
    obtain ⟨st, amt, hold⟩ := h.staged k hk
    refine ⟨st, amt, hold.frame (fun p hp => ?_) ?_ le_rfl le_rfl⟩
    · exact get?_putAll_of_not_mem fun r hr => (hrows r hr).id_ne hk hp
    · exact h.shaped.reversedAmount_putAll (fun r hr => .inl (hrows r hr)) k

theorem SlashLedger.mono (hhead : head ≤ head') (hslot : slot ≤ slot') :
    SlashLedger w db head' slot' where
  shaped := h.shaped
  staged := fun k hk => (h.staged k hk).imp fun _ => Exists.imp fun _ hold =>
    hold.frame (fun _ _ => rfl) rfl hhead hslot

end

end Frame

end VscNode
