import VscNode.Chain.Election
import VscNode.Lib.Retention

/-!
# The records of announced witnesses

An operator announces a node in the metadata of its account. `setWitnessUpdate` keeps the
announcement under the account and the height of its block: the row of that block is set
in place, and of the account's rows the six newest stay. Elections read the newest row of
each account below a height, and so does the delegation mode of a node at a height.

The rows at or above a height do not enter a read of that height, but they push out what
does. `reads_stable_iff` says when a read is the same right after the block before its
height and at any later time: when no account with a row below the height has been
announced in more than five blocks since.
-/

namespace VscNode.Witnesses

open Retention Text List

/-! ## Announcements and rows -/

structure PostingJsonKeys where
  cryptoType : String := ""
  (type key : String)
  pop : String := ""
  deriving DecidableEq

/-- What an announcement says about the node. -/
structure NodeMetadata where
  peerId : String := ""
  peerAddrs : List String := []
  ts : String := ""
  versionId : String := ""
  gitCommit : String := ""
  netId : String := ""
  versionMajor : ℕ := 0
  protocolVersion : ℕ := 0
  versionNonConsensus : ℕ := 0
  enabled : Bool := false
  gatewayKey : String := ""
  gatewayKeyPoP : String := ""
  delegationMode : String := ""
  deriving DecidableEq

structure SetWitnessUpdateType where
  account : String
  height : ℕ
  txId : String := ""
  didKeys : List PostingJsonKeys
  vscNode : NodeMetadata
  delegationModeEffective : String := ""
  delegationModeMaturityEpoch : ℕ := 0
  peerIdPoPOk : Bool := false
  deriving DecidableEq

structure Witness where
  account : String
  height : ℕ
  txId : String
  didKeys : List PostingJsonKeys
  vscNode : NodeMetadata
  delegationModeEffective : String
  delegationModeMaturityEpoch : ℕ
  peerIdPoPOk : Bool
  deriving DecidableEq

variable (elections : ElectionDb) (w : Witness)

def Witness.key : String × ℕ := (w.account, w.height)

abbrev WitnessDb := Collection Witness.key

def consensusKey (keys : List PostingJsonKeys) : String :=
  ((keys.find? fun k => k.type = "consensus").map PostingJsonKeys.key).getD ""

variable (db : WitnessDb) (request : SetWitnessUpdateType)

/-- The row of an announcement. The last three fields are set only where the announcement
has something to say, and stay as they are in a row of the same block otherwise. -/
def SetWitnessUpdateType.row (old : Option Witness) : Witness where
  account := request.account
  height := request.height
  txId := request.txId
  didKeys := request.didKeys
  vscNode := request.vscNode
  delegationModeEffective :=
    if request.delegationModeMaturityEpoch ≠ 0 then request.delegationModeEffective
    else old.elim "" Witness.delegationModeEffective
  delegationModeMaturityEpoch :=
    if request.delegationModeMaturityEpoch ≠ 0 then request.delegationModeMaturityEpoch
    else old.elim 0 Witness.delegationModeMaturityEpoch
  peerIdPoPOk := request.peerIdPoPOk || old.elim false Witness.peerIdPoPOk

def maxRecords : ℕ := 6

def setWitnessUpdate : Except String WitnessDb :=
  if consensusKey request.didKeys = "" then .error "no consensus key found in did keys"
  else .ok (store maxRecords db (request.row (db.get? (request.account, request.height))))

/-! ## Reads -/

variable (bh : ℕ) (account : String)

def getWitnessAtHeight (bh : ℕ) : Option Witness :=
  newestBelow db account bh

def maxSignedDiff : ℕ := 3 * 24 * 60 * 20

/-- The rows of the last three days before a height, newest first. -/
def recentRows : List Witness :=
  let gte := if maxSignedDiff < bh then bh - maxSignedDiff else 0
  latestFirst Witness.key (db.docs.filter fun w => gte ≤ w.key.2 ∧ w.key.2 < bh)

def witnessMap : Option Witness :=
  (recentRows db bh).find? fun w => w.key.1 = account

def getWitnessesAtBlockHeight (keep : Witness → Bool) : List Witness :=
  let accounts := ((recentRows db bh).map Witness.account).dedup
  let outNames := (accounts.filter fun a => (witnessMap db bh a).any keep).insertionSort (· ≤ ·)
  outNames.filterMap (witnessMap db bh)

inductive DelegationMode
  | deactivated | share | custom
  deriving DecidableEq

def DelegationMode.normalize (s : String) : DelegationMode :=
  match toLower (trimSpace s) with
  | "share" => share
  | "custom" => custom
  | _ => deactivated

def v0_5_0 : Pendulum.Version := ⟨0, 5, 0⟩

def delegatedStakeActiveForElection (e : ElectionResult) : Bool :=
  e.version.meetsConsensusMin v0_5_0

def effectiveDelegationMode (currentEpoch : ℕ) (gateActive : Bool) : DelegationMode :=
  if w.delegationModeMaturityEpoch = 0 ∨ gateActive = false ∨
      w.delegationModeMaturityEpoch ≤ currentEpoch then
    DelegationMode.normalize w.vscNode.delegationMode
  else DelegationMode.normalize w.delegationModeEffective

def resolveDelegationMode (blockHeight : ℕ) : DelegationMode :=
  if w.delegationModeMaturityEpoch = 0 then DelegationMode.normalize w.vscNode.delegationMode
  else
    match elections.getElectionByHeight blockHeight with
    | none => effectiveDelegationMode w 0 false
    | some elec => effectiveDelegationMode w elec.epoch (delegatedStakeActiveForElection elec)

def nodeDelegationMode (db : WitnessDb) (account : String) (blockHeight : ℕ) : DelegationMode :=
  if account = "" then .deactivated
  else
    match getWitnessAtHeight db (trimPrefix account "hive:") blockHeight with
    | none => .deactivated
    | some w => resolveDelegationMode elections w blockHeight

/-! ## Reads depend on the newest rows -/

theorem witnessMap_eq :
    witnessMap db bh account = (getWitnessAtHeight db account bh).filter fun w =>
      (if maxSignedDiff < bh then bh - maxSignedDiff else 0) ≤ w.height :=
  find?_latestFirst_window db account _ bh

variable {account : String} {bh : ℕ} {db db' : WitnessDb}

theorem mem_accounts_iff {db : WitnessDb} :
    account ∈ (recentRows db bh).map Witness.account ↔ (witnessMap db bh account).isSome := by
  rw [witnessMap, find?_isSome, mem_map]
  exact exists_congr fun w => and_congr_right fun _ => decide_eq_true_iff.symm

/-- The row is the account's newest one below a height. -/
structure IsNewest (db : WitnessDb) (bh : ℕ) (w : Witness) : Prop where
  mem : w ∈ db
  before : w.height < bh
  newest : ∀ w' ∈ db, w'.account = w.account → w'.height < bh → w'.height ≤ w.height

theorem getWitnessAtHeight_eq_some {w : Witness} :
    getWitnessAtHeight db account bh = some w ↔ w.account = account ∧ IsNewest db bh w := by
  rw [getWitnessAtHeight, newestBelow_eq_some_iff]
  constructor
  · rintro ⟨hmem, hacct, hlt, hmax⟩
    exact ⟨hacct, hmem, hlt, fun w' hw' ha => hmax w' hw' (ha.trans hacct)⟩
  · rintro ⟨hacct, hnew⟩
    exact ⟨hnew.mem, hacct, hnew.before, fun w' hw' ha => hnew.newest w' hw' (ha.trans hacct.symm)⟩

theorem exists_isNewest {w : Witness} (hw : w ∈ db) (hlt : w.height < bh) :
    ∃ w', IsNewest db bh w' ∧ w'.account = w.account ∧ w.height ≤ w'.height := by
  cases hget : getWitnessAtHeight db w.account bh with
  | none => exact absurd (newestBelow_eq_none_iff.1 hget w hw rfl) (not_le.2 hlt)
  | some w' =>
    obtain ⟨hacct, hnew⟩ := getWitnessAtHeight_eq_some.1 hget
    exact ⟨w', hnew, hacct, hnew.newest w hw hacct.symm hlt⟩

theorem mem_getWitnessesAtBlockHeight {w : Witness} {keep : Witness → Bool} :
    w ∈ getWitnessesAtBlockHeight db bh keep ↔
      IsNewest db bh w ∧ bh ≤ w.height + maxSignedDiff ∧ keep w = true := by
  have hread : ∀ account, witnessMap db bh account = some w ↔
      (w.account = account ∧ IsNewest db bh w) ∧ bh ≤ w.height + maxSignedDiff := by
    intro account
    rw [witnessMap_eq, Option.filter_eq_some_iff, getWitnessAtHeight_eq_some, decide_eq_true_eq]
    refine and_congr_right fun _ => ?_
    split <;> omega
  simp only [getWitnessesAtBlockHeight, mem_filterMap, mem_insertionSort, mem_filter, mem_dedup,
    mem_accounts_iff, hread]
  constructor
  · rintro ⟨account, ⟨-, hkeep⟩, ⟨rfl, hnew⟩, hfresh⟩
    rw [(hread w.account).2 ⟨⟨rfl, hnew⟩, hfresh⟩] at hkeep
    exact ⟨hnew, hfresh, hkeep⟩
  · rintro ⟨hnew, hfresh, hkeep⟩
    refine ⟨w.account, ?_, ⟨rfl, hnew⟩, hfresh⟩
    rw [(hread w.account).2 ⟨⟨rfl, hnew⟩, hfresh⟩]
    exact ⟨rfl, hkeep⟩

theorem getWitnessesAtBlockHeight_congr
    (h : ∀ account, getWitnessAtHeight db account bh = getWitnessAtHeight db' account bh)
    (keep : Witness → Bool) :
    getWitnessesAtBlockHeight db bh keep = getWitnessesAtBlockHeight db' bh keep := by
  have hmap : witnessMap db bh = witnessMap db' bh := by
    funext account
    rw [witnessMap_eq, witnessMap_eq, h]
  have hperm : ((recentRows db bh).map Witness.account).dedup.Perm
      ((recentRows db' bh).map Witness.account).dedup := by
    rw [perm_ext_iff_of_nodup (nodup_dedup _) (nodup_dedup _)]
    intro account
    rw [mem_dedup, mem_dedup, mem_accounts_iff, mem_accounts_iff, hmap]
  rw [getWitnessesAtBlockHeight, getWitnessesAtBlockHeight, hmap]
  exact congrArg _ (List.Perm.eq_of_pairwise (fun _ _ _ _ => le_antisymm)
    (pairwise_insertionSort _ _) (pairwise_insertionSort _ _)
    (((perm_insertionSort _ _).trans (hperm.filter _)).trans
      (perm_insertionSort _ _).symm))

structure SameReads (elections : ElectionDb) (db db' : WitnessDb) (bh : ℕ) : Prop where
  witness : ∀ account, getWitnessAtHeight db account bh = getWitnessAtHeight db' account bh
  witnesses : ∀ keep, getWitnessesAtBlockHeight db bh keep = getWitnessesAtBlockHeight db' bh keep
  mode : ∀ account, nodeDelegationMode elections db account bh =
    nodeDelegationMode elections db' account bh

theorem sameReads_iff {elections : ElectionDb} : SameReads elections db db' bh ↔
      ∀ account, getWitnessAtHeight db account bh = getWitnessAtHeight db' account bh := by
  refine ⟨SameReads.witness, fun h => ⟨h, getWitnessesAtBlockHeight_congr h, fun account => ?_⟩⟩
  rw [nodeDelegationMode, nodeDelegationMode, h]

/-! ## Announcements in block order -/

/-- An announcement that has no consensus key leaves the rows as they are. -/
def announce (db : WitnessDb) (request : SetWitnessUpdateType) : WitnessDb :=
  match setWitnessUpdate db request with
  | .ok db' => db'
  | .error _ => db

section

variable (announcements : List SetWitnessUpdateType)

def run : WitnessDb := announcements.foldl announce .empty

def SetWitnessUpdateType.Accepted : Prop :=
  consensusKey request.didKeys ≠ ""
  deriving Decidable

def laterBlocks (account : String) (h : ℕ) : Finset ℕ :=
  ((announcements.filter fun a => a.Accepted ∧ a.account = account ∧ h ≤ a.height).map
    SetWitnessUpdateType.height).toFinset

theorem announce_cases (db : WitnessDb) (request : SetWitnessUpdateType) :
    (¬ request.Accepted ∧ announce db request = db) ∨
      (request.Accepted ∧ ∃ w : Witness, w.key = (request.account, request.height) ∧
        announce db request = store maxRecords db w) := by
  by_cases hkey : consensusKey request.didKeys = ""
  · refine .inl ⟨not_not.2 hkey, ?_⟩
    rw [announce, setWitnessUpdate, if_pos hkey]
  · refine .inr ⟨hkey, request.row (db.get? (request.account, request.height)), rfl, ?_⟩
    rw [announce, setWitnessUpdate, if_neg hkey]

theorem run_concat (request : SetWitnessUpdateType) :
    run (announcements ++ [request]) = announce (run announcements) request := by
  rw [run, foldl_concat, run]

end

theorem exists_mem_run_iff : (∃ w ∈ run announcements, w.key.1 = account) ↔
      ∃ a ∈ announcements, a.Accepted ∧ a.account = account := by
  induction announcements using reverseRecOn with
  | nil =>
    exact iff_of_false (fun ⟨w, hw, _⟩ => absurd hw not_mem_nil)
      (fun ⟨a, ha, _⟩ => absurd ha not_mem_nil)
  | append_singleton announcements request ih =>
    have hsplit : (∃ a ∈ announcements ++ [request], a.Accepted ∧ a.account = account) ↔
        (∃ a ∈ announcements, a.Accepted ∧ a.account = account) ∨
          (request.Accepted ∧ request.account = account) := by
      simp only [mem_append, mem_singleton, or_and_right, exists_or, exists_eq_left]
    rw [run_concat, hsplit, ← ih]
    rcases announce_cases (run announcements) request with ⟨hno, heq⟩ | ⟨hyes, w, hkey, heq⟩
    · rw [heq]
      exact ⟨.inl, fun h => h.resolve_right fun h => hno h.1⟩
    · rw [heq, exists_mem_store_iff (by decide), hkey, or_comm]
      exact or_congr_right ⟨fun h => ⟨hyes, h⟩, And.right⟩

theorem exists_announcement_of_mem_run {w : Witness} (hw : w ∈ run announcements) :
    ∃ a ∈ announcements, a.height = w.height := by
  induction announcements using reverseRecOn with
  | nil => exact absurd hw not_mem_nil
  | append_singleton announcements request ih =>
    rw [run_concat] at hw
    have hold : w ∈ run announcements → ∃ a ∈ announcements ++ [request], a.height = w.height :=
      fun hw => (ih hw).imp fun a h => ⟨mem_append_left _ h.1, h.2⟩
    rcases announce_cases (run announcements) request with ⟨_, heq⟩ | ⟨_, w', hkey, heq⟩
    · exact hold (heq ▸ hw)
    rw [heq, store, mem_keepNewest (by decide)] at hw
    rcases Collection.mem_of_mem_put hw.1 with rfl | hw
    · exact ⟨request, by simp, (congrArg Prod.snd hkey).symm⟩
    · exact hold hw

theorem kept_run {before later : List SetWitnessUpdateType} {h : ℕ}
    (hbefore : ∀ a ∈ before, a.height < h) (hlater : ∀ a ∈ later, h ≤ a.height)
    (account : String) :
    Kept maxRecords account h (run before) (laterBlocks later account h) (run (before ++ later)) := by
  induction later using reverseRecOn with
  | nil =>
    rw [append_nil]
    refine Kept.start (by decide) fun w hw => ?_
    obtain ⟨a, ha, hheight⟩ := exists_announcement_of_mem_run hw
    exact hheight.symm.trans_lt (hbefore a ha)
  | append_singleton later request ih =>
    have hkept := ih fun a ha => hlater a (mem_append_left _ ha)
    have hrequest : h ≤ request.height := hlater request (by simp)
    rw [← append_assoc, run_concat]
    have hblocks : laterBlocks (later ++ [request]) account h =
        if request.Accepted ∧ request.account = account then
          insert request.height (laterBlocks later account h)
        else laterBlocks later account h := by
      rw [laterBlocks, filter_append, map_append, toFinset_append]
      split
      · rename_i hmine
        rw [filter_cons_of_pos (by simp [hmine, hrequest]), Finset.union_comm]
        rfl
      rename_i hother
      rw [filter_cons_of_neg (by simpa using fun h₁ h₂ => absurd ⟨h₁, h₂⟩ hother)]
      simp [laterBlocks]
    rw [hblocks]
    rcases announce_cases (run (before ++ later)) request with ⟨hno, heq⟩ | ⟨hyes, w, hkey, heq⟩
    · rw [heq, if_neg fun hmine => hno hmine.1]
      exact hkept
    have hfst : w.key.1 = request.account := congrArg Prod.fst hkey
    have hsnd : w.key.2 = request.height := congrArg Prod.snd hkey
    rw [heq]
    by_cases hmine : request.account = account
    · subst hmine
      rw [if_pos ⟨hyes, rfl⟩, ← hsnd]
      rw [← hfst] at hkept ⊢
      exact hkept.store_self (by decide) (hsnd ▸ hrequest)
    · rw [if_neg fun hboth => hmine hboth.2]
      exact hkept.store_of_ne (by decide) (hfst ▸ Ne.symm hmine)

/-- The reads of a height are the same right after the block before it and after all
announcements, exactly if no account that was announced before the height is announced in
more than five blocks from the height on. -/
theorem reads_stable_iff (elections : ElectionDb) {announcements : List SetWitnessUpdateType}
    (horder : announcements.Pairwise fun a a' => a.height ≤ a'.height) (h : ℕ) :
    SameReads elections (run announcements) (run (announcements.filter fun a => a.height < h)) h ↔
      ∀ account, (∃ a ∈ announcements, a.Accepted ∧ a.account = account ∧ a.height < h) →
        (laterBlocks announcements account h).card ≤ 5 := by
  set before := announcements.filter fun a => a.height < h with hbefore
  set later := announcements.filter fun a => h ≤ a.height with hlater
  -- in block order, the announcements below the height come first
  have hsplit : announcements = before ++ later := by
    clear_value before later
    subst hbefore hlater
    induction announcements with
    | nil => rfl
    | cons a rest ih =>
      obtain ⟨ha, hrest⟩ := pairwise_cons.1 horder
      by_cases hlt : a.height < h
      · rw [filter_cons_of_pos (by simpa using hlt),
          filter_cons_of_neg (by simpa using hlt), cons_append, ← ih hrest]
      have hnone : rest.filter (fun a => a.height < h) = [] := by
        rw [filter_eq_nil_iff]
        intro b hb
        simpa using (not_lt.1 hlt).trans (ha b hb)
      have hall := ih hrest
      rw [hnone, nil_append] at hall
      rw [filter_cons_of_neg (by simpa using hlt), hnone, nil_append,
        filter_cons_of_pos (by simpa using hlt), ← hall]
  have hblocks : ∀ account, laterBlocks announcements account h = laterBlocks later account h := by
    intro account
    rw [laterBlocks, laterBlocks, hlater, filter_filter]
    congr 2
    refine filter_congr fun a _ => ?_
    rw [Bool.eq_iff_iff]
    simp only [decide_eq_true_eq, Bool.and_eq_true]
    tauto
  have hkept : ∀ account, Kept maxRecords account h (run before) (laterBlocks later account h)
      (run (before ++ later)) :=
    kept_run (fun a ha => by simpa using (mem_filter.1 ha).2)
      (fun a ha => by simpa using (mem_filter.1 ha).2)
  rw [sameReads_iff]
  refine forall_congr' fun account => ?_
  have hnone : getWitnessAtHeight (run before) account h = none ↔
      ¬ ∃ a ∈ announcements, a.Accepted ∧ a.account = account ∧ a.height < h := by
    have hrow : (∃ w ∈ run before, w.key.1 = account) ↔
        ∃ a ∈ announcements, a.Accepted ∧ a.account = account ∧ a.height < h := by
      rw [exists_mem_run_iff, hbefore]
      refine exists_congr fun a => ?_
      simp only [mem_filter, decide_eq_true_eq]
      tauto
    rw [← hrow, getWitnessAtHeight, newestBelow_eq_none_iff, not_exists]
    refine forall_congr' fun w => ?_
    rw [not_and]
    refine forall_congr' fun hw => ⟨fun hall hacct => ?_, fun hne hacct => absurd hacct hne⟩
    obtain ⟨a, ha, hheight⟩ := exists_announcement_of_mem_run hw
    have hlt : a.height < h := by simpa using (mem_filter.1 ha).2
    exact absurd (hall hacct) (by rw [show w.key.2 = a.height from hheight.symm]; exact hlt.not_ge)
  rw [hsplit, getWitnessAtHeight, getWitnessAtHeight, (hkept account).newestBelow_eq_iff, ← hsplit,
    hblocks]
  rw [getWitnessAtHeight] at hnone
  rw [hnone, ← imp_iff_not_or]
  exact imp_congr_right fun _ => Nat.lt_succ_iff

def sharing (height : ℕ) : SetWitnessUpdateType where
  account := "alice"
  height := height
  didKeys := [{ type := "consensus", key := "did:key:alice" }]
  vscNode := { enabled := true, delegationMode := "share" }

/-- A second announcement does not change what was read before it. -/
theorem reads_stable_twice : SameReads .empty (run [sharing 1, sharing 10])
      (run ([sharing 1, sharing 10].filter fun a => a.height < 5)) 5 :=
  (reads_stable_iff .empty (by decide) 5).2 fun _ _ =>
    (toFinset_card_le _).trans
      ((length_map _).trans_le ((length_filter_le ..).trans (by decide)))

/-- Six announcements later the node is not known at the height any more, and does not
share its rewards there. -/
theorem renewals_erase_record :
    let announcements := [1, 10, 20, 30, 40, 50, 60].map sharing
    let before := announcements.filter fun a => a.height < 5
    announcements.Pairwise (fun a a' => a.height ≤ a'.height) ∧
      (getWitnessAtHeight (run before) "alice" 5).isSome ∧
      getWitnessAtHeight (run announcements) "alice" 5 = none ∧
      (getWitnessesAtBlockHeight (run before) 5 fun w => w.vscNode.enabled).map Witness.account =
        ["alice"] ∧
      getWitnessesAtBlockHeight (run announcements) 5 (fun w => w.vscNode.enabled) = [] ∧
      nodeDelegationMode .empty (run before) "hive:alice" 5 = .share ∧
      nodeDelegationMode .empty (run announcements) "hive:alice" 5 = .deactivated := by
  decide +kernel

end VscNode.Witnesses
