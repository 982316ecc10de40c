import VscNode.Contract.ProvenCode

/-!
# Contract versions and the updates they stand for

The history of a contract is its deployment and the updates that were accepted. An update
replaces name and description, and the code or the owner where it names them; it takes
effect when its timelock has run out, unless it was cancelled before. What the contract is
at a height is the deployed record with the updates that have taken effect by then
(`History.at_`).

The stored version of an update is instead a full copy of the version that is active when
the update is submitted, and its row is found by the block of submission. Where another
update is pending at that time, the later version undoes it; where one was submitted in the
same block, it is overwritten, or the new version takes over its cancellation. Where every
update finds the contract without a pending version, and without one from its own block
that is not active yet, the active version is what the history says (`active_version`).
-/

namespace VscNode.Contracts

open Collection Contracts.Contract ContractDb List TxUpdateContract

/-! ## Histories -/

structure ContractView where
  (name description creator owner code runtime : String)
  deriving DecidableEq

def Contract.view (c : Contract) : ContractView where
  name := c.name
  description := c.description
  creator := c.creator
  owner := c.owner
  code := c.code
  runtime := c.runtime

@[simp] theorem Contract.view_cancel (id : String) (head cancelledHeight : ℕ)
    (cancelledTx : String) (targetTx : Option String) (c : Contract) :
    (c.cancel id head cancelledHeight cancelledTx targetTx).view = c.view := by
  rw [cancel]
  split <;> rfl

@[simp] theorem Contract.view_unsetLatest (id : String) (c : Contract) :
    (c.unsetLatest id).view = c.view := by
  rw [unsetLatest]
  split <;> rfl

/-- An accepted update: what it asks for and when it takes effect. -/
structure Change where
  (name description : String)
  owner : Option String
  code : Option (String × String)
  activationHeight : ℕ
  txId : String
  cancelled : Bool := false
  deriving DecidableEq

namespace Change

/-- What is not asked for keeps its value. -/
def apply (v : ContractView) (ch : Change) : ContractView where
  name := ch.name
  description := ch.description
  creator := v.creator
  owner := ch.owner.getD v.owner
  code := ch.code.elim v.code Prod.fst
  runtime := ch.code.elim v.runtime Prod.snd

def PendingAt (ch : Change) (head : ℕ) (targetTx : Option String) : Prop :=
  head < ch.activationHeight ∧ ch.cancelled = false ∧ ∀ tx ∈ targetTx, ch.txId = tx
  deriving Decidable

def cancel (head : ℕ) (targetTx : Option String) (ch : Change) : Change :=
  if ch.PendingAt head targetTx then { ch with cancelled := true } else ch

end Change

structure History where
  deployed : Option (ContractView × ℕ) := none
  changes : List Change := []

namespace History

variable {hist : History}

/-- The updates that were not cancelled, in the order of submission. -/
def live (hist : History) : List Change := hist.changes.filter fun ch => !ch.cancelled

def at_ (hist : History) (height : ℕ) : Option ContractView :=
  hist.deployed.bind fun (v, submitted) =>
    if submitted ≤ height then
      some (((hist.live.filter fun ch => ch.activationHeight ≤ height).insertionSort
        fun ch ch' => ch.activationHeight ≤ ch'.activationHeight).foldl Change.apply v)
    else none

/-- The updates take effect in the order in which they were submitted. -/
def Sorted (hist : History) : Prop :=
  hist.live.Pairwise fun ch ch' => ch.activationHeight ≤ ch'.activationHeight

theorem Sorted.at_eq (h : hist.Sorted) (height : ℕ) :
    hist.at_ height = hist.deployed.bind fun (v, submitted) =>
      if submitted ≤ height then
        some ((hist.live.filter fun ch => ch.activationHeight ≤ height).foldl Change.apply v)
      else none := by
  rw [at_, (h.filter _).insertionSort_eq]

def submit (hist : History) (ch : Change) : History := { hist with changes := hist.changes ++ [ch] }

def cancel (hist : History) (head : ℕ) (targetTx : Option String) : History :=
  { hist with changes := hist.changes.map (Change.cancel head targetTx) }

variable {ch : Change}

theorem live_submit (h : ch.cancelled = false) : (hist.submit ch).live = hist.live ++ [ch] := by
  simp [submit, live, h]

/-- The history before an update takes effect. -/
theorem at_submit_of_lt (hch : ch.cancelled = false) (hsorted : hist.Sorted)
    (hsorted' : (hist.submit ch).Sorted) {height : ℕ} (h : height < ch.activationHeight) :
    (hist.submit ch).at_ height = hist.at_ height := by
  rw [hsorted'.at_eq, hsorted.at_eq, live_submit hch, filter_append]
  simp [submit, h]

/-- The history from when an update takes effect that was submitted when none was
pending. -/
theorem at_submit_of_le (hch : ch.cancelled = false) (hsorted : hist.Sorted)
    (hsorted' : (hist.submit ch).Sorted) {head height : ℕ}
    (hlive : ∀ ch' ∈ hist.live, ch'.activationHeight ≤ head) (hhead : head ≤ ch.activationHeight)
    (h : ch.activationHeight ≤ height) (hdeployed : ∀ v d, hist.deployed = some (v, d) → d ≤ head) :
    (hist.submit ch).at_ height = (hist.at_ head).map fun v => ch.apply v := by
  have hall : ∀ {height' : ℕ}, head ≤ height' →
      (hist.live.filter fun ch' => ch'.activationHeight ≤ height') = hist.live := by
    intro height' hle
    rw [filter_eq_self]
    exact fun ch' hmem => decide_eq_true ((hlive ch' hmem).trans hle)
  rw [hsorted'.at_eq, hsorted.at_eq, live_submit hch, filter_append,
    hall (hhead.trans h), hall le_rfl]
  cases hd : hist.deployed with
  | none => simp [submit, hd]
  | some d =>
    have hle := hdeployed d.1 d.2 hd
    simp [submit, hd, h, hle, hle.trans (hhead.trans h)]

theorem live_cancel {head : ℕ} {targetTx : Option String} (hist : History) :
    (hist.cancel head targetTx).live = hist.live.filter fun ch => ¬ ch.PendingAt head targetTx := by
  simp only [cancel, live]
  induction hist.changes with
  | nil => rfl
  | cons ch changes ih =>
    rw [map_cons, filter_cons, ih, filter_cons, Change.cancel]
    by_cases hpending : ch.PendingAt head targetTx
    · simp [hpending, hpending.2.1]
    · cases hcancelled : ch.cancelled <;> simp [hpending, hcancelled]

end History

/-! ## Stored versions that agree with a history -/

/-- What holds at height `now` between the stored versions of a contract and its history. A
pending version belongs to one transaction, as does a pending update. -/
structure Agrees (id : String) (db : ContractDb) (hist : History) (now : ℕ) : Prop where
  submitted : ∀ c ∈ db, c.id = id → c.creationHeight ≤ now ∧ c.creationHeight ≤ c.activationHeight ∧
    (c.cancelled = true → c.creationHeight < c.activationHeight)
  deployed : ∀ v d, hist.deployed = some (v, d) → d ≤ now
  reads : ∀ height, (db.contractById id height).map Contract.view = hist.at_ height
  sorted : hist.Sorted
  pendingTx : ∃ tx, (∀ c ∈ db, c.id = id → c.cancelled = false → now < c.activationHeight →
      c.txId = tx) ∧ ∀ ch ∈ hist.live, now < ch.activationHeight → ch.txId = tx
  pendingRow : ∀ ch ∈ hist.live, now < ch.activationHeight →
    ∃ c ∈ db, c.id = id ∧ c.cancelled = false ∧ c.activationHeight = ch.activationHeight

/-- An update submitted at `now` meets no pending version of the contract, and if one was
submitted in the same block, both are active at once. -/
@[mk_iff] structure Apart (id : String) (db : ContractDb) (now activationHeight : ℕ) : Prop where
  clear : ∀ c ∈ db, c.id = id → c.cancelled = false → c.activationHeight ≤ now
  block : ∀ c ∈ db, c.id = id → c.creationHeight = now →
    c.activationHeight ≤ now ∧ activationHeight = now

namespace Agrees

variable {id : String} {db : ContractDb} {hist : History} {now : ℕ}

theorem mono (h : Agrees id db hist now) {now' : ℕ} (hle : now ≤ now') :
    Agrees id db hist now' where
  submitted c hc hid :=
    have ⟨hbefore, hrest⟩ := h.submitted c hc hid
    ⟨hbefore.trans hle, hrest⟩
  deployed v d hd := (h.deployed v d hd).trans hle
  reads := h.reads
  sorted := h.sorted
  pendingTx :=
    have ⟨tx, hrows, hchanges⟩ := h.pendingTx
    ⟨tx, fun c hc hid hlive hlt => hrows c hc hid hlive (hle.trans_lt hlt),
      fun ch hch hlt => hchanges ch hch (hle.trans_lt hlt)⟩
  pendingRow ch hch hlt := h.pendingRow ch hch (hle.trans_lt hlt)

theorem empty : Agrees id Collection.empty {} now where
  submitted c hc := absurd hc (not_mem_empty c)
  deployed := nofun
  reads _ := rfl
  sorted := .nil
  pendingTx := ⟨"", fun c hc => absurd hc (not_mem_empty c), nofun⟩
  pendingRow := nofun

theorem congr (h : Agrees id db hist now) {db' : ContractDb}
    (hsame : ∀ c, c.id = id → (c ∈ db' ↔ c ∈ db)) : Agrees id db' hist now where
  submitted c hc hid := h.submitted c ((hsame c hid).1 hc) hid
  deployed := h.deployed
  reads height := by
    rw [← h.reads]
    refine map_contractById_congr (fun c hc hactive => ?_) fun c hc hactive => ?_
    · exact ⟨c, (hsame c hactive.1).2 hc, hactive, rfl, rfl, rfl⟩
    · exact ⟨c, (hsame c hactive.1).1 hc, hactive, rfl, rfl⟩
  sorted := h.sorted
  pendingTx :=
    have ⟨tx, hrows, hchanges⟩ := h.pendingTx
    ⟨tx, fun c hc hid => hrows c ((hsame c hid).1 hc) hid, hchanges⟩
  pendingRow ch hch hlt :=
    have ⟨c, hc, hid, hrest⟩ := h.pendingRow ch hch hlt
    ⟨c, (hsame c hid).2 hc, hid, hrest⟩

variable {args : Contract} {cancelledTx : String} {targetTx : Option String}

theorem register_first (hfresh : ∀ c ∈ db, c.id ≠ id)
    (hactive : args.activationHeight = args.creationHeight) :
    Agrees id (db.registerContract id args) ⟨some (args.view, args.creationHeight), []⟩
      args.creationHeight := by
  have hrow : db.registered id args = { args with
      id := id, latest := true, cancelled := false, cancelledHeight := 0, cancelledTx := "" } := by
    have hnone : db.get? (id, args.creationHeight) = none :=
      get?_eq_none_iff.2 fun c hc hkey => hfresh c hc (Prod.mk.inj hkey).1
    rw [registered, hnone, hactive, max_self]
    rw [← hactive]
    rfl
  have hmem : ∀ c ∈ db.registerContract id args, c.id = id → c = db.registered id args := by
    intro c hc hid
    rcases mem_registerContract.1 hc with rfl | ⟨⟨c₀, hc₀, rfl⟩, -⟩
    · rfl
    exact absurd (by simpa using hid) (hfresh c₀ hc₀)
  have hnew : db.registered id args ∈ db.registerContract id args :=
    mem_registerContract.2 (.inl rfl)
  refine ⟨?_, ?_, ?_, List.Pairwise.nil, ⟨args.txId, ?_, by rintro _ ⟨⟩⟩, by rintro _ ⟨⟩⟩
  · intro c hc hid
    rw [hmem c hc hid, hrow]
    exact ⟨le_rfl, hactive.ge, by simp⟩
  · rintro v d ⟨⟩
    exact le_rfl
  · intro height
    simp only [History.at_, History.live, Option.bind_some, filter_nil,
      insertionSort_nil, foldl_nil]
    split
    · rename_i hle
      have hfound : (db.registerContract id args).contractById id height =
          some (db.registered id args) := by
        refine contractById_eq_some_iff.2 ⟨hnew, ?_, fun c hc hc' => ?_⟩
        · rw [hrow]
          exact ⟨rfl, hactive.trans_le hle, rfl⟩
        · rw [hmem c hc hc'.1]
          exact .inr ⟨rfl, le_rfl⟩
      rw [hfound, Option.map_some, hrow]
      rfl
    rename_i hlt
    have hnone : (db.registerContract id args).contractById id height = none := by
      refine contractById_eq_none_iff.2 fun c hc hactive' => hlt ?_
      have hle := hactive'.2.1
      rw [hmem c hc hactive'.1, hrow] at hle
      exact hactive.ge.trans hle
    rw [hnone, Option.map_none]
  intro c hc hid _ hlt
  rw [hmem c hc hid, hrow] at hlt
  exact absurd hactive.le (not_le.2 hlt)

section

variable (h : Agrees id db hist now)

include h

theorem row_submit (hsubmitted : args.creationHeight = now)
    (hle : now ≤ args.activationHeight) (hapart : Apart id db now args.activationHeight) :
    (db.registered id args).activationHeight = args.activationHeight ∧
      (db.registered id args).cancelled = false := by
  constructor
  · exact max_eq_left (hsubmitted.trans_le hle)
  rw [registered, hsubmitted]
  cases hold : db.get? (id, now) with
  | none => rfl
  | some old =>
    obtain ⟨hmem, hkey⟩ := get?_eq_some_iff.1 hold
    obtain ⟨hid, hheight⟩ := Prod.mk.inj hkey
    -- a cancelled version would be pending in this block
    cases hcancelled : old.cancelled with
    | false => exact hcancelled
    | true =>
      have hlt := (h.submitted old hmem hid).2.2 hcancelled
      have hactive := (hapart.block old hmem hid hheight).1
      omega

theorem submit {ch : Change} {existing : Contract}
    (hfound : db.contractById id now = some existing) (hsubmitted : args.creationHeight = now)
    (hactivation : args.activationHeight = ch.activationHeight) (hle : now ≤ ch.activationHeight)
    (hch : ch.cancelled = false) (htx : args.txId = ch.txId)
    (hview : args.view = ch.apply existing.view) (hapart : Apart id db now ch.activationHeight) :
    Agrees id (db.registerContract id args) (hist.submit ch) now := by
  rw [← hactivation] at hapart
  obtain ⟨hact, hlive⟩ := h.row_submit hsubmitted (hactivation ▸ hle) hapart
  have hchanges : ∀ ch' ∈ hist.live, ch'.activationHeight ≤ now := by
    intro ch' hmem
    by_contra hlt
    obtain ⟨c, hc, hid, hcancelled, hsame⟩ := h.pendingRow ch' hmem (not_le.1 hlt)
    exact hlt (hsame ▸ hapart.clear c hc hid hcancelled)
  have hsorted : (hist.submit ch).Sorted := by
    rw [History.Sorted, History.live_submit hch, pairwise_append]
    refine ⟨h.sorted, pairwise_singleton _ _, fun a ha b hb => ?_⟩
    rw [mem_singleton.1 hb]
    exact (hchanges a ha).trans hle
  have hnew : db.registered id args ∈ db.registerContract id args :=
    mem_registerContract.2 (.inl rfl)
  have hold : ∀ c ∈ db.registerContract id args, c = db.registered id args ∨
      ∃ c₀ ∈ db, c₀.unsetLatest id = c := fun c hc =>
    (mem_registerContract.1 hc).imp_right fun hc => hc.1
  have hpending : ∀ ch' ∈ (hist.submit ch).live, now < ch'.activationHeight → ch' = ch := by
    intro ch' hmem hlt
    rw [History.live_submit hch, mem_append, mem_singleton] at hmem
    exact hmem.resolve_left fun hmem => absurd (hchanges ch' hmem) (not_le.2 hlt)
  refine ⟨?_, h.deployed, ?_, hsorted, ⟨ch.txId, ?_, ?_⟩, ?_⟩
  · intro c hc hid
    rcases hold c hc with rfl | ⟨c₀, hc₀, rfl⟩
    · rw [hlive, hact, hactivation]
      exact ⟨hsubmitted.le, hsubmitted.trans_le hle, nofun⟩
    · simpa using h.submitted c₀ hc₀ (by simpa using hid)
  · intro height
    by_cases hlt : height < ch.activationHeight
    · -- the new version is not active, nor was the one it may have replaced
      rw [History.at_submit_of_lt hch h.sorted hsorted hlt, ← h.reads]
      refine map_contractById_congr (fun c hc hactive => ?_) fun c hc hactive => ?_
      · refine ⟨c.unsetLatest id, mem_registerContract.2 (.inr ⟨⟨c, hc, rfl⟩, ?_⟩),
          by simpa [Contract.ActiveAt] using hactive, by simp, by simp, by simp⟩
        rw [key_unsetLatest]
        intro hkey
        have hheight : c.creationHeight = now := (Prod.mk.inj hkey).2.trans hsubmitted
        have hsame := (hapart.block c hc hactive.1 hheight).2
        have hbefore := (h.submitted c hc hactive.1).2.1
        have hreached := hactive.2.1
        omega
      rcases hold c hc with rfl | ⟨c₀, hc₀, rfl⟩
      · have hreached := hactive.2.1
        rw [hact, hactivation] at hreached
        exact absurd hreached (not_le.2 hlt)
      · exact ⟨c₀, hc₀, by simpa [Contract.ActiveAt] using hactive, by simp, by simp⟩
    -- the new version is the newest one
    rw [not_lt] at hlt
    rw [History.at_submit_of_le hch h.sorted hsorted hchanges hle hlt h.deployed, ← h.reads,
      hfound, Option.map_some, Option.map_some, ← hview]
    have hnewest : (db.registerContract id args).contractById id height =
        some (db.registered id args) := by
      refine contractById_eq_some_iff.2
        ⟨hnew, ⟨rfl, by rwa [hact, hactivation], hlive⟩, fun c hc hactive => ?_⟩
      rcases hold c hc with rfl | ⟨c₀, hc₀, rfl⟩
      · exact .inr ⟨rfl, le_rfl⟩
      simp only [Contract.ActiveAt, unsetLatest_id, unsetLatest_cancelled]
        at hactive
      have hreached := hapart.clear c₀ hc₀ hactive.1 hactive.2.2
      have hbefore := (h.submitted c₀ hc₀ hactive.1).1
      have hrow : (db.registered id args).creationHeight = now := hsubmitted
      simp only [Contract.NewerOrSame, unsetLatest_activationHeight,
        unsetLatest_creationHeight]
      omega
    rw [hnewest, Option.map_some]
    rfl
  · intro c hc hid hcancelled hlt
    rcases hold c hc with rfl | ⟨c₀, hc₀, rfl⟩
    · exact htx
    simp only [unsetLatest_id, unsetLatest_cancelled,
      unsetLatest_activationHeight] at hid hcancelled hlt
    exact absurd (hapart.clear c₀ hc₀ hid hcancelled) (not_le.2 hlt)
  · exact fun ch' hmem hlt => congrArg _ (hpending ch' hmem hlt)
  intro ch' hmem hlt
  obtain rfl := hpending ch' hmem hlt
  exact ⟨_, hnew, rfl, hlive, hact.trans hactivation⟩

theorem cancel_of_not_pending (hrows : ∀ c ∈ db, ¬ c.PendingAt id now targetTx)
    (hchanges : ∀ ch ∈ hist.changes, ¬ ch.PendingAt now targetTx) :
    Agrees id (db.cancelPendingUpdate id now now cancelledTx targetTx).1
      (hist.cancel now targetTx) now := by
  have hhist : hist.cancel now targetTx = hist := by
    have hmap : hist.changes.map (Change.cancel now targetTx) = hist.changes.map fun ch => ch :=
      map_congr_left fun ch hmem => if_neg (hchanges ch hmem)
    rw [History.cancel, hmap, map_id']
  rw [hhist]
  refine h.congr fun c _ => ?_
  rw [mem_cancelPendingUpdate]
  constructor
  · rintro ⟨c₀, hc₀, rfl⟩
    rwa [cancel, if_neg (hrows c₀ hc₀)]
  · exact fun hc => ⟨c, hc, if_neg (hrows c hc)⟩

theorem cancel_of_pending (hrows : ∀ c ∈ db, c.id = id → c.cancelled = false →
      (c.PendingAt id now targetTx ↔ now < c.activationHeight))
    (hchanges : ∀ ch ∈ hist.live, ch.PendingAt now targetTx ↔ now < ch.activationHeight) :
    Agrees id (db.cancelPendingUpdate id now now cancelledTx targetTx).1
      (hist.cancel now targetTx) now := by
  have hlive : (hist.cancel now targetTx).live =
      hist.live.filter fun ch => ch.activationHeight ≤ now := by
    rw [History.live_cancel]
    refine filter_congr fun ch hmem => ?_
    rw [decide_eq_decide, hchanges ch hmem, not_lt]
  have hsorted : (hist.cancel now targetTx).Sorted := by
    rw [History.Sorted, hlive]
    exact h.sorted.filter _
  have hdone : ∀ ch ∈ (hist.cancel now targetTx).live, ¬ now < ch.activationHeight := by
    simp [hlive]
  have hactive : ∀ c ∈ db, ∀ height, (c.cancel id now now cancelledTx targetTx).ActiveAt id height ↔
        c.ActiveAt id (min height now) := by
    intro c hc height
    have hkept : (c.cancel id now now cancelledTx targetTx).ActiveAt id height ↔
        c.ActiveAt id height ∧ ¬c.PendingAt id now targetTx := by
      rw [cancel]
      split <;> simp [Contract.ActiveAt, *]
    rw [hkept, Contract.ActiveAt, Contract.ActiveAt, le_min_iff]
    constructor
    · rintro ⟨⟨hid, hle, hlive⟩, hpending⟩
      exact ⟨hid, ⟨hle, not_lt.1 (mt (hrows c hc hid hlive).2 hpending)⟩, hlive⟩
    · rintro ⟨hid, hle, hlive⟩
      exact ⟨⟨hid, hle.1, hlive⟩, mt (hrows c hc hid hlive).1 (not_lt.2 hle.2)⟩
  refine ⟨?_, h.deployed, ?_, hsorted, ⟨"", ?_, ?_⟩, ?_⟩
  · intro c hc hid
    obtain ⟨c₀, hc₀, rfl⟩ := mem_cancelPendingUpdate.1 hc
    rw [cancel] at hid ⊢
    split
    · rename_i hpending
      have hbefore := (h.submitted c₀ hc₀ hpending.1).1
      have hlt : c₀.creationHeight < c₀.activationHeight := hbefore.trans_lt hpending.2.1
      exact ⟨hbefore, hlt.le, fun _ => hlt⟩
    rename_i hpending
    rw [if_neg hpending] at hid
    exact h.submitted c₀ hc₀ hid
  · intro height
    have hreads : ((db.cancelPendingUpdate id now now cancelledTx targetTx).1.contractById id
        height).map view = (db.contractById id (min height now)).map view := by
      refine map_contractById_congr (fun c hc hc' => ?_) fun c hc hc' => ?_
      · exact ⟨c.cancel id now now cancelledTx targetTx,
          mem_cancelPendingUpdate.2 ⟨c, hc, rfl⟩, (hactive c hc height).2 hc',
          by simp, by simp, by simp⟩
      · obtain ⟨c₀, hc₀, rfl⟩ := mem_cancelPendingUpdate.1 hc
        exact ⟨c₀, hc₀, (hactive c₀ hc₀ height).1 hc', by simp, by simp⟩
    have hfilter : (hist.live.filter fun ch => ch.activationHeight ≤ min height now) =
        (hist.live.filter fun ch => ch.activationHeight ≤ now).filter
          fun ch => ch.activationHeight ≤ height := by
      simp [filter_filter, Bool.and_comm]
    rw [hreads, h.reads, h.sorted.at_eq, hsorted.at_eq, hlive, hfilter]
    cases hd : hist.deployed with
    | none => simp [History.cancel, hd]
    | some d =>
      have hle := h.deployed d.1 d.2 hd
      simp [History.cancel, hd, hle]
  · intro c hc hid hcancelled hlt
    obtain ⟨c₀, hc₀, rfl⟩ := mem_cancelPendingUpdate.1 hc
    have hnow := ((hactive c₀ hc₀ _).1 ⟨hid, le_rfl, hcancelled⟩).2.1
    rw [cancel_activationHeight] at hlt hnow
    omega
  · exact fun ch hmem hlt => absurd hlt (hdone ch hmem)
  · exact fun ch hmem hlt => absurd hlt (hdone ch hmem)

theorem cancel (cancelledTx : String) (targetTx : Option String) :
    Agrees id (db.cancelPendingUpdate id now now cancelledTx targetTx).1
      (hist.cancel now targetTx) now := by
  -- what is pending belongs to one transaction: the cancellation reaches all of it or nothing
  obtain ⟨tx, hrows, hchanges⟩ := h.pendingTx
  by_cases htarget : ∀ t ∈ targetTx, tx = t
  · refine h.cancel_of_pending (fun c hc hid hcancelled => ?_) fun ch hmem => ?_
    · exact ⟨fun hp => hp.2.1, fun hlt =>
        ⟨hid, hlt, hcancelled, fun t ht => (hrows c hc hid hcancelled hlt).trans (htarget t ht)⟩⟩
    refine ⟨fun hp => hp.1, fun hlt => ⟨hlt, ?_, fun t ht =>
      (hchanges ch hmem hlt).trans (htarget t ht)⟩⟩
    simpa using (mem_filter.1 hmem).2
  refine h.cancel_of_not_pending (fun c hc hp => htarget fun t ht => ?_)
    fun ch hmem hp => htarget fun t ht => ?_
  · exact (hrows c hc hp.1 hp.2.2.1 hp.2.1).symm.trans (hp.2.2.2 t ht)
  · have hlive : ch ∈ hist.live := mem_filter.2 ⟨hmem, by simp [hp.2.1]⟩
    exact (hchanges ch hlive hp.1).symm.trans (hp.2.2 t ht)

end

end Agrees

/-! ## Runs -/

namespace ContractEngine

/-- The record that a deployment asks for. -/
def deployedView (pos : L1Position) (cj : CustomJson) : ContractView :=
  ((createTx pos cj).contract ((pos.txSelf cj).requiredAuths.elems.headD "") "").view

variable (cfg : ContractConfig)

variable (id : String) (s : ContractEngine) (es : List ContractEvent)

variable (hist : History) (pos : L1Position) (cj : CustomJson)

def change (codeUpdated : Bool) : Change where
  name := (updateTx pos cj).name
  description := (updateTx pos cj).description
  owner :=
    if (updateTx pos cj).owner = "" then none else some (ownerAccount (updateTx pos cj).owner)
  code := (updateTx pos cj).newCode codeUpdated
  activationHeight := cfg.contractUpdateActivationHeight pos.blockHeight
    (s.elections.activeConsensusVersion pos.blockHeight)
  txId := pos.transactionId

def recordReport : Report → History
  | .skipped => hist
  | .created result =>
    if result.success = true ∧ cfg.contractId pos.transactionId pos.opIndex = id then
      ⟨some (deployedView pos cj, pos.blockHeight), []⟩
    else hist
  | .updated result =>
    if result.success = true ∧ (updateTx pos cj).id = id then
      hist.submit (s.change cfg pos cj result.codeUpdated)
    else hist
  | .cancelled result =>
    if result.success = true ∧ (cancelTx pos cj).id = id then
      hist.cancel pos.blockHeight (cancelTx pos cj).targetTx
    else hist

def recordEvent :
    ContractEvent → History
  | .election _ => hist
  | .operation pos cj ops =>
    match s.handle cfg pos cj ops with
    | .error _ => hist
    | .ok out => s.recordReport cfg id hist pos cj out.report

def recordStep (p : ContractEngine × History) (e : ContractEvent) : ContractEngine × History :=
  (p.1.step cfg e, p.1.recordEvent cfg id p.2 e)

/-- The history of a contract in a run. -/
def history : History :=
  (es.foldl (recordStep cfg id) (initial, {})).2

theorem foldl_recordStep :
    es.foldl (recordStep cfg id) (initial, {}) = (run cfg es, history cfg id es) := by
  induction es using reverseRecOn with
  | nil => rfl
  | append_singleton es e ih => rw [run_concat, history, foldl_append, ih]; rfl

theorem history_concat (e : ContractEvent) :
    history cfg id (es ++ [e]) = (run cfg es).recordEvent cfg id (history cfg id es) e := by
  rw [history, foldl_append, foldl_recordStep]
  rfl

/-- An operation on a contract that meets no other one: a deployment finds no version, an
update no pending version and none from its block. -/
def ReportApart :
    Report → Prop
  | .skipped => True
  | .created result =>
    result.success = true → cfg.contractId pos.transactionId pos.opIndex = id →
      ∀ c ∈ s.contracts.docs, c.id ≠ id
  | .updated result =>
    result.success = true → (updateTx pos cj).id = id → Apart id s.contracts pos.blockHeight
        (s.change cfg pos cj result.codeUpdated).activationHeight
  | .cancelled _ => True

def EventApart : ContractEvent → Prop
  | .election _ => True
  | .operation pos cj ops =>
    ∀ out ∈ (s.handle cfg pos cj ops).toOption, s.ReportApart cfg id pos cj out.report

variable {cfg : ContractConfig}

variable {cj : CustomJson} {pos : L1Position} {s : ContractEngine} {hist : History} {id : String}
  {now : ℕ}

theorem view_updatedContract {existing : Contract} {signer : String} {codeUpdated : Bool} :
    (((updateTx pos cj).updatedContract cfg s.elections signer existing).withCode
      ((updateTx pos cj).newCode codeUpdated)).view =
      (s.change cfg pos cj codeUpdated).apply existing.view := by
  rw [change, Change.apply]
  cases (updateTx pos cj).newCode codeUpdated <;> by_cases howner : (updateTx pos cj).owner = "" <;>
    simp [view, withCode, updatedContract, howner]

theorem updatedContract_dates (cfg : ContractConfig) (s : ContractEngine) (pos : L1Position)
    (cj : CustomJson) (existing : Contract) (signer : String) (codeUpdated : Bool) :
    let row := ((updateTx pos cj).updatedContract cfg s.elections signer existing).withCode
      ((updateTx pos cj).newCode codeUpdated)
    row.creationHeight = pos.blockHeight ∧
      row.activationHeight = (s.change cfg pos cj codeUpdated).activationHeight ∧
      row.txId = pos.transactionId := by
  have hself : (updateTx pos cj).self = pos.txSelf cj := self_decode ..
  cases (updateTx pos cj).newCode codeUpdated <;>
    simp [withCode, updatedContract, hself, L1Position.txSelf, change]

theorem recordReport_of_not_accepted {report : Report} (h : ¬ report.Accepted) :
    s.recordReport cfg id hist pos cj report = hist := by
  cases report with
  | skipped => rfl
  | created => exact if_neg fun hok => h hok.1
  | updated => exact if_neg fun hok => h hok.1
  | cancelled => exact if_neg fun hok => h hok.1

/-- One event keeps the stored versions and the history in agreement. -/
theorem agrees_step (h : Agrees id s.contracts hist now) {e : ContractEvent} (hle : now ≤ e.height)
    (hapart : s.EventApart cfg id e) :
    Agrees id (s.step cfg e).contracts (s.recordEvent cfg id hist e) e.height := by
  replace h := h.mono hle
  cases e with
  | election e => exact h
  | operation pos cj ops =>
    rw [ContractEvent.height] at h ⊢
    rw [step, recordEvent]
    have hhandles := handles cfg s pos cj ops
    rw [EventApart] at hapart
    generalize s.handle cfg pos cj ops = out at hhandles hapart ⊢
    cases hhandles with
    | panicked p => exact h
    | passedOver out _ hreport hsame =>
      dsimp only
      rw [hsame, recordReport_of_not_accepted hreport]
      exact h
    | created _ signer election cid _ hsigner =>
      dsimp only [recordReport]
      by_cases hid : cfg.contractId pos.transactionId pos.opIndex = id
      · have hfresh := hapart _ rfl rfl hid
        have hheight : ((createTx pos cj).contract signer id).creationHeight = pos.blockHeight := by
          rw [TxCreateContract.contract, createTx, TxCreateContract.self_decode]
          rfl
        have hview : deployedView pos cj = ((createTx pos cj).contract signer id).view := by
          rw [deployedView, headD_eq_head?_getD, hsigner]
          rfl
        have hfirst : Agrees id (s.contracts.registerContract id
            ((createTx pos cj).contract signer id)) ⟨some (_, _), []⟩ _ :=
          .register_first hfresh rfl
        rw [hheight] at hfirst
        rw [if_pos ⟨rfl, hid⟩, hid, hview]
        exact hfirst
      rw [if_neg fun hok => hid hok.2]
      exact h.congr fun c hc =>
        mem_registerContract_of_ne (hc.trans_ne (Ne.symm hid))
    | updated _ existing codeUpdated _ hauth =>
      dsimp only [recordReport]
      by_cases hid : (updateTx pos cj).id = id
      · have hself : (updateTx pos cj).self = pos.txSelf cj := self_decode ..
        have hfound := hauth.found
        rw [hid, hself] at hfound
        obtain ⟨hsubmitted, hactivation, htx⟩ :=
          updatedContract_dates cfg s pos cj existing existing.owner codeUpdated
        rw [if_pos ⟨rfl, hid⟩, hid]
        exact h.submit hfound hsubmitted hactivation
          (cfg.le_contractUpdateActivationHeight pos.blockHeight _) rfl htx
          view_updatedContract (hapart _ rfl rfl hid)
      rw [if_neg fun hok => hid hok.2]
      exact h.congr fun c hc =>
        mem_registerContract_of_ne (hc.trans_ne (Ne.symm hid))
    | cancelled _ n =>
      dsimp only [recordReport]
      by_cases hid : (cancelTx pos cj).id = id
      · rw [if_pos ⟨rfl, hid⟩, hid]
        exact h.cancel _ _
      rw [if_neg fun hok => hid hok.2]
      exact h.congr fun c hc =>
        mem_cancelPendingUpdate_of_ne (hc.trans_ne (Ne.symm hid))

theorem agrees_run {es : List ContractEvent}
    (hordered : es.Pairwise fun e e' => e.height ≤ e'.height)
    (hapart : Run.AllAlong (step cfg) (EventApart cfg id) initial es)
    (hnow : ∀ e ∈ es, e.height ≤ now) :
    Agrees id (run cfg es).contracts (history cfg id es) now := by
  induction es using reverseRecOn generalizing now with
  | nil => exact .empty
  | append_singleton es e ih =>
    obtain ⟨hes, -, hbefore⟩ := pairwise_append.1 hordered
    obtain ⟨hapart, hlast⟩ := Run.allAlong_concat_iff.1 hapart
    rw [run_concat, history_concat]
    have ih := ih hes hapart fun e' he' => hbefore e' he' e (mem_singleton_self e)
    exact (agrees_step ih le_rfl hlast).mono (hnow e (by simp))

/-- In a run whose operations on a contract do not overlap, the active version at every
height is the deployed record with the updates that have taken effect. -/
theorem active_version (cfg : ContractConfig) (id : String) (es : List ContractEvent)
    (hordered : es.Pairwise fun e e' => e.height ≤ e'.height)
    (hapart : Run.AllAlong (step cfg) (EventApart cfg id) initial es) (height : ℕ) :
    ((run cfg es).contracts.contractById id height).map Contract.view =
      (history cfg id es).at_ height := by
  obtain ⟨now, hnow⟩ : ∃ now, ∀ e ∈ es, e.height ≤ now := by
    refine ⟨(es.map ContractEvent.height).sum, fun e he => ?_⟩
    exact single_le_sum (fun _ _ => Nat.zero_le _) _ (mem_map_of_mem he)
  exact (agrees_run hordered hapart hnow).reads height

/-! ## Updates that overlap -/

def timelocked : ContractConfig := { dataConfig 1 with contractUpdateTimelockBlocks := 10 }

def updateOp (txId signer : String) (height : ℕ) (payload : List (String × Json)) : ContractEvent :=
  .operation ⟨txId, height, "", "", 0, 0⟩
    ⟨"vsc.update_contract", [signer], [], some (.obj (("id", .str "c") :: payload))⟩
    [⟨"custom_json", []⟩]

def cancelOp (height : ℕ) : ContractEvent :=
  .operation ⟨"x", height, "", "", 0, 0⟩
    ⟨"vsc.cancel_contract_update", ["alice"], [], some (.obj [("id", .str "c")])⟩
    [⟨"custom_json", []⟩]

def handover : List ContractEvent :=
  deployment [⟨"k", "alice"⟩] "data" "AQ" ++ [updateOp "t1" "alice" 6 [("owner", .str "bob")],
      updateOp "t2" "bob" 20 [("name", .str "bobs")]]

instance (id : String) (db : ContractDb) (now activationHeight : ℕ) :
    Decidable (Apart id db now activationHeight) := decidable_of_iff _ (apart_iff ..).symm

instance (cfg : ContractConfig) (id : String) (s : ContractEngine) (pos : L1Position)
    (cj : CustomJson) (report : Report) : Decidable (s.ReportApart cfg id pos cj report) := by
  cases report <;> unfold ReportApart <;> infer_instance

instance (cfg : ContractConfig) (id : String) (s : ContractEngine) (e : ContractEvent) :
    Decidable (s.EventApart cfg id e) := by
  cases e <;> unfold EventApart <;> infer_instance

theorem active_version_handover :
    ((run timelocked handover).contracts.contractById "c" 40).map Contract.view =
      (history timelocked "c" handover).at_ 40 :=
  active_version timelocked "c" handover (by decide) (by decide +kernel) 40

def overtaken : List ContractEvent :=
  deployment [⟨"k", "alice"⟩] "data" "AQ" ++ [updateOp "t1" "alice" 6 [("owner", .str "bob")],
      updateOp "t2" "alice" 7 [("name", .str "new")]]

def resubmitted : List ContractEvent :=
  deployment [⟨"k", "alice"⟩] "data" "AQ" ++
    [updateOp "t1" "alice" 6 [("name", .str "old")], cancelOp 6,
      updateOp "t2" "alice" 6 [("name", .str "new")]]

/-- The rename undoes Bob's ownership, and the new update is cancelled with the old one. -/
theorem overlapping_updates :
    (((run timelocked overtaken).contracts.contractById "c" 20).map (·.owner) = some "hive:alice" ∧
      ((history timelocked "c" overtaken).at_ 20).map (·.owner) = some "hive:bob") ∧
    ((run timelocked resubmitted).contracts.contractById "c" 20).map (·.name) = some "" ∧
      ((history timelocked "c" resubmitted).at_ 20).map (·.name) = some "new" := by
  decide +kernel

end ContractEngine

end VscNode.Contracts
