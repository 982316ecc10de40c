import VscNode.StateEngine.Batch

/-!
# The authority of an operation

The block says which transaction an operation belongs to and who signed it, and
the payload is decoded over that. An operation has the authority it was signed
with only if the payload has nothing to say about it: `Self` has no tag in most
operations, so its members reach the signers. `LeavesPlace` and `LeavesAuths` say
which members do no harm. An operation that still has its authority draws on its
signers and on contracts only (`VSCTransaction.draws_on_signers`).
-/

namespace VscNode

open Contract GoJson LedgerSession List Relation VSCTransaction TxSelf

/-! ## What an operation carries -/

/-- The same transaction, at the same place of the chain. -/
structure TxSelf.SamePlace (a b : TxSelf) : Prop where
  txId : a.txId = b.txId
  blockHeight : a.blockHeight = b.blockHeight
  index : a.index = b.index

/-- The same transaction with the same signers. -/
structure TxSelf.Carries (a b : TxSelf) : Prop extends a.SamePlace b where
  requiredAuths : a.requiredAuths.elems = b.requiredAuths.elems
  requiredPostingAuths : a.requiredPostingAuths.elems = b.requiredPostingAuths.elems

/-- Whether the type of an operation lets a payload reach `Self`. -/
def VSCTransaction.readsSelf : VSCTransaction → Bool
  | deposit _ => false
  | consensusStake _ => false
  | _ => true

def selfMembers (v : Json) : List (String × Json) :=
  ((membersOf v).filter fun m => foldName m.1 = "self").flatMap fun m => membersOf m.2

/-- None of the members changes the place on the chain. -/
structure LeavesPlace (ms : List (String × Json)) : Prop where
  txId : ∀ v ∈ valuesAt TxSelf.fields "TxId" ms, Inert string v
  blockHeight : ∀ v ∈ valuesAt TxSelf.fields "BlockHeight" ms, Inert uint64 v
  index : ∀ v ∈ valuesAt TxSelf.fields "Index" ms, Inert int64 v

/-- None of the members changes the signers in a field. -/
def LeavesAuths (name : String) (ms : List (String × Json)) : Prop :=
  ∀ v ∈ valuesAt TxSelf.fields name ms, Inert slice v

/-- The members add no posting signer where there is none. -/
def NoPosting (ms : List (String × Json)) : Prop :=
  (valuesAt TxSelf.fields "RequiredPostingAuths" ms).foldl (fun n v => sliceLength.apply v n) 0 = 0

/-! ## Decoding `Self` -/

theorem self_struct {σ : Type*} {get : σ → TxSelf} {set : TxSelf → σ → σ}
    {fields : List (StructField σ)} (hget : ∀ a s, get (set a s) = a)
    (hother : ∀ f ∈ fields,
      foldName f.name ≠ "self" ∧ ∀ v s, get (f.decode.apply v s) = get s) (v : Json) (s : σ) :
    get ((struct (.of "Self" (struct TxSelf.fields) get set :: fields)).apply v s) =
      members TxSelf.fields (selfMembers v) (get s) := by
  have hself : foldName "Self" = "self" := by decide
  have hholds : Holds (.of "Self" (struct TxSelf.fields) get set :: fields) "Self"
      (struct TxSelf.fields) get :=
    holds_of_forall (forall_mem_cons.2 ⟨.inl ⟨rfl, fun _ _ => hget _ _⟩,
      fun f hf => .inr ⟨fun hname => (hother f hf).1 (hname ▸ hself), (hother f hf).2⟩⟩)
  have hvalues : valuesAt (.of "Self" (struct TxSelf.fields) get set :: fields) "Self"
      (membersOf v) = ((membersOf v).filter fun m => foldName m.1 = foldName "Self").map Prod.snd :=
    valuesAt_cons (fun f hf => (hother f hf).1.trans_eq hself.symm) _
  change get (members _ (membersOf v) s) = _
  rw [proj_members hholds, foldl_struct, hvalues, flatMap_map, hself, selfMembers]

theorem TxMove.other_fields {f : StructField TxMove}
    (hf : f = memo_ ∨ f = .of "type" string typei setTypei ∨ f ∈ common) :
    foldName f.name ≠ "self" ∧ ∀ v tx, (f.decode.apply v tx).self = tx.self := by
  simp only [common, mem_cons, not_mem_nil, or_false] at hf
  rcases hf with rfl | rfl | rfl | rfl | rfl | rfl | rfl <;> exact ⟨by decide, fun _ _ => rfl⟩

theorem TxMove.self_struct {fields : List (StructField TxMove)}
    (h : ∀ f ∈ fields, f = memo_ ∨ f = .of "type" string typei setTypei ∨ f ∈ common)
    (v : Json) (tx : TxMove) :
    ((struct (self_ :: fields)).apply v tx).self =
      members TxSelf.fields (selfMembers v) tx.self :=
  VscNode.self_struct (fun _ _ => rfl) (fun f hf => other_fields (h f hf)) v tx

theorem TxVscCallContract.self_struct (v : Json) (tx : TxVscCallContract) :
    ((struct fields).apply v tx).self = members TxSelf.fields (selfMembers v) tx.self := by
  refine VscNode.self_struct (fun _ _ => rfl) (fun f hf => ?_) v tx
  simp only [mem_cons, not_mem_nil, or_false] at hf
  rcases hf with rfl | rfl | rfl | rfl | rfl | rfl | rfl <;> exact ⟨by decide, fun _ _ => rfl⟩

theorem OffchainTransaction.self_struct (v : Json) (tx : OffchainTransaction) :
    ((struct fields).apply v tx).self = members TxSelf.fields (selfMembers v) tx.self := by
  refine VscNode.self_struct (fun _ _ => rfl) (fun f hf => ?_) v tx
  simp only [mem_cons, not_mem_nil, or_false] at hf
  rcases hf with rfl | rfl | rfl | rfl <;> exact ⟨by decide, fun _ _ => rfl⟩

namespace VSCTransaction

variable {op : VSCTransaction}

theorem self_decode (h : op.readsSelf = true) (v : Json) :
    (op.decode v).txSelf = members TxSelf.fields (selfMembers v) op.txSelf := by
  have hcommon : ∀ f ∈ TxMove.common, f = TxMove.memo_ ∨
      f = .of "type" string TxMove.typei TxMove.setTypei ∨ f ∈ TxMove.common :=
    fun f hf => .inr (.inr hf)
  have htransfer := TxMove.self_struct
    (forall_mem_cons.2 ⟨.inl (Eq.refl TxMove.memo_), hcommon⟩) v
  cases op with
  | call tx => exact tx.self_struct v
  | transfer tx => exact htransfer tx
  | withdraw tx => exact htransfer tx
  | stakeHbd tx =>
    exact TxMove.self_struct (forall_mem_cons.2 ⟨.inr (.inl rfl), hcommon⟩) v tx
  | unstakeHbd tx => exact TxMove.self_struct hcommon v tx
  | consensusUnstake tx => exact TxMove.self_struct hcommon v tx
  | deposit self => cases h
  | consensusStake tx => cases h

theorem self_decode_of_not_readsSelf (h : op.readsSelf = false) (v : Json) :
    (op.decode v).txSelf = op.txSelf := by
  cases op with
  | deposit self => rfl
  | consensusStake tx =>
    exact proj_members_eq_self
      (fun f hf => (TxMove.other_fields (.inr (.inr hf))).2) (membersOf v) tx
  | _ => cases h

end VSCTransaction

/-! ## The members of `Self` -/

namespace TxSelf

theorem holds_fields : Holds fields "TxId" string txId ∧
    Holds fields "BlockHeight" uint64 blockHeight ∧ Holds fields "Index" int64 index ∧
    Holds fields "RequiredAuths" slice requiredAuths ∧
    Holds fields "RequiredPostingAuths" slice requiredPostingAuths := by
  and_intros <;>
    (refine holds_of_forall ?_
     simp only [fields, forall_mem_cons]
     and_intros <;> first
       | exact .inr ⟨by decide, fun _ _ => rfl⟩
       | exact .inl ⟨rfl, fun _ _ => rfl⟩
       | simp)

theorem holds_requiredAuths : Holds fields "RequiredAuths" slice requiredAuths :=
  holds_fields.2.2.2.1

theorem holds_requiredPostingAuths :
    Holds fields "RequiredPostingAuths" slice requiredPostingAuths :=
  holds_fields.2.2.2.2

variable {ms : List (String × Json)}

theorem samePlace_members (h : LeavesPlace ms) (s : TxSelf) :
    (members fields ms s).SamePlace s where
  txId := proj_members_of_inert holds_fields.1 h.txId s
  blockHeight := proj_members_of_inert holds_fields.2.1 h.blockHeight s
  index := proj_members_of_inert holds_fields.2.2.1 h.index s

variable {s s' : TxSelf}

theorem leavesPlace_of_samePlace (h : (members fields ms s).SamePlace s)
    (h' : (members fields ms s').SamePlace s') (htxId : s.txId ≠ s'.txId)
    (hheight : s.blockHeight ≠ s'.blockHeight) (hindex : s.index ≠ s'.index) :
    LeavesPlace ms where
  txId := inert_of_proj holds_fields.1 overwrites_string htxId h.txId h'.txId
  blockHeight :=
    inert_of_proj holds_fields.2.1 overwrites_uint64 hheight h.blockHeight h'.blockHeight
  index := inert_of_proj holds_fields.2.2.1 overwrites_int64 hindex h.index h'.index

/-- Members that keep two numbers of signers apart leave the signers alone. -/
theorem leavesAuths_of_elems {name : String} {π : TxSelf → Slice} (hπ : Holds fields name slice π)
    (h : (π (members fields ms s)).elems = (π s).elems)
    (h' : (π (members fields ms s')).elems = (π s').elems)
    (hne : (π s).elems.length ≠ (π s').elems.length) : LeavesAuths name ms :=
  fun v hv => inert_slice (inert_of_proj hπ.length overwrites_sliceLength hne
    (congrArg length h) (congrArg length h') v hv)

theorem noPosting_iff {s : TxSelf} (hs : s.requiredPostingAuths.elems = []) :
    (members fields ms s).requiredPostingAuths.elems = [] ↔ NoPosting ms := by
  have hlength := proj_members holds_requiredPostingAuths.length ms s
  simp only [hs, length_nil] at hlength
  rw [NoPosting, ← hlength, length_eq_zero_iff]

end TxSelf

/-! ## Operations on L1 -/

/-- The ids whose operations read `Self` from their payload. -/
def selfIds : List String :=
  ["vsc.withdraw", "vsc.call", "vsc.transfer", "vsc.stake_hbd", "vsc.unstake_hbd",
    "vsc.consensus_unstake"]

/-- Members that leave the place and all signers alone. -/
structure LeavesSelf (ms : List (String × Json)) : Prop extends LeavesPlace ms where
  requiredAuths : LeavesAuths "RequiredAuths" ms
  requiredPostingAuths : LeavesAuths "RequiredPostingAuths" ms

variable {ms : List (String × Json)} {a b : TxSelf}

theorem LeavesSelf.carries (h : LeavesSelf ms) (s : TxSelf) :
    (members TxSelf.fields ms s).Carries s where
  toSamePlace := samePlace_members h.toLeavesPlace s
  requiredAuths :=
    congrArg Slice.elems (proj_members_of_inert holds_requiredAuths h.requiredAuths s)
  requiredPostingAuths := congrArg Slice.elems
    (proj_members_of_inert holds_requiredPostingAuths h.requiredPostingAuths s)

theorem blankOnchain_cases (self : TxSelf) (id : String) :
    (id ∉ selfIds ∧ ∀ op, blankOnchain self id = some op → op.readsSelf = false ∧ op.txSelf = self) ∨
      (id ∈ selfIds ∧
        ∃ op, blankOnchain self id = some op ∧ op.readsSelf = true ∧ op.txSelf = self) := by
  by_cases hid : id ∈ selfIds
  · refine .inr ⟨hid, ?_⟩
    simp only [selfIds, mem_cons, not_mem_nil, or_false] at hid
    rcases hid with rfl | rfl | rfl | rfl | rfl | rfl <;> exact ⟨_, rfl, rfl, rfl⟩
  refine .inl ⟨hid, fun op hop => ?_⟩
  unfold blankOnchain at hop
  split at hop <;> first | exact absurd (by decide) hid | cases hop
  exact ⟨rfl, rfl⟩

theorem carries_parseUserOperation_iff (id : String) (json : Option Json) :
    (∀ pos auths posting op, parseUserOperation pos ⟨id, auths, posting, json⟩ = some op →
        op.txSelf.Carries (pos.txSelf ⟨id, auths, posting, json⟩)) ↔
      (id ∈ selfIds → ∀ v, json = some v → LeavesSelf (selfMembers v)) := by
  constructor
  · rintro h hid v rfl
    -- Two positions that differ in everything, with no signer and with one of each kind.
    have hself : ∀ (pos : L1Position) auths posting,
        (members TxSelf.fields (selfMembers v) (pos.txSelf ⟨id, auths, posting, some v⟩)).Carries
          (pos.txSelf ⟨id, auths, posting, some v⟩) := by
      intro pos auths posting
      rcases blankOnchain_cases (pos.txSelf ⟨id, auths, posting, some v⟩) id with
        ⟨hnot, -⟩ | ⟨-, op, hop, hreads, hop'⟩
      · exact absurd hid hnot
      · have hcarries := h pos auths posting (op.decode v) (by simp [parseUserOperation, hop])
        rwa [self_decode hreads, hop'] at hcarries
    have h₀ := hself ⟨"", 0, "", "", 0, 0⟩ [] []
    have h₁ := hself ⟨"a", 1, "", "", 1, 0⟩ [""] [""]
    exact
      { toLeavesPlace := leavesPlace_of_samePlace h₀.toSamePlace h₁.toSamePlace
          (show ("" : String) ≠ "a" by decide) Nat.zero_ne_one (show (0 : Int) ≠ 1 by decide)
        requiredAuths := leavesAuths_of_elems holds_requiredAuths
          h₀.requiredAuths h₁.requiredAuths Nat.zero_ne_one
        requiredPostingAuths := leavesAuths_of_elems holds_requiredPostingAuths
          h₀.requiredPostingAuths h₁.requiredPostingAuths Nat.zero_ne_one }
  intro h pos auths posting op hop
  obtain ⟨blank, hblank, rfl⟩ := Option.map_eq_some_iff.1 hop
  have hrefl : ∀ s : TxSelf, s.Carries s := fun s => ⟨⟨rfl, rfl, rfl⟩, rfl, rfl⟩
  rcases blankOnchain_cases (pos.txSelf ⟨id, auths, posting, json⟩) id with
    ⟨-, hkeeps⟩ | ⟨hid, op, hop, hreads, hself⟩
  · obtain ⟨hreads, hself⟩ := hkeeps blank hblank
    cases json with
    | none => exact hself ▸ hrefl _
    | some v =>
      change (blank.decode v).txSelf.Carries _
      rw [self_decode_of_not_readsSelf hreads, hself]
      exact hrefl _
  obtain rfl : op = blank := Option.some.inj (hop.symm.trans hblank)
  cases json with
  | none => exact hself ▸ hrefl _
  | some v =>
    change (op.decode v).txSelf.Carries _
    rw [self_decode hreads, hself]
    exact (h hid v rfl).carries _

/-! ## Off-chain operations -/

/-- Members that leave the place and the signers in the headers alone, and add no
posting signer. -/
structure LeavesHeaders (ms : List (String × Json)) : Prop extends LeavesPlace ms where
  requiredAuths : LeavesAuths "RequiredAuths" ms
  noPosting : NoPosting ms

def VSCTransactionOp.Resolves (r : Resolver) (op : VSCTransactionOp) : Prop :=
  ∃ blank v, blankOffchain r.unstakeHbdFix {} "" 0 op.type = some blank ∧
    r.cbor op.payload = some v ∧ blank.decodes v = true

theorem blankOffchain_cases (fix : Bool) (type : String) :
    (∀ self netId idx, blankOffchain fix self netId idx type = none) ∨
      ∀ self netId idx, ∃ op blank, blankOffchain fix self netId idx type = some op ∧
        blankOffchain fix {} "" 0 type = some blank ∧ (∀ v, op.decodes v = blank.decodes v) ∧
        op.readsSelf = true ∧ op.txSelf.Carries self ∧
        op.txSelf.requiredAuths = self.requiredAuths := by
  unfold blankOffchain
  split
  all_goals first
    | exact .inl fun _ _ _ => rfl
    | exact .inr fun _ _ _ =>
      ⟨_, _, rfl, rfl, fun _ => rfl, rfl, ⟨⟨rfl, rfl, rfl⟩, rfl, rfl⟩, rfl⟩
    | cases fix <;>
        exact .inr fun _ _ _ =>
          ⟨_, _, rfl, rfl, fun _ => rfl, rfl, ⟨⟨rfl, rfl, rfl⟩, rfl, rfl⟩, rfl⟩

theorem TxSelf.Carries.symm (h : a.Carries b) : b.Carries a :=
  ⟨⟨h.txId.symm, h.blockHeight.symm, h.index.symm⟩, h.requiredAuths.symm,
    h.requiredPostingAuths.symm⟩

theorem TxSelf.Carries.trans {a b c : TxSelf} (h : a.Carries b) (h' : b.Carries c) : a.Carries c :=
  ⟨⟨h.txId.trans h'.txId, h.blockHeight.trans h'.blockHeight, h.index.trans h'.index⟩,
    h.requiredAuths.trans h'.requiredAuths, h.requiredPostingAuths.trans h'.requiredPostingAuths⟩

theorem LeavesHeaders.carries (h : LeavesHeaders ms) {s : TxSelf}
    (hs : s.requiredPostingAuths.elems = []) :
    (members TxSelf.fields ms s).Carries s ∧
      (members TxSelf.fields ms s).requiredAuths = s.requiredAuths := by
  have hauths := proj_members_of_inert holds_requiredAuths h.requiredAuths s
  refine ⟨⟨samePlace_members h.toLeavesPlace s, congrArg Slice.elems hauths, ?_⟩, hauths⟩
  rw [(noPosting_iff hs).2 h.noPosting, hs]

namespace OffchainTransaction

variable {r : Resolver} {self : TxSelf} {netId : String} {idx : ℕ} {auths : List String}
  {op : VSCTransactionOp} {ops : List VSCTransactionOp}

theorem resolve_setRequiredAuths (s : Slice) :
    resolve r (self.setRequiredAuths s) netId idx ops auths =
      resolve r self netId idx ops auths := by
  cases ops <;> rfl

theorem resolve_cons (h : op.Resolves r) (self : TxSelf) (netId : String) (idx : ℕ)
    (auths : List String) :
    ∃ (blank : VSCTransaction) (v : Json), r.cbor op.payload = some v ∧ blank.readsSelf = true ∧
      blank.txSelf.Carries (self.setRequiredAuths (.of auths)) ∧
      blank.txSelf.requiredAuths = .of auths ∧
      ∀ vtxs, (resolve r self netId idx (op :: ops) auths).1 = .ok vtxs ↔
        ∃ rest, (resolve r self netId (idx + 1) ops
          (blank.decode v).txSelf.requiredAuths.array).1 = .ok rest ∧
            vtxs = blank.decode v :: rest := by
  obtain ⟨blank, v, hblank, hv, hok⟩ := h
  rcases blankOffchain_cases r.unstakeHbdFix op.type with hnone | hsome
  · rw [hnone] at hblank
    cases hblank
  obtain ⟨vtx, blank', hvtx, hblank', hdecodes, hreads, hcarries, hauths⟩ :=
    hsome (self.setRequiredAuths (.of auths)) netId idx
  obtain rfl : blank' = blank := Option.some.inj (hblank'.symm.trans hblank)
  refine ⟨vtx, v, hv, hreads, hcarries, hauths, fun vtxs => ?_⟩
  rw [resolve, hvtx, hv]
  simp only [hdecodes, hok, if_true, resolve_setRequiredAuths]
  generalize resolve r self netId (idx + 1) ops (vtx.decode v).txSelf.requiredAuths.array = rest
  obtain ⟨rest | rest, left⟩ := rest
  · simp only [reduceCtorEq, false_and, exists_false]
  · simp only [Except.ok.injEq, eq_comm (b := vtxs), exists_eq_left']

theorem resolves_of_resolve {vtxs : List VSCTransaction}
    (h : (resolve r self netId idx (op :: ops) auths).1 = .ok vtxs) : op.Resolves r := by
  rcases blankOffchain_cases r.unstakeHbdFix op.type with hnone | hsome
  · rw [resolve, hnone] at h
    cases h
  obtain ⟨vtx, blank, hvtx, hblank, hdecodes, -⟩ :=
    hsome (self.setRequiredAuths (.of auths)) netId idx
  rw [resolve, hvtx] at h
  cases hv : r.cbor op.payload with
  | none =>
    rw [hv] at h
    cases h
  | some v =>
    rw [hv] at h
    refine ⟨blank, v, hblank, hv, ?_⟩
    rw [← hdecodes]
    by_contra hnot
    simp only [hnot] at h
    cases h

theorem exists_resolve_iff : (∃ vtxs, (resolve r self netId idx ops auths).1 = .ok vtxs) ↔
    ∀ op ∈ ops, op.Resolves r := by
  induction ops generalizing idx auths with
  | nil => exact ⟨fun _ => by simp, fun _ => ⟨[], rfl⟩⟩
  | cons op ops ih =>
    rw [forall_mem_cons]
    constructor
    · rintro ⟨vtxs, hvtxs⟩
      have hop := resolves_of_resolve hvtxs
      obtain ⟨blank, v, -, -, -, -, hcons⟩ := resolve_cons hop self netId idx auths
      obtain ⟨rest, hrest, -⟩ := (hcons vtxs).1 hvtxs
      exact ⟨hop, ih.1 ⟨rest, hrest⟩⟩
    rintro ⟨hop, hops⟩
    obtain ⟨blank, v, -, -, -, -, hcons⟩ := resolve_cons hop self netId idx auths
    obtain ⟨rest, hrest⟩ := ih.2 hops
    exact ⟨_, (hcons _).2 ⟨rest, hrest, rfl⟩⟩

/-- The operations from the `idx`-th on have the authority of the headers, whoever
signed them. -/
def CarriesHeaders (r : Resolver) (netId : String) (idx : ℕ) (ops : List VSCTransactionOp) : Prop :=
  ∀ self auths vtxs, self.requiredPostingAuths.elems = [] →
    (resolve r self netId idx ops auths).1 = .ok vtxs →
      ∀ vtx ∈ vtxs, vtx.txSelf.Carries (self.setRequiredAuths (.of auths))

theorem carriesHeaders_of_leaves
    (h : ∀ op ∈ ops, ∀ v, r.cbor op.payload = some v → LeavesHeaders (selfMembers v)) :
    CarriesHeaders r netId idx ops := by
  intro self auths vtxs hposting hvtxs
  induction ops generalizing idx vtxs with
  | nil =>
    cases hvtxs
    simp
  | cons op ops ih =>
    obtain ⟨blank, v, hv, hreads, hcarries, hauths, hcons⟩ :=
      resolve_cons (resolves_of_resolve hvtxs) self netId idx auths
    obtain ⟨rest, hrest, rfl⟩ := (hcons vtxs).1 hvtxs
    obtain ⟨hop, hops⟩ := forall_mem_cons.1 h
    have hself := (hop v hv).carries (hcarries.requiredPostingAuths.trans hposting)
    rw [← self_decode hreads] at hself
    rw [hself.2, hauths] at hrest
    exact forall_mem_cons.2 ⟨hself.1.trans hcarries, ih hops rest hrest⟩

theorem carriesHeaders_cons (hop : op.Resolves r) (hops : ∀ op ∈ ops, op.Resolves r)
    (h : CarriesHeaders r netId idx (op :: ops)) :
    (∀ v, r.cbor op.payload = some v → LeavesHeaders (selfMembers v)) ∧
      CarriesHeaders r netId (idx + 1) ops := by
  have hhead : ∀ v, r.cbor op.payload = some v → ∀ (self : TxSelf) auths,
      self.requiredPostingAuths.elems = [] → ∃ s : TxSelf,
        s.Carries (self.setRequiredAuths (.of auths)) ∧
          (members TxSelf.fields (selfMembers v) s).Carries s := by
    intro v hv self auths hposting
    obtain ⟨blank, v', hv', hreads, hcarries, -, hcons⟩ := resolve_cons hop self netId idx auths
    obtain rfl : v' = v := Option.some.inj (hv'.symm.trans hv)
    obtain ⟨rest, hrest⟩ := exists_resolve_iff.2 hops
    have hvtx := h self auths _ hposting ((hcons _).2 ⟨rest, hrest, rfl⟩) _ mem_cons_self
    rw [self_decode hreads] at hvtx
    exact ⟨blank.txSelf, hcarries, hvtx.trans hcarries.symm⟩
  have hleaves : ∀ v, r.cbor op.payload = some v → LeavesHeaders (selfMembers v) := by
    intro v hv
    obtain ⟨s₀, hs₀, h₀⟩ := hhead v hv {} [] rfl
    obtain ⟨s₁, hs₁, h₁⟩ := hhead v hv { txId := "a", blockHeight := 1, index := 1 } [""] rfl
    refine
      { toLeavesPlace := leavesPlace_of_samePlace h₀.toSamePlace h₁.toSamePlace ?_ ?_ ?_
        requiredAuths := leavesAuths_of_elems holds_requiredAuths
          h₀.requiredAuths h₁.requiredAuths ?_
        noPosting := (noPosting_iff hs₀.requiredPostingAuths).1
          (h₀.requiredPostingAuths.trans hs₀.requiredPostingAuths) }
    · rw [hs₀.txId, hs₁.txId]
      exact show ("" : String) ≠ "a" by decide
    · rw [hs₀.blockHeight, hs₁.blockHeight]
      exact Nat.zero_ne_one
    · rw [hs₀.index, hs₁.index]
      exact show (0 : Int) ≠ 1 by decide
    · rw [hs₀.requiredAuths, hs₁.requiredAuths]
      exact Nat.zero_ne_one
  refine ⟨hleaves, fun self auths vtxs hposting hvtxs => ?_⟩
  obtain ⟨blank, v, hv, hreads, hcarries, hauths, hcons⟩ := resolve_cons hop self netId idx auths
  -- The signers in the headers are still there for the next operations.
  have harray : (blank.decode v).txSelf.requiredAuths.array = auths := by
    rw [self_decode hreads,
      ((hleaves v hv).carries (hcarries.requiredPostingAuths.trans hposting)).2, hauths]
    rfl
  rw [← harray] at hvtxs
  have hall := h self auths _ hposting ((hcons _).2 ⟨vtxs, hvtxs, rfl⟩)
  exact fun vtx hvtx => hall vtx (mem_cons_of_mem _ hvtx)

theorem leaves_of_carriesHeaders (hops : ∀ op ∈ ops, op.Resolves r)
    (h : CarriesHeaders r netId idx ops) :
    ∀ op ∈ ops, ∀ v, r.cbor op.payload = some v → LeavesHeaders (selfMembers v) := by
  induction ops generalizing idx with
  | nil => simp
  | cons op ops ih =>
    obtain ⟨hop, hops⟩ := forall_mem_cons.1 hops
    obtain ⟨hleaves, hrest⟩ := carriesHeaders_cons hop hops h
    exact forall_mem_cons.2 ⟨hleaves, ih hops hrest⟩

theorem carriesHeaders_iff : CarriesHeaders r netId idx ops ↔
    ((∀ op ∈ ops, op.Resolves r) →
      ∀ op ∈ ops, ∀ v, r.cbor op.payload = some v → LeavesHeaders (selfMembers v)) := by
  constructor
  · exact fun h hops => leaves_of_carriesHeaders hops h
  intro h self auths vtxs hposting hvtxs
  exact carriesHeaders_of_leaves (h (exists_resolve_iff.1 ⟨vtxs, hvtxs⟩)) self auths vtxs
    hposting hvtxs

theorem samePlace_asTransaction_iff (id : String) (doc : Json) :
    (∀ (self : TxSelf) tx, self.requiredPostingAuths.elems = [] →
        asTransaction self id doc = .ok tx →
          tx.self.SamePlace self ∧ tx.self.requiredPostingAuths.elems = []) ↔
      ((struct fields).ok doc = true →
        LeavesPlace (selfMembers doc) ∧ NoPosting (selfMembers doc)) := by
  constructor
  · intro h hok
    have hself : ∀ self : TxSelf, self.requiredPostingAuths.elems = [] →
        (members TxSelf.fields (selfMembers doc) self).SamePlace self ∧
          (members TxSelf.fields (selfMembers doc) self).requiredPostingAuths.elems = [] := by
      intro self hposting
      have htx := h self _ hposting (if_pos hok)
      rwa [self_struct] at htx
    obtain ⟨h₀, hposting⟩ := hself {} rfl
    obtain ⟨h₁, -⟩ := hself { txId := "a", blockHeight := 1, index := 1 } rfl
    exact ⟨leavesPlace_of_samePlace h₀ h₁ (show ("" : String) ≠ "a" by decide)
      Nat.zero_ne_one (show (0 : Int) ≠ 1 by decide), (noPosting_iff rfl).1 hposting⟩
  intro h self tx hposting htx
  rw [asTransaction] at htx
  split at htx
  · rename_i hok
    cases htx
    rw [self_struct]
    exact ⟨samePlace_members (h hok).1 self,
      (noPosting_iff hposting).2 (h hok).2⟩
  · cases htx

end OffchainTransaction

/-! ## Whom an operation with its authority acts for -/

theorem TxSelf.Carries.signers_eq (h : a.Carries b) : a.signers = b.signers := by
  rw [signers, signers, h.requiredAuths, h.requiredPostingAuths]

namespace VSCTransaction

theorem draws_on_signers (view : ChainView) {op : VSCTransaction} (hsigned : op.txSelf.signers ≠ [])
    (s : Sessions) (rcPayer : String) :
    ∃ added, s.ledger.Adds (op.executeTx view s rcPayer).2.ledger added ∧
      ∀ event ∈ added, event.from_ ∈ op.txSelf.signers ∨
        op.called.isSome = true ∧ ∃ contractId, event.from_ = account contractId := by
  obtain ⟨added, hadds, hissued⟩ :=
    exists_adds_of_nests (nests_executeTx view hsigned s rcPayer)
  refine ⟨added, hadds, fun event hevent => ?_⟩
  obtain ⟨issued, hissues, hevent⟩ := hissued event hevent
  have hdebit : op.MayDebit event.from_ := by
    rw [hevent]
    exact hissues.from_
  cases op with
  | call tx => exact hdebit.imp_right fun hcontract => ⟨rfl, hcontract⟩
  | _ => exact .inl (mem_append_left _ hdebit)

theorem executeTx_of_caller_not_mem (view : ChainView) {tx : TxVscCallContract}
    (hsigned : tx.self.signers ≠ []) (hcaller : tx.caller_ ∉ tx.self.signers)
    (runtime : Invocation → LedgerSession → CallSession → List HostCall × Outcome)
    (s : Sessions) (rcPayer : String) :
    tx.executeTx { view with runtime := runtime } s rcPayer = tx.executeTx view s rcPayer := by
  have hrefused : tx.caller ≠ "" ∧ tx.caller ∉ tx.self.requiredAuths.elems ∧
      tx.caller ∉ tx.self.requiredPostingAuths.elems := by
    by_contra hnot
    exact hcaller (tx.caller_mem_signers hsigned hnot)
  simp only [TxVscCallContract.executeTx, if_pos hrefused]
  rfl

end VSCTransaction

/-- An operation acts with the authority it was signed with, and then for its
signers only, exactly if its payload has nothing to say about them: the operations
of a `custom_json`, those of an off-chain transaction, and the transaction a block
carries. -/
theorem authority_iff (id : String) (json : Option Json) (r : Resolver) (netId : String)
    (ops : List VSCTransactionOp) (doc : Json) :
    ((∀ pos auths posting op, parseUserOperation pos ⟨id, auths, posting, json⟩ = some op →
          op.txSelf.Carries (pos.txSelf ⟨id, auths, posting, json⟩)) ↔
      (id ∈ selfIds → ∀ v, json = some v → LeavesSelf (selfMembers v))) ∧
    ((∀ (self : TxSelf) auths vtxs, self.requiredPostingAuths.elems = [] →
          (OffchainTransaction.resolve r self netId 0 ops auths).1 = .ok vtxs →
            ∀ vtx ∈ vtxs, vtx.txSelf.Carries (self.setRequiredAuths (.of auths))) ↔
      ((∀ op ∈ ops, op.Resolves r) →
        ∀ op ∈ ops, ∀ v, r.cbor op.payload = some v → LeavesHeaders (selfMembers v))) ∧
    ((∀ (self : TxSelf) tx, self.requiredPostingAuths.elems = [] →
        OffchainTransaction.asTransaction self id doc = .ok tx →
          tx.self.SamePlace self ∧ tx.self.requiredPostingAuths.elems = []) ↔
      ((struct OffchainTransaction.fields).ok doc = true →
        LeavesPlace (selfMembers doc) ∧ NoPosting (selfMembers doc))) ∧
    ∀ (view : ChainView) (op : VSCTransaction) (self : TxSelf), op.txSelf.Carries self →
      self.signers ≠ [] → ∀ (s : Sessions) (rcPayer : String),
        (∃ added, s.ledger.Adds (op.executeTx view s rcPayer).2.ledger added ∧
          ∀ event ∈ added, event.from_ ∈ self.signers ∨
            op.called.isSome = true ∧ ∃ contractId, event.from_ = account contractId) ∧
        ∀ tx, op = .call tx → tx.caller_ ∉ self.signers → ∀ runtime,
          op.executeTx { view with runtime := runtime } s rcPayer =
            op.executeTx view s rcPayer := by
  refine ⟨carries_parseUserOperation_iff id json, OffchainTransaction.carriesHeaders_iff,
    OffchainTransaction.samePlace_asTransaction_iff id doc, ?_⟩
  intro view op self hcarries hsigned s rcPayer
  rw [← hcarries.signers_eq] at hsigned ⊢
  refine ⟨op.draws_on_signers view hsigned s rcPayer, ?_⟩
  rintro tx rfl hcaller runtime
  exact executeTx_of_caller_not_mem view hsigned hcaller runtime s rcPayer

def forgedTransfer : CustomJson where
  id := "vsc.transfer"
  requiredAuths := ["mallory"]
  requiredPostingAuths := []
  json := some (.obj
    [("net_id", .str "vsc-mainnet"), ("from", .str "hive:alice"), ("to", .str "hive:mallory"),
      ("amount", .str "0.010"), ("asset", .str "hive"),
      ("Self", .obj [("RequiredAuths", .arr [.str "hive:alice"])])])

theorem forgedTransfer_debits_alice :
    let pos : L1Position := ⟨"f", 5, "", "", 0, 0⟩
    (pos.txSelf forgedTransfer).signers = ["hive:mallory"] ∧
      ∃ op, parseUserOperation pos forgedTransfer = some op ∧
        op.txSelf.requiredAuths.elems = ["hive:alice"] ∧
        (BatchState.executeBatch BatchState.bareView BatchState.noContracts
          { ledger := ⟨Desk.aliceHive, [], []⟩ } [{ txId := "f", ops := [op] }]).ledger.oplog.map
            (fun event => (event.from_, event.to_, event.amount)) =
          [("hive:alice", "hive:mallory", 10)] :=
  ⟨rfl, _, rfl, rfl, rfl⟩

end VscNode
