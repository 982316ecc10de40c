import VscNode.Common.Quorum
import VscNode.Lib.Text

/-!
# Authorizations by the committee

A transaction may name `did:vsc` among its required auths and carry an aggregate
signature of the elected committee for it. `makeDIDs` pairs the auth with the
committee, its weights and the bit vector of the signature, and asks for two thirds
of the seats' weight. `VscDID.verify` selects keys by bit, verifies the aggregate for
them, and adds a weight for every selected seat: the weight of the first seat with
the seat's key.

The threshold is taken from the seats and the weight of a key that sits at two seats
is added twice, whereas `quorumMet` counts the key once. The last theorem says for
which committees that makes no difference.
-/

namespace VscNode.TransactionPool

open List Nat Text

structure ElectionMember where
  (key account : String)
  deriving DecidableEq

structure Sig where
  sig : String
  bv : String := ""
  kid : String
  deriving DecidableEq

/-- What the code takes from its libraries: whether a text is the DID of a BLS key or
of any kind, whether the key of a DID can be read, whether bytes are a signature,
whether keys can be aggregated, and whether a signature of a message verifies for the
aggregate of some keys. -/
structure DidLib where
  (parseBlsDID parse identifier : String → Bool)
  deserialize : List ℕ → Bool
  aggregatePubkeys : List String → Bool
  verify : List String → String → List ℕ → Bool

variable (lib : DidLib)

/-- A verified aggregate was signed by the holder of every key in it. -/
def DidLib.Sound (signers : String → List String) : Prop :=
  ∀ keys msg sig, lib.verify keys msg sig = true → ∀ k ∈ keys, k ∈ signers msg

/-! ## BLS circuits -/

/-- The keys whose bit is set, from index `idx` on. -/
def includedDIDs (bitVector : ℕ) : ℕ → List String → List String
  | _, [] => []
  | idx, did :: keyset =>
    if bitVector.testBit idx then did :: includedDIDs bitVector (idx + 1) keyset
    else includedDIDs bitVector (idx + 1) keyset

structure BlsCircuit where
  aggSigs : List ℕ
  bitVector : ℕ
  keyset : List String
  msg : String

def deserializeBlsCircuit (signature bitVector : String) (keyset : List String) (msg : String) :
    Except String BlsCircuit :=
  let (bvBytes, bvOk) := base64RawUrl bitVector
  let (sigBytes, sigOk) := base64RawUrl signature
  if bvOk = false then .error "failed to decode bit vector"
  else if sigOk = false then .error "illegal base64 data"
  else if sigBytes.length ≠ 96 then .error "invalid signature length"
  else if lib.deserialize sigBytes = false then .error "failed to uncompress signatures"
  else .ok ⟨sigBytes, bigEndian bvBytes, keyset, msg⟩

def BlsCircuit.verify (lib : DidLib) (b : BlsCircuit) : Except String (Bool × List String) :=
  let included := includedDIDs b.bitVector 0 b.keyset
  match included.find? fun did => lib.identifier did = false with
  | some did => .error ("invalid DID in keyset: " ++ did)
  | none =>
    if included = [] then .error "no public keys to verify"
    else if lib.aggregatePubkeys included = false then .error "aggregate pubkeys failed"
    else .ok (lib.verify included b.msg b.aggSigs, included)

/-! ## The committee's DID -/

structure VscDID where
  members : List String
  weightMap : List ℕ
  threshold : ℕ
  bitvector : String
  deriving DecidableEq

def newVscDID (members : List String) (weightMap : List ℕ) (bitVector : String) (threshold : ℕ) :
    Except String VscDID :=
  if members.length ≠ weightMap.length then .error "invalid member DID weight map"
  else .ok ⟨members, weightMap, threshold, bitVector⟩

def VscDID.addWeights (v : VscDID) : ℕ → List String → Except String ℕ
  | signedWeight, [] => .ok signedWeight
  | signedWeight, did :: dids =>
    match v.members.idxOf? did with
    | none => .error "invalid member DID"
    | some i => v.addWeights ((signedWeight + v.weightMap.getD i 0) % 2 ^ 64) dids

def VscDID.verify (lib : DidLib) (v : VscDID) (cid sig : String) : Except String Bool :=
  if v.threshold = 0 then .error "invalid VSC threshold"
  else
    match deserializeBlsCircuit lib sig v.bitvector v.members cid with
    | .error e => .error ("failed to deserialize BLS circuit: " ++ e)
    | .ok blsCircuit =>
      match blsCircuit.verify lib with
      | .error e => .error ("failed to verify BLS circuit: " ++ e)
      | .ok (verified, included) =>
        if verified = false then .error "invalid BLS circuit"
        else
          match v.addWeights 0 included with
          | .error e => .error e
          | .ok signedWeight =>
            if v.threshold ≤ signedWeight then .ok true else .error "not enough signatures"

/-! ## Required auths -/

def vscDIDPrefix : String := "did:vsc"

inductive DID
  | other (text : String)
  | vsc (v : VscDID)
  deriving DecidableEq

def parseMembers (lib : DidLib) : List ElectionMember → Except String (List String)
  | [] => .ok []
  | member :: members =>
    if lib.parseBlsDID member.key = false then
      .error ("failed to parse election member DID: Account [" ++ member.account ++ "], Key [" ++
        member.key ++ "]")
    else
      match parseMembers lib members with
      | .error e => .error e
      | .ok keys => .ok (member.key :: keys)

/-- Two thirds of the seats' weight, rounded up. -/
def makeThreshold (weights : List ℕ) : ℕ :=
  let sum := weights.foldl (fun t w => (t + w) % 2 ^ 64) 0
  sum - sum / 3

def makeDID (lib : DidLib) (memberDIDs : List String) (weights : List ℕ) (signatures : List Sig)
    (authKID : String) : Except String DID :=
  if hasPrefix authKID vscDIDPrefix = false then
    if lib.parse authKID then .ok (.other authKID) else .error "failed to parse DID"
  else
    match signatures.find? fun s => authKID = s.kid with
    | none => .error "valid signature not found"
    | some sig =>
      if sig.bv = "" then .error "signature's bitvector not found"
      else
        match newVscDID memberDIDs weights sig.bv (makeThreshold weights) with
        | .error e => .error ("failed to parse VSC DID: " ++ e)
        | .ok v => .ok (.vsc v)

def makeDIDList (lib : DidLib) (memberDIDs : List String) (weights : List ℕ)
    (signatures : List Sig) : List String → Except String (List DID)
  | [] => .ok []
  | authKID :: auths =>
    match makeDID lib memberDIDs weights signatures authKID with
    | .error e => .error e
    | .ok did =>
      match makeDIDList lib memberDIDs weights signatures auths with
      | .error e => .error e
      | .ok didBuf => .ok (did :: didBuf)

def makeDIDs (electionMembers : List ElectionMember) (weights : List ℕ)
    (requiredAuths : List String) (signatures : List Sig) : Except String (List DID × Bool) :=
  if electionMembers = [] then .error "no election member provided"
  else if electionMembers.length ≠ weights.length then
    .error "invalid number of member weights provided"
  else
    match parseMembers lib electionMembers with
    | .error e => .error e
    | .ok memberDIDs =>
      match makeDIDList lib memberDIDs weights signatures requiredAuths with
      | .error e => .error e
      | .ok didBuf => .ok (didBuf, requiredAuths.any fun authKID => hasPrefix authKID vscDIDPrefix)

def Accepts (members : List ElectionMember) (weights : List ℕ) (requiredAuths : List String)
    (signatures : List Sig) (cid : String) : Prop :=
  ∃ (didBuf : List DID) (hasVscDID : Bool),
    makeDIDs lib members weights requiredAuths signatures = .ok (didBuf, hasVscDID) ∧
    ∃ (i : ℕ) (v : VscDID) (sig : Sig), didBuf[i]? = some (.vsc v) ∧ signatures[i]? = some sig ∧
      v.verify lib cid sig.sig = .ok true

/-! ## What is accepted -/

variable {bits idx : ℕ} {keys : List String} {weights : List ℕ} {lib : DidLib}

variable {k : String} {i : ℕ} {v : VscDID} {b : BlsCircuit} {members : List ElectionMember}
  {auths : List String} {signatures : List Sig} {ks : List String}

theorem mem_of_mem_includedDIDs (h : k ∈ includedDIDs bits idx keys) : k ∈ keys := by
  induction keys generalizing idx with
  | nil => cases h
  | cons did keys ih =>
    rw [includedDIDs] at h
    split at h
    · rcases mem_cons.1 h with rfl | h
      · exact mem_cons_self
      · exact mem_cons_of_mem _ (ih h)
    · exact mem_cons_of_mem _ (ih h)

theorem mem_includedDIDs (hk : keys[i]? = some k) (hbit : bits.testBit (idx + i) = true) :
    k ∈ includedDIDs bits idx keys := by
  induction keys generalizing idx i with
  | nil => simp at hk
  | cons did keys ih =>
    rw [includedDIDs]
    cases i with
    | zero =>
      obtain rfl : did = k := by simpa using hk
      rw [if_pos (by simpa using hbit)]
      exact mem_cons_self
    | succ i =>
      have hrest : k ∈ includedDIDs bits (idx + 1) keys :=
        ih (by simpa using hk) (by rwa [add_right_comm])
      split
      · exact mem_cons_of_mem _ hrest
      · exact hrest

theorem includedDIDs_sublist (bits idx : ℕ) (keys : List String) :
    (includedDIDs bits idx keys).Sublist keys := by
  induction keys generalizing idx with
  | nil => exact .slnil
  | cons did keys ih =>
    rw [includedDIDs]
    split
    · exact (ih _).cons_cons did
    · exact (ih _).cons did

theorem getD_idxOf? {members : List String} (hlen : members.length = weights.length) {did : String}
    (h : members.idxOf? did = some i) :
    weights.getD i 0 = seatWeight (members.zip weights) did := by
  induction members generalizing weights i with
  | nil => cases h
  | cons m members ih =>
    cases weights with
    | nil => cases hlen
    | cons w weights =>
      rw [idxOf?_cons] at h
      by_cases hm : m = did
      · subst hm
        simp only [BEq.rfl, if_true, Option.some.injEq] at h
        subst h
        exact (seatWeight_cons_self m w _).symm
      simp only [beq_iff_eq, hm, if_false, Option.map_eq_some_iff] at h
      obtain ⟨j, hj, rfl⟩ := h
      rw [zip_cons_cons, seatWeight_cons_of_ne hm, ← ih (succ.inj hlen) hj]
      rfl

theorem VscDID.addWeights_eq (hlen : v.members.length = v.weightMap.length) {dids : List String}
    (hdids : ∀ did ∈ dids, did ∈ v.members) {start : ℕ} (hstart : start < 2 ^ 64) :
    v.addWeights start dids =
      .ok ((start + (dids.map (seatWeight (v.members.zip v.weightMap))).sum) % 2 ^ 64) := by
  induction dids generalizing start with
  | nil => rw [map_nil, sum_nil, add_zero, mod_eq_of_lt hstart, VscDID.addWeights]
  | cons did dids ih =>
    obtain ⟨i, hi⟩ : ∃ i, v.members.idxOf? did = some i := by
      rw [← Option.isSome_iff_exists, isSome_idxOf?]
      exact hdids did mem_cons_self
    rw [VscDID.addWeights, hi]
    simp only
    rw [getD_idxOf? hlen hi, ih (fun x hx => hdids x (mem_cons_of_mem _ hx))
      (Nat.mod_lt _ (Nat.two_pow_pos 64)), Nat.mod_add_mod, map_cons, sum_cons,
      add_assoc]

theorem deserializeBlsCircuit_eq_ok {signature bitVector : String} {keyset : List String}
    {msg : String} (h : deserializeBlsCircuit lib signature bitVector keyset msg = .ok b) :
    b = ⟨(base64RawUrl signature).1, bigEndian (base64RawUrl bitVector).1, keyset, msg⟩ := by
  simp only [deserializeBlsCircuit] at h
  repeat' split at h
  all_goals cases h
  rfl

theorem BlsCircuit.verify_eq_ok {verified : Bool} {included : List String}
    (h : b.verify lib = .ok (verified, included)) :
    included = includedDIDs b.bitVector 0 b.keyset ∧ included ≠ [] ∧
      verified = lib.verify included b.msg b.aggSigs := by
  simp only [BlsCircuit.verify] at h
  split at h
  · cases h
  split at h
  · cases h
  rename_i hne
  split at h
  · cases h
  · cases h
    exact ⟨rfl, hne, rfl⟩

theorem VscDID.verify_eq_ok {cid sig : String} (hlen : v.members.length = v.weightMap.length)
    (h : v.verify lib cid sig = .ok true) :
    ∃ included, included = includedDIDs (bigEndian (base64RawUrl v.bitvector).1) 0 v.members ∧
      included ≠ [] ∧ lib.verify included cid (base64RawUrl sig).1 = true ∧ 0 < v.threshold ∧
      v.threshold ≤ (included.map (seatWeight (v.members.zip v.weightMap))).sum % 2 ^ 64 := by
  unfold VscDID.verify at h
  split at h
  · cases h
  rename_i hthreshold
  split at h
  · cases h
  rename_i circuit hcircuit
  obtain rfl := deserializeBlsCircuit_eq_ok hcircuit
  split at h
  · cases h
  rename_i verified included hverify
  obtain ⟨hselected, hne, rfl⟩ := BlsCircuit.verify_eq_ok hverify
  split at h
  · cases h
  rename_i hverified
  rw [VscDID.addWeights_eq hlen (fun did hdid => mem_of_mem_includedDIDs (hselected ▸ hdid))
    (Nat.two_pow_pos 64), Nat.zero_add] at h
  simp only at h
  split at h
  · rename_i hle
    exact ⟨included, hselected, hne, by simpa using hverified, Nat.pos_of_ne_zero hthreshold, hle⟩
  · cases h

theorem parseMembers_eq_ok (h : parseMembers lib members = .ok keys) :
    keys = members.map (·.key) := by
  induction members generalizing keys with
  | nil => cases h; rfl
  | cons m members ih =>
    rw [parseMembers] at h
    split at h
    · cases h
    split at h
    · cases h
    rename_i keys' hkeys
    cases h
    rw [ih hkeys, map_cons]

theorem mem_makeDIDList {didBuf : List DID}
    (h : makeDIDList lib keys weights signatures auths = .ok didBuf) {did : DID}
    (hdid : did ∈ didBuf) : ∃ auth ∈ auths, makeDID lib keys weights signatures auth = .ok did := by
  induction auths generalizing didBuf with
  | nil => cases h; cases hdid
  | cons auth auths ih =>
    rw [makeDIDList] at h
    split at h
    · cases h
    rename_i did' hdid'
    split at h
    · cases h
    rename_i rest hrest
    cases h
    rcases mem_cons.1 hdid with rfl | hmem
    · exact ⟨auth, mem_cons_self, hdid'⟩
    · obtain ⟨a, ha, hmake⟩ := ih hrest hmem
      exact ⟨a, mem_cons_of_mem _ ha, hmake⟩

theorem makeDID_eq_vsc {auth : String}
    (h : makeDID lib keys weights signatures auth = .ok (.vsc v)) :
    keys.length = weights.length ∧ v.members = keys ∧ v.weightMap = weights ∧
      v.threshold = makeThreshold weights := by
  unfold makeDID at h
  split at h
  · split at h <;> cases h
  iterate 3
    split at h
    · cases h
  rename_i v' hv
  cases h
  unfold newVscDID at hv
  split at hv
  · cases hv
  rename_i hlen
  cases hv
  exact ⟨not_not.1 hlen, rfl, rfl, rfl⟩

theorem makeThreshold_eq (hfits : weights.sum < 2 ^ 64) :
    makeThreshold weights = weights.sum - weights.sum / 3 := by
  have hfold : ∀ (ws : List ℕ) (t : ℕ), t + ws.sum < 2 ^ 64 →
      ws.foldl (fun t w => (t + w) % 2 ^ 64) t = t + ws.sum := by
    intro ws
    induction ws with
    | nil => intro t _; simp
    | cons w ws ih =>
      intro t ht
      rw [sum_cons, ← add_assoc] at ht
      rw [foldl_cons, mod_eq_of_lt (by omega), ih _ ht, sum_cons, add_assoc]
  rw [makeThreshold, hfold weights 0 (by omega), zero_add]

theorem Accepts.selected {cid : String} (h : Accepts lib members weights auths signatures cid)
    (hfits : weights.sum < 2 ^ 64) {signers : String → List String} (hsound : lib.Sound signers) :
    (members.map (·.key)).length = weights.length ∧
      ∃ included, included.Sublist (members.map (·.key)) ∧ included ≠ [] ∧
        (∀ k ∈ included, k ∈ signers cid) ∧ 0 < weights.sum - weights.sum / 3 ∧
        weights.sum - weights.sum / 3 ≤
          (included.map (seatWeight ((members.map (·.key)).zip weights))).sum := by
  obtain ⟨didBuf, hasVscDID, hmake, i, v, sig, hv, -, hverify⟩ := h
  unfold makeDIDs at hmake
  iterate 3
    split at hmake
    · cases hmake
  rename_i keys hkeys
  split at hmake
  · cases hmake
  rename_i didBuf' hlist
  cases hmake
  obtain ⟨auth, -, hmakeDID⟩ := mem_makeDIDList hlist (mem_of_getElem? hv)
  obtain ⟨hlen, hmembers, hweights, hthreshold⟩ := makeDID_eq_vsc hmakeDID
  have hkeys' := parseMembers_eq_ok hkeys
  subst hkeys'
  obtain ⟨included, rfl, hne, hsig, hpos, hle⟩ :=
    VscDID.verify_eq_ok (by rw [hmembers, hweights]; exact hlen) hverify
  rw [hthreshold, makeThreshold_eq hfits] at hpos hle
  rw [hmembers] at hne hsig hle
  rw [hweights] at hle
  exact ⟨hlen, _, includedDIDs_sublist _ _ _, hne, hsound _ _ _ hsig, hpos,
    hle.trans (mod_le _ _)⟩

/-! ## Quorums -/

section Sufficient

variable {keys : List String} {weights : List ℕ} {included signers : List String}

theorem quorumMet_of_nodup (hlen : keys.length = weights.length) (hfits : weights.sum < 2 ^ 64)
    (hnodup : included.Nodup) (hsigned : ∀ k ∈ included, k ∈ signers)
    (hpos : 0 < weights.sum - weights.sum / 3)
    (hle : weights.sum - weights.sum / 3 ≤ (included.map (seatWeight (keys.zip weights))).sum) :
    quorumMet keys weights signers = true := by
  have hsum : (included.map (seatWeight (keys.zip weights))).sum =
      ∑ k ∈ included.toFinset, seatWeight (keys.zip weights) k :=
    (sum_toFinset _ hnodup).symm
  have hmono : ∑ k ∈ included.toFinset, seatWeight (keys.zip weights) k ≤
      ∑ k ∈ signers.toFinset, seatWeight (keys.zip weights) k := by
    refine Finset.sum_le_sum_of_subset fun k hk => ?_
    exact mem_toFinset.2 (hsigned k (mem_toFinset.1 hk))
  have hpart := sum_seatWeight_le (keys.zip weights) included.toFinset
  have htotal := distinctWeight_le (keys.zip weights)
  rw [map_snd_zip (by omega)] at htotal
  rw [quorumMet_iff hlen hfits]
  omega

theorem quorumMet_of_one_key (hlen : keys.length = weights.length) (hfits : weights.sum < 2 ^ 64)
    (hkeys : ∀ k ∈ keys, ∀ k' ∈ keys, k = k') (hsub : ∀ k ∈ included, k ∈ keys)
    (hne : included ≠ []) (hsigned : ∀ k ∈ included, k ∈ signers)
    (hpos : 0 < (included.map (seatWeight (keys.zip weights))).sum) :
    quorumMet keys weights signers = true := by
  obtain ⟨k, hk⟩ := exists_mem_of_ne_nil _ hne
  have hset : ((keys.zip weights).map Prod.fst).toFinset = {k} := by
    rw [map_fst_zip (by omega)]
    ext k'
    rw [mem_toFinset, Finset.mem_singleton]
    exact ⟨fun hk' => hkeys k' hk' k (hsub k hk), fun h => h ▸ hsub k hk⟩
  have htotal : distinctWeight (keys.zip weights) = seatWeight (keys.zip weights) k := by
    rw [distinctWeight, hset, Finset.sum_singleton]
  have hle : seatWeight (keys.zip weights) k ≤
      ∑ k ∈ signers.toFinset, seatWeight (keys.zip weights) k :=
    Finset.single_le_sum (fun _ _ => zero_le _) (mem_toFinset.2 (hsigned k hk))
  have hweight : seatWeight (keys.zip weights) k ≠ 0 := by
    intro hzero
    refine hpos.ne' (sum_eq_zero fun w hw => ?_)
    obtain ⟨k', hk', rfl⟩ := mem_map.1 hw
    rw [hkeys k' (hsub k' hk') k (hsub k hk), hzero]
  rw [quorumMet_iff hlen hfits, htotal]
  omega

end Sufficient

/-! ## A committee with a key at two seats -/

theorem includedDIDs_append (bits idx : ℕ) (l l' : List String) : includedDIDs bits idx (l ++ l') =
      includedDIDs bits idx l ++ includedDIDs bits (idx + l.length) l' := by
  induction l generalizing idx with
  | nil => rfl
  | cons did l ih =>
    rw [cons_append, includedDIDs, includedDIDs, ih, length_cons, add_assoc,
      add_comm 1]
    split <;> rfl

theorem includedDIDs_eq_nil {l : List String}
    (h : ∀ i, idx ≤ i → i < idx + l.length → bits.testBit i = false) :
    includedDIDs bits idx l = [] := by
  induction l generalizing idx with
  | nil => rfl
  | cons did l ih =>
    rw [length_cons] at h
    rw [includedDIDs, h idx le_rfl (by omega)]
    exact ih fun i hi hlt => h i (by omega) (by omega)

theorem includedDIDs_pair (l₁ l₂ l₃ : List String) (k : String) :
    includedDIDs (2 ^ l₁.length ||| 2 ^ (l₁.length + 1 + l₂.length)) 0
      (l₁ ++ k :: (l₂ ++ k :: l₃)) = [k, k] := by
  have hbit : ∀ i, (2 ^ l₁.length ||| 2 ^ (l₁.length + 1 + l₂.length)).testBit i =
      (decide (l₁.length = i) || decide (l₁.length + 1 + l₂.length = i)) := by
    intro i
    rw [testBit_or, testBit_two_pow, testBit_two_pow]
  have hnone : ∀ (idx : ℕ) (l : List String), (∀ i, idx ≤ i → i < idx + l.length →
      l₁.length ≠ i ∧ l₁.length + 1 + l₂.length ≠ i) →
      includedDIDs (2 ^ l₁.length ||| 2 ^ (l₁.length + 1 + l₂.length)) idx l = [] := by
    intro idx l h
    refine includedDIDs_eq_nil fun i hi hlt => ?_
    simp [hbit, h i hi hlt]
  rw [includedDIDs_append, hnone 0 l₁ (by omega), includedDIDs, hbit, includedDIDs_append,
    hnone _ l₂ (by omega), includedDIDs, hbit, hnone _ l₃ (by omega)]
  simp

/-- Weight 2 for the first seat of each of some keys, and nothing for the others. -/
def baitWeights : List String → List String → List ℕ
  | _, [] => []
  | ks, k :: keys =>
    if k ∈ ks then 2 :: baitWeights (ks.erase k) keys else 0 :: baitWeights ks keys

theorem length_baitWeights (ks keys : List String) :
    (baitWeights ks keys).length = keys.length := by
  induction keys generalizing ks with
  | nil => rfl
  | cons k keys ih =>
    rw [baitWeights]
    split <;> simp [ih]

theorem seatWeight_baitWeights (hks : ks.Nodup) (keys : List String) (k : String) :
    seatWeight (keys.zip (baitWeights ks keys)) k = if k ∈ ks ∧ k ∈ keys then 2 else 0 := by
  induction keys generalizing ks with
  | nil => simp [baitWeights, seatWeight]
  | cons k' keys ih =>
    rw [baitWeights]
    by_cases hk : k' = k
    · subst hk
      split <;> simp [*]
    have hmem : k ∈ k' :: keys ↔ k ∈ keys := by simp [Ne.symm hk]
    split
    · rw [zip_cons_cons, seatWeight_cons_of_ne hk, ih (hks.erase _)]
      simp only [hmem, mem_erase_of_ne (Ne.symm hk)]
    · rw [zip_cons_cons, seatWeight_cons_of_ne hk, ih hks]
      simp only [hmem]

theorem sum_baitWeights (hks : ks.Nodup) (hsub : ∀ k ∈ ks, k ∈ keys) :
    (baitWeights ks keys).sum = 2 * ks.length := by
  induction keys generalizing ks with
  | nil =>
    have hnil : ks = [] := eq_nil_iff_forall_not_mem.2 fun k hk => by simpa using hsub k hk
    simp [baitWeights, hnil]
  | cons k keys ih =>
    rw [baitWeights]
    split
    · rename_i hk
      have hlen := length_erase_of_mem hk
      have hpos := length_pos_of_mem hk
      rw [sum_cons, ih (hks.erase k), hlen]
      · omega
      intro x hx
      obtain ⟨hne, hx⟩ := (hks.mem_erase_iff).1 hx
      exact (mem_cons.1 (hsub x hx)).resolve_left hne
    rename_i hk
    rw [sum_cons, ih hks, zero_add]
    intro x hx
    exact (mem_cons.1 (hsub x hx)).resolve_left fun h => hk (h ▸ hx)

def signedBy (k : String) : DidLib where
  parseBlsDID _ := true
  parse _ := true
  identifier _ := true
  deserialize _ := true
  aggregatePubkeys _ := true
  verify keys _ _ := keys.all (· = k)

theorem sound_signedBy (k : String) : (signedBy k).Sound fun _ => [k] := by
  intro keys msg sig hverify k' hk'
  simpa using all_eq_true.1 hverify k' hk'

theorem parseMembers_signedBy (k : String) (keys : List String) :
    parseMembers (signedBy k) (keys.map fun key => ⟨key, ""⟩) = .ok keys := by
  induction keys with
  | nil => rfl
  | cons key keys ih =>
    rw [map_cons, parseMembers, ih]
    simp [signedBy]

/-- 96 bytes in the URL alphabet. -/
def zeroSig : String := String.ofList (List.replicate 128 'A')

theorem base64RawUrl_zeroSig :
    (base64RawUrl zeroSig).2 = true ∧ (base64RawUrl zeroSig).1.length = 96 := by
  decide +kernel

theorem accepts_signedBy {bv : String} (hlen : keys.length = weights.length)
    (hfits : weights.sum < 2 ^ 64) (hne : bv ≠ "") (hbv : (base64RawUrl bv).2 = true)
    (hincluded : includedDIDs (bigEndian (base64RawUrl bv).1) 0 keys = [k, k])
    (hpos : 0 < weights.sum - weights.sum / 3)
    (hle : weights.sum - weights.sum / 3 ≤ 2 * seatWeight (keys.zip weights) k)
    (hlt : 2 * seatWeight (keys.zip weights) k < 2 ^ 64) :
    Accepts (signedBy k) (keys.map fun key => ⟨key, ""⟩) weights ["did:vsc:"]
      [{ sig := zeroSig, bv := bv, kid := "did:vsc:" }] "" := by
  have hmem : ∀ did ∈ [k, k], did ∈ keys := by
    intro did hdid
    rw [← hincluded] at hdid
    exact mem_of_mem_includedDIDs hdid
  have hkeys : keys ≠ [] := ne_nil_of_mem (hmem k mem_cons_self)
  have hvsc : hasPrefix "did:vsc:" vscDIDPrefix = true := by decide
  let v : VscDID := ⟨keys, weights, makeThreshold weights, bv⟩
  have hmake : makeDIDs (signedBy k) (keys.map fun key => ⟨key, ""⟩) weights ["did:vsc:"]
      [{ sig := zeroSig, bv := bv, kid := "did:vsc:" }] = .ok ([.vsc v], true) := by
    rw [makeDIDs, if_neg (by simpa using hkeys), if_neg (by simpa using hlen),
      parseMembers_signedBy]
    simp [makeDIDList, makeDID, newVscDID, hvsc, hne, hlen, v]
  refine ⟨_, _, hmake, 0, v, _, rfl, rfl, ?_⟩
  have hweights : v.addWeights 0 [k, k] = .ok (2 * seatWeight (keys.zip weights) k) := by
    rw [VscDID.addWeights_eq hlen hmem (Nat.two_pow_pos 64)]
    simp only [map_cons, map_nil, sum_cons, sum_nil, v]
    congr 1
    omega
  have hcircuit : deserializeBlsCircuit (signedBy k) zeroSig bv keys "" =
      .ok ⟨(base64RawUrl zeroSig).1, bigEndian (base64RawUrl bv).1, keys, ""⟩ := by
    simp [deserializeBlsCircuit, hbv, base64RawUrl_zeroSig, signedBy]
  have hverify : BlsCircuit.verify (signedBy k)
      ⟨(base64RawUrl zeroSig).1, bigEndian (base64RawUrl bv).1, keys, ""⟩ = .ok (true, [k, k]) := by
    simp [BlsCircuit.verify, hincluded, signedBy]
  have hthreshold : makeThreshold weights ≠ 0 := by
    rw [makeThreshold_eq hfits]
    omega
  rw [VscDID.verify, if_neg hthreshold]
  simp only [v] at hweights ⊢
  rw [hcircuit]
  simp only
  rw [hverify]
  simp only
  rw [hweights]
  simp only [makeThreshold_eq hfits, hle, if_true, Bool.true_eq_false, if_false]

/-- A committee's keys make every accepted `did:vsc` auth a quorum of the holders that
signed, whatever the weights and the signature package are. -/
def CarriesQuorum (keys : List String) : Prop :=
  ∀ (members : List ElectionMember) (weights : List ℕ), members.map (·.key) = keys →
    weights.sum < 2 ^ 64 → ∀ (lib : DidLib) (signers : String → List String),
    lib.Sound signers → ∀ (auths : List String) (signatures : List Sig) (cid : String),
    Accepts lib members weights auths signatures cid → quorumMet keys weights (signers cid) = true

/-- That holds exactly for the committees where no key sits at two seats, and for
those of a single key. -/
theorem carriesQuorum_iff (keys : List String) :
    CarriesQuorum keys ↔ keys.Nodup ∨ ∀ k ∈ keys, ∀ k' ∈ keys, k = k' := by
  constructor
  · intro hquorum
    by_contra hcon
    rw [not_or] at hcon
    obtain ⟨hdup, hdistinct⟩ := hcon
    -- A key that sits at two seats, and another key.
    obtain ⟨k, hk⟩ := exists_duplicate_iff_not_nodup.2 hdup
    obtain ⟨other, hother, hne⟩ : ∃ other ∈ keys, k ≠ other := by
      by_contra hsame
      refine hdistinct fun a ha b hb => ?_
      have hall : ∀ x ∈ keys, k = x := fun x hx => by_contra fun h => hsame ⟨x, hx, h⟩
      exact (hall a ha).symm.trans (hall b hb)
    obtain ⟨l₁, rest, hkeys, hfirst⟩ := eq_append_cons_of_mem hk.mem
    have hrest : k ∈ rest := by
      rw [hkeys, duplicate_iff_two_le_count, count_append,
        count_eq_zero_of_not_mem hfirst, count_cons_self] at hk
      exact count_pos_iff.1 (by omega)
    obtain ⟨l₂, l₃, rfl⟩ := append_of_mem hrest
    obtain ⟨bv, hbvne, hbv, hbits⟩ :=
      exists_base64RawUrl (2 ^ l₁.length ||| 2 ^ (l₁.length + 1 + l₂.length))
    have hnodup : [k, other].Nodup := by simp [hne]
    have hsub : ∀ x ∈ [k, other], x ∈ keys := by simp [hk.mem, hother]
    have hlen : keys.length = (baitWeights [k, other] keys).length :=
      (length_baitWeights _ _).symm
    have hsum : (baitWeights [k, other] keys).sum = 4 := sum_baitWeights hnodup hsub
    have hweight := seatWeight_baitWeights hnodup keys
    have hk2 : seatWeight (keys.zip (baitWeights [k, other] keys)) k = 2 := by
      simp [hweight, hk.mem]
    have htotal : 4 ≤ distinctWeight (keys.zip (baitWeights [k, other] keys)) := by
      have hpair := sum_seatWeight_le (keys.zip (baitWeights [k, other] keys)) {k, other}
      rw [Finset.sum_pair hne, hweight, hweight] at hpair
      simpa [hk.mem, hother] using hpair
    have haccepts := accepts_signedBy (k := k) hlen (by omega) hbvne hbv
      (by rw [hbits, hkeys]; exact includedDIDs_pair l₁ l₂ l₃ k) (by omega) (by omega) (by omega)
    have hmet := hquorum _ _ (by simp [Function.comp_def]) (by omega) _ _ (sound_signedBy k) _ _ _ haccepts
    rw [quorumMet_iff hlen (by omega)] at hmet
    have hsigned :
        ∑ x ∈ [k].toFinset, seatWeight (keys.zip (baitWeights [k, other] keys)) x = 2 := by
      simp [hk2]
    omega
  rintro hcond members weights rfl hfits lib signers hsound auths signatures cid haccepts
  obtain ⟨hlen, included, hsub, hne, hsigned, hpos, hle⟩ := haccepts.selected hfits hsound
  rcases hcond with hnodup | hone
  · exact quorumMet_of_nodup hlen hfits (hnodup.sublist hsub) hsigned hpos hle
  · exact quorumMet_of_one_key hlen hfits hone (fun k hk => hsub.subset hk) hne hsigned
      (hpos.trans_le hle)

/-- One holder with a copied key: of the weights 10, 1 and 9 its own seat has 10, the
copied one 1. Selecting both seats counts 20 of 20, and the holder has 10 of 19. -/
theorem accepts_copiedKey : (signedBy "did:key:A").Sound (fun _ => ["did:key:A"]) ∧
      Accepts (signedBy "did:key:A")
        (["did:key:A", "did:key:A", "did:key:B"].map fun key => ⟨key, ""⟩) [10, 1, 9]
        ["did:vsc:"] [{ sig := zeroSig, bv := "Aw", kid := "did:vsc:" }] "" ∧
      quorumMet ["did:key:A", "did:key:A", "did:key:B"] [10, 1, 9] ["did:key:A"] = false :=
  ⟨sound_signedBy _, accepts_signedBy (by decide) (by decide) (by decide) (by decide) (by decide)
    (by decide) (by decide) (by decide), by decide⟩

end VscNode.TransactionPool
