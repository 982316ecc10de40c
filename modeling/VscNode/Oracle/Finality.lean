import VscNode.Oracle.Relayers

/-!
# Which relayed headers are final

A relayer fetches up to a valid height that its caller names. A producer names the valid
height of its own node. A witness names the end of the range it is asked about, and its own
node's valid height plays no part in what it signs. `signs_final_iff` says when a signature
is for final blocks all the same.
-/

namespace VscNode.Oracle

open Text List

namespace ChainOracle

variable (c : ChainOracle)

variable {c}

/-! ## The witness -/

def withRelayers (c : ChainOracle) (relayers : List (String × Relayer)) : ChainOracle :=
  { c with chainRelayers := relayers.map fun entry => (entry.1, entry.2.chainRelay) }

theorem relayer_withRelayers {relayers : List (String × Relayer)} {symbol : String}
    {chain : ChainRelay} (h : (c.withRelayers relayers).relayer symbol = some chain) :
    ∃ r, relayers.lookup (c.cases.toUpper symbol) = some r ∧ chain = r.chainRelay := by
  change (relayers.map fun entry => (entry.1, entry.2.chainRelay)).lookup
    (c.cases.toUpper symbol) = some chain at h
  generalize c.cases.toUpper symbol = key at h ⊢
  induction relayers with
  | nil => cases h
  | cons entry rest ih =>
    rw [map_cons, lookup_cons] at h
    rw [lookup_cons]
    split at h
    · cases h
      exact ⟨entry.2, rfl, rfl⟩
    · exact ih h

variable (c) (relayers : List (String × Relayer)) (msg : ChainOracleMessage)

/-- The relayer that the session of a message names, and the range of heights. -/
def Asks (r : Relayer) (startBlock endBlock : ℕ) : Prop :=
  relayers.lookup (c.cases.toUpper (sessionSymbol msg.sessionID)) = some r ∧
    ∃ hive, parseChainSessionID msg.sessionID =
      .ok (sessionSymbol msg.sessionID, hive, startBlock, endBlock)

def SignsFinal : Prop :=
  ∀ block, ((c.withRelayers relayers).witnessChainData msg).signed = some block →
    isReplaceSession msg.sessionID = false →
      ∃ r startBlock endBlock payload call latest, c.Asks relayers msg r startBlock endBlock ∧
        block.tx = [call] ∧ call.action = "addBlocks" ∧ call.payload = c.marshal payload ∧
        r.Reports (List.range' startBlock (endBlock + 1 - startBlock)) payload ∧
        r.getLatestValidHeight = .ok latest ∧
        ∀ height ∈ List.range' startBlock (endBlock + 1 - startBlock), height ≤ latest

def AsksFinal : Prop :=
  ∃ r startBlock endBlock latest, c.Asks relayers msg r startBlock endBlock ∧
    r.getLatestValidHeight = .ok latest ∧ endBlock ≤ latest

variable {c relayers msg}

theorem Asks.unique {r r' : Relayer} {startBlock startBlock' endBlock endBlock' : ℕ}
    (h : c.Asks relayers msg r startBlock endBlock)
    (h' : c.Asks relayers msg r' startBlock' endBlock') :
    r = r' ∧ startBlock = startBlock' ∧ endBlock = endBlock' := by
  obtain ⟨hr, hive, hsession⟩ := h
  obtain ⟨hr', hive', hsession'⟩ := h'
  have hranges := hsession.symm.trans hsession'
  simp only [Except.ok.injEq, Prod.mk.injEq, true_and] at hranges
  exact ⟨Option.some.inj (hr.symm.trans hr'), hranges.2⟩

theorem reports_of_signed {block : SignableBlock}
    (hsigned : ((c.withRelayers relayers).witnessChainData msg).signed = some block)
    (hadd : isReplaceSession msg.sessionID = false) :
    ∃ r startBlock endBlock payload call, c.Asks relayers msg r startBlock endBlock ∧
      startBlock ≤ endBlock ∧ block.tx = [call] ∧ call.action = "addBlocks" ∧
      call.payload = c.marshal payload ∧
      r.Reports (List.range' startBlock (endBlock + 1 - startBlock)) payload := by
  have hblock := witnessBlock_of_signed hsigned
  rw [witnessBlock] at hblock
  split at hblock
  · cases hblock
  rename_i request hrequest
  rw [hadd, if_neg Bool.false_ne_true] at hblock
  obtain ⟨hive, startBlock, endBlock, chain, blocks, payload, hsession, hrange, hrelayer, _,
    hblocks, hne, hpayload, hbuilt⟩ := addBlocksBlock_inv hblock
  obtain ⟨r, hr, rfl⟩ := relayer_withRelayers hrelayer
  obtain ⟨_, rfl⟩ := toSignableBlock_makeTransaction hbuilt
  have hreports := Relayer.reports_of_chainData hblocks hpayload hne
  rw [stopHeight_of_range hrange.2.1 hrange.2.2] at hreports
  exact ⟨r, startBlock, endBlock, payload, _, ⟨hr, hive, hsession⟩, hrange.2.1, rfl, rfl, rfl,
    hreports⟩

/-- The signatures of a witness are for final blocks exactly where it signs nothing for the
message, or is asked to replace blocks, or is asked for a range that is final for it. -/
theorem signs_final_iff (c : ChainOracle) (relayers : List (String × Relayer))
    (msg : ChainOracleMessage) :
    c.SignsFinal relayers msg ↔ ((c.withRelayers relayers).witnessChainData msg).signed = none ∨
        isReplaceSession msg.sessionID = true ∨ c.AsksFinal relayers msg := by
  cases hsigned : ((c.withRelayers relayers).witnessChainData msg).signed with
  | none =>
    refine iff_of_true (fun block h => ?_) (.inl rfl)
    rw [hsigned] at h
    cases h
  | some block =>
    cases hreplace : isReplaceSession msg.sessionID with
    | true =>
      refine iff_of_true (fun _ _ hadd => ?_) (.inr (.inl rfl))
      rw [hreplace] at hadd
      cases hadd
    | false =>
      obtain ⟨r, startBlock, endBlock, payload, call, hasks, hle, htx, haction, hcall,
        hreports⟩ := reports_of_signed hsigned hreplace
      constructor
      · intro h
        obtain ⟨r', startBlock', endBlock', _, _, latest, hasks', _, _, _, _, hlatest, hall⟩ :=
          h block hsigned hreplace
        obtain ⟨rfl, rfl, rfl⟩ := hasks.unique hasks'
        refine .inr (.inr ⟨r, startBlock, endBlock, latest, hasks, hlatest,
          hall endBlock (mem_range'_1.2 (by omega))⟩)
      rintro (h | h | ⟨r', startBlock', endBlock', latest, hasks', hlatest, hend⟩)
      · cases h
      · cases h
      obtain ⟨rfl, rfl, rfl⟩ := hasks.unique hasks'
      intro block' hsigned' _
      obtain rfl := Option.some.inj (hsigned.symm.trans hsigned')
      refine ⟨r, startBlock, endBlock, payload, call, latest, hasks, htx, haction, hcall,
        hreports, hlatest, fun height hheight => ?_⟩
      rw [mem_range'_1] at hheight
      omega

/-! ## A signature for the tip -/

def tipNode : UtxoNode where
  getBlock _ := .ok [0xaa]
  getBlockStats _ := .ok (100, 1)
  getBlockCount := .ok 100
  getBlockHash height := if height ≤ 100 then .ok "hash" else .error "Block height out of range"
  fetchPrunedBlocks _ := .error "no archive peers"

def bitcoinRelayers : List (String × Relayer) :=
  [("BTC", .bitcoin (BitcoinRelayer.init { connect := .ok tipNode, contractId := "vsc1btc" } false))]

/-- A witness for which blocks up to 98 are valid signs block 100. -/
theorem signs_unfinal_tip : (Relayer.bitcoin (BitcoinRelayer.init
      { connect := .ok tipNode, contractId := "vsc1btc" } false)).getLatestValidHeight = .ok 98 ∧
    ((mainnetWitness.withRelayers bitcoinRelayers).witnessChainData
      (relayRequest "BTC-1-100-100" "vsc1btc" "vsc-mainnet")).signed.isSome = true ∧
    ¬ mainnetWitness.SignsFinal bitcoinRelayers
      (relayRequest "BTC-1-100-100" "vsc1btc" "vsc-mainnet") := by
  refine ⟨rfl, by decide, fun h => ?_⟩
  obtain ⟨r, startBlock, endBlock, _, _, latest, hasks, _, _, _, _, hlatest, hall⟩ :=
    h ⟨0, ["did:vsc:oracle:btc"], "vsc-mainnet", 100000,
      [⟨"vsc1btc", "addBlocks", "blocks", 100000, "did:vsc:oracle:btc"⟩]⟩ (by decide) (by decide)
  obtain ⟨rfl, rfl, rfl⟩ := hasks.unique (⟨rfl, 1, by decide⟩ : mainnetWitness.Asks bitcoinRelayers
      (relayRequest "BTC-1-100-100" "vsc1btc" "vsc-mainnet") _ 100 100)
  cases hlatest
  exact absurd (hall 100 (by decide)) (by decide)

end ChainOracle

end VscNode.Oracle
