import VscNode.Lib.GoJson
import VscNode.Tss.StateReader

/-!
# The witness of relayed chain data

A node that produces a block relays blocks of other chains to the mapping contract of the
chain, in a transaction of the chain's oracle account (`did:vsc:oracle:btc` and so on). It
asks the other nodes to sign the transaction. A witness builds the transaction again from
what it reads itself and signs it (`witnessChainData`).

A request names a session, a contract, a net id and a nonce. The text of the session says
which chain and which blocks, or that blocks are replaced after a reorganisation. The
contract is compared with the one configured for the chain when blocks are added, but not
when they are replaced; the net id is not compared with anything; and the oracle account
is made from the session's own spelling of the chain. `signs_own_iff` says that these are
the only ways to a signature for something else.
-/

namespace VscNode.Oracle

open DataLayer GoJson List Option Text Tss

/-! ## Letter case -/

/-- The case mappings of the Unicode tables. -/
structure CaseTable where
  (upper lower : Char → Char)

variable (t : CaseTable) (sessionID : String)

def CaseTable.toUpper (s : String) : String := String.ofList (s.toList.map t.upper)

def CaseTable.toLower (s : String) : String := String.ofList (s.toList.map t.lower)

/-! ## Relayed blocks -/

structure EthHeader where
  baseFee : Option Int
  (root txHash receiptHash : Bytes)
  (gasLimit time : ℕ)

structure EthChainData where
  height : ℕ
  parentHashContract : String
  header : EthHeader

/-- A block of a relayed chain. Bitcoin's has a fee rate, Ethereum's a header. -/
structure ChainBlock where
  type : String
  serialize : Except String String
  averageFeeRate : Option Int := none
  eth : Option EthChainData := none

structure EthAddBlockEntry where
  blockNumber : ℕ
  (parentHash stateRoot transactionsRoot receiptsRoot : String)
  (baseFeePerGas gasLimit timestamp : ℕ)
  deriving DecidableEq

inductive AddBlocksPayload
  | utxo (blocks : String) (latestFee : Int)
  | eth (blocks : List EthAddBlockEntry) (latestFee : ℕ)
  deriving DecidableEq

def makeUtxoPayload : List ChainBlock → String → Int → Except String AddBlocksPayload
  | [], blocks, latestFee => .ok (.utxo blocks latestFee)
  | block :: rest, blocks, latestFee =>
    match block.serialize with
    | .error e => .error e
    | .ok hex => makeUtxoPayload rest (blocks ++ hex) (block.averageFeeRate.getD latestFee)

def ethBaseFee (header : EthHeader) : Option ℕ :=
  match header.baseFee with
  | none => some 0
  | some fee => if 0 ≤ fee ∧ fee < 2 ^ 64 then some fee.toNat else none

def makeEthPayload : List ChainBlock → ℕ → List EthAddBlockEntry → ℕ →
    Except String AddBlocksPayload
  | [], _, entries, latestFee => .ok (.eth entries.reverse latestFee)
  | block :: rest, i, entries, _ =>
    match block.eth with
    | none => .error ("block " ++ formatUint i ++ " is not ethChainData")
    | some eth =>
      match ethBaseFee eth.header with
      | none => .error ("block " ++ formatUint i ++ " base fee out of uint64 range")
      | some baseFee =>
        makeEthPayload rest (i + 1) (⟨eth.height, eth.parentHashContract,
          eth.header.root.hexEncode, eth.header.txHash.hexEncode,
          eth.header.receiptHash.hexEncode, baseFee, eth.header.gasLimit,
          eth.header.time⟩ :: entries) baseFee

def makeTransactionPayload : List ChainBlock → Except String AddBlocksPayload
  | [] => .ok (.utxo "" 0)
  | block :: rest =>
    if block.type = "ETH" then makeEthPayload (block :: rest) 0 [] 0
    else makeUtxoPayload (block :: rest) "" 0

/-! ## Transactions -/

structure VscContractCall where
  (contractId action payload : String)
  rcLimit : ℕ
  caller : String
  deriving DecidableEq

def VscContractCall.validate (tx : VscContractCall) : Bool :=
  (hasPrefix tx.caller "did:" || hasPrefix tx.caller "hive:") && hasPrefix tx.contractId "vsc1" &&
    tx.action ≠ "" && tx.payload ≠ ""

def VscContractCall.serializeVSC (tx : VscContractCall) : Option VscContractCall :=
  if tx.validate then some tx else none

structure RelayTransaction where
  ops : List (Option VscContractCall)
  nonce : ℕ
  netId : String
  rcLimit : ℕ
  deriving DecidableEq

/-- What is hashed and signed. -/
structure SignableBlock where
  nonce : ℕ
  requiredAuths : List String
  netId : String
  rcLimit : ℕ
  tx : List VscContractCall
  deriving DecidableEq

def RelayTransaction.toSignableBlock (tx : RelayTransaction) : Except String SignableBlock :=
  match tx.ops.mapM id with
  | none => .error "failed to decode payload"
  | some calls =>
    .ok ⟨tx.nonce, (calls.map (·.caller)).dedup, tx.netId,
      if 0 < tx.rcLimit then tx.rcLimit else 500, calls⟩

/-! ## The oracle -/

structure ChainRelay where
  (symbol contractId : String)
  chainData : ℕ → ℕ → ℕ → Except String (List ChainBlock)
  getCanonicalBlockHeader : ℕ → Except String String

structure ChainRelayResponse where
  (signature account blsDid : String)
  deriving DecidableEq

/-- What a witness works with: its relayers by symbol, its net, the contracts' states, how
payloads are written and transactions hashed, and its identity. -/
structure ChainOracle where
  chainRelayers : List (String × ChainRelay)
  netId : String
  cases : CaseTable
  state : StateSource
  marshal : AddBlocksPayload → String
  cid : SignableBlock → String
  blsProvider : Except String (String → Except String String)
  blsDID : Except String String
  hiveUsername : String

structure ChainRelayRequest where
  contractId : String := ""
  netId : String := ""
  nonce : ℕ := 0
  deriving DecidableEq

namespace ChainRelayRequest

def setContractId (s : String) (r : ChainRelayRequest) : ChainRelayRequest :=
  { r with contractId := s }
def setNetId (s : String) (r : ChainRelayRequest) : ChainRelayRequest := { r with netId := s }
def setNonce (n : ℕ) (r : ChainRelayRequest) : ChainRelayRequest := { r with nonce := n }

def fields : List (StructField ChainRelayRequest) :=
  [.of "contract_id" string contractId setContractId, .of "net_id" string netId setNetId,
    .of "nonce" uint64 nonce setNonce]

def parse (payload : Option Json) : Option ChainRelayRequest :=
  payload.bind fun v => if (struct fields).ok v then some ((struct fields).apply v {}) else none

end ChainRelayRequest

structure ChainOracleMessage where
  sessionID : String
  payload : Option Json

/-- The account a chain's transactions are made for. -/
def oracleDid (symbol : String) : String := "did:vsc:oracle:" ++ t.toLower symbol

def makeTransaction (contractId payload action symbol txNetId : String) (nonce : ℕ) :
    RelayTransaction where
  ops := [VscContractCall.serializeVSC ⟨contractId, action, payload, 100000, oracleDid t symbol⟩]
  nonce := nonce
  netId := txNetId
  rcLimit := 100000

def maxRelayBlocks : ℕ := 50

def maxReorgDepth : ℕ := 20

def maxInt64 : ℕ := 2 ^ 63 - 1

def parseChainSessionID : Except String (String × ℕ × ℕ × ℕ) :=
  match fields '-' sessionID with
  | [chainSymbol, hiveBlockHeight, startBlock, endBlock] =>
    match parseUint hiveBlockHeight with
    | none => .error "invalid hive block height"
    | some hiveBlockHeight =>
      match parseUint startBlock with
      | none => .error "invalid start block"
      | some startBlock =>
        match parseUint endBlock with
        | none => .error "invalid end block"
        | some endBlock => .ok (chainSymbol, hiveBlockHeight, startBlock, endBlock)
  | _ => .error ("invalid session ID format: " ++ sessionID)

def isReplaceSession : Bool := hasSuffix sessionID "-replace"

/-- The chain that a session names, in its own spelling. -/
def sessionSymbol : String := (fields '-' sessionID).headD ""

namespace ChainOracle

variable (c : ChainOracle)

def relayer (chainSymbol : String) : Option ChainRelay :=
  c.chainRelayers.lookup (c.cases.toUpper chainSymbol)

/-! ## The contract's state -/

def asText (raw : Bytes) : String := String.ofList (raw.map fun byte => Char.ofNat byte.toNat)

variable (request : ChainRelayRequest) (msg : ChainOracleMessage) (contractId : String)

def getContractBlockHeight : Except String ℕ :=
  match c.state.outputs.getLastOutput contractId maxInt64 with
  | .error _ => .error ("failed to query contract output for " ++ contractId)
  | .ok output =>
    if output.stateMerkle = "" then .ok 0
    else
      match c.state.parseCid output.stateMerkle with
      | none => .error "failed to parse state merkle CID"
      | some cidz =>
        match (DataBin.load c.state.store cidz).get c.state.store "h" with
        | .error .notExist => .ok 0
        | .error .unreadable => .error "failed to get h from state"
        | .ok cidVal =>
          match c.state.getRaw cidVal with
          | none => .error "failed to read state value"
          | some rawVal =>
            match parseUint (asText rawVal) with
            | none => .error "failed to parse block height"
            | some height => .ok height

def getStoredBlockHeaderHex (height : ℕ) : Except String String :=
  match c.state.outputs.getLastOutput contractId maxInt64 with
  | .error _ => .error "no contract output found"
  | .ok output =>
    match c.state.parseCid output.stateMerkle with
    | none => .error "failed to parse state merkle"
    | some cidz =>
      match (DataBin.load c.state.store cidz).get c.state.store ("b-" ++ formatUint height) with
      | .error _ => .error ("block key b-" ++ formatUint height ++ " not found in state")
      | .ok cidVal =>
        match c.state.getRaw cidVal with
        | none => .error "failed to read block data"
        | some rawVal => .ok rawVal.hexEncode

def walkBack (chain : ChainRelay) (contractId : String) (height : ℕ) :
    ℕ → ℕ → List String → List String
  | 0, _, headers => headers
  | n + 1, depth, headers =>
    let checkHeight := (height + 2 ^ 64 - depth) % 2 ^ 64
    if checkHeight = 0 then headers
    else
      match chain.getCanonicalBlockHeader checkHeight with
      | .error _ => headers
      | .ok canonical =>
        match c.getStoredBlockHeaderHex contractId checkHeight with
        | .error _ => headers
        | .ok stored =>
          if stored = canonical then headers
          else walkBack chain contractId height n (depth + 1) (canonical :: headers)

/-- The headers that replace what the contract has, oldest first, and how many they are. -/
def checkForReorg (chain : ChainRelay) (contractId : String) (height : ℕ) :
    Except String (Option (String × ℕ)) :=
  match chain.getCanonicalBlockHeader height with
  | .error _ => .error ("failed to get canonical header at " ++ formatUint height)
  | .ok canonicalHex =>
    if canonicalHex = "" then .ok none
    else
      match c.getStoredBlockHeaderHex contractId height with
      | .error _ => .error ("failed to get stored header at " ++ formatUint height)
      | .ok storedHex =>
        if storedHex = canonicalHex then .ok none
        else
          let headers := c.walkBack chain contractId height (maxReorgDepth - 1) 1 [canonicalHex]
          .ok (some (headers.foldl (· ++ ·) "", headers.length))

/-! ## What is signed -/

def addBlocksBlock (sessionID : String) (request : ChainRelayRequest) :
    Except String SignableBlock :=
  match parseChainSessionID sessionID with
  | .error e => .error ("invalid session id: " ++ e)
  | .ok (chainSymbol, _, startBlock, endBlock) =>
    if startBlock = 0 ∨ endBlock < startBlock ∨ maxRelayBlocks ≤ endBlock - startBlock ∨
        maxInt64 < endBlock then
      .error ("invalid block range " ++ formatUint startBlock ++ "-" ++ formatUint endBlock)
    else
      match c.relayer chainSymbol with
      | none => .error "invalid chain symbol"
      | some chain =>
        if chain.contractId = "" then
          .error ("no contract ID configured locally for " ++ chainSymbol)
        else if chain.contractId ≠ request.contractId then
          .error ("contract ID mismatch for " ++ chainSymbol ++ ": local=" ++
            chain.contractId ++ ", request=" ++ request.contractId)
        else
          match chain.chainData startBlock (endBlock - startBlock + 1) endBlock with
          | .error e => .error ("failed to fetch chain data for verification: " ++ e)
          | .ok blocks =>
            if blocks.isEmpty then
              .error ("no blocks returned for " ++ chainSymbol ++ " " ++
                formatUint startBlock ++ "-" ++ formatUint endBlock)
            else
              match makeTransactionPayload blocks with
              | .error e => .error ("failed to build transaction payload: " ++ e)
              | .ok payload =>
                (makeTransaction c.cases request.contractId (c.marshal payload)
                  "addBlocks" chainSymbol request.netId request.nonce).toSignableBlock

def replaceBlocksBlock (sessionID : String) (request : ChainRelayRequest) :
    Except String SignableBlock :=
  match fields '-' sessionID with
  | chainSymbol :: _ :: _ :: _ =>
    match c.relayer chainSymbol with
    | none => .error "invalid chain symbol"
    | some chain =>
      match c.getContractBlockHeight request.contractId with
      | .error e => .error ("failed to get contract height: " ++ e)
      | .ok contractHeight =>
        match c.checkForReorg chain request.contractId contractHeight with
        | .error e => .error ("failed to check for reorg: " ++ e)
        | .ok none =>
          .error ("witness does not detect reorg at height " ++ formatUint contractHeight)
        | .ok (some (concatenatedHex, _)) =>
          (makeTransaction c.cases request.contractId concatenatedHex "replaceBlocks"
            chainSymbol request.netId request.nonce).toSignableBlock
  | _ => .error ("invalid replace session ID: " ++ sessionID)

/-- The transaction that a request leads to. -/
def witnessBlock : Except String SignableBlock :=
  match ChainRelayRequest.parse msg.payload with
  | none => .error "failed to parse relay request"
  | some request =>
    if isReplaceSession msg.sessionID then c.replaceBlocksBlock msg.sessionID request
    else c.addBlocksBlock msg.sessionID request

structure Witnessed where
  signed : Option SignableBlock
  response : Except String ChainRelayResponse

def witnessChainData : Witnessed :=
  match c.witnessBlock msg with
  | .error e => ⟨none, .error e⟩
  | .ok block =>
    match c.blsProvider with
    | .error e => ⟨none, .error ("failed to get BLS provider: " ++ e)⟩
    | .ok sign =>
      match sign (c.cid block) with
      | .error e => ⟨none, .error ("failed to sign: " ++ e)⟩
      | .ok sig =>
        match c.blsDID with
        | .error e => ⟨some block, .error ("failed to get BLS DID: " ++ e)⟩
        | .ok blsDid => ⟨some block, .ok ⟨sig, c.hiveUsername, blsDid⟩⟩

/-! ## What a signature is for -/

theorem toSignableBlock_makeTransaction {t : CaseTable}
    {contractId payload action symbol txNetId : String} {nonce : ℕ} {block : SignableBlock}
    (h : (makeTransaction t contractId payload action symbol txNetId nonce).toSignableBlock =
      .ok block) :
    contractId ≠ "" ∧ block = ⟨nonce, [oracleDid t symbol], txNetId, 100000,
        [⟨contractId, action, payload, 100000, oracleDid t symbol⟩]⟩ := by
  rw [makeTransaction, RelayTransaction.toSignableBlock, VscContractCall.serializeVSC] at h
  by_cases hvalid : VscContractCall.validate
      ⟨contractId, action, payload, 100000, oracleDid t symbol⟩ = true
  · rw [if_pos hvalid] at h
    cases h
    refine ⟨?_, rfl⟩
    rintro rfl
    simp [VscContractCall.validate, show hasPrefix "" "vsc1" = false from rfl] at hvalid
  · rw [if_neg hvalid] at h
    cases h

variable {c} {msg : ChainOracleMessage} {block : SignableBlock}

structure BuiltFor (c : ChainOracle) (sessionID : String) (request : ChainRelayRequest)
    (chain : ChainRelay) (block : SignableBlock) : Prop where
  relayer : c.relayer (sessionSymbol sessionID) = some chain
  contract : request.contractId ≠ ""
  net : block.netId = request.netId
  auths : block.requiredAuths = [oracleDid c.cases (sessionSymbol sessionID)]
  call : ∃ call, block.tx = [call] ∧ call.contractId = request.contractId ∧
    call.caller = oracleDid c.cases (sessionSymbol sessionID)

variable {request : ChainRelayRequest}

variable {chain : ChainRelay} {sessionID : String}

theorem builtFor_of_makeTransaction {sessionID payload action : String}
    (hrelayer : c.relayer (sessionSymbol sessionID) = some chain)
    (h : (makeTransaction c.cases request.contractId payload action (sessionSymbol sessionID)
      request.netId request.nonce).toSignableBlock = .ok block) :
    BuiltFor c sessionID request chain block := by
  obtain ⟨hne, rfl⟩ := toSignableBlock_makeTransaction h
  exact ⟨hrelayer, hne, rfl, rfl, _, rfl, rfl, rfl⟩

theorem addBlocksBlock_inv (h : c.addBlocksBlock sessionID request = .ok block) :
    ∃ hive startBlock endBlock chain blocks payload, parseChainSessionID sessionID =
        .ok (sessionSymbol sessionID, hive, startBlock, endBlock) ∧
      (0 < startBlock ∧ startBlock ≤ endBlock ∧ endBlock ≤ maxInt64) ∧
      c.relayer (sessionSymbol sessionID) = some chain ∧ chain.contractId = request.contractId ∧
      chain.chainData startBlock (endBlock - startBlock + 1) endBlock = .ok blocks ∧
      blocks ≠ [] ∧ makeTransactionPayload blocks = .ok payload ∧
      (makeTransaction c.cases request.contractId (c.marshal payload) "addBlocks"
        (sessionSymbol sessionID) request.netId request.nonce).toSignableBlock = .ok block := by
  rw [addBlocksBlock] at h
  split at h
  · cases h
  rename_i chainSymbol hive startBlock endBlock hsession
  have hsymbol : sessionSymbol sessionID = chainSymbol := by
    rw [parseChainSessionID] at hsession
    split at hsession
    · rename_i hfields
      repeat' split at hsession
      all_goals cases hsession
      rw [sessionSymbol, hfields, headD_cons]
    · cases hsession
  subst hsymbol
  split at h
  · cases h
  rename_i hrange
  split at h
  · cases h
  rename_i chain hrelayer
  split at h
  · cases h
  split at h
  · cases h
  rename_i hcontract
  split at h
  · cases h
  rename_i blocks hblocks
  split at h
  · cases h
  rename_i hne
  split at h
  · cases h
  rename_i payload hpayload
  exact ⟨hive, startBlock, endBlock, chain, blocks, payload, hsession, by omega,
    hrelayer, not_not.1 hcontract, hblocks, by rintro rfl; exact hne rfl, hpayload,
    h⟩

theorem addBlocksBlock_eq_ok (h : c.addBlocksBlock sessionID request = .ok block) :
    ∃ chain, BuiltFor c sessionID request chain block ∧ request.contractId = chain.contractId := by
  obtain ⟨_, _, _, chain, _, _, _, _, hrelayer, hcontract, _, _, _, hbuilt⟩ :=
    addBlocksBlock_inv h
  exact ⟨chain, builtFor_of_makeTransaction hrelayer hbuilt, hcontract.symm⟩

theorem replaceBlocksBlock_eq_ok (h : c.replaceBlocksBlock sessionID request = .ok block) :
    ∃ chain, BuiltFor c sessionID request chain block := by
  rw [replaceBlocksBlock] at h
  split at h
  · rename_i chainSymbol _ _ _ hfields
    have hsymbol : sessionSymbol sessionID = chainSymbol := by
      rw [sessionSymbol, hfields, headD_cons]
    subst hsymbol
    split at h
    · cases h
    rename_i chain hrelayer
    split at h
    · cases h
    split at h
    · cases h
    · cases h
    · exact ⟨chain, builtFor_of_makeTransaction hrelayer h⟩
  · cases h

theorem witnessBlock_eq_ok (h : c.witnessBlock msg = .ok block) :
    ∃ request chain, ChainRelayRequest.parse msg.payload = some request ∧
      BuiltFor c msg.sessionID request chain block ∧
      (isReplaceSession msg.sessionID = false → request.contractId = chain.contractId) := by
  rw [witnessBlock] at h
  split at h
  · cases h
  rename_i request hrequest
  split at h
  · rename_i hreplace
    obtain ⟨chain, hbuilt⟩ := replaceBlocksBlock_eq_ok h
    exact ⟨request, chain, hrequest, hbuilt, fun hadd =>
      absurd (hadd.symm.trans hreplace) Bool.false_ne_true⟩
  · obtain ⟨chain, hbuilt, hcontract⟩ := addBlocksBlock_eq_ok h
    exact ⟨request, chain, hrequest, hbuilt, fun _ => hcontract⟩

theorem witnessBlock_of_signed (h : (c.witnessChainData msg).signed = some block) :
    c.witnessBlock msg = .ok block := by
  rw [witnessChainData] at h
  split at h
  · cases h
  rename_i built hbuilt
  rw [hbuilt]
  split at h
  · cases h
  split at h
  · cases h
  · split at h <;> exact congrArg Except.ok (some.inj h)

structure IsOwn (c : ChainOracle) (chain : ChainRelay) (block : SignableBlock) : Prop where
  configured : chain.contractId ≠ ""
  calls : block.tx ≠ [] ∧ ∀ call ∈ block.tx, call.contractId = chain.contractId ∧
    call.caller = oracleDid c.cases chain.symbol
  auths : block.requiredAuths = [oracleDid c.cases chain.symbol]
  net : block.netId = c.netId

def SignsOwn (c : ChainOracle) (msg : ChainOracleMessage) : Prop :=
  ∀ block, (c.witnessChainData msg).signed = some block →
    ∃ chain, c.relayer (sessionSymbol msg.sessionID) = some chain ∧ c.IsOwn chain block

def AsksOwn (c : ChainOracle) (msg : ChainOracleMessage) : Prop :=
  ∀ request chain, ChainRelayRequest.parse msg.payload = some request →
    c.relayer (sessionSymbol msg.sessionID) = some chain → request.netId = c.netId ∧
        (isReplaceSession msg.sessionID = true → request.contractId = chain.contractId) ∧
        c.cases.toLower (sessionSymbol msg.sessionID) = c.cases.toLower chain.symbol

/-- A witness signs for its own contract, net and oracle account exactly where it refuses
the request, or the request asks for no other. -/
theorem signs_own_iff (c : ChainOracle) (msg : ChainOracleMessage) :
    c.SignsOwn msg ↔ (c.witnessChainData msg).signed = none ∨ c.AsksOwn msg := by
  cases hsigned : (c.witnessChainData msg).signed with
  | none =>
    refine iff_of_true (fun block h => ?_) (.inl rfl)
    rw [hsigned] at h
    cases h
  | some block =>
    obtain ⟨request, chain, hrequest, hbuilt, hadd⟩ :=
      witnessBlock_eq_ok (witnessBlock_of_signed hsigned)
    obtain ⟨call, htx, hcontract, hcaller⟩ := hbuilt.call
    have hrelayer := hbuilt.relayer
    constructor
    · intro h
      obtain ⟨chain', hrelayer', hown⟩ := h block hsigned
      obtain rfl := some.inj (hrelayer.symm.trans hrelayer')
      refine .inr fun request' chain' hrequest' hrelayer' => ?_
      obtain rfl := some.inj (hrequest.symm.trans hrequest')
      obtain rfl := some.inj (hrelayer.symm.trans hrelayer')
      have hcall := hown.calls.2 call (by rw [htx]; exact mem_singleton_self call)
      refine ⟨hbuilt.net.symm.trans hown.net, fun _ => hcontract.symm.trans hcall.1, ?_⟩
      exact append_left_cancel_iff.1 (hcaller.symm.trans hcall.2)
    rintro (h | h)
    · cases h
    obtain ⟨hnet, hreplace, hsymbol⟩ := h request chain hrequest hrelayer
    have hsame : request.contractId = chain.contractId := by
      cases hsession : isReplaceSession msg.sessionID with
      | true => exact hreplace hsession
      | false => exact hadd hsession
    have hdid : oracleDid c.cases (sessionSymbol msg.sessionID) =
        oracleDid c.cases chain.symbol := by rw [oracleDid, hsymbol, oracleDid]
    intro block' hblock'
    obtain rfl := some.inj (hsigned.symm.trans hblock')
    refine ⟨chain, hrelayer, hsame ▸ hbuilt.contract, ⟨by simp [htx], fun call' hmem => ?_⟩,
      hdid ▸ hbuilt.auths, hbuilt.net.trans hnet⟩
    rw [htx, mem_singleton] at hmem
    rw [hmem]
    exact ⟨hcontract.trans hsame, hcaller.trans hdid⟩

/-! ## Signatures for something else -/

theorem not_signsOwn (hsigned : (c.witnessChainData msg).signed = some block)
    (hrelayer : c.relayer (sessionSymbol msg.sessionID) = some chain)
    (h : block.netId ≠ c.netId ∨ ∃ call ∈ block.tx, call.contractId ≠ chain.contractId ∨
      call.caller ≠ oracleDid c.cases chain.symbol) :
    ¬ c.SignsOwn msg := by
  intro hown
  obtain ⟨chain', hrelayer', hown⟩ := hown block hsigned
  obtain rfl := some.inj (hrelayer.symm.trans hrelayer')
  rcases h with hnet | ⟨call, hcall, hne⟩
  · exact hnet hown.net
  have hboth := hown.calls.2 call hcall
  rcases hne with hne | hne
  · exact hne hboth.1
  · exact hne hboth.2

/-- The letters of ASCII, and the long s, whose capital is S. -/
def plainCase : CaseTable where
  upper ch := if ch = 'ſ' then 'S' else ch.toUpper
  lower ch := ch.toLower

/-- The state of a contract that anyone can deploy: height 5, and a header for it. -/
def preparedState : StateSource where
  outputs := { rows := [⟨"vsc1evil", "root", 1⟩] }
  store := ⟨fun _ => true, fun _ => true⟩
  parseCid := fun text => if text = "root" then
    some (.dir [("b-5", .value [0]), ("h", .value [0x35])]) else none
  dirBytes := fun _ => []

/-- Only the Bitcoin relayer knows canonical headers. -/
def mainnetWitness : ChainOracle where
  chainRelayers := [("BTC", ⟨"BTC", "vsc1btc", fun _ _ _ => .ok [], fun _ => .ok "aa"⟩),
    ("DASH", ⟨"DASH", "vsc1dash", fun _ _ _ => .ok [⟨"DASH", .ok "aa", none, none⟩],
      fun _ => .ok ""⟩)]
  netId := "vsc-mainnet"
  cases := plainCase
  state := preparedState
  marshal _ := "blocks"
  cid _ := "cid"
  blsProvider := .ok fun _ => .ok "sig"
  blsDID := .ok "did"
  hiveUsername := "alice"

def relayRequest (sessionID contractId netId : String) : ChainOracleMessage where
  sessionID := sessionID
  payload := some (.obj [("contract_id", .str contractId), ("net_id", .str netId)])

/-- A witness signs for another contract, in another net, and for another account. -/
theorem foreign_signatures :
    ¬ mainnetWitness.SignsOwn (relayRequest "BTC-1-replace" "vsc1evil" "vsc-mainnet") ∧
      ¬ mainnetWitness.SignsOwn (relayRequest "DASH-1-5-5" "vsc1dash" "vsc-testnet") ∧
      ¬ mainnetWitness.SignsOwn (relayRequest "DAſH-1-5-5" "vsc1dash" "vsc-mainnet") := by
  refine ⟨?_, ?_, ?_⟩
  · exact not_signsOwn rfl rfl (.inr ⟨_, mem_singleton_self _, .inl (by decide)⟩)
  · exact not_signsOwn rfl rfl (.inl (by decide))
  · exact not_signsOwn rfl rfl (.inr ⟨_, mem_singleton_self _, .inr (by decide)⟩)

end ChainOracle

end VscNode.Oracle
