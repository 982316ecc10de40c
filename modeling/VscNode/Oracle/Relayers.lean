import VscNode.Oracle.ChainWitness

/-!
# The relayers

A relayer reads blocks of another chain from a node of that chain. The node also says how
far the chain is final: so many blocks below its tip, or up to the block that Ethereum
calls finalized (`Relayer.getLatestValidHeight`). `chainData` fetches a range of heights
and stops at a valid height that its caller names.

Whatever is fetched makes a payload of exactly the headers that the node answers for the
heights (`Relayer.reports_of_chainData`).
-/

namespace VscNode.Oracle

open Text List

/-! ## Nodes of the relayed chains -/

/-- Why a node does not answer with a block. -/
inductive RpcError
  | pruned (text : String)
  | other (text : String)
  deriving DecidableEq

def RpcError.text : RpcError → String
  | pruned text => text
  | other text => text

/-- How a daemon answers about the block of a hash. A header is given by its bytes, the
statistics are height and average fee rate. -/
structure UtxoBlocks where
  getBlock : String → Except RpcError Bytes
  getBlockStats : String → Except RpcError (ℕ × Int)

/-- A daemon of a chain like Bitcoin at one moment. Where its peers can send the pruned
blocks of some hashes, `fetchPrunedBlocks` is how it answers from then on. -/
structure UtxoNode extends UtxoBlocks where
  getBlockCount : Except String Int
  getBlockHash : ℕ → Except String String
  fetchPrunedBlocks : List String → Except String UtxoBlocks

/-- An execution client of Ethereum. Headers come with their numbers. -/
structure EthNode where
  headerByNumber : ℕ → Except String (ℕ × EthHeader)
  finalized : Except String (ℕ × EthHeader)
  keccak256 : Bytes → Bytes
  rlp : ℕ × EthHeader → Except String Bytes

/-! ## Ranges of heights -/

def stopHeight (startHeight count latestValidHeight : ℕ) : ℕ :=
  let stop := (startHeight + count) % 2 ^ 64
  let cap := (latestValidHeight + 1) % 2 ^ 64
  if cap < stop then cap else stop

/-- The frame of `ChainData`, which every relayer fills with its own texts and fetches. -/
def fetchRange {ν : Type} (name connectError : String) (connect : Except String ν)
    (fetch : ν → ℕ → List ℕ → Except String (List ChainBlock))
    (startHeight count latestValidHeight : ℕ) : Except String (List ChainBlock) :=
  if startHeight = 0 then .error "start height not provided"
  else if latestValidHeight < startHeight then
    .error (name ++ " latest valid height (" ++ formatUint latestValidHeight ++
      ") is behind requested start height (" ++ formatUint startHeight ++ ")")
  else
    match connect with
    | .error e => .error (connectError ++ e)
    | .ok node =>
      let stop := stopHeight startHeight count latestValidHeight
      -- the capacity of the slice of blocks would wrap
      if stop < startHeight then .error "makeslice: cap out of range"
      else fetch node startHeight (List.range' startHeight (stop - startHeight))

/-! ## Bitcoin -/

structure BitcoinRelayer where
  connect : Except String UtxoNode
  validityThreshold : ℕ := 0
  contractId : String
  autoReorg : Bool := false
  fixedFeeRate : Int := 0

def utxoBlock (type : String) (header : Bytes) (averageFeeRate : Option Int) : ChainBlock :=
  ⟨type, .ok header.hexEncode, averageFeeRate, none⟩

def validBlockHeight (blockCount : Int) (validityThreshold : ℕ) : Except String ℕ :=
  if blockCount < 0 ∨ blockCount.toNat < validityThreshold then
    .error "bitcoin chain not yet at minimum height"
  else .ok (blockCount.toNat - validityThreshold)

def getBlockByHash (blocks : UtxoBlocks) (blockHash : String) (fixedFeeRate : Int) :
    Except RpcError ChainBlock :=
  match blocks.getBlock blockHash with
  | .error e => .error e
  | .ok header =>
    if 0 < fixedFeeRate then .ok (utxoBlock "BTC" header (some fixedFeeRate))
    else
      match blocks.getBlockStats blockHash with
      | .error e => .error e
      | .ok (_, averageFeeRate) => .ok (utxoBlock "BTC" header (some averageFeeRate))

namespace BitcoinRelayer

variable (b : BitcoinRelayer) (node : UtxoNode)

/-- `Init`: the test networks take the tip itself, with a fixed fee rate. -/
def init (onTestnetOrDevnet : Bool) : BitcoinRelayer :=
  if onTestnetOrDevnet then
    { b with validityThreshold := 0, autoReorg := true, fixedFeeRate := 1 }
  else { b with validityThreshold := 2, autoReorg := false }

def getLatestValidHeight : Except String ℕ :=
  match b.connect with
  | .error e => .error ("failed to connect to btcd server: " ++ e)
  | .ok node =>
    match node.getBlockCount with
    | .error e => .error ("failed to get block count: " ++ e)
    | .ok blockCount => validBlockHeight blockCount b.validityThreshold

def hashEntry (height : ℕ) : Except String (String × ℕ) :=
  match node.getBlockHash height with
  | .error e =>
    .error ("failed to get block hash: blockHeight [" ++ formatUint height ++ "], err [" ++ e ++ "]")
  | .ok hash => .ok (hash, height)

def tryEntry (entry : String × ℕ) : Except String ((String × ℕ) × Option ChainBlock) :=
  match getBlockByHash node.toUtxoBlocks entry.1 b.fixedFeeRate with
  | .ok block => .ok (entry, some block)
  | .error (.pruned _) => .ok (entry, none)
  | .error (.other e) =>
    .error ("failed to get block: [blockHeight: " ++ formatUint entry.2 ++ "], [err: " ++ e ++ "]")

/-- The second fetch, of the blocks that were pruned. -/
def retryEntry (recovered : UtxoBlocks) :
    (String × ℕ) × Option ChainBlock → Except String ChainBlock
  | (_, some block) => .ok block
  | (entry, none) =>
    match getBlockByHash recovered entry.1 b.fixedFeeRate with
    | .ok block => .ok block
    | .error e =>
      .error ("failed to get block after recovery: [blockHeight: " ++ formatUint entry.2 ++
        "], [err: " ++ e.text ++ "]")

def prunedHashes (results : List ((String × ℕ) × Option ChainBlock)) : List String :=
  (results.filter (·.2.isNone)).map (·.1.1)

def fetchBlocks (heights : List ℕ) : Except String (List ChainBlock) :=
  match heights.mapM (hashEntry node) with
  | .error e => .error e
  | .ok entries =>
    match entries.mapM (b.tryEntry node) with
    | .error e => .error e
    | .ok results =>
      if prunedHashes results = [] then results.mapM (b.retryEntry node.toUtxoBlocks)
      else
        match node.fetchPrunedBlocks (prunedHashes results) with
        | .error e => .error ("failed to recover pruned blocks: " ++ e)
        | .ok recovered => results.mapM (b.retryEntry recovered)

def chainData : ℕ → ℕ → ℕ → Except String (List ChainBlock) :=
  fetchRange "bitcoin" "failed to connect to btcd server: " b.connect fun node _ =>
    b.fetchBlocks node

def getCanonicalBlockHeader (height : ℕ) : Except String String :=
  match b.connect with
  | .error e => .error ("failed to connect to btcd: " ++ e)
  | .ok node =>
    match node.getBlockHash height with
    | .error e => .error ("failed to get block hash for height " ++ formatUint height ++ ": " ++ e)
    | .ok blockHash =>
      match node.getBlock blockHash with
      | .error e =>
        .error ("failed to get block at height " ++ formatUint height ++ ": " ++ e.text)
      | .ok header => .ok header.hexEncode

end BitcoinRelayer

/-! ## Dash and Litecoin -/

structure ForkRelayer where
  (symbol name daemon : String)
  validityThreshold : ℕ
  connect : Except String UtxoNode
  contractId : String

variable (connect : Except String UtxoNode)

def dashRelayer (contractId : String) : ForkRelayer :=
  ⟨"DASH", "dash", "dashd", 1, connect, contractId⟩

def litecoinRelayer (contractId : String) : ForkRelayer :=
  ⟨"LTC", "litecoin", "litecoind", 2, connect, contractId⟩

namespace ForkRelayer

variable (f : ForkRelayer)

/-- Unlike Bitcoin's, the height of a chain shorter than the threshold wraps. -/
def getLatestValidHeight : Except String ℕ :=
  match f.connect with
  | .error e => .error ("failed to connect to " ++ f.daemon ++ ": " ++ e)
  | .ok node =>
    match node.getBlockCount with
    | .error e => .error ("failed to get block count: " ++ e)
    | .ok blockCount => .ok ((blockCount - f.validityThreshold) % 2 ^ 64).toNat

def fetchBlock (node : UtxoNode) (height : ℕ) : Except String ChainBlock :=
  match node.getBlockHash height with
  | .error e => .error ("failed to get block hash at height " ++ formatUint height ++ ": " ++ e)
  | .ok blockHash =>
    match node.getBlock blockHash with
    | .error e =>
      .error ("failed to get block at height " ++ formatUint height ++
        ": failed to get block: " ++ e.text)
    | .ok header => .ok (utxoBlock f.symbol header none)

def chainData : ℕ → ℕ → ℕ → Except String (List ChainBlock) :=
  fetchRange f.name ("failed to connect to " ++ f.daemon ++ ": ") f.connect fun node _ heights =>
    heights.mapM (f.fetchBlock node)

end ForkRelayer

/-! ## Ethereum -/

structure EthereumRelayer where
  connect : Except String EthNode
  contractId : String

def serializeContractFormat (blockNumber : ℕ) (header : EthHeader) (baseFee : ℕ) : Bytes :=
  Bytes.putUint64 blockNumber ++ header.root ++ header.txHash ++ header.receiptHash ++
    Bytes.putUint64 baseFee ++ Bytes.putUint64 header.gasLimit ++ Bytes.putUint64 header.time

namespace EthNode

variable (node : EthNode)

def contractFormatKeccakHex (h : ℕ × EthHeader) : Except String String :=
  match ethBaseFee h.2 with
  | none => .error "base fee out of uint64 range"
  | some baseFee => .ok (node.keccak256 (serializeContractFormat h.1 h.2 baseFee)).hexEncode

def block (h : ℕ × EthHeader) (parentHashContract : String) : ChainBlock :=
  ⟨"ETH", (node.rlp h).map Bytes.hexEncode, none, some ⟨h.1, parentHashContract, h.2⟩⟩

def fetchBlocks (node : EthNode) : List ℕ → String → Except String (List ChainBlock)
  | [], _ => .ok []
  | height :: heights, prevHashContract =>
    match node.headerByNumber height with
    | .error e => .error ("failed to get header at height " ++ formatUint height ++ ": " ++ e)
    | .ok h =>
      match node.contractFormatKeccakHex h with
      | .error e =>
        .error ("compute contract-format keccak for header at " ++ formatUint height ++ ": " ++ e)
      | .ok thisHashContract =>
        match fetchBlocks node heights thisHashContract with
        | .error e => .error e
        | .ok blocks => .ok (node.block h prevHashContract :: blocks)

def fetchFrom (startHeight : ℕ) (heights : List ℕ) : Except String (List ChainBlock) :=
  match node.headerByNumber (startHeight - 1) with
  | .error e =>
    .error ("failed to get prev-tip header at height " ++ formatUint (startHeight - 1) ++
      " for parent_hash chain link: " ++ e)
  | .ok h =>
    match node.contractFormatKeccakHex h with
    | .error e =>
      .error ("compute contract-format keccak for prev tip at " ++
        formatUint (startHeight - 1) ++ ": " ++ e)
    | .ok prevHashContract => node.fetchBlocks heights prevHashContract

end EthNode

namespace EthereumRelayer

def getLatestValidHeight (e : EthereumRelayer) : Except String ℕ :=
  match e.connect with
  | .error err => .error ("failed to connect to ethereum RPC: " ++ err)
  | .ok node =>
    match node.finalized with
    | .error err => .error ("failed to get finalized block: " ++ err)
    | .ok h => .ok h.1

def chainData (e : EthereumRelayer) : ℕ → ℕ → ℕ → Except String (List ChainBlock) :=
  fetchRange "ethereum" "failed to connect to ethereum RPC: " e.connect EthNode.fetchFrom

end EthereumRelayer

/-! ## All relayers -/

inductive Relayer
  | bitcoin (b : BitcoinRelayer)
  | fork (f : ForkRelayer) (h : f.symbol ≠ "ETH")
  | ethereum (e : EthereumRelayer)

namespace Relayer

def symbol : Relayer → String
  | bitcoin _ => "BTC"
  | fork f _ => f.symbol
  | ethereum _ => "ETH"

def contractId : Relayer → String
  | bitcoin b => b.contractId
  | fork f _ => f.contractId
  | ethereum e => e.contractId

def chainData : Relayer → ℕ → ℕ → ℕ → Except String (List ChainBlock)
  | bitcoin b => b.chainData
  | fork f _ => f.chainData
  | ethereum e => e.chainData

def getCanonicalBlockHeader : Relayer → ℕ → Except String String
  | bitcoin b => b.getCanonicalBlockHeader
  | fork _ _ => fun _ => .ok ""
  | ethereum _ => fun _ => .ok ""

def getLatestValidHeight : Relayer → Except String ℕ
  | bitcoin b => b.getLatestValidHeight
  | fork f _ => f.getLatestValidHeight
  | ethereum e => e.getLatestValidHeight

def chainRelay (r : Relayer) : ChainRelay :=
  ⟨r.symbol, r.contractId, r.chainData, r.getCanonicalBlockHeader⟩

end Relayer

/-! ## The headers of a range -/

def UtxoNode.Reports (node : UtxoNode) (height : ℕ) (hex : String) : Prop :=
  ∃ hash header, node.getBlockHash height = .ok hash ∧ hex = header.hexEncode ∧
    (node.getBlock hash = .ok header ∨ ∃ hashes recovered,
      node.fetchPrunedBlocks hashes = .ok recovered ∧ recovered.getBlock hash = .ok header)

def EthNode.Reports (node : EthNode) (height : ℕ) (entry : EthAddBlockEntry) : Prop :=
  ∃ number header baseFee parentHash, node.headerByNumber height = .ok (number, header) ∧
    ethBaseFee header = some baseFee ∧
    entry = ⟨number, parentHash, header.root.hexEncode, header.txHash.hexEncode,
      header.receiptHash.hexEncode, baseFee, header.gasLimit, header.time⟩

def utxoNodeReports (heights : List ℕ) : AddBlocksPayload → Prop
  | .utxo blocks _ => ∃ node hexes, connect = .ok node ∧ blocks = hexes.foldl (· ++ ·) "" ∧
      List.Forall₂ node.Reports heights hexes
  | .eth _ _ => False

def Relayer.Reports (heights : List ℕ) (payload : AddBlocksPayload) : Relayer → Prop
  | .bitcoin b => utxoNodeReports b.connect heights payload
  | .fork f _ => utxoNodeReports f.connect heights payload
  | .ethereum e =>
    match payload with
    | .utxo _ _ => False
    | .eth entries _ => ∃ node, e.connect = .ok node ∧
        List.Forall₂ node.Reports heights entries

theorem forall₂_of_mapM_eq_ok {α β ε : Type} {f : α → Except ε β} :
    ∀ {xs : List α} {ys : List β}, xs.mapM f = .ok ys → List.Forall₂ (fun x y => f x = .ok y) xs ys
  | [], ys, h => by
      cases h
      exact .nil
  | x :: xs, ys, h => by
      rw [mapM_cons] at h
      cases hx : f x with
      | error e =>
        rw [hx] at h
        cases h
      | ok y =>
        cases hxs : xs.mapM f with
        | error e =>
          rw [hx, hxs] at h
          cases h
        | ok ys' =>
          rw [hx, hxs] at h
          cases h
          exact .cons hx (forall₂_of_mapM_eq_ok hxs)

variable {blocks : List ChainBlock} {payload : AddBlocksPayload}

variable {startHeight count latest : ℕ} {block : ChainBlock} {node : UtxoNode}

theorem fetchRange_eq_ok {ν : Type} {name connectError : String} {connect : Except String ν}
    {fetch : ν → ℕ → List ℕ → Except String (List ChainBlock)}
    (h : fetchRange name connectError connect fetch startHeight count latest = .ok blocks) :
    ∃ node, connect = .ok node ∧ fetch node startHeight
      (List.range' startHeight (stopHeight startHeight count latest - startHeight)) =
        .ok blocks := by
  simp only [fetchRange] at h
  iterate 3
    split at h
    · cases h
  rename_i node
  split at h
  · cases h
  · exact ⟨node, rfl, h⟩

theorem stopHeight_of_range {startBlock endBlock : ℕ} (hle : startBlock ≤ endBlock)
    (hmax : endBlock ≤ maxInt64) :
    stopHeight startBlock (endBlock - startBlock + 1) endBlock = endBlock + 1 := by
  rw [maxInt64] at hmax
  rw [stopHeight, show startBlock + (endBlock - startBlock + 1) = endBlock + 1 by omega]
  split <;> omega

/-! ### What each relayer returns -/

structure UtxoFetched (node : UtxoNode) (heights : List ℕ) (blocks : List ChainBlock) : Prop where
  headers : List.Forall₂ (fun height block => block.type ≠ "ETH" ∧
    ∃ hex, block.serialize = .ok hex ∧ node.Reports height hex) heights blocks

theorem getBlockByHash_eq_ok {blocks : UtxoBlocks} {hash : String} {rate : Int}
    (h : getBlockByHash blocks hash rate = .ok block) :
    ∃ header rate', blocks.getBlock hash = .ok header ∧
      block = utxoBlock "BTC" header (some rate') := by
  rw [getBlockByHash] at h
  split at h
  · cases h
  rename_i header hheader
  split at h
  · cases h
    exact ⟨header, rate, hheader, rfl⟩
  split at h
  · cases h
  · cases h
    exact ⟨header, _, hheader, rfl⟩

namespace BitcoinRelayer

variable {b : BitcoinRelayer} {node : UtxoNode} {heights : List ℕ} {blocks : List ChainBlock}

theorem reports_of_retryEntry {recovered : UtxoBlocks} {height : ℕ} {entry : String × ℕ}
    {result : (String × ℕ) × Option ChainBlock} {block : ChainBlock}
    (hentry : hashEntry node height = .ok entry) (htry : b.tryEntry node entry = .ok result)
    (hretry : b.retryEntry recovered result = .ok block)
    (hrecovered : recovered = node.toUtxoBlocks ∨
      ∃ hashes, node.fetchPrunedBlocks hashes = .ok recovered) :
    block.type ≠ "ETH" ∧ ∃ hex, block.serialize = .ok hex ∧ node.Reports height hex := by
  have hhash : node.getBlockHash height = .ok entry.1 := by
    rw [hashEntry] at hentry
    split at hentry
    · cases hentry
    · cases hentry
      assumption
  have hblock : ∃ src header rate, src.getBlock entry.1 = .ok header ∧
      block = utxoBlock "BTC" header rate ∧
      (src = node.toUtxoBlocks ∨ ∃ hashes, node.fetchPrunedBlocks hashes = .ok src) := by
    rw [tryEntry] at htry
    split at htry
    · rename_i first hfirst
      cases htry
      cases hretry
      obtain ⟨header, rate, hheader, rfl⟩ := getBlockByHash_eq_ok hfirst
      exact ⟨_, header, _, hheader, rfl, .inl rfl⟩
    · cases htry
      rw [retryEntry] at hretry
      split at hretry
      · rename_i second hsecond
        cases hretry
        obtain ⟨header, rate, hheader, rfl⟩ := getBlockByHash_eq_ok hsecond
        exact ⟨_, header, _, hheader, rfl, hrecovered⟩
      · cases hretry
    · cases htry
  obtain ⟨src, header, rate, hheader, rfl, rfl | ⟨hashes, hfetched⟩⟩ := hblock
  · exact ⟨(by decide : "BTC" ≠ "ETH"), _, rfl, entry.1, header, hhash, rfl, .inl hheader⟩
  · exact ⟨(by decide : "BTC" ≠ "ETH"), _, rfl, entry.1, header, hhash, rfl,
      .inr ⟨hashes, src, hfetched, hheader⟩⟩

theorem fetchBlocks_eq_ok (h : b.fetchBlocks node heights = .ok blocks) :
    UtxoFetched node heights blocks := by
  rw [fetchBlocks] at h
  split at h
  · cases h
  rename_i entries hentries
  split at h
  · cases h
  rename_i results hresults
  have hfetched : ∃ recovered, results.mapM (b.retryEntry recovered) = .ok blocks ∧
      (recovered = node.toUtxoBlocks ∨
        ∃ hashes, node.fetchPrunedBlocks hashes = .ok recovered) := by
    split at h
    · exact ⟨_, h, .inl rfl⟩
    split at h
    · cases h
    · rename_i recovered hrecovered
      exact ⟨recovered, h, .inr ⟨_, hrecovered⟩⟩
  obtain ⟨recovered, hblocks, hrecovered⟩ := hfetched
  have h₁ := forall₂_of_mapM_eq_ok hentries
  have h₂ := forall₂_of_mapM_eq_ok hresults
  have h₃ := forall₂_of_mapM_eq_ok hblocks
  refine ⟨?_⟩
  clear hentries hresults hblocks h
  -- the three passes go through the heights together
  induction h₁ generalizing results blocks with
  | nil =>
    cases h₂
    cases h₃
    exact .nil
  | cons hentry _ ih =>
    cases h₂ with
    | cons htry h₂ =>
      cases h₃ with
      | cons hretry h₃ =>
        exact .cons (reports_of_retryEntry hentry htry hretry hrecovered) (ih _ h₂ h₃)

end BitcoinRelayer

theorem ForkRelayer.fetchBlock_eq_ok {f : ForkRelayer} {height : ℕ} (hf : f.symbol ≠ "ETH")
    (h : f.fetchBlock node height = .ok block) :
    block.type ≠ "ETH" ∧ ∃ hex, block.serialize = .ok hex ∧ node.Reports height hex := by
  rw [fetchBlock] at h
  split at h
  · cases h
  rename_i hash hhash
  split at h
  · cases h
  rename_i header hheader
  cases h
  exact ⟨hf, _, rfl, hash, header, hhash, rfl, .inl hheader⟩

theorem makeUtxoPayload_eq_ok (hfetched : UtxoFetched node heights blocks) :
    ∀ {acc : String} {fee : Int}, makeUtxoPayload blocks acc fee = .ok payload →
      ∃ hexes fee', payload = .utxo (hexes.foldl (· ++ ·) acc) fee' ∧
        List.Forall₂ node.Reports heights hexes := by
  obtain ⟨hheaders⟩ := hfetched
  induction hheaders with
  | nil =>
    intro acc fee h
    cases h
    exact ⟨[], fee, rfl, .nil⟩
  | cons hblock _ ih =>
    intro acc fee h
    obtain ⟨_, hex, hserialize, hreports⟩ := hblock
    rw [makeUtxoPayload, hserialize] at h
    obtain ⟨hexes, fee', hpayload, hall⟩ := ih h
    exact ⟨hex :: hexes, fee', hpayload, .cons hreports hall⟩

theorem utxoNodeReports_of_fetched {connect : Except String UtxoNode}
    (hconnect : connect = .ok node) (hfetched : UtxoFetched node heights blocks)
    (h : makeTransactionPayload blocks = .ok payload) :
    utxoNodeReports connect heights payload := by
  cases blocks with
  | nil =>
    cases h
    cases hfetched.headers
    exact ⟨node, [], hconnect, rfl, .nil⟩
  | cons block rest =>
    have htype : block.type ≠ "ETH" := by
      cases hfetched.headers with
      | cons hblock _ => exact hblock.1
    rw [makeTransactionPayload, if_neg htype] at h
    obtain ⟨hexes, fee, rfl, hall⟩ := makeUtxoPayload_eq_ok hfetched h
    exact ⟨node, hexes, hconnect, rfl, hall⟩

structure EthFetched (node : EthNode) (heights : List ℕ) (blocks : List ChainBlock) : Prop where
  headers : List.Forall₂ (fun height block => ∃ h parentHash,
    node.headerByNumber height = .ok h ∧ block = node.block h parentHash) heights blocks

variable {node : EthNode}

theorem EthNode.fetchBlocks_eq_ok : ∀ {heights : List ℕ} {prev : String} {blocks : List ChainBlock},
      node.fetchBlocks heights prev = .ok blocks → EthFetched node heights blocks
  | [], _, _, h => by
      cases h
      exact ⟨.nil⟩
  | height :: heights, prev, blocks, h => by
      rw [fetchBlocks] at h
      split at h
      · cases h
      rename_i header hheader
      split at h
      · cases h
      split at h
      · cases h
      rename_i rest hrest
      cases h
      exact ⟨.cons ⟨header, prev, hheader, rfl⟩ (fetchBlocks_eq_ok hrest).headers⟩

theorem EthNode.fetchFrom_eq_ok {startHeight : ℕ}
    (h : node.fetchFrom startHeight heights = .ok blocks) : EthFetched node heights blocks := by
  rw [fetchFrom] at h
  split at h
  · cases h
  split at h
  · cases h
  · exact fetchBlocks_eq_ok h

theorem makeEthPayload_eq_ok (hfetched : EthFetched node heights blocks) :
    ∀ {i fee : ℕ} {acc : List EthAddBlockEntry}, makeEthPayload blocks i acc fee = .ok payload →
      ∃ entries fee', payload = .eth (acc.reverse ++ entries) fee' ∧
        List.Forall₂ node.Reports heights entries := by
  obtain ⟨hheaders⟩ := hfetched
  induction hheaders with
  | nil =>
    intro i fee acc h
    cases h
    exact ⟨[], fee, by rw [append_nil], .nil⟩
  | cons hblock _ ih =>
    intro i fee acc h
    obtain ⟨⟨number, header⟩, parentHash, hheader, rfl⟩ := hblock
    rw [makeEthPayload] at h
    dsimp only [EthNode.block] at h
    split at h
    · cases h
    rename_i baseFee hfee
    obtain ⟨entries, fee', hpayload, hall⟩ := ih h
    rw [reverse_cons, append_assoc] at hpayload
    exact ⟨_, fee', hpayload, .cons ⟨number, header, baseFee, parentHash, hheader, hfee, rfl⟩ hall⟩

theorem Relayer.reports_of_chainData {r : Relayer}
    (h : r.chainData startHeight count latest = .ok blocks)
    (hpayload : makeTransactionPayload blocks = .ok payload) (hne : blocks ≠ []) :
    r.Reports (List.range' startHeight (stopHeight startHeight count latest - startHeight))
      payload := by
  cases r with
  | bitcoin b =>
    rw [chainData, BitcoinRelayer.chainData] at h
    obtain ⟨node, hnode, hfetch⟩ := fetchRange_eq_ok h
    exact utxoNodeReports_of_fetched hnode (BitcoinRelayer.fetchBlocks_eq_ok hfetch) hpayload
  | fork f hf =>
    rw [chainData, ForkRelayer.chainData] at h
    obtain ⟨node, hnode, hfetch⟩ := fetchRange_eq_ok h
    refine utxoNodeReports_of_fetched hnode ⟨?_⟩ hpayload
    exact (forall₂_of_mapM_eq_ok hfetch).imp fun _ _ => ForkRelayer.fetchBlock_eq_ok hf
  | ethereum e =>
    rw [chainData, EthereumRelayer.chainData] at h
    obtain ⟨node, hnode, hfetch⟩ := fetchRange_eq_ok h
    have hfetched := EthNode.fetchFrom_eq_ok hfetch
    cases blocks with
    | nil => exact absurd rfl hne
    | cons block rest =>
      have htype : block.type = "ETH" := by
        generalize range' startHeight _ = heights at hfetched
        cases hfetched.headers with
        | cons hblock _ =>
          obtain ⟨_, _, _, rfl⟩ := hblock
          rfl
      rw [makeTransactionPayload, if_pos htype] at hpayload
      obtain ⟨entries, fee, rfl, hall⟩ := makeEthPayload_eq_ok hfetched hpayload
      exact ⟨node, hnode, hall⟩

end VscNode.Oracle
