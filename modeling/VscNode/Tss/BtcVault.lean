import VscNode.Lib.Bytes
import VscNode.Lib.Text

/-!
# The Bitcoin vault as the node reads it

The mapping contract keeps its vault generations and its pending spends in its
own state. This module decodes what the node reads of them (`lib/btcvault`): the
registry under `v`, the pending spends under `p` and `d-<txid>`, the name of a
generation's key, the script a generation is paid at, and the message a fresh
key signs before its generation is activated.

Hashing, the wire format of a transaction and the digest of an input come from
libraries and are one record of functions, `BtcLib`; so are the primitives of
the MessagePack reader, `MsgpReader`, over which the decoder of the signing data
is written. The results below hold for every such record.
-/

namespace VscNode.BtcVault

/-! ## Generations -/

inductive VaultStatus
  | pending | active | retiring | draining | inactive | purged
  | other (byte : UInt8)
  deriving DecidableEq

def VaultStatus.ofByte (byte : UInt8) : VaultStatus :=
  if byte = 0 then .pending
  else if byte = 1 then .active
  else if byte = 2 then .retiring
  else if byte = 3 then .draining
  else if byte = 4 then .inactive
  else if byte = 5 then .purged
  else .other byte

structure Vault where
  generation : UInt32
  (primary backup : Bytes)
  status : VaultStatus
  (predecessor createdHeight activatedHeight retiredHeight inactiveHeight : UInt32)
  deriving DecidableEq

def vaultEntrySize : ℕ := 91

def compressedPubKeyLen : ℕ := 33

def unmarshalVault (entry : Bytes) : Vault where
  generation := entry.uint32
  primary := entry.slice 4 37
  backup := entry.slice 37 70
  status := VaultStatus.ofByte (entry.getD 70 0)
  predecessor := Bytes.uint32 (entry.drop 71)
  createdHeight := Bytes.uint32 (entry.drop 75)
  activatedHeight := Bytes.uint32 (entry.drop 79)
  retiredHeight := Bytes.uint32 (entry.drop 83)
  inactiveHeight := Bytes.uint32 (entry.drop 87)

variable (data : Bytes) (gen : UInt32)

/-- The registry under `v`: entries of a fixed width and nothing between them. -/
def unmarshalVaultRegistry : Option (List Vault) :=
  if data.length % vaultEntrySize ≠ 0 then none
  else some ((Bytes.records vaultEntrySize data).map unmarshalVault)

/-! ## Key names -/

/-- Generation 0 keeps the name `main`, generation `N` is `mainv<N>`. -/
def vaultKeyName : String :=
  if gen = 0 then "main" else "main" ++ "v" ++ Text.formatUint gen.toNat

def parseUint32 (s : String) : Option UInt32 :=
  (Text.parseUint s).bind fun n => if n < 2 ^ 32 then some (UInt32.ofNat n) else none

/-- The generation a key name stands for; only the form `vaultKeyName` writes is read. -/
def vaultGenFromKeyName (name : String) : Option UInt32 :=
  if name = "main" then some 0
  else if Text.hasPrefix name "mainv" = false then none
  else
    let num := Text.trimPrefix name "mainv"
    if num = "" ∨ num.toList.head? = some '0' then none
    else
      (parseUint32 num).bind fun n => if n = 0 then none else some n

def vaultGenFromKeyId (contractId keyId : String) : Option UInt32 :=
  if contractId = "" then none
  else if Text.hasPrefix keyId (contractId ++ "-") = false then none
  else vaultGenFromKeyName (Text.trimPrefix keyId (contractId ++ "-"))

def vaultKeyId (contractId : String) (gen : UInt32) : String :=
  contractId ++ "-" ++ vaultKeyName gen

theorem parseUint32_formatUint : parseUint32 (Text.formatUint gen.toNat) = some gen := by
  have hlt : gen.toNat < 2 ^ 32 := gen.toNat_lt
  rw [parseUint32, Text.parseUint_formatUint (by omega), Option.bind_some, if_pos hlt,
    UInt32.ofNat_toNat]

theorem vaultGenFromKeyName_vaultKeyName : vaultGenFromKeyName (vaultKeyName gen) = some gen := by
  unfold vaultKeyName
  split
  · next hzero =>
      subst hzero
      rfl
  next hzero =>
    have hnat : gen.toNat ≠ 0 := fun h => hzero (UInt32.toNat_inj.1 h)
    have hname : "main" ++ "v" ++ Text.formatUint gen.toNat =
        "mainv" ++ Text.formatUint gen.toNat := rfl
    have hne : ("mainv" ++ Text.formatUint gen.toNat) ≠ "main" := by
      intro h
      have := congrArg (fun s => s.toList.length) h
      simp at this
    have hnum : ¬ (Text.formatUint gen.toNat = "" ∨
        (Text.formatUint gen.toNat).toList.head? = some '0') := by
      rintro (h | h)
      · have := congrArg String.toList h
        rw [Text.formatUint, Nat.toList_repr] at this
        exact Nat.toDigits_ne_nil this
      · exact Text.head?_formatUint hnat h
    rw [hname, vaultGenFromKeyName, if_neg hne, if_neg (by rw [Text.hasPrefix_append]; decide)]
    simp only [Text.trimPrefix_append]
    rw [if_neg hnum, parseUint32_formatUint, Option.bind_some, if_neg hzero]

/-- Only the names of generations are read. -/
theorem eq_vaultKeyName {name : String} {gen : UInt32} (h : vaultGenFromKeyName name = some gen) :
    name = vaultKeyName gen := by
  rw [vaultGenFromKeyName] at h
  split at h
  · cases h
    assumption
  split at h
  · cases h
  rename_i hprefix
  obtain ⟨l, hl⟩ := Text.hasPrefix_iff.1 (Bool.eq_true_of_not_eq_false hprefix)
  obtain rfl : name = "mainv" ++ String.ofList l := String.toList_inj.1 (by simp [← hl])
  simp only [Text.trimPrefix_append, parseUint32, Text.parseUint, Option.ite_none_left_eq_some,
    Option.bind_eq_some_iff, Option.ite_none_right_eq_some, Option.some.injEq, not_or,
    String.toList_ofList] at h
  obtain ⟨⟨-, hhead⟩, _, ⟨_, ⟨⟨hne, hdigits, -⟩, rfl⟩, hlt, rfl⟩, hzero, rfl⟩ := h
  have hnum : String.ofList l = Text.formatUint (Nat.ofDigitChars 10 l 0) := by
    apply String.toList_inj.1
    rw [String.toList_ofList, Text.formatUint_ofDigitChars hne (List.all_eq_true.1 hdigits) hhead]
  rw [vaultKeyName, if_neg hzero, UInt32.toNat_ofNat_of_lt' hlt, ← hnum]
  rfl

theorem vaultGenFromKeyId_vaultKeyId {contractId : String} (h : contractId ≠ "") (gen : UInt32) :
    vaultGenFromKeyId contractId (vaultKeyId contractId gen) = some gen := by
  rw [vaultGenFromKeyId, if_neg h, vaultKeyId, if_neg (by rw [Text.hasPrefix_append]; decide),
    Text.trimPrefix_append, vaultGenFromKeyName_vaultKeyName]

/-! ## Library functions -/

structure TxIn where
  previousTx : Bytes
  (index sequence : UInt32)
  deriving DecidableEq

structure TxOut where
  value : ℤ
  pkScript : Bytes
  deriving DecidableEq

/-- `wire.MsgTx`. -/
structure MsgTx where
  version : ℤ
  txIn : List TxIn
  txOut : List TxOut
  lockTime : UInt32
  deriving DecidableEq

/-- What the vault code takes from other libraries: `sha256.Sum256`, what a `ScriptBuilder`
appends for data and for a number, the wire format of a transaction, and the digest of an input
under BIP143 with `SigHashAll`, of the witness script, the transaction, the input's index and
the amount it spends. -/
structure BtcLib where
  (sha256 addData : Bytes → Bytes)
  addInt64 : ℕ → Bytes
  deserialize : Bytes → Option MsgTx
  calcWitnessSigHash : Bytes → MsgTx → ℕ → ℤ → Option Bytes

/-- The reader of the MessagePack library: each function reads from the front of what is left. -/
structure MsgpReader where
  (readMapHeader readArrayHeader : StateT Bytes Option UInt32)
  readString : StateT Bytes Option String
  readBytes : StateT Bytes Option Bytes
  readUint32 : StateT Bytes Option UInt32
  readInt64 : StateT Bytes Option ℤ
  skip : StateT Bytes Option Unit

/-! ## Pending spends -/

/-- The pending spends under `p`: the hexadecimal ids of their transactions. -/
def unmarshalTxSpendsRegistry : Option (List String) :=
  if data.length % 32 ≠ 0 then none
  else some ((Bytes.records 32 data).map Bytes.hexEncode)

/-- What the contract asks to have signed for one input; `amount` is `none` when the entry
carries none. -/
structure UnsignedSigHash where
  index : UInt32 := 0
  sigHash : Bytes := []
  witnessScript : Bytes := []
  amount : Option ℤ := none
  deriving DecidableEq

structure SigningData where
  tx : Bytes := []
  unsignedSigHashes : List UnsignedSigHash := []
  deriving DecidableEq

namespace MsgpReader

variable (r : MsgpReader)

def readFields {α : Type} (field : String → α → StateT Bytes Option α) :
    ℕ → α → StateT Bytes Option α
  | 0, a => pure a
  | n + 1, a => do
    let key ← r.readString
    let a' ← field key a
    readFields field n a'

def unsignedSigHashField (key : String) (uh : UnsignedSigHash) :
    StateT Bytes Option UnsignedSigHash := do
  match key with
  | "i" => return { uh with index := ← r.readUint32 }
  | "hs" => return { uh with sigHash := ← r.readBytes }
  | "ws" => return { uh with witnessScript := ← r.readBytes }
  | "am" => return { uh with amount := some (← r.readInt64) }
  | _ => r.skip; return uh

def decodeUnsignedSigHash : StateT Bytes Option UnsignedSigHash := do
  let nfields ← r.readMapHeader
  r.readFields r.unsignedSigHashField nfields.toNat {}

/-- The entries of an array, in order. -/
def readEntries : ℕ → StateT Bytes Option (List UnsignedSigHash)
  | 0 => pure []
  | n + 1 => do
    let uh ← r.decodeUnsignedSigHash
    let rest ← readEntries n
    return uh :: rest

def signingDataField (key : String) (sd : SigningData) : StateT Bytes Option SigningData := do
  match key with
  | "tx" => return { sd with tx := ← r.readBytes }
  | "uh" =>
    let alen ← r.readArrayHeader
    return { sd with unsignedSigHashes := ← r.readEntries alen.toNat }
  | _ => r.skip; return sd

/-- The signing data under `d-<txid>`; keys it does not know are skipped. -/
def decodeSigningData (raw : Bytes) : Option SigningData :=
  StateT.run' (do
    let nfields ← r.readMapHeader
    r.readFields r.signingDataField nfields.toNat {}) raw

end MsgpReader

/-! ## Scripts and digests -/

/-- How many blocks the backup key of a vault has to wait. -/
def csvBlocksForNet (mainnet : Bool) : ℕ := if mainnet then 4320 else 2

namespace BtcLib

variable (lib : BtcLib)

/-- `OP_IF <primary> OP_CHECKSIG OP_ELSE <csv> OP_CHECKSEQUENCEVERIFY OP_DROP <backup>
OP_CHECKSIG OP_ENDIF`. -/
def witnessScript (primary backup : Bytes) (csvBlocks : ℕ) : Bytes :=
  [0x63] ++ lib.addData primary ++ [0xac, 0x67] ++ lib.addInt64 csvBlocks ++ [0xb2, 0x75] ++
    lib.addData backup ++ [0xac, 0x68]

def successorPkScriptRaw (primary backup : Bytes) (csvBlocks : ℕ) : Bytes :=
  [0x00] ++ lib.addData (lib.sha256 (lib.witnessScript primary backup csvBlocks))

/-- The script of a vault from the hexadecimal text of its two keys. -/
def successorPkScript (primaryHex backupHex : String) (csvBlocks : ℕ) : Option Bytes := do
  let primary ← Bytes.hexDecode primaryHex
  let backup ← Bytes.hexDecode backupHex
  if primary.length ≠ compressedPubKeyLen ∨ backup.length ≠ compressedPubKeyLen then none
  else some (lib.successorPkScriptRaw primary backup csvBlocks)

/-- The digest of an input, computed from the serialized transaction. -/
def recomputeSegwitV0Sighash (txBytes : Bytes) (inputIndex : ℕ) (witnessScript : Bytes)
    (amountSats : ℤ) : Option Bytes := do
  let tx ← lib.deserialize txBytes
  if inputIndex ≥ tx.txIn.length then none
  else lib.calcWitnessSigHash witnessScript tx inputIndex amountSats

def checkSigMessage (keyId : String) (gen : UInt32) (pubkey : Bytes) : Bytes :=
  lib.sha256 (Bytes.ofString "MAGI-VAULT-CHECKSIG-v2"
    ++ Bytes.putUint16 (UInt16.ofNat (Bytes.ofString keyId).length) ++ Bytes.ofString keyId
    ++ Bytes.putUint32 gen ++ pubkey)

end BtcLib

/-- Names and messages of generations are told apart. -/
theorem generations_identified :
    (∀ name gen, vaultGenFromKeyName name = some gen ↔ name = vaultKeyName gen) ∧
    ∃ hashed : String → UInt32 → Bytes → Bytes,
      (∀ (lib : BtcLib) keyId gen pubkey,
        lib.checkSigMessage keyId gen pubkey = lib.sha256 (hashed keyId gen pubkey)) ∧
      ∀ keyId keyId' gen gen' pubkey pubkey', (Bytes.ofString keyId).length < 65536 →
        (Bytes.ofString keyId').length < 65536 → (keyId, gen, pubkey) ≠ (keyId', gen', pubkey') →
        hashed keyId gen pubkey ≠ hashed keyId' gen' pubkey' := by
  refine ⟨fun name gen => ⟨eq_vaultKeyName, ?_⟩, _, fun _ _ _ _ => rfl, ?_⟩
  · rintro rfl
    exact vaultGenFromKeyName_vaultKeyName gen
  intro keyId keyId' gen gen' pubkey pubkey' hlen hlen' hne heq
  simp only [List.append_assoc, List.append_cancel_left_eq] at heq
  obtain ⟨hsize, heq⟩ := List.append_inj heq rfl
  have hsize' := congrArg UInt16.toNat (Bytes.putUint16_injective hsize)
  rw [UInt16.toNat_ofNat_of_lt' hlen, UInt16.toNat_ofNat_of_lt' hlen'] at hsize'
  obtain ⟨hkey, heq⟩ := List.append_inj heq hsize'
  obtain ⟨hgen, hpubkey⟩ := List.append_inj heq rfl
  rw [Bytes.ofString_injective hkey, Bytes.putUint32_injective hgen, hpubkey] at hne
  exact hne rfl

def allOutputsPay (tx : MsgTx) (pkScript : Bytes) : Bool :=
  if tx.txOut.length = 0 then false
  else tx.txOut.all fun out => out.pkScript == pkScript

theorem allOutputsPay_iff {tx : MsgTx} {pkScript : Bytes} : allOutputsPay tx pkScript = true ↔
      tx.txOut ≠ [] ∧ ∀ out ∈ tx.txOut, out.pkScript = pkScript := by
  by_cases hnil : tx.txOut = []
  · simp [allOutputsPay, hnil]
  · simp [allOutputsPay, hnil]

end VscNode.BtcVault
