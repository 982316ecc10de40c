import VscNode.Tss.BtcVault

/-!
# Output scoping of vault signatures

Before a node takes part in a signature of a Bitcoin vault key it decides from
the contract's state and the committed keys what the signature may be for
(`modules/tss/output_scoping.go`). The registry under `v` is classified by
`resolveVaultView`, the digest is judged by `evaluateScope`, and
`btcSignGateDecision` combines the verdict with the solvency halt.

The registry and the templates of pending spends are written by the contract and
are not trusted. `Scan` says what is known of a registry once the loop over it
has ended; from it every verdict that lets a signature through is traced back to
an entry of the registry (`evaluateScope_allow`, `evaluateScope_sweep`,
`evaluateScope_checkSig`), and the gate's decision to those.
-/

namespace VscNode.Tss

open BtcVault List Option

inductive TssKeyStatus
  | created | active | new | deprecated | retired
  deriving DecidableEq

/-- A committed key, as the gate reads it. -/
structure TssKey where
  publicKey : String
  status : TssKeyStatus
  deriving DecidableEq

/-- What the gate reads. `readKeyStrict` tells a failed read from an absent key; `findKey` is
`none` on an error or when no key is stored. -/
structure BtcScopeDeps where
  contractId : String
  readKeyStrict : String → Except String (Option Bytes)
  findKey : String → Option TssKey
  mainnet : Bool
  lib : BtcLib
  msgp : MsgpReader

/-- The contract's generations at a height. -/
structure BtcVaultView where
  successorKeyId : String := ""
  successorBackupHex : String := ""
  byKeyId : List (String × Vault) := []

inductive VaultResolve
  | absent
  | resolved (view : BtcVaultView)
  | unresolvable
  | genesisPending (view : BtcVaultView)

inductive ScopeVerdict
  | allow | refuse | successorSweep | checkSig
  deriving DecidableEq

namespace BtcScopeDeps

variable (d : BtcScopeDeps)

/-- The lenient reader wraps the strict one and drops its error. -/
def readKey (key : String) : Option Bytes := (d.readKeyStrict key).toOption.join

/-- One turn of the loop over the registry, with the number of active generations so far. -/
def scanVault (acc : BtcVaultView × ℕ) (v : Vault) : Option (BtcVaultView × ℕ) :=
  let keyId := vaultKeyId d.contractId v.generation
  if (acc.1.byKeyId.lookup keyId).isSome then none
  else
    let byKeyId := acc.1.byKeyId ++ [(keyId, v)]
    if v.status = .active then
      some ({ successorKeyId := keyId
              successorBackupHex := Bytes.hexEncode v.backup
              byKeyId := byKeyId }, acc.2 + 1)
    else some ({ acc.1 with byKeyId := byKeyId }, acc.2)

def resolveVaultView : VaultResolve :=
  if d.contractId = "" then .absent
  else
    match d.readKeyStrict "v" with
    | .error _ => .unresolvable
    | .ok none => .absent
    | .ok (some rawV) =>
      if rawV.length = 0 then .absent
      else
        match unmarshalVaultRegistry rawV with
        | none => .unresolvable
        | some vaults =>
          if vaults.length = 0 then .unresolvable
          else
            match vaults.foldlM d.scanVault ({}, 0) with
            | none => .unresolvable
            | some (view, activeCount) =>
              if activeCount ≠ 1 then
                if vaults.length = 1 ∧ vaults.head?.map Vault.status = some .pending then
                  .genesisPending view
                else .unresolvable
              else .resolved view

variable (keyId : String) (sighash : Bytes)

/-- Whether the digest is the check signature of a pending generation's own committed key. -/
def pendingSignIsCheckSig : Bool :=
  match vaultGenFromKeyId d.contractId keyId with
  | none => false
  | some gen =>
    match d.findKey keyId with
    | none => false
    | some k =>
      if k.publicKey = "" ∨ k.status ≠ .active then false
      else
        match Bytes.hexDecode k.publicKey with
        | none => false
        | some pub =>
          if pub.length ≠ 33 then false
          else d.lib.checkSigMessage keyId gen pub == sighash

/-- The judgement on an entry that stores the digest asked for: the digest is computed again
from the template, and every output of the template has to pay the successor. -/
def bindsToSuccessor (sighash successorPk : Bytes) (sd : SigningData) (uh : UnsignedSigHash) :
    Bool :=
  match uh.amount with
  | none => false
  | some amount =>
    if d.lib.recomputeSegwitV0Sighash sd.tx uh.index.toNat uh.witnessScript amount ≠ some sighash
    then false
    else
      match d.lib.deserialize sd.tx with
      | none => false
      | some tx => allOutputsPay tx successorPk

/-- The loop over the pending spends: the first entry that stores the digest decides. -/
def sweepAmong (sighash successorPk : Bytes) : List String → Bool
  | [] => false
  | txid :: txids =>
    match (d.readKey ("d-" ++ txid)).bind d.msgp.decodeSigningData with
    | none => sweepAmong sighash successorPk txids
    | some sd =>
      match sd.unsignedSigHashes.find? fun uh => uh.sigHash == sighash with
      | some uh => d.bindsToSuccessor sighash successorPk sd uh
      | none => sweepAmong sighash successorPk txids

def retiringSignPaysSuccessor (view : BtcVaultView) : Bool :=
  match d.findKey view.successorKeyId with
  | none => false
  | some successorKey =>
    if successorKey.publicKey = "" ∨ successorKey.status ≠ .active then false
    else
      match d.lib.successorPkScript successorKey.publicKey view.successorBackupHex
          (csvBlocksForNet d.mainnet) with
      | none => false
      | some successorPk =>
        match (d.readKey "p").bind unmarshalTxSpendsRegistry with
        | none => false
        | some txids => d.sweepAmong sighash successorPk txids

def evaluateScope : ScopeVerdict :=
  match d.resolveVaultView with
  | .absent => if keyId = vaultKeyId d.contractId 0 then .allow else .refuse
  | .unresolvable => .refuse
  | .genesisPending view =>
    match view.byKeyId.lookup keyId with
    | none => .refuse
    | some v =>
      if v.status = .pending ∧ d.pendingSignIsCheckSig keyId sighash then .checkSig else .refuse
  | .resolved view =>
    match view.byKeyId.lookup keyId with
    | none => .refuse
    | some v =>
      match v.status with
      | .active => .allow
      | .retiring | .draining =>
        if d.retiringSignPaysSuccessor sighash view then .successorSweep else .refuse
      | .pending => if d.pendingSignIsCheckSig keyId sighash then .checkSig else .refuse
      | _ => .refuse

end BtcScopeDeps

/-- Whether the node skips the signature. -/
def btcSignGateDecision (verdict : ScopeVerdict) (halted : Bool) : Bool :=
  if verdict = .refuse then true
  else if halted ∧ verdict ≠ .successorSweep ∧ verdict ≠ .checkSig then true
  else false

/-! ## The registry after the loop -/

namespace BtcScopeDeps

variable {d : BtcScopeDeps}

/-- What the loop knows of the entries `seen` so far. -/
structure Scan (d : BtcScopeDeps) (seen : List Vault) (acc : BtcVaultView × ℕ) : Prop where
  byKeyId : acc.1.byKeyId = seen.map fun v => (vaultKeyId d.contractId v.generation, v)
  nodup : (seen.map Vault.generation).Nodup
  activeCount : acc.2 = (seen.filter fun v => v.status = .active).length
  successor : ∀ a, (seen.filter fun v => v.status = .active).getLast? = some a →
    acc.1.successorKeyId = vaultKeyId d.contractId a.generation ∧
      acc.1.successorBackupHex = Bytes.hexEncode a.backup

variable {acc : BtcVaultView × ℕ} {vaults : List Vault}

variable {acc' : BtcVaultView × ℕ} {seen : List Vault} {v : Vault} {sighash pk : Bytes}

theorem Scan.scanVault (h : Scan d seen acc) (hscan : d.scanVault acc v = some acc') :
    Scan d (seen ++ [v]) acc' := by
  unfold BtcScopeDeps.scanVault at hscan
  dsimp only at hscan
  split at hscan
  · cases hscan
  next hfresh =>
    have hnew : v.generation ∉ seen.map Vault.generation := by
      intro hmem
      obtain ⟨u, hu, hgen⟩ := mem_map.1 hmem
      apply hfresh
      rw [h.byKeyId, lookup_isSome_iff]
      refine ⟨_, mem_map.2 ⟨u, hu, rfl⟩, ?_⟩
      rw [hgen]
      exact beq_self_eq_true _
    have hnodup : ((seen ++ [v]).map Vault.generation).Nodup := by
      rw [map_append, map_singleton, nodup_append]
      refine ⟨h.nodup, by simp, ?_⟩
      rintro g hg g' hg' rfl
      exact hnew (mem_singleton.1 hg' ▸ hg)
    split at hscan
    · next hactive =>
        obtain rfl := some.inj hscan
        refine ⟨by simp [h.byKeyId], hnodup, by simp [hactive, h.activeCount], ?_⟩
        intro a ha
        simp only [filter_append, filter_cons, hactive, decide_true, if_true,
          filter_nil, getLast?_append, getLast?_singleton, some_or,
          some.injEq] at ha
        subst ha
        exact ⟨rfl, rfl⟩
    next hactive =>
      obtain rfl := some.inj hscan
      refine ⟨by simp [h.byKeyId], hnodup, by simp [hactive, h.activeCount], ?_⟩
      intro a ha
      rw [filter_append, filter_singleton] at ha
      simp only [hactive, decide_false] at ha
      exact h.successor a (by simpa using ha)

theorem Scan.foldlM (h : Scan d seen acc) (hscan : vaults.foldlM d.scanVault acc = some acc') :
    Scan d (seen ++ vaults) acc' := by
  induction vaults generalizing seen acc with
  | nil =>
    obtain rfl := some.inj hscan
    simpa using h
  | cons v vaults ih =>
    rw [foldlM_cons] at hscan
    obtain ⟨acc₁, hstep, hrest⟩ := bind_eq_some_iff.1 hscan
    simpa using ih (h.scanVault hstep) hrest

theorem scan_of_foldlM (h : vaults.foldlM d.scanVault ({}, 0) = some acc) : Scan d vaults acc := by
  have hinit : Scan d [] ({}, 0) := ⟨rfl, nodup_nil, rfl, by simp⟩
  simpa using hinit.foldlM h

/-! ## What a signature may be for -/

section

variable (d : BtcScopeDeps)

/-- The state holds a registry that decodes to these generations. -/
def Registry (vaults : List Vault) : Prop :=
  d.contractId ≠ "" ∧ ∃ raw, d.readKeyStrict "v" = .ok (some raw) ∧ raw ≠ [] ∧
    unmarshalVaultRegistry raw = some vaults

/-- There is no contract, or nothing is stored under `v`, or an empty value is. -/
def NoRegistry : Prop :=
  d.contractId = "" ∨ d.readKeyStrict "v" = .ok none ∨ d.readKeyStrict "v" = .ok (some [])

def SoleActive (vaults : List Vault) (a : Vault) : Prop :=
  (vaults.map Vault.generation).Nodup ∧ vaults.filter (fun v => v.status = .active) = [a]

def CommittedKey (keyId : String) (pub : Bytes) : Prop :=
  ∃ k, d.findKey keyId = some k ∧ k.status = .active ∧ Bytes.hexDecode k.publicKey = some pub ∧
    pub.length = compressedPubKeyLen

def CheckSigned (v : Vault) (sighash : Bytes) : Prop :=
  v.status = .pending ∧ ∃ pub, CommittedKey d (vaultKeyId d.contractId v.generation) pub ∧
    sighash = d.lib.checkSigMessage (vaultKeyId d.contractId v.generation) v.generation pub

/-- The digest is of an input of a transaction that has outputs, all of them paying the script
of the committed key of `a`. -/
def SweepsTo (a : Vault) (sighash : Bytes) : Prop :=
  ∃ primary, CommittedKey d (vaultKeyId d.contractId a.generation) primary ∧
    ∃ (tx : MsgTx) (index : ℕ) (script : Bytes) (amount : ℤ),
      index < tx.txIn.length ∧ d.lib.calcWitnessSigHash script tx index amount = some sighash ∧
      tx.txOut ≠ [] ∧
      ∀ out ∈ tx.txOut,
        out.pkScript = d.lib.successorPkScriptRaw primary a.backup (csvBlocksForNet d.mainnet)

end

theorem checkSigned_of_pendingSignIsCheckSig {sighash : Bytes} (hstatus : v.status = .pending)
    (h : d.pendingSignIsCheckSig (vaultKeyId d.contractId v.generation) sighash = true) :
    CheckSigned d v sighash := by
  refine ⟨hstatus, ?_⟩
  unfold pendingSignIsCheckSig at h
  split at h
  · cases h
  next gen hgen =>
  have hcontract : d.contractId ≠ "" := by
    intro hempty
    rw [vaultGenFromKeyId, if_pos hempty] at hgen
    cases hgen
  obtain rfl : v.generation = gen := by
    rw [vaultGenFromKeyId_vaultKeyId hcontract] at hgen
    exact some.inj hgen
  split at h
  · cases h
  next k hk =>
  split at h
  · cases h
  next hactive =>
  split at h
  · cases h
  next pub hpub =>
  split at h
  · cases h
  next hlen =>
  push Not at hactive hlen
  exact ⟨pub, ⟨k, hk, hactive.2, hpub, hlen⟩, (eq_of_beq h).symm⟩

theorem of_bindsToSuccessor {sd : SigningData} {uh : UnsignedSigHash}
    (h : d.bindsToSuccessor sighash pk sd uh = true) :
    ∃ (tx : MsgTx) (index : ℕ) (script : Bytes) (amount : ℤ),
      index < tx.txIn.length ∧ d.lib.calcWitnessSigHash script tx index amount = some sighash ∧
      tx.txOut ≠ [] ∧ ∀ out ∈ tx.txOut, out.pkScript = pk := by
  unfold bindsToSuccessor at h
  split at h
  · cases h
  next amount _ =>
  split at h
  · cases h
  next hdigest =>
  split at h
  · cases h
  next tx htx =>
  rw [not_not, BtcLib.recomputeSegwitV0Sighash, htx] at hdigest
  simp only [bind_eq_bind, bind_some] at hdigest
  split at hdigest
  · cases hdigest
  next hindex =>
  obtain ⟨hne, hpay⟩ := allOutputsPay_iff.1 h
  exact ⟨tx, uh.index.toNat, uh.witnessScript, amount, by omega, hdigest, hne, hpay⟩

theorem of_sweepAmong {txids : List String} (h : d.sweepAmong sighash pk txids = true) :
    ∃ sd uh, d.bindsToSuccessor sighash pk sd uh = true := by
  induction txids with
  | nil => cases h
  | cons txid txids ih =>
    unfold sweepAmong at h
    split at h
    · exact ih h
    split at h
    · exact ⟨_, _, h⟩
    · exact ih h

theorem sweepsTo_of_retiringSignPaysSuccessor {view : BtcVaultView} {a : Vault} {sighash : Bytes}
    (hkey : view.successorKeyId = vaultKeyId d.contractId a.generation)
    (hbackup : view.successorBackupHex = Bytes.hexEncode a.backup)
    (h : d.retiringSignPaysSuccessor sighash view = true) : SweepsTo d a sighash := by
  unfold retiringSignPaysSuccessor at h
  rw [hkey, hbackup] at h
  split at h
  · cases h
  next k hk =>
  split at h
  · cases h
  next hactive =>
  split at h
  · cases h
  next pk hpk =>
  split at h
  · cases h
  next txids _ =>
  push Not at hactive
  -- the script is the one of the committed key and the entry's own backup
  rw [BtcLib.successorPkScript] at hpk
  obtain ⟨primary, hprimary, hpk⟩ := bind_eq_some_iff.1 hpk
  rw [Bytes.hexDecode_hexEncode] at hpk
  simp only [bind_eq_bind, bind_some] at hpk
  split at hpk
  · cases hpk
  next hlen =>
  push Not at hlen
  obtain rfl := some.inj hpk
  obtain ⟨sd, uh, hbinds⟩ := of_sweepAmong h
  exact ⟨primary, ⟨k, hk, hactive.2, hprimary, hlen.1⟩, of_bindsToSuccessor hbinds⟩

/-! ## The classification of the registry -/

/-- What each outcome of the classification says of the state. -/
def ResolvesTo (d : BtcScopeDeps) : VaultResolve → Prop
  | .absent => NoRegistry d
  | .unresolvable => True
  | .resolved view => ∃ vaults a, Registry d vaults ∧ SoleActive vaults a ∧
      view.byKeyId = vaults.map (fun v => (vaultKeyId d.contractId v.generation, v)) ∧
      view.successorKeyId = vaultKeyId d.contractId a.generation ∧
      view.successorBackupHex = Bytes.hexEncode a.backup
  | .genesisPending view => ∃ v, Registry d [v] ∧ v.status = .pending ∧
      view.byKeyId = [(vaultKeyId d.contractId v.generation, v)]

theorem resolvesTo_resolveVaultView (d : BtcScopeDeps) : ResolvesTo d d.resolveVaultView := by
  unfold resolveVaultView
  split
  · exact .inl ‹_›
  next hcontract =>
  split
  · trivial
  · exact .inr (.inl ‹_›)
  next raw hraw =>
  split
  · next hlen =>
      obtain rfl := length_eq_zero_iff.1 hlen
      exact .inr (.inr hraw)
  next hlen =>
  split
  · trivial
  next vaults hvaults =>
  have hreg : Registry d vaults :=
    ⟨hcontract, raw, hraw, fun h => hlen (by rw [h]; rfl), hvaults⟩
  split
  · trivial
  split
  · trivial
  next view activeCount hfold =>
  have hscan := scan_of_foldlM hfold
  split
  · split
    · next hgenesis =>
        obtain ⟨v, rfl⟩ := length_eq_one_iff.1 hgenesis.1
        exact ⟨v, hreg, by simpa using hgenesis.2, hscan.byKeyId⟩
    · trivial
  next hone =>
    have hcount := hscan.activeCount
    rw [not_not.1 hone] at hcount
    obtain ⟨a, ha⟩ := length_eq_one_iff.1 hcount.symm
    have hsucc := hscan.successor a (by rw [ha]; rfl)
    exact ⟨vaults, a, hreg, ⟨hscan.nodup, ha⟩, hscan.byKeyId, hsucc.1, hsucc.2⟩

theorem mem_of_lookup {keyId : String}
    (h : (vaults.map fun v => (vaultKeyId d.contractId v.generation, v)).lookup keyId = some v) :
    v ∈ vaults ∧ keyId = vaultKeyId d.contractId v.generation := by
  obtain ⟨l₁, l₂, hsplit, -⟩ := lookup_eq_some_iff.1 h
  have hmem : (keyId, v) ∈ vaults.map fun v => (vaultKeyId d.contractId v.generation, v) := by
    simp [hsplit]
  obtain ⟨u, hu, heq⟩ := mem_map.1 hmem
  obtain ⟨rfl, rfl⟩ := Prod.mk.inj heq
  exact ⟨hu, rfl⟩

/-! ## Verdicts -/

def Within (d : BtcScopeDeps) (keyId : String) (sighash : Bytes) : ScopeVerdict → Prop
  | .refuse => True
  | .allow => NoRegistry d ∧ keyId = vaultKeyId d.contractId 0 ∨
      ∃ vaults a, Registry d vaults ∧ SoleActive vaults a ∧
        keyId = vaultKeyId d.contractId a.generation
  | .successorSweep => ∃ vaults a v, Registry d vaults ∧ SoleActive vaults a ∧ v ∈ vaults ∧
      keyId = vaultKeyId d.contractId v.generation ∧
      (v.status = .retiring ∨ v.status = .draining) ∧ SweepsTo d a sighash
  | .checkSig => ∃ vaults v, Registry d vaults ∧ (vaults = [v] ∨ ∃ a, SoleActive vaults a) ∧
      v ∈ vaults ∧ keyId = vaultKeyId d.contractId v.generation ∧ CheckSigned d v sighash

theorem mem_soleActive {a v : Vault} (h : SoleActive vaults a) (hv : v ∈ vaults)
    (hactive : v.status = .active) : v = a := by
  have hmem : v ∈ vaults.filter fun v => v.status = .active :=
    mem_filter.2 ⟨hv, by simp [hactive]⟩
  rw [h.2] at hmem
  exact mem_singleton.1 hmem

theorem within_evaluateScope (d : BtcScopeDeps) (keyId : String) (sighash : Bytes) :
    Within d keyId sighash (d.evaluateScope keyId sighash) := by
  have hspec := resolvesTo_resolveVaultView d
  unfold evaluateScope
  split
  · next hres =>
      rw [hres] at hspec
      split
      · exact .inl ⟨hspec, ‹_›⟩
      · trivial
  · trivial
  · next view hres =>
      rw [hres] at hspec
      obtain ⟨v, hreg, hstatus, hby⟩ := hspec
      split
      · trivial
      next u hu =>
      have hlookup : ([v].map fun v => (vaultKeyId d.contractId v.generation, v)).lookup keyId =
          some u := by rw [← hu, hby]; rfl
      obtain ⟨hmem, rfl⟩ := mem_of_lookup hlookup
      split
      · next hcheck =>
          obtain rfl := mem_singleton.1 hmem
          exact ⟨[u], u, hreg, .inl rfl, hmem, rfl,
            checkSigned_of_pendingSignIsCheckSig hcheck.1 hcheck.2⟩
      · trivial
  next view hres =>
    rw [hres] at hspec
    obtain ⟨vaults, a, hreg, hsole, hby, hkey, hbackup⟩ := hspec
    split
    · trivial
    next v hv =>
    rw [hby] at hv
    obtain ⟨hmem, rfl⟩ := mem_of_lookup hv
    split
    · next hactive =>
        exact .inr ⟨vaults, a, hreg, hsole, by rw [mem_soleActive hsole hmem hactive]⟩
    · next hretiring =>
        split
        · next hsweep =>
            exact ⟨vaults, a, v, hreg, hsole, hmem, rfl, .inl hretiring,
              sweepsTo_of_retiringSignPaysSuccessor hkey hbackup hsweep⟩
        · trivial
    · next hdraining =>
        split
        · next hsweep =>
            exact ⟨vaults, a, v, hreg, hsole, hmem, rfl, .inr hdraining,
              sweepsTo_of_retiringSignPaysSuccessor hkey hbackup hsweep⟩
        · trivial
    · next hpending =>
        split
        · next hcheck =>
            exact ⟨vaults, v, hreg, .inr ⟨a, hsole⟩, hmem, rfl,
              checkSigned_of_pendingSignIsCheckSig hpending hcheck⟩
        · trivial
    · trivial

end BtcScopeDeps

theorem of_btcSignGateDecision {verdict : ScopeVerdict} {halted : Bool}
    (h : btcSignGateDecision verdict halted = false) :
    verdict = .successorSweep ∨ verdict = .checkSig ∨ verdict = .allow ∧ halted = false := by
  cases verdict <;> cases halted <;> simp_all [btcSignGateDecision]

namespace BtcScopeDeps

variable {d : BtcScopeDeps}

theorem evaluateScope_of_absent (h : d.readKeyStrict "v" = .ok none) (sighash : Bytes) :
    d.evaluateScope (vaultKeyId d.contractId 0) sighash = .allow := by
  have hres : d.resolveVaultView = .absent := by
    unfold resolveVaultView
    rw [h]
    split <;> rfl
  rw [evaluateScope, hres]
  exact if_pos rfl

theorem evaluateScope_of_error (hcontract : d.contractId ≠ "") {e : String}
    (h : d.readKeyStrict "v" = .error e) (keyId : String) (sighash : Bytes) :
    d.evaluateScope keyId sighash = .refuse := by
  have hres : d.resolveVaultView = .unresolvable := by
    rw [resolveVaultView, if_neg hcontract, h]
  rw [evaluateScope, hres]

/-- A signature the gate lets through is one of four: the legacy key while the state holds no
registry, the key of the single active generation, both only without a halt; the check signature
of a pending generation, also when it is the only generation; or a retiring or draining
generation's signature of a transaction that pays the single active generation and nobody else.
A registry that does not decode lets nothing through, and one that lists a generation twice or
has no single active generation at most the check signature of the lone pending one. -/
theorem issued_within_scope (d : BtcScopeDeps) (keyId : String) (sighash : Bytes) (halted : Bool)
    (h : btcSignGateDecision (d.evaluateScope keyId sighash) halted = false) :
    (NoRegistry d ∧ keyId = vaultKeyId d.contractId 0 ∧ halted = false) ∨
    ∃ vaults v, Registry d vaults ∧ v ∈ vaults ∧ keyId = vaultKeyId d.contractId v.generation ∧
      (vaults = [v] ∧ CheckSigned d v sighash ∨ ∃ a, SoleActive vaults a ∧
          (v = a ∧ halted = false ∨ CheckSigned d v sighash ∨
            (v.status = .retiring ∨ v.status = .draining) ∧ SweepsTo d a sighash)) := by
  have hwithin := within_evaluateScope d keyId sighash
  obtain hv | hv | ⟨hv, hhalt⟩ := of_btcSignGateDecision h
  · rw [hv] at hwithin
    obtain ⟨vaults, a, v, hreg, hsole, hmem, hkey, hstatus, hsweep⟩ := hwithin
    exact .inr ⟨vaults, v, hreg, hmem, hkey, .inr ⟨a, hsole, .inr (.inr ⟨hstatus, hsweep⟩)⟩⟩
  · rw [hv] at hwithin
    obtain ⟨vaults, v, hreg, hshape, hmem, hkey, hcheck⟩ := hwithin
    obtain hlone | ⟨a, hsole⟩ := hshape
    · exact .inr ⟨vaults, v, hreg, hmem, hkey, .inl ⟨hlone, hcheck⟩⟩
    · exact .inr ⟨vaults, v, hreg, hmem, hkey, .inr ⟨a, hsole, .inr (.inl hcheck)⟩⟩
  rw [hv] at hwithin
  obtain ⟨hno, hkey⟩ | ⟨vaults, a, hreg, hsole, hkey⟩ := hwithin
  · exact .inl ⟨hno, hkey, hhalt⟩
  have hmem : a ∈ vaults := by
    have : a ∈ vaults.filter fun v => v.status = .active := by rw [hsole.2]; simp
    exact (mem_filter.1 this).1
  exact .inr ⟨vaults, a, hreg, hmem, hkey, .inr ⟨a, hsole, .inl ⟨rfl, hhalt⟩⟩⟩

def rotating : BtcScopeDeps where
  contractId := "btc"
  readKeyStrict key := .ok <|
    if key = "v" then
      some ([0, 0, 0, 0] ++ List.replicate 66 2 ++ [2] ++ List.replicate 20 0 ++
        ([0, 0, 0, 1] ++ List.replicate 66 2 ++ [1] ++ List.replicate 20 0))
    else if key = "p" then some (List.replicate 32 0)
    else if key = "d-" ++ Bytes.hexEncode (List.replicate 32 0) then
      some [2, 0, 3, 0, 1, 76, 1, 1, 3, 2, 1, 9, 3, 1, 9, 4, 5]
    else none
  findKey keyId :=
    if keyId = "btc-mainv1" then some ⟨Bytes.hexEncode (List.replicate 33 2), .active⟩ else none
  mainnet := false
  lib :=
    { sha256 := fun b => [UInt8.ofNat b.length]
      addData := fun b => UInt8.ofNat b.length :: b
      addInt64 := fun n => [UInt8.ofNat (0x50 + n)]
      deserialize := fun b => some ⟨2, [⟨[], 0, 0⟩], [⟨5, b⟩], 0⟩
      calcWitnessSigHash := fun script _ _ _ => some script }
  msgp :=
    let byte : StateT Bytes Option UInt8 := fun b => b.head?.map fun x => (x, b.tail)
    { readMapHeader := UInt8.toUInt32 <$> byte
      readArrayHeader := UInt8.toUInt32 <$> byte
      readString := (fun b => ["tx", "uh", "hs", "ws", "am"].getD b.toNat "") <$> byte
      readBytes := do
        let n ← byte
        fun b => some (b.take n.toNat, b.drop n.toNat)
      readUint32 := UInt8.toUInt32 <$> byte
      readInt64 := (fun b => (b.toNat : ℤ)) <$> byte
      skip := fun b => some ((), b.tail) }

theorem issued_within_scope_sweep :
    btcSignGateDecision (rotating.evaluateScope "btc-main" [9]) true = false ∧
    ((NoRegistry rotating ∧ "btc-main" = vaultKeyId "btc" 0 ∧ true = false) ∨
    ∃ vaults v, Registry rotating vaults ∧ v ∈ vaults ∧ "btc-main" = vaultKeyId "btc" v.generation ∧
      (vaults = [v] ∧ CheckSigned rotating v [9] ∨ ∃ a, SoleActive vaults a ∧
          (v = a ∧ true = false ∨ CheckSigned rotating v [9] ∨
            (v.status = .retiring ∨ v.status = .draining) ∧ SweepsTo rotating a [9]))) := by
  have h : btcSignGateDecision (rotating.evaluateScope "btc-main" [9]) true = false := by
    decide +kernel
  exact ⟨h, issued_within_scope rotating "btc-main" [9] true h⟩

def emptyRegistry : BtcScopeDeps :=
  { rotating with readKeyStrict := fun key => .ok (if key = "v" then some [] else none) }

/-- An empty registry decodes and has no active generation, and the key of generation 0 signs
every digest under it. -/
theorem emptyRegistry_issues :
    emptyRegistry.readKeyStrict "v" = .ok (some []) ∧ unmarshalVaultRegistry [] = some [] ∧
    ∀ sighash, btcSignGateDecision (emptyRegistry.evaluateScope "btc-main" sighash) false = false :=
  ⟨rfl, rfl, fun _ => rfl⟩

end BtcScopeDeps

end VscNode.Tss
