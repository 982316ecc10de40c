import VscNode.BlockProducer.Node
import VscNode.Common.Quorum
import VscNode.Lib.Run

/-!
# Two blocks for one slot

Members that follow the code sign what `handleBlockMsg` makes them sign; the others sign
anything. A block is certified when the keys that signed it carry more than two thirds of
the folded weight.

The handler keeps no record of the slots it has signed for. A leader that sends two block
messages for its slot, with different transactions, gets both blocks signed by every
member that follows the code. As long as the messages of the slot carry one block, a
certified block has a signer that follows the code and got that block.
-/

namespace VscNode.BlockProducer

open List

variable {ι β : Type*} [DecidableEq ι] [DecidableEq β]

/-- The members that follow the code, and the signatures made so far, each with the key it
was made with. -/
structure SigningNet (ι β : Type*) where
  node : ι → Node β
  signed : List (String × Block β) := []

inductive NetEvent (ι β : Type*)
  /-- A node moves on by itself: new heights, transactions, governance records. -/
  | locally (i : ι) (n : Node β)
  | produce (i : ι) (slotHeight : ℕ) (transactions : List String)
  /-- A leader stops collecting. -/
  | finish (i : ι)
  /-- A node handles a block message, whoever sent it. -/
  | deliver (i : ι) (m : BlockMsg β)
  /-- A key of somebody else signs. -/
  | forge (key : String) (b : Block β)

namespace SigningNet

variable (key : ι → String)

variable (net : SigningNet ι β)

def setNode (i : ι) (n : Node β) : SigningNet ι β :=
  { net with node := Function.update net.node i n }

def apply : NetEvent ι β → SigningNet ι β
  | .locally i n =>
    net.setNode i
      { n with account := (net.node i).account, blockSigning := (net.node i).blockSigning }
  | .produce i slotHeight transactions =>
    net.setNode i ((net.node i).produceBlock slotHeight transactions).1
  | .finish i => net.setNode i { net.node i with blockSigning := none }
  | .deliver i m =>
    let handled := (net.node i).handleBlockMsg m
    { net.setNode i handled.1 with
      signed := net.signed ++ (handled.2.map fun b => (key i, b)).toList }
  | .forge k b => { net with signed := net.signed ++ [(k, b)] }

def signers (b : Block β) : List String :=
  (net.signed.filter (·.2 = b)).map (·.1)

def certified (memberKeys : List String) (weights : List ℕ) (net : SigningNet ι β) (b : Block β) :
    Bool :=
  match foldSignedWeight memberKeys weights (net.signers b) with
  | none => false
  | some (signed, total) => 2 * total < 3 * signed

/-- What reaches the members that follow the code. `offered k` is the block of the slot that
the holder of key `k` is asked to sign: each message of the slot carries it, and no other block
of the slot is under signature at the member when a message arrives. Nobody else signs with
their keys. -/
def Offered (slot : ℕ) (offered : String → Block β) (net : SigningNet ι β) : NetEvent ι β → Prop
  | .deliver i m => (m.slotHeight = slot → m.blockCid = offered (key i)) ∧
      ∀ b ∈ (net.node i).blockSigning, b.slotHeight = slot → b = offered (key i)
  | .forge k _ => ∀ i, key i ≠ k
  | _ => True

instance [Fintype ι] (slot : ℕ) (offered : String → Block β) (net : SigningNet ι β)
    (e : NetEvent ι β) : Decidable (Offered key slot offered net e) := by
  cases e <;> unfold Offered <;> infer_instance

/-- The members that follow the code have signed no block of the slot but the offered one. -/
def SignsOffered (slot : ℕ) (offered : String → Block β) (net : SigningNet ι β) : Prop :=
  ∀ i, ∀ s ∈ net.signed, s.1 = key i → s.2.slotHeight = slot → s.2 = offered s.1

variable {key} {slot : ℕ} {offered : String → Block β} {net : SigningNet ι β}

omit [DecidableEq ι] in
/-- A member signs its own block, or the block of the message. -/
theorem eq_of_handleBlockMsg {n : Node β} {m : BlockMsg β} {b : Block β}
    (h : (n.handleBlockMsg m).2 = some b) :
    n.blockSigning = some b ∨ b.slotHeight = m.slotHeight ∧ b = m.blockCid := by
  simp only [Node.handleBlockMsg] at h
  split_ifs at h with _ _ _ hsame
  · exact .inl h
  · obtain rfl := Option.some.inj h
    exact .inr ⟨rfl, hsame⟩

omit [DecidableEq ι] [DecidableEq β] in
theorem SignsOffered.append (h : SignsOffered key slot offered net) {s : String × Block β}
    (hs : ∀ i, s.1 = key i → s.2.slotHeight = slot → s.2 = offered s.1) {node : ι → Node β} :
    SignsOffered key slot offered ⟨node, net.signed ++ [s]⟩ := by
  intro i t ht
  rcases mem_append.1 ht with hold | hnew
  · exact h i t hold
  · rw [mem_singleton.1 hnew]
    exact hs i

theorem SignsOffered.apply (h : SignsOffered key slot offered net) {e : NetEvent ι β}
    (he : Offered key slot offered net e) : SignsOffered key slot offered (net.apply key e) := by
  cases e with
  | locally i n => exact h
  | produce i slotHeight transactions => exact h
  | finish i => exact h
  | deliver i m =>
    simp only [SigningNet.apply]
    cases hb : ((net.node i).handleBlockMsg m).2 with
    | none =>
      rw [Option.map_none, Option.toList_none, append_nil]
      exact h
    | some b =>
      refine h.append fun _ _ hslot => ?_
      rcases eq_of_handleBlockMsg hb with hown | ⟨hheight, hsame⟩
      · exact he.2 b hown hslot
      · rw [hsame]
        exact he.1 (hheight.symm.trans hslot)
  | forge k b => exact h.append fun i hkey => absurd hkey.symm (he i)

theorem SignsOffered.run {events : List (NetEvent ι β)}
    (hrun : Run.AllAlong (SigningNet.apply key) (Offered key slot offered) net events)
    (h : SignsOffered key slot offered net) :
    SignsOffered key slot offered (events.foldl (SigningNet.apply key) net) :=
  Run.preserves (P := SignsOffered key slot offered)
    (fun _ _ ⟨_, he, heq⟩ hnet => heq ▸ hnet.apply he) (Run.foldl hrun) h

omit [DecidableEq ι] in
theorem mem_signers {b : Block β} {k : String} : k ∈ net.signers b ↔ (k, b) ∈ net.signed := by
  simp [signers]

omit [DecidableEq ι] in
theorem weight_of_certified {memberKeys : List String} {weights : List ℕ}
    (hfits : weights.sum < 2 ^ 64) {b : Block β} (h : certified memberKeys weights net b = true) :
    2 * distinctWeight (memberKeys.zip weights) <
      3 * ∑ k ∈ (net.signers b).toFinset, seatWeight (memberKeys.zip weights) k := by
  by_cases hlen : memberKeys.length = weights.length
  · rw [certified, foldSignedWeight_eq hlen hfits] at h
    by_cases hzero : distinctWeight (memberKeys.zip weights) = 0
    · simp [hzero] at h
    · simpa [hzero] using h
  · simp [certified, foldSignedWeight, hlen] at h

/-- **At most one block of the slot is certified** where the messages of the slot that reach
the members that follow the code carry one block, and these members hold more than one third
of the folded weight. It is enough that the messages to each of them carry one block where
they hold two thirds. -/
theorem certified_unique [Fintype ι] {memberKeys : List String} {weights : List ℕ}
    (hfits : weights.sum < 2 ^ 64)
    (hhonest : (∀ i j, offered (key i) = offered (key j)) ∧
        distinctWeight (memberKeys.zip weights) <
          3 * ∑ k ∈ Finset.univ.image key, seatWeight (memberKeys.zip weights) k ∨
      2 * distinctWeight (memberKeys.zip weights) ≤
        3 * ∑ k ∈ Finset.univ.image key, seatWeight (memberKeys.zip weights) k)
    (hstart : net.signed = []) {events : List (NetEvent ι β)}
    (hrun : Run.AllAlong (apply key) (Offered key slot offered) net events) :
    let reached := events.foldl (apply key) net
    ∀ b b' : Block β, b.slotHeight = slot → b'.slotHeight = slot →
      certified memberKeys weights reached b = true →
      certified memberKeys weights reached b' = true → b = b' := by
  intro reached b b' hslot hslot' hb hb'
  have hnone : SignsOffered key slot offered net := by simp [SignsOffered, hstart]
  have hsigned : ∀ c : Block β, c.slotHeight = slot → ∀ i, key i ∈ (reached.signers c).toFinset →
      c = offered (key i) := fun c hc i hi =>
    hnone.run hrun i _ (mem_signers.1 (mem_toFinset.1 hi)) rfl hc
  have hweight := weight_of_certified hfits hb
  have hweight' := weight_of_certified hfits hb'
  rcases hhonest with ⟨hone, hthird⟩ | htwo
  · -- The signers of a certified block and the members that follow the code overlap.
    have hoverlap : ∀ c : Block β, c.slotHeight = slot →
        certified memberKeys weights reached c = true → ∃ i, c = offered (key i) := by
      intro c hc hcertified
      by_contra hno
      have hdisjoint : Disjoint (reached.signers c).toFinset (Finset.univ.image key) := by
        refine Finset.disjoint_right.2 fun k hk hmem => ?_
        obtain ⟨i, -, rfl⟩ := Finset.mem_image.1 hk
        exact hno ⟨i, hsigned c hc i hmem⟩
      have hsum := sum_seatWeight_le (memberKeys.zip weights)
        ((reached.signers c).toFinset ∪ Finset.univ.image key)
      rw [Finset.sum_union hdisjoint] at hsum
      have := weight_of_certified hfits hcertified
      omega
    obtain ⟨i, rfl⟩ := hoverlap b hslot hb
    obtain ⟨j, rfl⟩ := hoverlap b' hslot' hb'
    exact hone i j
  by_contra hne
  -- No member that follows the code has signed both.
  have hapart : ∀ k ∈ Finset.univ.image key, k ∈ (reached.signers b).toFinset →
      k ∉ (reached.signers b').toFinset := by
    intro k hk hmem hmem'
    obtain ⟨i, -, rfl⟩ := Finset.mem_image.1 hk
    exact hne ((hsigned b hslot i hmem).trans (hsigned b' hslot' i hmem').symm)
  have hsum := sum_seatWeight_add_le (memberKeys.zip weights) hapart
  omega

/-! ## A leader that sends two messages -/

/-- A member in sync at height 20 that knows of two pending transactions. -/
def follower (account : String) : Node Unit where
  account := account
  bh := 20
  lastProcessed := 20
  getSlot _ := some "hive:leader"
  txDb id := if id = "a" ∨ id = "b" then some ⟨["op"], true, [], 0⟩ else none
  nonceDb _ := 0
  body _ := ()
  pool := Collection.empty
  blockSigning := none

/-- The leader's block of slot 20 with one of the transactions, and the message for it. -/
def leaderBlock (tx : String) : Block Unit := ⟨20, [tx], (), []⟩

def leaderMsg (tx : String) : BlockMsg Unit := ⟨20, "hive:leader", [tx], leaderBlock tx⟩

/-- Three of four members of equal weight follow the code. -/
def followers : SigningNet (Fin 3) Unit where
  node i := follower (["hive:x", "hive:y", "hive:z"].getD i "")

def followerKey (i : Fin 3) : String := ["kx", "ky", "kz"].getD i ""

def oneMessage : List (NetEvent (Fin 3) Unit) :=
  [.deliver 0 (leaderMsg "a"), .deliver 1 (leaderMsg "a"), .deliver 2 (leaderMsg "a")]

theorem certified_unique_oneMessage :
    let reached := oneMessage.foldl (apply followerKey) followers
    certified ["kl", "kx", "ky", "kz"] [1, 1, 1, 1] reached (leaderBlock "a") = true ∧
      ∀ b b' : Block Unit, b.slotHeight = 20 → b'.slotHeight = 20 →
        certified ["kl", "kx", "ky", "kz"] [1, 1, 1, 1] reached b = true →
        certified ["kl", "kx", "ky", "kz"] [1, 1, 1, 1] reached b' = true → b = b' := by
  have hrun : Run.AllAlong (apply followerKey) (Offered followerKey 20 fun _ => leaderBlock "a")
      followers oneMessage := by
    decide
  exact ⟨by decide, certified_unique (by decide) (.inl ⟨fun _ _ => rfl, by decide⟩) rfl hrun⟩

/-- A second message to each of them, with the other transaction. -/
def twoMessages : List (NetEvent (Fin 3) Unit) :=
  oneMessage ++ [.deliver 0 (leaderMsg "b"), .deliver 1 (leaderMsg "b"), .deliver 2 (leaderMsg "b")]

/-- Both blocks are certified. -/
theorem two_blocks_certified :
    let reached := twoMessages.foldl (apply followerKey) followers
    leaderBlock "a" ≠ leaderBlock "b" ∧
      certified ["kl", "kx", "ky", "kz"] [1, 1, 1, 1] reached (leaderBlock "a") = true ∧
      certified ["kl", "kx", "ky", "kz"] [1, 1, 1, 1] reached (leaderBlock "b") = true := by
  decide

end SigningNet

end VscNode.BlockProducer
