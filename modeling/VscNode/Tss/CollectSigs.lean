import VscNode.BlockProducer.Certificate

/-!
# Signatures of a TSS commitment

The leader of a session counts the weight of the accounts whose signatures verify, the
chain that of the keys in the aggregate, each key once and with its first seat.
-/

namespace VscNode.Tss

open BlockProducer List
open TransactionPool (ElectionMember)

/-- What the leader waits for. -/
inductive SigEvent (σ : Type*)
  | message (msg : SigMsg σ)
  | settle
  | done

/-- The first seat of an account: its key and its weight. -/
def seatOf (c : Committee) (account : String) : Option (String × ℕ) :=
  ((c.election.members.zip c.weights).find? (·.1.account = account)).map fun s => (s.1.key, s.2)

/-- Two thirds of the weight, rounded up. -/
def quorumThreshold (c : Committee) : ℕ := c.weights.sum - c.weights.sum / 3

/-- The leader waits for more signatures. -/
def waits (c : Committee) (settles : Bool) (signedWeight : ℕ) : Bool :=
  signedWeight < c.weights.sum ∧ (settles ∨ signedWeight < quorumThreshold c)

/-- Whether the leader may finalize, and the keys it has signatures of. A timer that is
not set never fires. -/
def collectSigs {σ : Type*} (verifies : String → σ → Bool) (c : Committee) (settles : Bool)
    (signedWeight : ℕ) (signedAccounts included : List String) :
    List (SigEvent σ) → Bool × List String
  | [] => (!waits c settles signedWeight, included)
  | event :: events =>
    let skip := collectSigs verifies c settles signedWeight signedAccounts included events
    if waits c settles signedWeight = false then (true, included)
    else
      match event with
      | .done => (false, included)
      | .settle => if settles then (quorumThreshold c ≤ signedWeight, included) else skip
      | .message msg =>
        if msg.account ∈ signedAccounts then skip
        else
          match seatOf c msg.account with
          | none => skip
          | some (key, weight) =>
            if verifies key msg.sig then
              collectSigs verifies c settles ((signedWeight + weight) % 2 ^ 64)
                (msg.account :: signedAccounts) (key :: included) events
            else skip

/-- The verdict of the chain, with deduplication. -/
def blsQuorumMet (included : List String) (c : Committee) : Bool :=
  if c.election.members = [] ∨ c.election.members.length ≠ c.weights.length then false
  else quorumMet c.memberKeys c.weights included

/-- Each key is that of an account that has signed, and together they carry the weight. -/
structure Signed (c : Committee) (signedWeight : ℕ) (signedAccounts included : List String) :
    Prop where
  weight : signedWeight ≤ ∑ k ∈ included.toFinset, seatWeight (c.memberKeys.zip c.weights) k
  seated : ∀ key ∈ included, ∃ m ∈ c.election.members, m.key = key ∧ m.account ∈ signedAccounts

variable {σ α : Type*} {verifies : String → σ → Bool} {c : Committee} {settles : Bool}
  {signedWeight : ℕ} {signedAccounts included : List String}

/-- Where no key sits twice a key has the weight of its seat. -/
theorem seatWeight_of_mem {members : List ElectionMember} {weights : List ℕ}
    (hkeys : (members.map (·.key)).Nodup) {m : ElectionMember} {w : ℕ}
    (hs : (m, w) ∈ members.zip weights) :
    seatWeight ((members.map (·.key)).zip weights) m.key = w := by
  induction members generalizing weights with
  | nil => simp at hs
  | cons m' members ih =>
    cases weights with
    | nil => simp at hs
    | cons w' weights =>
      rw [map_cons, nodup_cons] at hkeys
      rw [map_cons, zip_cons_cons]
      rcases mem_cons.1 hs with heq | hs
      · cases heq
        exact seatWeight_cons_self ..
      · have hne : m'.key ≠ m.key := by
          intro hkey
          exact hkeys.1 (hkey ▸ mem_map_of_mem (of_mem_zip hs).1)
        rw [seatWeight_cons_of_ne hne]
        exact ih hkeys.2 hs

/-- A key that verifies for a new account is new. -/
theorem Signed.add (hkeys : c.memberKeys.Nodup) (h : Signed c signedWeight signedAccounts included)
    {account key : String} {weight : ℕ} (hnew : account ∉ signedAccounts)
    (hseat : seatOf c account = some (key, weight)) :
    Signed c ((signedWeight + weight) % 2 ^ 64) (account :: signedAccounts) (key :: included) := by
  obtain ⟨⟨m, w⟩, hfind, heq⟩ := Option.map_eq_some_iff.1 hseat
  cases heq
  have hmem := mem_of_find?_eq_some hfind
  have haccount : m.account = account := by simpa using find?_some hfind
  have hkey : m.key ∉ included.toFinset := by
    intro hin
    obtain ⟨m', hm', heq, hsigned⟩ := h.seated _ (mem_toFinset.1 hin)
    rw [inj_on_of_nodup_map hkeys hm' (of_mem_zip hmem).1 heq, haccount] at hsigned
    exact hnew hsigned
  refine ⟨(Nat.mod_le ..).trans ?_, forall_mem_cons.2 ⟨?_, fun k hk => ?_⟩⟩
  · rw [toFinset_cons, Finset.sum_insert hkey, Committee.memberKeys, seatWeight_of_mem hkeys hmem,
      Nat.add_comm]
    exact Nat.add_le_add_left h.weight _
  · exact ⟨m, (of_mem_zip hmem).1, rfl, haccount ▸ mem_cons_self⟩
  · obtain ⟨m', hm', heq, hsigned⟩ := h.seated k hk
    exact ⟨m', hm', heq, mem_cons_of_mem _ hsigned⟩

theorem le_of_not_waits (h : waits c settles signedWeight = false) :
    quorumThreshold c ≤ signedWeight := by
  rw [waits, decide_eq_false_iff_not, not_and_or, not_or] at h
  rw [quorumThreshold] at *
  omega

/-- Where the leader may finalize, the keys it has carry two thirds of the seats. -/
theorem Signed.collectSigs (hkeys : c.memberKeys.Nodup)
    (h : Signed c signedWeight signedAccounts included) (events : List (SigEvent σ)) :
    let collected := Tss.collectSigs verifies c settles signedWeight signedAccounts included events
    collected.1 = true → ∃ signed accounts, Signed c signed accounts collected.2 ∧
      quorumThreshold c ≤ signed := by
  induction events generalizing signedWeight signedAccounts included with
  | nil => exact fun hdone => ⟨_, _, h, le_of_not_waits (by simpa [Tss.collectSigs] using hdone)⟩
  | cons event events ih =>
    dsimp only
    unfold Tss.collectSigs
    dsimp only
    by_cases hwaits : waits c settles signedWeight = false
    · rw [if_pos hwaits]
      exact fun _ => ⟨_, _, h, le_of_not_waits hwaits⟩
    rw [if_neg hwaits]
    cases event with
    | done => simp
    | settle =>
      dsimp only
      split
      · exact fun hdone => ⟨_, _, h, by simpa using hdone⟩
      · exact ih h
    | message msg =>
      dsimp only
      split
      · exact ih h
      rename_i hold
      split
      · exact ih h
      rename_i key weight hseat
      split
      · exact ih (h.add hkeys hold hseat)
      · exact ih h

/-- Where no key sits twice the chain accepts what the leader finalizes. -/
theorem finalized_accepted (hkeys : c.memberKeys.Nodup)
    (hlen : c.election.members.length = c.weights.length) (hfits : c.weights.sum < 2 ^ 64)
    (hpos : 0 < c.weights.sum) (lib : BlsLib α) (verifies : String → σ → Bool) (settles : Bool)
    (events : List (SigEvent σ)) (hdone : (collectSigs verifies c settles 0 [] [] events).1) :
    blsQuorumMet ((BlsCircuit.finalize lib c.memberKeys
      (collectSigs verifies c settles 0 [] [] events).2).includedDIDs c.memberKeys) c = true := by
  obtain ⟨signed, accounts, hsigned, hquorum⟩ :=
    Signed.collectSigs hkeys ⟨Nat.zero_le _, by simp⟩ events hdone
  have hseats : (c.memberKeys.zip c.weights).map Prod.snd = c.weights :=
    map_snd_zip (by simp [Committee.memberKeys, hlen])
  have htotal := distinctWeight_le (c.memberKeys.zip c.weights)
  have hle := sum_seatWeight_le (c.memberKeys.zip c.weights)
    (collectSigs verifies c settles 0 [] [] events).2.toFinset
  have hweight := hsigned.weight
  rw [hseats] at htotal
  rw [quorumThreshold] at hquorum
  have hmembers : c.election.members ≠ [] := by
    intro hnil
    rw [hnil, length_nil, eq_comm, length_eq_zero_iff] at hlen
    simp [hlen] at hpos
  rw [blsQuorumMet, if_neg (by simp [hmembers, hlen]),
    quorumMet_iff (by simpa [Committee.memberKeys] using hlen) hfits,
    BlsCircuit.toFinset_includedDIDs_finalize]
  · omega
  · intro key hkey
    obtain ⟨m, hm, rfl, -⟩ := hsigned.seated key hkey
    exact mem_map_of_mem hm

/-- A committee whose second seat is by far the heaviest. -/
def threeSeats (key : String) : Committee :=
  ⟨⟨0, 1, [⟨"k", "alice"⟩, ⟨key, "bob"⟩, ⟨"l", "carol"⟩], ⟨0, 8, 0⟩⟩, [1, 100, 20]⟩

theorem finalized_accepted_bob :
    blsQuorumMet ((BlsCircuit.finalize keysLib (threeSeats "m").memberKeys ["m"]).includedDIDs
      (threeSeats "m").memberKeys) (threeSeats "m") = true :=
  finalized_accepted (c := threeSeats "m") (by decide) rfl (by decide) (by decide)
    keysLib (fun _ _ => true) false [.message ⟨"bob", ()⟩] (by decide +kernel)

/-- The key of that seat in a lighter one before it: the leader counts the seat, the chain
the first weight of the key. -/
theorem finalized_refused :
    collectSigs (fun _ _ => true) (threeSeats "k") false 0 [] [] [.message ⟨"bob", ()⟩] =
        (true, ["k"]) ∧
      blsQuorumMet ((BlsCircuit.finalize keysLib (threeSeats "k").memberKeys ["k"]).includedDIDs
        (threeSeats "k").memberKeys) (threeSeats "k") = false := by
  decide +kernel

end VscNode.Tss
