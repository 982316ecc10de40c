import Mathlib.Data.Finset.Max
import Mathlib.Data.List.Lemmas
import Mathlib.Logic.Equiv.Basic
import VscNode.Lib.Run

/-!
# The buffer of early messages

Messages of a session that has not started are kept until it does. The sessions stand in a
heap by the height of their first message, with an index of their positions. Of
`container/heap` only its contract is assumed: which callbacks it makes, and that it keeps
the heap ordered. The contract can always be met, by sorting (`exists_sorted`), so every
operation has an outcome. Without the heap the buffer is a map of sessions (`Sessions`),
which `buffer_refines` shows it to be after every run of operations.
-/

namespace VscNode.Tss

open Function Option Relation

structure SessionEntry (Msg : Type*) where
  sessionId : String
  blockHeight : ℕ
  messages : List Msg

structure SessionHeap (Msg : Type*) where
  entries : List (SessionEntry Msg) := []
  index : String → Option ℕ := fun _ => none

variable {Msg : Type*}

namespace SessionHeap

variable (h : SessionHeap Msg) (e : SessionEntry Msg) (h' : SessionHeap Msg)

def Less (i j : ℕ) : Prop :=
  ∃ a ∈ h.entries[i]?, ∃ b ∈ h.entries[j]?, a.blockHeight < b.blockHeight

/-- `none` where a position is out of range. -/
def swap (i j : ℕ) : Option (SessionHeap Msg) := do
  let a ← h.entries[i]?
  let b ← h.entries[j]?
  some
    { entries := (h.entries.set i b).set j a
      index := update (update h.index b.sessionId i) a.sessionId j }

def push : SessionHeap Msg where
  entries := h.entries ++ [e]
  index := update h.index e.sessionId h.entries.length

def pop : Option (SessionEntry Msg × SessionHeap Msg) := do
  let e ← h.entries.getLast?
  some (e, { entries := h.entries.dropLast, index := update h.index e.sessionId none })

section

variable {h h'} {i j : ℕ}

theorem exists_swap (hi : i < h.entries.length) (hj : j < h.entries.length) :
    ∃ h', h.swap i j = some h' := by
  simp [swap, List.getElem?_eq_getElem hi, List.getElem?_eq_getElem hj]

theorem getElem?_swap (hswap : h.swap i j = some h') : h'.entries.length = h.entries.length ∧
    ∀ k, h'.entries[k]? = h.entries[Equiv.swap i j k]? := by
  simp only [swap, bind_eq_bind, bind_eq_some_iff, some_inj] at hswap
  obtain ⟨a, ha, c, hc, rfl⟩ := hswap
  exact ⟨by simp, by grind⟩

end

/-! ### The contract of `container/heap` -/

def Ordered : Prop := ∀ i j, 2 * i + 1 ≤ j → j ≤ 2 * i + 2 → ¬ h.Less j i

theorem Ordered.root_le {h : SessionHeap Msg} {root e : SessionEntry Msg} {i : ℕ} (ho : h.Ordered)
    (hroot : h.entries[0]? = some root) (hi : h.entries[i]? = some e) :
    root.blockHeight ≤ e.blockHeight := by
  induction i using Nat.strongRecOn generalizing e with
  | ind i ih =>
    rcases Nat.eq_zero_or_pos i with rfl | hpos
    · rw [hroot, some_inj] at hi
      rw [hi]
    · obtain ⟨p, hp⟩ : ∃ p, h.entries[(i - 1) / 2]? = some p := by
        obtain ⟨hlt, -⟩ := List.getElem?_eq_some_iff.1 hi
        exact ⟨_, List.getElem?_eq_getElem (by omega)⟩
      refine (ih _ (by omega) hp).trans (Nat.le_of_not_lt fun hlt => ?_)
      exact ho ((i - 1) / 2) i (by omega) (by omega) ⟨e, hi, p, hp, hlt⟩

def Swaps (n : ℕ) : SessionHeap Msg → SessionHeap Msg → Prop :=
  ReflTransGen fun h h' => ∃ i < n, ∃ j < n, h.swap i j = some h'

def HeapPush : Prop := Swaps (h.entries.length + 1) (h.push e) h' ∧ (h.Ordered → h'.Ordered)

/-- `heap.Remove`, and `heap.Pop` at the root: the entry goes to the end, the ones before it
are put in order, and it is taken from the end. -/
def HeapRemove (i : ℕ) : Prop :=
  let n := h.entries.length - 1
  (∃ h₁ h₂, (h.swap i n = some h₁ ∨ i = n ∧ h₁ = h) ∧ Swaps n h₁ h₂ ∧ h₂.pop = some (e, h')) ∧
    (h.Ordered → h'.Ordered)

/-! The contract can be met -/

section

variable {h e} {i : ℕ}

/-- The first `n` entries can be sorted by swaps: the highest of them goes to the end. -/
theorem exists_sorted {n : ℕ} (hn : n ≤ h.entries.length) :
    ∃ h', Swaps n h h' ∧ h'.entries.length = h.entries.length ∧
      (∀ k, n ≤ k → h'.entries[k]? = h.entries[k]?) ∧
      (∀ k < n, ∃ l < n, h'.entries[k]? = h.entries[l]?) ∧
      ∀ i j, i < j → j < n → ¬ h'.Less j i := by
  induction n generalizing h with
  | zero => exact ⟨h, .refl, rfl, by simp, by simp, by simp⟩
  | succ n ih =>
    obtain ⟨m, hm, hmax⟩ := (Finset.range (n + 1)).exists_max_image
      (fun k => (h.entries[k]?.map (·.blockHeight)).getD 0) ⟨0, by simp⟩
    rw [Finset.mem_range] at hm
    obtain ⟨h₁, hswap⟩ := exists_swap (h := h) (i := m) (j := n) (by omega) (by omega)
    obtain ⟨hlen₁, hentries⟩ := getElem?_swap hswap
    obtain ⟨h₂, hswaps, hlen₂, habove, hbelow, hsorted⟩ := ih (h := h₁) (by omega)
    have hlast : h₂.entries[n]? = h.entries[m]? := by
      rw [habove n le_rfl, hentries, Equiv.swap_apply_right]
    have hwithin : ∀ k < n + 1, ∃ l < n + 1, h₂.entries[k]? = h.entries[l]? := by
      intro k hk
      rcases Nat.lt_succ_iff_lt_or_eq.1 hk with hk | rfl
      · obtain ⟨l, hl, heq⟩ := hbelow k hk
        refine ⟨Equiv.swap m n l, ?_, heq.trans (hentries l)⟩
        grind
      · exact ⟨m, hm, hlast⟩
    refine ⟨h₂, .head ⟨m, hm, n, by omega, hswap⟩ (ReflTransGen.mono ?_ _ _ hswaps),
      hlen₂.trans hlen₁, ?_, hwithin, ?_⟩
    · rintro s s' ⟨i, hi, j, hj, hs⟩
      exact ⟨i, by omega, j, by omega, hs⟩
    · intro k hk
      rw [habove k (by omega), hentries, Equiv.swap_apply_of_ne_of_ne (by omega) (by omega)]
    intro i j hij hj
    rcases Nat.lt_succ_iff_lt_or_eq.1 hj with hj | rfl
    · exact hsorted i j hij hj
    rintro ⟨a, ha, b, hb, hless⟩
    obtain ⟨l, hl, heq⟩ := hwithin i (by omega)
    have hle := hmax l (Finset.mem_range.2 hl)
    rw [← heq, ← hlast, ha, hb] at hle
    exact absurd hless (Nat.not_lt.2 hle)

theorem exists_heapPush : ∃ h', h.HeapPush e h' := by
  obtain ⟨h', hswaps, hlen, -, -, hsorted⟩ :=
    exists_sorted (h := h.push e) (n := h.entries.length + 1) (by simp [push])
  refine ⟨h', hswaps, fun _ i j hij _ hless => ?_⟩
  obtain ⟨a, ha, -⟩ := id hless
  refine hsorted i j (by omega) ?_ hless
  simpa [hlen, push] using (List.getElem?_eq_some_iff.1 ha).1

theorem exists_heapRemove (hi : h.entries[i]? = some e) : ∃ h', h.HeapRemove e h' i := by
  obtain ⟨hlt, -⟩ := List.getElem?_eq_some_iff.1 hi
  obtain ⟨h₁, hswap⟩ := exists_swap hlt (j := h.entries.length - 1) (by omega)
  obtain ⟨hlen₁, hentries⟩ := getElem?_swap hswap
  obtain ⟨h₂, hswaps, hlen₂, habove, -, hsorted⟩ :=
    exists_sorted (h := h₁) (n := h.entries.length - 1) (by omega)
  have hlast : h₂.entries.getLast? = some e := by
    rw [List.getLast?_eq_getElem?, hlen₂, hlen₁, habove _ le_rfl, hentries,
      Equiv.swap_apply_right, hi]
  refine ⟨⟨h₂.entries.dropLast, update h₂.index e.sessionId none⟩,
    ⟨h₁, h₂, .inl hswap, hswaps, by simp [pop, hlast]⟩, fun _ i j hij _ hless => ?_⟩
  obtain ⟨a, ha, b, hb, hlower⟩ := hless
  rw [Option.mem_def, List.getElem?_dropLast, Option.ite_none_right_eq_some] at ha hb
  exact hsorted i j (by omega) (by omega) ⟨a, ha.2, b, hb.2, hlower⟩

end

end SessionHeap

/-! ### The operations -/

namespace SessionBuffer

section

variable (sb : SessionHeap Msg) (sessionId : String) (sb' : SessionHeap Msg)

def Push (blockHeight : ℕ) (msg : Msg) : Prop :=
  match sb.index sessionId with
  | some i => ∃ e ∈ sb.entries[i]?, sb' =
      { sb with entries := sb.entries.set i { e with messages := e.messages ++ [msg] } }
  | none => sb.HeapPush ⟨sessionId, blockHeight, [msg]⟩ sb'

def EvictMin : Prop :=
  if sb.entries.length = 0 then sessionId = "" ∧ sb' = sb
  else ∃ e, sb.HeapRemove e sb' 0 ∧ sessionId = e.sessionId

def Drain (messages : List Msg) : Prop :=
  match sb.index sessionId with
  | none => messages = [] ∧ sb' = sb
  | some i => ∃ e, sb.HeapRemove e sb' i ∧ messages = e.messages

def Delete : Prop :=
  match sb.index sessionId with
  | none => sb' = sb
  | some i => ∃ e, sb.HeapRemove e sb' i

end

/-- The height of a session's first message, and its messages. -/
abbrev Sessions (Msg : Type*) := String → Option (ℕ × List Msg)

def Sessions.push (b : Sessions Msg) (sessionId : String) (blockHeight : ℕ) (msg : Msg) :
    Sessions Msg :=
  let first := (b sessionId).getD (blockHeight, [])
  update b sessionId (some (first.1, first.2 ++ [msg]))

/-- An operation on the buffer, and what it means for the sessions. -/
inductive Step : SessionHeap Msg × Sessions Msg → SessionHeap Msg × Sessions Msg → Prop
  | push : Push sb sessionId sb' blockHeight msg →
    Step (sb, b) (sb', b.push sessionId blockHeight msg)
  | drain : Drain sb sessionId sb' messages → Step (sb, b) (sb', update b sessionId none)
  | delete : Delete sb sessionId sb' → Step (sb, b) (sb', update b sessionId none)
  | evictMin : EvictMin sb sessionId sb' → Step (sb, b) (sb', update b sessionId none)

open SessionHeap

variable {sb sb' : SessionHeap Msg} {b : Sessions Msg} {id : String} {e : SessionEntry Msg}
  {i j n : ℕ}

structure Indexes (f : ℕ → Option (SessionEntry Msg)) (index : String → Option ℕ)
    (b : Sessions Msg) : Prop where
  stored : ∀ id i, index id = some i → ∃ e, f i = some e ∧ e.sessionId = id
  indexed : ∀ i e, f i = some e → index e.sessionId = some i ∧
    b e.sessionId = some (e.blockHeight, e.messages)
  absent : ∀ id, index id = none → b id = none

namespace Indexes

variable {f : ℕ → Option (SessionEntry Msg)} {index : String → Option ℕ} {a c : SessionEntry Msg}
  (hb : Indexes f index b)
include hb

theorem swap (ha : f i = some a) (hc : f j = some c) :
    Indexes (f ∘ Equiv.swap i j) (update (update index c.sessionId i) a.sessionId j) b := by
  obtain ⟨hstored, hindexed, habsent⟩ := hb
  constructor <;> grind [update_apply]

theorem put (hi : f i = none ∧ index e.sessionId = none ∨ index e.sessionId = some i) :
    Indexes (update f i e) (update index e.sessionId i)
      (update b e.sessionId (some (e.blockHeight, e.messages))) := by
  obtain ⟨hstored, hindexed, habsent⟩ := hb
  constructor <;> grind [update_apply]

theorem remove (hi : f i = some e) :
    Indexes (update f i none) (update index e.sessionId none) (update b e.sessionId none) := by
  obtain ⟨hstored, hindexed, habsent⟩ := hb
  constructor <;> grind [update_apply]

theorem eq_of_index (hid : index id = some i) (hi : f i = some e) : e.sessionId = id := by
  obtain ⟨e', he', rfl⟩ := hb.stored id i hid
  rw [some_inj.1 (hi.symm.trans he')]

theorem exists_of_eq_some {x : ℕ × List Msg} (hx : b id = some x) :
    ∃ i, f i = some ⟨id, x.1, x.2⟩ := by
  cases hi : index id with
  | none => simp [hb.absent id hi] at hx
  | some i =>
    obtain ⟨e, he, rfl⟩ := hb.stored id i hi
    rw [(hb.indexed i e he).2, some_inj] at hx
    exact ⟨i, hx ▸ he⟩

end Indexes

abbrev Holds (sb : SessionHeap Msg) (b : Sessions Msg) : Prop := Indexes (sb.entries[·]?) sb.index b

section

variable (hb : Holds sb b)
include hb

theorem holds_swap (hswap : sb.swap i j = some sb') :
    Holds sb' b ∧ sb'.entries.length = sb.entries.length ∧
      ∀ k, sb'.entries[k]? = sb.entries[Equiv.swap i j k]? := by
  obtain ⟨hlen, hentries⟩ := getElem?_swap hswap
  refine ⟨?_, hlen, hentries⟩
  simp only [SessionHeap.swap, bind_eq_bind, bind_eq_some_iff, some_inj] at hswap
  obtain ⟨a, ha, c, hc, rfl⟩ := hswap
  rw [Holds, funext hentries]
  exact hb.swap ha hc

theorem holds_swaps (hswaps : Swaps n sb sb') :
    Holds sb' b ∧ sb'.entries.length = sb.entries.length ∧ sb'.entries[n]? = sb.entries[n]? := by
  induction hswaps with
  | refl => exact ⟨hb, rfl, rfl⟩
  | tail _ hstep ih =>
    obtain ⟨i, hi, j, hj, hswap⟩ := hstep
    obtain ⟨hb', hlen, hentries⟩ := holds_swap ih.1 hswap
    refine ⟨hb', hlen.trans ih.2.1, ?_⟩
    rw [hentries, Equiv.swap_apply_of_ne_of_ne (Nat.ne_of_gt hi) (Nat.ne_of_gt hj), ih.2.2]

theorem holds_heapRemove (hremove : sb.HeapRemove e sb' i) :
    sb.entries[i]? = some e ∧ Holds sb' (update b e.sessionId none) := by
  obtain ⟨s₁, s₂, hswap, hswaps, hpop⟩ := hremove.1
  obtain ⟨hb₁, hlen₁, hi⟩ : Holds s₁ b ∧ s₁.entries.length = sb.entries.length ∧
      s₁.entries[sb.entries.length - 1]? = sb.entries[i]? := by
    rcases hswap with hswap | ⟨rfl, rfl⟩
    · obtain ⟨hb₁, hlen, hentries⟩ := holds_swap hb hswap
      exact ⟨hb₁, hlen, by rw [hentries, Equiv.swap_apply_right]⟩
    · exact ⟨hb, rfl, rfl⟩
  obtain ⟨hb₂, hlen₂, hlast⟩ := holds_swaps hb₁ hswaps
  simp only [SessionHeap.pop, bind_eq_bind, bind_eq_some_iff, some_inj, Prod.mk.injEq] at hpop
  obtain ⟨e, he, rfl, rfl⟩ := hpop
  rw [List.getLast?_eq_getElem?] at he
  have hdrop : (s₂.entries.dropLast[·]?) =
      update (s₂.entries[·]?) (s₂.entries.length - 1) none := by
    funext k
    grind [update_apply]
  rw [Holds, hdrop]
  refine ⟨?_, hb₂.remove he⟩
  rw [← hi, ← hlast, ← he, hlen₂, hlen₁]

end

section

variable (hb : Holds sb b) (ho : sb.Ordered)
include hb ho

theorem holds_push {blockHeight : ℕ} {msg : Msg} (hpush : Push sb id sb' blockHeight msg) :
    Holds sb' (b.push id blockHeight msg) ∧ sb'.Ordered := by
  rw [Push] at hpush
  split at hpush
  next i hi =>
    obtain ⟨e, he, rfl⟩ := hpush
    obtain rfl := hb.eq_of_index hi he
    constructor
    · have hset : ∀ e', ((sb.entries.set i e')[·]?) = update (sb.entries[·]?) i (some e') := by
        intro e'
        funext k
        grind [update_apply]
      rw [Sessions.push, (hb.indexed i e he).2, Holds, hset]
      have := hb.put (i := i) (e := { e with messages := e.messages ++ [msg] }) (.inr hi)
      rwa [← hi, update_eq_self] at this
    · intro k l hkl hlk
      have := ho k l hkl hlk
      simp only [Less, List.getElem?_set] at *
      grind
  next hi =>
    refine ⟨(holds_swaps ?_ hpush.1).1, hpush.2 ho⟩
    have happend : ∀ e', ((sb.entries ++ [e'])[·]?) =
        update (sb.entries[·]?) sb.entries.length (some e') := by
      intro e'
      funext k
      grind [update_apply]
    rw [Sessions.push, hb.absent id hi, Holds, SessionHeap.push, happend]
    exact hb.put (.inl ⟨by simp, hi⟩)

theorem holds_delete (hdelete : Delete sb id sb') :
    Holds sb' (update b id none) ∧ sb'.Ordered := by
  rw [Delete] at hdelete
  split at hdelete
  next hi =>
    rw [hdelete, ← hb.absent id hi, update_eq_self]
    exact ⟨hb, ho⟩
  next i hi =>
    obtain ⟨e, hremove⟩ := hdelete
    obtain ⟨he, hb'⟩ := holds_heapRemove hb hremove
    exact hb.eq_of_index hi he ▸ ⟨hb', hremove.2 ho⟩

theorem holds_evictMin (hevict : EvictMin sb id sb') :
    Holds sb' (update b id none) ∧ sb'.Ordered := by
  rw [EvictMin] at hevict
  split at hevict
  next hnil =>
    obtain ⟨rfl, rfl⟩ := hevict
    have hnone : sb'.index "" = none := by
      refine eq_none_iff_forall_ne_some.2 fun i hi => ?_
      simpa [List.length_eq_zero_iff.1 hnil] using hb.stored "" i hi
    rw [← hb.absent "" hnone, update_eq_self]
    exact ⟨hb, ho⟩
  next =>
    obtain ⟨e, hremove, rfl⟩ := hevict
    exact ⟨(holds_heapRemove hb hremove).2, hremove.2 ho⟩

end

theorem Drain.delete {messages : List Msg} (h : Drain sb id sb' messages) : Delete sb id sb' := by
  rw [Drain] at h
  rw [Delete]
  split at h
  · exact h.2
  · exact h.imp fun _ => And.left

theorem holds_step {s s' : SessionHeap Msg × Sessions Msg} (h : Step s s')
    (hs : Holds s.1 s.2 ∧ s.1.Ordered) : Holds s'.1 s'.2 ∧ s'.1.Ordered := by
  cases h with
  | push h => exact holds_push hs.1 hs.2 h
  | drain h => exact holds_delete hs.1 hs.2 h.delete
  | delete h => exact holds_delete hs.1 hs.2 h
  | evictMin h => exact holds_evictMin hs.1 hs.2 h

section

variable (hb : Holds sb b)
include hb

theorem exists_push (id : String) (blockHeight : ℕ) (msg : Msg) :
    ∃ sb', Push sb id sb' blockHeight msg := by
  cases hi : sb.index id with
  | none =>
    simp only [Push, hi]
    exact exists_heapPush
  | some i =>
    obtain ⟨e, he, -⟩ := hb.stored id i hi
    simp only [Push, hi]
    exact ⟨_, e, he, rfl⟩

theorem exists_drain (id : String) : ∃ sb' messages, Drain sb id sb' messages := by
  cases hi : sb.index id with
  | none => exact ⟨sb, [], by simp [Drain, hi]⟩
  | some i =>
    obtain ⟨e, he, -⟩ := hb.stored id i hi
    obtain ⟨sb', hremove⟩ := exists_heapRemove he
    refine ⟨sb', e.messages, ?_⟩
    simp only [Drain, hi]
    exact ⟨e, hremove, rfl⟩

theorem mem_entries_iff : e ∈ sb.entries ↔ b e.sessionId = some (e.blockHeight, e.messages) := by
  constructor
  · intro he
    obtain ⟨i, hi⟩ := List.mem_iff_getElem?.1 he
    exact (hb.indexed i e hi).2
  · exact fun he => List.mem_iff_getElem?.2 (hb.exists_of_eq_some he)

theorem mem_removed_iff (hb' : Holds sb' (update b id none)) :
    e ∈ sb'.entries ↔ e ∈ sb.entries ∧ e.sessionId ≠ id := by
  rw [mem_entries_iff hb', mem_entries_iff hb, update_apply]
  split_ifs with hid <;> simp [hid]

end

theorem exists_evictMin (sb : SessionHeap Msg) : ∃ id sb', EvictMin sb id sb' := by
  rcases Nat.eq_zero_or_pos sb.entries.length with hzero | hpos
  · exact ⟨"", sb, by simp [EvictMin, hzero]⟩
  · obtain ⟨sb', hremove⟩ := exists_heapRemove (List.getElem?_eq_getElem hpos)
    refine ⟨sb.entries[0].sessionId, sb', ?_⟩
    rw [EvictMin, if_neg (Nat.ne_of_gt hpos)]
    exact ⟨_, hremove, rfl⟩

/-- **The buffer is the map of its sessions** after every run: the index names their
positions, every operation has an outcome, a drained session returns its messages, an evicted
one has the lowest height, and either is taken out. -/
theorem buffer_refines (hrun : ReflTransGen Step ({}, fun _ => none) (sb, b)) :
    (∀ id i, sb.index id = some i ↔ ∃ e, sb.entries[i]? = some e ∧ e.sessionId = id) ∧
    (∀ e, e ∈ sb.entries ↔ b e.sessionId = some (e.blockHeight, e.messages)) ∧
    (∀ id blockHeight msg, ∃ sb', Push sb id sb' blockHeight msg) ∧
    (∀ id, (∃ sb' messages, Drain sb id sb' messages) ∧ (∃ sb', Delete sb id sb') ∧
      ∀ sb' messages, Drain sb id sb' messages → messages = ((b id).map Prod.snd).getD [] ∧
        ∀ e, e ∈ sb'.entries ↔ e ∈ sb.entries ∧ e.sessionId ≠ id) ∧
    (∃ id sb', EvictMin sb id sb') ∧
    ∀ id sb', EvictMin sb id sb' → sb.entries ≠ [] →
      (∃ first ∈ b id, ∀ other, ∀ x ∈ b other, first.1 ≤ x.1) ∧
      ∀ e, e ∈ sb'.entries ↔ e ∈ sb.entries ∧ e.sessionId ≠ id := by
  obtain ⟨hb, ho⟩ : Holds sb b ∧ sb.Ordered := Run.preserves
    (P := fun s => Holds s.1 s.2 ∧ s.1.Ordered) (fun _ _ => holds_step) hrun
    ⟨⟨by simp, by simp, by simp⟩, by simp [Ordered, Less]⟩
  refine ⟨fun id i => ⟨hb.stored id i, ?_⟩, fun e => mem_entries_iff hb, exists_push hb,
    fun id => ⟨exists_drain hb id, ?_, fun sb' messages hdrain => ⟨?_, fun e => ?_⟩⟩,
    exists_evictMin sb, fun id sb' hevict hne => ⟨?_, fun e => ?_⟩⟩
  · rintro ⟨e, he, rfl⟩
    exact (hb.indexed i e he).1
  · obtain ⟨sb', _, hdrain⟩ := exists_drain hb id
    exact ⟨sb', hdrain.delete⟩
  · rw [Drain] at hdrain
    split at hdrain
    next hi =>
      rw [hb.absent id hi]
      exact hdrain.1
    next i hi =>
      obtain ⟨e, hremove, rfl⟩ := hdrain
      have he := (holds_heapRemove hb hremove).1
      rw [← hb.eq_of_index hi he, (hb.indexed i e he).2]
      rfl
  · exact mem_removed_iff hb (holds_delete hb ho hdrain.delete).1
  · rw [EvictMin, if_neg (by simpa using hne)] at hevict
    obtain ⟨e, hremove, rfl⟩ := hevict
    have he := (holds_heapRemove hb hremove).1
    refine ⟨_, (hb.indexed 0 e he).2, fun other x hx => ?_⟩
    obtain ⟨k, hk⟩ := hb.exists_of_eq_some hx
    exact ho.root_le he hk
  · exact mem_removed_iff hb (holds_evictMin hb ho hevict).1

/-- Two sessions are pushed, the lower one is evicted, and the other one drained. -/
theorem buffer_refines_two : ∃ (sb : SessionHeap String) (sb₁ sb₂ : SessionHeap String),
    EvictMin sb "b" sb₁ ∧ Drain sb₁ "a" sb₂ ["m"] := by
  have hstart : Holds ({} : SessionHeap String) fun _ => none := ⟨by simp, by simp, by simp⟩
  obtain ⟨s, ha⟩ := exists_push hstart "a" 7 "m"
  have hrun : ReflTransGen Step ({}, fun _ => none) (s, _) := .single (.push ha)
  obtain ⟨sb, hb⟩ := (buffer_refines hrun).2.2.1 "b" 5 "n"
  have hrun := hrun.tail (.push hb)
  obtain ⟨-, hmem, -, -, ⟨id, sb₁, hevict⟩, hmin⟩ := buffer_refines hrun
  have hne : sb.entries ≠ [] := List.ne_nil_of_mem ((hmem ⟨"b", 5, ["n"]⟩).2 (by decide))
  obtain ⟨⟨first, hfirst, hle⟩, -⟩ := hmin id sb₁ hevict hne
  obtain rfl : id = "b" := by
    have hlow := hle "b" (5, ["n"]) (by decide)
    by_contra hid
    rw [Option.mem_def, Sessions.push, update_of_ne hid, Sessions.push, update_apply] at hfirst
    split_ifs at hfirst
    cases hfirst
    exact absurd hlow (by decide)
  have hrun := hrun.tail (.evictMin hevict)
  obtain ⟨⟨sb₂, messages, hdrain⟩, -, hall⟩ := (buffer_refines hrun).2.2.2.1 "a"
  obtain ⟨rfl, -⟩ := hall sb₂ messages hdrain
  exact ⟨sb, sb₁, sb₂, hevict, hdrain⟩

end SessionBuffer

end VscNode.Tss
