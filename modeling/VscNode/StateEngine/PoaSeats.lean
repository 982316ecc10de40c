import VscNode.Governance.Proposal
import VscNode.StateEngine.WitnessRecords

/-!
# The seats of operators and the hold on their bonds

An operator is admitted to a seat once and keeps it. Elections draw their members
from the enabled witnesses at an anchor height and are ratified some blocks later;
only the ratification is seen by the seats. `poaExitHalt` says whether the bond of a
seat holder is held at a height. It reads the announcements of the account twice:
as a candidate, whose newest announcement must not be older than `maxSignedDiff`
blocks, and for recent activity, which must be newer than the halt window. Both are
three days.

A candidate at the anchor can be as old as `maxSignedDiff` there, so a block later it
is too old for the first reading, and it was already too old for the second. Then the
seat's clock alone decides.
-/

namespace VscNode.StateEngine

open List hiding max_le_iff mem_filter
open Collection Governance Relation Witnesses

def enabledOnly (w : Witness) : Bool := w.vscNode.enabled

/-! ## Seats -/

structure Seat where
  (account uboId : String)
  (admittedHeight lastSeatedHeight exitHeight : ℕ)
  deriving DecidableEq

abbrev PoaSeats := Collection Seat.account

namespace PoaSeats

variable (seats : PoaSeats)

def getSeat (account : String) : Option Seat :=
  let acct := normalizeAccount account
  if acct = "" then none else seats.get? acct

def getSeatByUbo (uboId : String) : Option Seat :=
  if uboId = "" then none else seats.docs.find? fun seat => seat.uboId = uboId

def getSeatsAtHeight (height : ℕ) : List Seat :=
  (seats.docs.filter fun seat => seat.admittedHeight ≤ height).insertionSort
    fun seat seat' => seat.account ≤ seat'.account

def admitSeat (request : Seat) : Except String PoaSeats :=
  let seat := { request with account := normalizeAccount request.account }
  if seat.account = "" then .error "poa_seats: refusing to admit an empty account"
  else if seat.admittedHeight = 0 then .error "poa_seats: refusing to admit at height 0"
  else if (seats.getSeat seat.account).isSome then
    .error ("poa_seats: account already holds a seat: " ++ seat.account)
  else
    match seats.getSeatByUbo seat.uboId with
    | some held =>
      .error ("poa_seats: beneficial owner already holds a seat (held by " ++ held.account ++ ")")
    | none =>
      -- the unique index on accounts
      if (seats.get? seat.account).isSome then
        .error "poa_seats: account already holds a seat (insert race)"
      else .ok (seats.put seat)

section

variable (account : String) (members : List String) (height : ℕ) (blockHeight : ℕ)

def updateOne (guard : Seat → Bool) (set : Seat → Seat)
    (hset : ∀ seat, (set seat).account = seat.account) : PoaSeats :=
  seats.modify (fun seat => if seat.account = account ∧ guard seat then set seat else seat)
    fun seat => by
      split
      · exact hset seat
      · rfl

def setSeating : PoaSeats :=
  let acct := normalizeAccount account
  if acct = "" then seats
  else seats.updateOne acct (fun seat => seat.lastSeatedHeight ≤ height)
    (fun seat => { seat with lastSeatedHeight := height, exitHeight := 0 }) fun _ => rfl

def setExit : PoaSeats :=
  let acct := normalizeAccount account
  if acct = "" then seats
  else seats.updateOne acct (fun seat => seat.exitHeight = 0 ∧ 0 < seat.lastSeatedHeight)
    (fun seat => { seat with exitHeight := height }) fun _ => rfl

/-- What a ratified election writes to a seat. -/
def maintain (seats : PoaSeats) (seat : Seat) : PoaSeats :=
  if seat.account ∈ members then seats.setSeating seat.account blockHeight
  else seats.setExit seat.account blockHeight

def applyPoaSeatMaintenance : PoaSeats :=
  (seats.getSeatsAtHeight blockHeight).foldl
    (maintain ((members.map normalizeAccount).filter (· ≠ "")) blockHeight) seats

end

variable {seats seats' : PoaSeats} {account : String}

theorem isSome_get?_modify {f : Seat → Seat} {hf : ∀ seat, (f seat).account = seat.account}
    (h : (seats.get? account).isSome = true) :
    ((seats.modify f hf).get? account).isSome = true := by
  obtain ⟨seat, hseat⟩ := Option.isSome_iff_exists.1 h
  obtain ⟨hmem, hacct⟩ := get?_eq_some_iff.1 hseat
  rw [Option.isSome_iff_exists]
  exact ⟨f seat, get?_eq_some_iff.2 ⟨mem_modify.2 ⟨seat, hmem, rfl⟩, (hf seat).trans hacct⟩⟩

variable {blockHeight : ℕ} {members : List String} {request : Seat}

theorem isSome_get?_maintain {seat : Seat} (h : (seats.get? account).isSome = true) :
    ((maintain members blockHeight seats seat).get? account).isSome = true := by
  simp only [maintain, setSeating, setExit]
  split <;> split <;> first | exact h | exact isSome_get?_modify h

theorem isSome_get?_applyPoaSeatMaintenance (h : (seats.get? account).isSome = true) :
    ((seats.applyPoaSeatMaintenance members blockHeight).get? account).isSome = true := by
  unfold applyPoaSeatMaintenance
  generalize seats.getSeatsAtHeight blockHeight = visited
  induction visited generalizing seats with
  | nil => exact h
  | cons seat visited ih => exact ih (isSome_get?_maintain h)

theorem admitSeat_eq_ok : seats.admitSeat request = .ok seats' ↔
      normalizeAccount request.account ≠ "" ∧ request.admittedHeight ≠ 0 ∧
        seats.getSeat (normalizeAccount request.account) = none ∧
        seats.getSeatByUbo request.uboId = none ∧
        seats.get? (normalizeAccount request.account) = none ∧
        seats.put { request with account := normalizeAccount request.account } = seats' := by
  rw [admitSeat]
  generalize normalizeAccount request.account = acct
  by_cases hacct : acct = ""
  · simp [hacct]
  by_cases hheight : request.admittedHeight = 0
  · simp [hacct, hheight]
  cases seats.getSeat acct with
  | some seat => simp [hacct, hheight]
  | none =>
    cases seats.getSeatByUbo request.uboId with
    | some seat => simp [hacct, hheight]
    | none =>
      cases seats.get? acct with
      | some seat => simp [hacct, hheight]
      | none => simp [hacct, hheight]

theorem isSome_get?_admitSeat (hadm : seats.admitSeat request = .ok seats')
    (h : (seats.get? account).isSome = true) : (seats'.get? account).isSome = true := by
  rw [← (admitSeat_eq_ok.1 hadm).2.2.2.2.2, get?_put]
  split
  · rfl
  · exact h

theorem isSome_getSeat_mono
    (h : ∀ acct, (seats.get? acct).isSome = true → (seats'.get? acct).isSome = true)
    (hseat : (seats.getSeat account).isSome = true) :
    (seats'.getSeat account).isSome = true := by
  simp only [getSeat] at hseat ⊢
  split at hseat
  · cases hseat
  · rw [if_neg ‹_›]
    exact h _ hseat

end PoaSeats

/-! ## The hold -/

def defaultPoaExitHaltBlocks : ℕ := 3 * 28800

/-- The rules of a network: its pinned halt window, 0 if it pins none, and the heights
at which the consensus version has the exit-halt. -/
structure PoaRules where
  poaExitHaltBlocks : ℕ
  poaExitHaltActive : ℕ → Bool

variable (rules : PoaRules)

def PoaRules.effectivePoaExitHalt : ℕ :=
  if rules.poaExitHaltBlocks = 0 then defaultPoaExitHaltBlocks else rules.poaExitHaltBlocks

structure Election where
  anchor : ℕ
  members : List String
  deriving DecidableEq

/-- What the chain and the proposers know at a block: the announcements, the seats, and
the elections that have been generated. -/
structure Registry where
  head : ℕ
  witnessDb : WitnessDb
  poaSeats : PoaSeats
  generated : List Election

structure ExitHalt where
  halted : Bool
  release : ℕ
  armed : Bool
  deriving DecidableEq

/-- A clock that runs for a window from some height; one that would overflow holds. -/
def haltFrom (start window height : ℕ) : ExitHalt :=
  let release := (start + window) % 2 ^ 64
  if release < start then ⟨true, 0, false⟩ else ⟨height < release, release, true⟩

def seatClock (seat : Seat) (window height : ℕ) : ExitHalt :=
  if seat.lastSeatedHeight = 0 then haltFrom seat.admittedHeight window height
  else if seat.exitHeight = 0 then ⟨true, 0, false⟩
  else haltFrom seat.exitHeight window height

namespace Registry

variable (s : Registry)

def isElectableWitness (account : String) (height : ℕ) : Bool :=
  (getWitnessesAtBlockHeight s.witnessDb height enabledOnly).any fun w =>
    normalizeAccount w.account = normalizeAccount account

def hadRecentWitnessActivity (account : String) (height window : ℕ) : Bool :=
  match getWitnessAtHeight s.witnessDb (normalizeAccount account) height with
  | none => false
  | some w => height - w.height < window

def poaExitHalt (s : Registry) (account : String) (height : ℕ) : ExitHalt :=
  if rules.poaExitHaltActive height = false then ⟨false, 0, false⟩
  else
    match s.poaSeats.getSeat account with
    | none => ⟨false, 0, false⟩
    | some seat =>
      let window := rules.effectivePoaExitHalt
      if s.isElectableWitness account height then ⟨true, 0, false⟩
      else if s.hadRecentWitnessActivity account height window then ⟨true, 0, false⟩
      else seatClock seat window height

/-! ## Runs -/

inductive Event
  | block (height : ℕ)
  | announce (request : SetWitnessUpdateType)
  | admitSeat (account uboId : String)
  | generate (e : Election)
  | ratify (e : Election)

def Allows : Event → Prop
  | .block height => s.head < height
  | .announce request =>
    request.height = s.head ∧ normalizeAccount request.account = request.account
  | .admitSeat _ _ => True
  | .generate e => e.anchor ≤ s.head ∧
      e.members ⊆ (getWitnessesAtBlockHeight s.witnessDb e.anchor enabledOnly).map Witness.account
  | .ratify e => e ∈ s.generated

instance (s : Registry) (event : Event) : Decidable (s.Allows event) := by
  cases event <;> unfold Allows <;> infer_instance

def apply : Event → Registry
  | .block height => { s with head := height }
  | .announce request => { s with witnessDb := announce s.witnessDb request }
  | .admitSeat account uboId =>
    match s.poaSeats.admitSeat ⟨account, uboId, s.head, 0, 0⟩ with
    | .error _ => s
    | .ok seats => { s with poaSeats := seats }
  | .generate e => { s with generated := e :: s.generated }
  | .ratify e => { s with poaSeats := s.poaSeats.applyPoaSeatMaintenance e.members s.head }

abbrev Step : Registry → Registry → Prop := Run.StepBy apply Allows

def start : Registry :=
  { head := 0, witnessDb := Collection.empty, poaSeats := Collection.empty, generated := [] }

abbrev Reachable : Registry → Prop := ReflTransGen Step start

variable {s s' u : Registry} {account : String}

theorem Step.announcements (h : Step s s') : s'.witnessDb = s.witnessDb ∨
      ∃ (x : Witness) (floor : ℕ), x.height = s.head ∧ normalizeAccount x.account = x.account ∧
        ∀ w, w ∈ s'.witnessDb ↔ (w = x ∨ w ∈ s.witnessDb ∧ w.key ≠ x.key) ∧
          (w.account = x.account → floor ≤ w.height) := by
  obtain ⟨event, hok, rfl⟩ := h
  cases event with
  | announce request =>
    rcases announce_cases s.witnessDb request with ⟨-, heq⟩ | ⟨-, x, hkey, heq⟩
    · exact .inl heq
    obtain ⟨floor, hmem⟩ := Retention.exists_floor_store maxRecords s.witnessDb x
    obtain ⟨hacct, hheight⟩ := Prod.ext_iff.1 hkey
    refine .inr ⟨x, floor, hheight.trans hok.1, ?_, fun w => ?_⟩
    · rw [show x.account = request.account from hacct]
      exact hok.2
    · rw [← heq] at hmem
      exact hmem w
  | admitSeat account uboId =>
    unfold apply
    dsimp only
    split <;> exact .inl rfl
  | block height => exact .inl rfl
  | generate e => exact .inl rfl
  | ratify e => exact .inl rfl

theorem Step.head_le (h : Step s s') : s.head ≤ s'.head := by
  obtain ⟨event, hok, rfl⟩ := h
  cases event with
  | block height => exact le_of_lt hok
  | announce request => exact le_rfl
  | admitSeat account uboId =>
    unfold apply
    dsimp only
    split <;> exact le_rfl
  | generate e => exact le_rfl
  | ratify e => exact le_rfl

theorem Step.isSome_getSeat (h : Step s s') (hseat : (s.poaSeats.getSeat account).isSome = true) :
    (s'.poaSeats.getSeat account).isSome = true := by
  obtain ⟨event, -, rfl⟩ := h
  cases event with
  | admitSeat account uboId =>
    unfold apply
    dsimp only
    split
    · exact hseat
    · rename_i seats hadm
      exact PoaSeats.isSome_getSeat_mono (fun _ => PoaSeats.isSome_get?_admitSeat hadm) hseat
  | ratify e =>
    exact PoaSeats.isSome_getSeat_mono (fun _ => PoaSeats.isSome_get?_applyPoaSeatMaintenance) hseat
  | announce request => exact hseat
  | block height => exact hseat
  | generate e => exact hseat

theorem Reachable.normalizeAccount (h : Reachable s) :
    ∀ w ∈ s.witnessDb, normalizeAccount w.account = w.account := by
  refine Run.preserves (P := fun s : Registry => ∀ w ∈ s.witnessDb,
    Governance.normalizeAccount w.account = w.account) ?_ h (fun w hw => by cases hw)
  intro s s' hstep hs w hw
  rcases hstep.announcements with hdb | ⟨x, floor, -, hacct, hmem⟩
  · exact hs w (hdb ▸ hw)
  rcases ((hmem w).1 hw).1 with rfl | ⟨hw, -⟩
  · exact hacct
  · exact hs w hw

/-- Of the announcements of an account before `g`, a state that follows `s` has those
from some height on. -/
def KeepsFrom (account : String) (g : ℕ) (s u : Registry) : Prop :=
  g ≤ u.head ∧ ∃ floor, ∀ w : Witness, w.account = account → w.height < g →
    (w ∈ u.witnessDb ↔ w ∈ s.witnessDb ∧ floor ≤ w.height)

theorem keepsFrom_of_run {g : ℕ} (hg : g ≤ s.head) (run : ReflTransGen Step s u) :
    KeepsFrom account g s u := by
  refine Run.preserves (P := KeepsFrom account g s) ?_ run ⟨hg, 0, fun w _ _ => by simp⟩
  rintro u u' hstep ⟨hhead, floor, hkept⟩
  refine ⟨hhead.trans hstep.head_le, ?_⟩
  rcases hstep.announcements with hdb | ⟨x, floor', hheight, -, hmem⟩
  · exact ⟨floor, fun w ha hw => by rw [hdb, hkept w ha hw]⟩
  -- The new announcement is at the head, so not before `g`.
  have hold : ∀ w : Witness, w.height < g →
      (w ∈ u'.witnessDb ↔ w ∈ u.witnessDb ∧ (w.account = x.account → floor' ≤ w.height)) := by
    intro w hw
    have hne : w.height ≠ x.height := by omega
    have hnew : w ≠ x := fun h => hne (by rw [h])
    have hkey : w.key ≠ x.key := fun h => hne (congrArg Prod.snd h)
    rw [hmem w]
    simp [hnew, hkey]
  by_cases hacct : account = x.account
  · refine ⟨max floor floor', fun w ha hw => ?_⟩
    rw [hold w hw, hkept w ha hw, max_le_iff, and_assoc]
    simp [ha, hacct]
  refine ⟨floor, fun w ha hw => ?_⟩
  rw [hold w hw, hkept w ha hw]
  simp [ha, hacct]

/-! ## Elections in flight -/

/-- The account has an announcement that is not older than three days. -/
def AnnouncedWithin (s : Registry) (account : String) (height : ℕ) : Prop :=
  ∃ w ∈ s.witnessDb, w.account = account ∧ w.height < height ∧ height ≤ w.height + maxSignedDiff

def ClockHolds (s : Registry) (account : String) (height : ℕ) : Prop :=
  ∃ seat ∈ s.poaSeats.getSeat account,
    (seatClock seat rules.effectivePoaExitHalt height).halted = true

theorem poaExitHalt_halted_iff {rules : PoaRules} {height : ℕ}
    (hactive : rules.poaExitHaltActive height = true)
    (hseat : (s.poaSeats.getSeat account).isSome = true) :
    (s.poaExitHalt rules account height).halted = true ↔
      s.isElectableWitness account height = true ∨
        s.hadRecentWitnessActivity account height rules.effectivePoaExitHalt = true ∨
        s.ClockHolds rules account height := by
  obtain ⟨seat, hseat⟩ := Option.isSome_iff_exists.1 hseat
  have hclock : s.ClockHolds rules account height ↔
      (seatClock seat rules.effectivePoaExitHalt height).halted = true := by
    simp [ClockHolds, hseat]
  rw [hclock, poaExitHalt, if_neg (by simp [hactive]), hseat]
  dsimp only
  by_cases helect : s.isElectableWitness account height = true
  · simp [helect]
  by_cases hrecent : s.hadRecentWitnessActivity account height rules.effectivePoaExitHalt = true
  · simp [hrecent]
  · rw [if_neg helect, if_neg hrecent]
    simp [helect, hrecent]

variable {height window : ℕ}

/-- Below the length of its window the clock of every seat holds. -/
theorem clockHolds_of_lt {rules : PoaRules} (hseat : (s.poaSeats.getSeat account).isSome = true)
    (hlt : height < rules.effectivePoaExitHalt) (hword : rules.effectivePoaExitHalt < 2 ^ 64) :
    s.ClockHolds rules account height := by
  have hfrom : ∀ start, (haltFrom start rules.effectivePoaExitHalt height).halted = true := by
    intro start
    simp only [haltFrom]
    split_ifs with hover
    · rfl
    · exact decide_eq_true (by omega)
  obtain ⟨seat, hseat⟩ := Option.isSome_iff_exists.1 hseat
  refine ⟨seat, hseat, ?_⟩
  rw [seatClock]
  split_ifs
  · exact hfrom _
  · rfl
  · exact hfrom _

theorem electable_or_recent {e : Election} (hgen : s.Allows (.generate e))
    (run : ReflTransGen Step (s.apply (.generate e)) u) (hmember : account ∈ e.members)
    (hnormal : normalizeAccount account = account) (hheight : height < e.anchor + window)
    (hfrom : e.anchor ≤ height) (hann : u.AnnouncedWithin account height) :
    u.isElectableWitness account height = true ∨
      u.hadRecentWitnessActivity account height window = true := by
  obtain ⟨w₀, hw₀, hacct₀, hlt₀, hfresh₀⟩ := hann
  obtain ⟨w, hnewest, hacct, hge⟩ := exists_isNewest hw₀ hlt₀
  rw [hacct₀] at hacct
  by_cases hafter : e.anchor ≤ w.height
  · refine .inr ?_
    have hget := getWitnessAtHeight_eq_some.2 ⟨hacct, hnewest⟩
    rw [hadRecentWitnessActivity, hnormal, hget]
    exact decide_eq_true (by omega)
  refine .inl ?_
  obtain ⟨hanchor, hsub⟩ := hgen
  obtain ⟨c, hc, hcacct⟩ := mem_map.1 (hsub hmember)
  obtain ⟨hcnewest, -, hcenabled⟩ := mem_getWitnessesAtBlockHeight.1 hc
  -- The newest announcement is the candidate's: what was stored before the anchor is
  -- dropped from the oldest on.
  have hkeeps : KeepsFrom account e.anchor (s.apply (.generate e)) u :=
    keepsFrom_of_run hanchor run
  obtain ⟨-, floor, hkept⟩ := hkeeps
  have hwlt : w.height < e.anchor := Nat.lt_of_not_le hafter
  have hws := (hkept w hacct hwlt).1 hnewest.mem
  have hwc : w.height ≤ c.height :=
    hcnewest.newest w hws.1 (hacct.trans hcacct.symm) hwlt
  have hcu : c ∈ u.witnessDb :=
    (hkept c hcacct hcnewest.before).2 ⟨hcnewest.mem, hws.2.trans hwc⟩
  have hcw : c.height ≤ w.height :=
    hnewest.newest c hcu (hcacct.trans hacct.symm) (hcnewest.before.trans_le hfrom)
  have heq : w = c := eq_of_key_eq hnewest.mem hcu
    (Prod.ext (hacct.trans hcacct.symm) (le_antisymm hwc hcw))
  subst heq
  rw [isElectableWitness, any_eq_true]
  refine ⟨w, mem_getWitnessesAtBlockHeight.2 ⟨hnewest, by omega, hcenabled⟩, ?_⟩
  exact decide_eq_true (by rw [hacct])

theorem announcedWithin_of_electable (reach : Reachable u) {height : ℕ}
    (hnormal : normalizeAccount account = account)
    (h : u.isElectableWitness account height = true) : u.AnnouncedWithin account height := by
  rw [isElectableWitness, any_eq_true] at h
  obtain ⟨w, hw, hacct⟩ := h
  obtain ⟨hnewest, hfresh, -⟩ := mem_getWitnessesAtBlockHeight.1 hw
  have hname := of_decide_eq_true hacct
  rw [reach.normalizeAccount w hnewest.mem, hnormal] at hname
  exact ⟨w, hnewest.mem, hname, hnewest.before, hfresh⟩

theorem announcedWithin_of_recent (hnormal : normalizeAccount account = account)
    (hwindow : window ≤ maxSignedDiff)
    (h : u.hadRecentWitnessActivity account height window = true) :
    u.AnnouncedWithin account height := by
  unfold hadRecentWitnessActivity at h
  split at h
  · cases h
  rename_i w hget
  rw [hnormal] at hget
  obtain ⟨hacct, hnewest⟩ := getWitnessAtHeight_eq_some.1 hget
  have hlt := of_decide_eq_true h
  exact ⟨w, hnewest.mem, hacct, hnewest.before, by omega⟩

structure InFlight (s t : Registry) (e : Election) (u : Registry) (height : ℕ) : Prop where
  after : ReflTransGen Step (s.apply (.generate e)) u
  before : ReflTransGen Step u (t.apply (.ratify e))
  anchor_le : e.anchor ≤ height
  le_ratified : height ≤ t.head
  le_head : height ≤ u.head

/-- The hold on a seat holder's bond is kept while an election that names it is in flight
exactly if at each height it has an announcement that is not too old or its clock holds. -/
theorem held_inFlight_iff {rules : PoaRules} {s t : Registry} {e : Election} {account : String}
    (reach : Reachable s) (hgen : s.Allows (.generate e)) (hdefault : rules.poaExitHaltBlocks = 0)
    (hactive : ∀ height, e.anchor ≤ height → height ≤ t.head →
      rules.poaExitHaltActive height = true)
    (hwindow : t.head - e.anchor < rules.effectivePoaExitHalt)
    (hmember : account ∈ e.members) (hseat : (s.poaSeats.getSeat account).isSome = true) :
    (∀ u height, InFlight s t e u height → (u.poaExitHalt rules account height).halted = true) ↔
      ∀ u height, InFlight s t e u height →
        u.AnnouncedWithin account height ∨ u.ClockHolds rules account height := by
  have hwin : rules.effectivePoaExitHalt = maxSignedDiff := by
    rw [PoaRules.effectivePoaExitHalt, if_pos hdefault]
    rfl
  have hreach : Reachable (s.apply (.generate e)) := reach.tail ⟨_, hgen, rfl⟩
  have hnormal : normalizeAccount account = account := by
    obtain ⟨c, hc, rfl⟩ := mem_map.1 (hgen.2 hmember)
    exact reach.normalizeAccount c (mem_getWitnessesAtBlockHeight.1 hc).1.mem
  refine forall₃_congr fun u height hin => ?_
  have hseatu : (u.poaSeats.getSeat account).isSome = true :=
    Run.preserves (P := fun u : Registry => (u.poaSeats.getSeat account).isSome = true)
      (fun _ _ hstep => hstep.isSome_getSeat) hin.after hseat
  rw [poaExitHalt_halted_iff (hactive height hin.anchor_le hin.le_ratified) hseatu, ← or_assoc]
  refine or_congr_left ⟨?_, fun hann => ?_⟩
  · rintro (helect | hrecent)
    · exact announcedWithin_of_electable (hreach.trans hin.after) hnormal helect
    · exact announcedWithin_of_recent hnormal hwin.le hrecent
  have hupper := hin.le_ratified
  have hlower := hin.anchor_le
  exact electable_or_recent hgen hin.after hmember hnormal (by omega) hlower hann

/-! A holder that announces once, and elections at the anchors 200, and 86500 when the
announcement is exactly three days old. -/

def alwaysActive : PoaRules := { poaExitHaltBlocks := 0, poaExitHaltActive := fun _ => true }

def announcedAt (height : ℕ) : SetWitnessUpdateType where
  account := "alice"
  height := height
  didKeys := [{ type := "consensus", key := "key" }]
  vscNode := { enabled := true }

def electionAt (anchor : ℕ) : Election := { anchor := anchor, members := ["alice"] }

/-- Up to the generation: an admission, an announcement, and the blocks to the anchor. -/
def eventsUntil (anchor : ℕ) : List Event :=
  [.block 10, .admitSeat "alice" "", .block 100, .announce (announcedAt 100), .block anchor]

def registryAt (anchor : ℕ) : Registry := (eventsUntil anchor).foldl apply start

def ratifiedAfter (anchor : ℕ) : Registry :=
  ((registryAt anchor).apply (.generate (electionAt anchor))).apply (.block (anchor + 1))

theorem reachable_registryAt {anchor : ℕ} (h : 100 < anchor) : Reachable (registryAt anchor) := by
  refine Run.foldl ⟨?_, trivial, ?_, ⟨rfl, ?_⟩, h, trivial⟩ <;> decide

/-- The election is ratified a block after its anchor. -/
theorem inFlight_ratifiedAfter (anchor : ℕ) : InFlight (registryAt anchor) (ratifiedAfter anchor)
    (electionAt anchor) (ratifiedAfter anchor) (anchor + 1) where
  after := .single ⟨.block (anchor + 1), Nat.lt_succ_self anchor, rfl⟩
  before := .single ⟨.ratify (electionAt anchor), mem_cons_self, rfl⟩
  anchor_le := Nat.le_succ anchor
  le_ratified := le_rfl
  le_head := le_rfl

theorem held_inFlight_iff_early :
    ((ratifiedAfter 200).poaExitHalt alwaysActive "alice" 201).halted = true := by
  have hseat : ((registryAt 200).poaSeats.getSeat "alice").isSome = true := by decide +kernel
  refine (held_inFlight_iff (reachable_registryAt (by decide)) (by decide +kernel) rfl
    (fun _ _ _ => rfl) (by decide) (by decide) hseat).2 (fun u height hin => .inr ?_) _ _
      (inFlight_ratifiedAfter 200)
  have hseatu : (u.poaSeats.getSeat "alice").isSome = true :=
    Run.preserves (P := fun u : Registry => (u.poaSeats.getSeat "alice").isSome = true)
      (fun _ _ hstep => hstep.isSome_getSeat) hin.after hseat
  exact clockHolds_of_lt hseatu (hin.le_ratified.trans_lt (by decide)) (by decide)

/-- The bond of the member is free when the election is ratified. -/
theorem not_held_late : Reachable (registryAt 86500) ∧
      (registryAt 86500).Allows (.generate (electionAt 86500)) ∧
      ((registryAt 86500).poaSeats.getSeat "alice").isSome = true ∧
      (ratifiedAfter 86500).Allows (.ratify (electionAt 86500)) ∧
      (ratifiedAfter 86500).head - (electionAt 86500).anchor < alwaysActive.effectivePoaExitHalt ∧
      InFlight (registryAt 86500) (ratifiedAfter 86500) (electionAt 86500) (ratifiedAfter 86500)
        86501 ∧
      ((ratifiedAfter 86500).poaExitHalt alwaysActive "alice" 86501).halted = false :=
  ⟨reachable_registryAt (by decide), by decide +kernel, by decide +kernel, mem_cons_self,
    by decide, inFlight_ratifiedAfter 86500, by decide +kernel⟩

end Registry

end VscNode.StateEngine
