import VscNode.Lib.Text

/-!
# Decoding JSON into existing values

`encoding/json` decodes into a value that is already there. A member of an object
goes to the field of its name, or else to the field whose name it has up to letter
case; a field no member goes to keeps what it held, and so does a field whose
member is `null` or of the wrong type. The elements of an array are decoded into
the elements the slice already has, and so into the array other slices may share.

A decoder therefore acts on the old value, and says of a JSON value whether it has
the right type. A scalar is overwritten or left alone (`Overwrites`). After a chain
of such values the old value is still there only if each of them leaves it alone
(`foldl_apply_cases`): where an object is to leave a component of a struct as it
is, each of its members has to (`inert_of_proj`).
-/

inductive Json
  | null
  | bool (b : Bool)
  | int (n : Int)
  | float (literal : String)
  | str (s : String)
  | arr (elems : List Json)
  | obj (members : List (String × Json))

namespace GoJson

open Text List

/-- What a JSON value makes of an old value, and whether it has the right type. -/
structure Decoder (α : Type*) where
  apply : Json → α → α
  ok : Json → Bool

section Overwrites

variable {α : Type*}

/-- A JSON value that changes nothing. -/
def Inert (d : Decoder α) (v : Json) : Prop := ∀ a, d.apply v a = a

/-- Every JSON value replaces the old value or leaves it alone. -/
def Overwrites (d : Decoder α) : Prop := ∀ v, Inert d v ∨ ∃ b, ∀ a, d.apply v a = b

/-- A chain of values leaves the old value alone, and then each of them does, or
nothing of it is left. -/
theorem foldl_apply_cases {d : Decoder α} (hd : Overwrites d) (vs : List Json) :
    (∀ v ∈ vs, Inert d v) ∨ ∃ b, ∀ a, vs.foldl (fun a v => d.apply v a) a = b := by
  induction vs with
  | nil => exact .inl (by simp)
  | cons v vs ih =>
    rcases ih with hinert | ⟨b, hb⟩
    · rcases hd v with hv | ⟨b, hb⟩
      · exact .inl (forall_mem_cons.2 ⟨hv, hinert⟩)
      · refine .inr ⟨vs.foldl (fun a v => d.apply v a) b, fun a => ?_⟩
        rw [foldl_cons, hb]
    · exact .inr ⟨b, fun a => hb _⟩

end Overwrites

/-! ## Scalars -/

def string : Decoder String where
  apply
    | .str s, _ => s
    | _, old => old
  ok
    | .str _ => true
    | .null => true
    | _ => false

def isUint64 (n : Int) : Bool := 0 ≤ n && n < 2 ^ 64

def isInt64 (n : Int) : Bool := -2 ^ 63 ≤ n && n < 2 ^ 63

def uint64 : Decoder ℕ where
  apply
    | .int n, old => if isUint64 n then n.toNat else old
    | _, old => old
  ok
    | .int n => isUint64 n
    | .null => true
    | _ => false

def int64 : Decoder Int where
  apply
    | .int n, old => if isInt64 n then n else old
    | _, old => old
  ok
    | .int n => isInt64 n
    | .null => true
    | _ => false

/-- Any JSON value is taken as it is. -/
def raw : Decoder Json := ⟨fun v _ => v, fun _ => true⟩

theorem overwrites_string : Overwrites string := by
  intro v
  cases v with
  | str s => exact .inr ⟨s, fun _ => rfl⟩
  | _ => exact .inl fun _ => rfl

theorem overwrites_uint64 : Overwrites uint64 := by
  intro v
  cases v with
  | int n =>
    cases hn : isUint64 n with
    | true => exact .inr ⟨n.toNat, fun _ => if_pos hn⟩
    | false => exact .inl fun _ => if_neg (by simp [hn])
  | _ => exact .inl fun _ => rfl

theorem overwrites_int64 : Overwrites int64 := by
  intro v
  cases v with
  | int n =>
    cases hn : isInt64 n with
    | true => exact .inr ⟨n, fun _ => if_pos hn⟩
    | false => exact .inl fun _ => if_neg (by simp [hn])
  | _ => exact .inl fun _ => rfl

/-! ## Slices and maps -/

section Elements

variable {α : Type*}

def elements (zero : α) (d : Decoder α) : List Json → List α → List α
  | [], _ => []
  | v :: vs, old => d.apply v (old.headD zero) :: elements zero d vs old.tail

/-- A slice that shares its array with no other. -/
def list (zero : α) (d : Decoder α) : Decoder (List α) where
  apply
    | .arr vs, old => elements zero d vs old
    | .null, _ => []
    | _, old => old
  ok
    | .arr vs => vs.all d.ok
    | .null => true
    | _ => false

theorem length_elements (zero : α) (d : Decoder α) (vs : List Json) (old : List α) :
    (elements zero d vs old).length = vs.length := by
  induction vs generalizing old with
  | nil => rfl
  | cons v vs ih => rw [elements, length_cons, ih, length_cons]

end Elements

def pointer {α : Type*} (zero : α) (d : Decoder α) : Decoder (Option α) where
  apply
    | .null, _ => none
    | v, old => some (d.apply v (old.getD zero))
  ok
    | .null => true
    | v => d.ok v

/-- A map to strings; every member is entered, the last one of a key counts. -/
def stringMap : Decoder (List (String × String)) where
  apply
    | .obj ms, old => ms.foldl (fun acc m => (m.1, string.apply m.2 "") :: acc) old
    | .null, _ => []
    | _, old => old
  ok
    | .obj ms => ms.all fun m => string.ok m.2
    | .null => true
    | _ => false

structure Slice where
  elems : List String := []
  array : List String := []
  shared : Bool := false
  deriving DecidableEq

/-- Another variable for a slice. -/
def Slice.of (elems : List String) : Slice := ⟨elems, elems, true⟩

def Slice.fill (vs : List Json) (s : Slice) : Slice :=
  if s.shared then
    let elems := elements "" string vs s.array
    ⟨elems, elems.take s.array.length ++ s.array.drop elems.length, elems.length ≤ s.array.length⟩
  else ⟨elements "" string vs s.elems, s.array, false⟩

def slice : Decoder Slice where
  apply
    | .arr [], s => ⟨[], s.array, false⟩
    | .arr vs, s => s.fill vs
    | .null, s => ⟨[], s.array, false⟩
    | _, s => s
  ok
    | .arr vs => vs.all string.ok
    | .null => true
    | _ => false

/-- The length of a slice, which no longer depends on the old one once something
was decoded. -/
def sliceLength : Decoder ℕ where
  apply
    | .arr vs, _ => vs.length
    | .null, _ => 0
    | _, n => n
  ok := slice.ok

theorem overwrites_sliceLength : Overwrites sliceLength := by
  intro v
  cases v with
  | arr vs => exact .inr ⟨vs.length, fun _ => rfl⟩
  | null => exact .inr ⟨0, fun _ => rfl⟩
  | _ => exact .inl fun _ => rfl

theorem length_slice (v : Json) (s : Slice) :
    (slice.apply v s).elems.length = sliceLength.apply v s.elems.length := by
  cases v with
  | arr vs =>
    cases vs with
    | nil => rfl
    | cons v vs =>
      change (s.fill (v :: vs)).elems.length = _
      rw [Slice.fill]
      split <;> exact length_elements ..
  | _ => rfl

theorem inert_slice {v : Json} (h : Inert sliceLength v) : Inert slice v := by
  cases v with
  | arr vs => exact absurd (h (vs.length + 1)) (Nat.ne_of_lt (Nat.lt_succ_self _))
  | null => exact absurd (h 1) Nat.zero_ne_one
  | _ => exact fun _ => rfl

/-! ## Structs -/

/-- The letters that differ in case only, with the two letters outside of ASCII
that fold to a letter of ASCII. -/
def foldRune (c : Char) : Char :=
  if c.toNat = 0x17F then 's' else if c.toNat = 0x212A then 'k' else c.toLower

def foldName (name : String) : String := String.ofList (name.toList.map foldRune)

structure StructField (σ : Type*) where
  name : String
  decode : Decoder σ

def membersOf : Json → List (String × Json)
  | .obj ms => ms
  | _ => []

section Struct

variable {σ α : Type*}

def StructField.of (name : String) (d : Decoder α) (get : σ → α) (set : α → σ → σ) :
    StructField σ :=
  ⟨name, ⟨fun v s => set (d.apply v (get s)) s, d.ok⟩⟩

variable (fields : List (StructField σ))

/-- The field a member goes to. -/
def findField (key : String) : Option (StructField σ) :=
  (fields.find? fun f => f.name = key).or (fields.find? fun f => foldName f.name = foldName key)

def member (m : String × Json) (s : σ) : σ :=
  (findField fields m.1).elim s fun f => f.decode.apply m.2 s

def members (ms : List (String × Json)) (s : σ) : σ :=
  ms.foldl (fun s m => member fields m s) s

def struct : Decoder σ where
  apply v s := members fields (membersOf v) s
  ok
    | .obj ms => ms.all fun m => (findField fields m.1).all fun f => f.decode.ok m.2
    | .null => true
    | _ => false

def failsAt (own : List String) (fields : List (StructField σ)) (m : String × Json) : Bool :=
  (findField fields m.1).any fun f => f.name ∈ own && !f.decode.ok m.2

/-- A wrong type is passed over, but the error of a type that decodes itself ends the
decoding: the members after it are not read. -/
def membersUpTo (own : List String) (fields : List (StructField σ)) : List (String × Json) → σ → σ
  | [], s => s
  | m :: ms, s =>
    if failsAt own fields m then member fields m s
    else membersUpTo own fields ms (member fields m s)

theorem foldl_struct (vs : List Json) (s : σ) :
    vs.foldl (fun s v => (struct fields).apply v s) s =
      members fields (vs.flatMap membersOf) s := by
  induction vs generalizing s with
  | nil => rfl
  | cons v vs ih =>
    rw [foldl_cons, ih, flatMap_cons]
    simp only [struct, members, foldl_append]

variable {fields : List (StructField σ)} {name : String} {d : Decoder α} {π : σ → α}

variable {f : StructField σ} {ms : List (String × Json)}

theorem mem_of_findField {key : String} (h : findField fields key = some f) : f ∈ fields := by
  rw [findField, Option.or_eq_some_iff] at h
  rcases h with h | ⟨-, h⟩
  · exact mem_of_find?_eq_some h
  · exact mem_of_find?_eq_some h

def valuesAt (fields : List (StructField σ)) (name : String) (ms : List (String × Json)) :
    List Json :=
  (ms.filter fun m => (findField fields m.1).any fun f => f.name = name).map Prod.snd

structure Holds (fields : List (StructField σ)) (name : String) (d : Decoder α) (π : σ → α) :
    Prop where
  acts : ∀ f ∈ fields, f.name = name → ∀ v s, π (f.decode.apply v s) = d.apply v (π s)
  keeps : ∀ f ∈ fields, f.name ≠ name → ∀ v s, π (f.decode.apply v s) = π s

theorem holds_of_forall
    (h : ∀ f ∈ fields, (f.name = name ∧ ∀ v s, π (f.decode.apply v s) = d.apply v (π s)) ∨ (f.name
      ≠ name ∧ ∀ v s, π (f.decode.apply v s) = π s)) : Holds fields name d π where
  acts f hf hname := by
    rcases h f hf with ⟨-, hacts⟩ | ⟨hne, -⟩
    · exact hacts
    · exact absurd hname hne
  keeps f hf hne := by
    rcases h f hf with ⟨hname, -⟩ | ⟨-, hkeeps⟩
    · exact absurd hname hne
    · exact hkeeps

theorem Holds.length {π : σ → Slice} (h : Holds fields name slice π) :
    Holds fields name sliceLength fun s => (π s).elems.length where
  acts f hf hname v s := by rw [h.acts f hf hname, length_slice]
  keeps f hf hne v s := by rw [h.keeps f hf hne]

section

variable (h : Holds fields name d π)
include h

theorem proj_members (ms : List (String × Json)) (s : σ) :
    π (members fields ms s) = (valuesAt fields name ms).foldl (fun a v => d.apply v a) (π s) := by
  induction ms generalizing s with
  | nil => rfl
  | cons m ms ih =>
    rw [members, foldl_cons, ← members, ih, valuesAt, valuesAt, filter_cons]
    cases hf : findField fields m.1 with
    | none => simp [member, hf]
    | some f =>
      have hmem := mem_of_findField hf
      by_cases hname : f.name = name
      · simp [member, hf, hname, h.acts f hmem hname]
      · simp [member, hf, hname, h.keeps f hmem hname]

/-- An object that leaves a component as it is, for two values of it, has no value
that would change it. -/
theorem inert_of_proj (hd : Overwrites d) {s s' : σ} (hne : π s ≠ π s')
    (hs : π (members fields ms s) = π s) (hs' : π (members fields ms s') = π s') :
    ∀ v ∈ valuesAt fields name ms, Inert d v := by
  rcases foldl_apply_cases hd (valuesAt fields name ms) with hinert | ⟨b, hb⟩
  · exact hinert
  · rw [proj_members h, hb] at hs hs'
    exact absurd (hs.symm.trans hs') hne

theorem proj_members_of_inert (hinert : ∀ v ∈ valuesAt fields name ms, Inert d v) (s : σ) :
    π (members fields ms s) = π s := by
  rw [proj_members h]
  generalize valuesAt fields name ms = vs at hinert ⊢
  induction vs with
  | nil => rfl
  | cons v vs ih =>
    obtain ⟨hv, hvs⟩ := forall_mem_cons.1 hinert
    rw [foldl_cons, hv]
    exact ih hvs

end

theorem proj_members_eq_self (hfields : ∀ f ∈ fields, ∀ v s, π (f.decode.apply v s) = π s)
    (ms : List (String × Json)) (s : σ) : π (members fields ms s) = π s := by
  induction ms generalizing s with
  | nil => rfl
  | cons m ms ih =>
    rw [members, foldl_cons, ← members, ih, member]
    cases hf : findField fields m.1 with
    | none => rfl
    | some f => exact hfields f (mem_of_findField hf) m.2 s

theorem proj_membersUpTo_eq_self {own : List String}
    (hfields : ∀ f ∈ fields, ∀ v s, π (f.decode.apply v s) = π s) (ms : List (String × Json))
    (s : σ) : π (membersUpTo own fields ms s) = π s := by
  have hmember : ∀ m s, π (member fields m s) = π s := fun m s =>
    proj_members_eq_self hfields [m] s
  induction ms generalizing s with
  | nil => rfl
  | cons m ms ih =>
    rw [membersUpTo]
    split
    · exact hmember m s
    · rw [ih, hmember]

theorem any_findField_cons (hfields : ∀ g ∈ fields, foldName g.name ≠ foldName f.name)
    (key : String) :
    ((findField (f :: fields) key).any fun g => g.name = f.name) =
      decide (foldName key = foldName f.name) := by
  rw [findField]
  by_cases hkey : foldName key = foldName f.name
  · have hexact : fields.find? (fun g => g.name = key) = none := by
      rw [find?_eq_none]
      intro g hg heq
      rw [decide_eq_true_eq] at heq
      exact hfields g hg (by rw [heq, hkey])
    by_cases hname : f.name = key
    · simp [hname]
    · simp [hname, hexact, hkey]
  have hname : f.name ≠ key := fun heq => hkey (congrArg foldName heq.symm)
  have hfold : ¬ foldName f.name = foldName key := fun heq => hkey heq.symm
  have hother : ∀ g ∈ fields, g.name ≠ f.name := fun g hg heq =>
    hfields g hg (congrArg foldName heq)
  simp only [find?_cons, hname, hfold, decide_false, hkey]
  cases hor : (fields.find? fun g => decide (g.name = key)).or
      (fields.find? fun g => decide (foldName g.name = foldName key)) with
  | none => rfl
  | some g =>
    have hg : g ∈ fields := by
      rw [Option.or_eq_some_iff] at hor
      rcases hor with hor | ⟨-, hor⟩
      · exact mem_of_find?_eq_some hor
      · exact mem_of_find?_eq_some hor
    simp [hother g hg]

theorem valuesAt_cons (hfields : ∀ g ∈ fields, foldName g.name ≠ foldName f.name)
    (ms : List (String × Json)) :
    valuesAt (f :: fields) f.name ms =
      (ms.filter fun m => foldName m.1 = foldName f.name).map Prod.snd := by
  rw [valuesAt]
  congr 1
  exact filter_congr fun m _ => any_findField_cons hfields m.1

end Struct

end GoJson
