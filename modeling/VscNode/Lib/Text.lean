import Mathlib.Data.List.DropRight
import Mathlib.Data.Nat.Digits.Defs
import Mathlib.Data.String.Basic

/-!
# Text with separators and decimal numbers

The pieces of Go's `strings` and `strconv` that row identifiers and numbers
written as text rest on: `trimSpace`, `hasPrefix`, `trimSuffix`, and the decimal
pair `formatUint`/`parseUint` with its round trip.

Identifiers are built by joining pieces with a separator. `fields sep s` cuts
such a text back into its pieces, and `fields_append` computes it on a joined
text. Two identifiers are then compared piece by piece, from either end: equal
identifiers have equal fields, and a piece without the separator is one field.

`base64RawUrl` decodes the unpadded URL alphabet the way Go does: what stands
before a character outside the alphabet is decoded, the rest is dropped.
-/

namespace Text

open List Nat

/-- `unicode.IsSpace`. -/
def isSpace (c : Char) : Bool :=
  c.toNat ∈ [0x09, 0x0A, 0x0B, 0x0C, 0x0D, 0x20, 0x85, 0xA0, 0x1680, 0x2028, 0x2029, 0x202F,
    0x205F, 0x3000] || (0x2000 ≤ c.toNat && c.toNat ≤ 0x200A)

/-- `strings.TrimSpace`. -/
def trimSpace (s : String) : String :=
  String.ofList (((s.toList.dropWhile isSpace).reverse.dropWhile isSpace).reverse)

variable {s p a : String} {c sep : Char} {n : ℕ}

theorem trimSpace_of_forall_not (h : ∀ c ∈ s.toList, isSpace c = false) : trimSpace s = s := by
  have hdrop : ∀ l : List Char, (∀ c ∈ l, isSpace c = false) → l.dropWhile isSpace = l := by
    intro l hl
    cases l with
    | nil => rfl
    | cons c l => simp [hl c mem_cons_self]
  have hrev : ∀ c ∈ s.toList.reverse, isSpace c = false := by simpa using h
  rw [trimSpace, hdrop _ h, hdrop _ hrev, reverse_reverse, String.ofList_toList]

theorem toList_trimSpace (s : String) :
    (trimSpace s).toList = (s.toList.dropWhile isSpace).rdropWhile isSpace := by
  rw [trimSpace, String.toList_ofList]
  rfl

theorem dropWhile_rdropWhile_isSpace {l : List Char} (h : l.dropWhile isSpace = l) :
    (l.rdropWhile isSpace).dropWhile isSpace = l.rdropWhile isSpace := by
  cases hl : l.rdropWhile isSpace with
  | nil => rfl
  | cons c m =>
    obtain ⟨t, ht⟩ := hl ▸ rdropWhile_prefix isSpace l
    have hc : isSpace c = false := by
      cases hc : isSpace c with
      | false => rfl
      | true =>
        rw [← ht, cons_append, dropWhile_cons_of_pos hc] at h
        have hlen := congrArg length h
        have hle := length_dropWhile_le isSpace (m ++ t)
        simp only [length_cons] at hlen
        omega
    rw [dropWhile_cons_of_neg (by simp [hc])]

@[simp] theorem trimSpace_trimSpace (s : String) : trimSpace (trimSpace s) = trimSpace s := by
  apply String.toList_inj.1
  rw [toList_trimSpace, toList_trimSpace,
    dropWhile_rdropWhile_isSpace (dropWhile_idempotent ..), rdropWhile_idempotent]

def hasPrefix (s p : String) : Bool := p.toList.isPrefixOf s.toList

theorem hasPrefix_iff : hasPrefix s p = true ↔ p.toList <+: s.toList := by
  simp [hasPrefix]

def trimPrefix (s p : String) : String :=
  if hasPrefix s p then String.ofList (s.toList.drop p.toList.length) else s

theorem trimSpace_ne_empty {cs : List Char} (hp : p.toList = c :: cs) (hc : isSpace c = false)
    (h : hasPrefix s p = true) : trimSpace s ≠ "" := by
  obtain ⟨rest, hrest⟩ := hasPrefix_iff.1 h
  intro hempty
  have hlist := congrArg String.toList hempty
  rw [toList_trimSpace, ← hrest, hp] at hlist
  simp [hc] at hlist

theorem hasPrefix_append (p s : String) : hasPrefix (p ++ s) p = true := by
  simp [hasPrefix]

theorem trimPrefix_append (p s : String) : trimPrefix (p ++ s) p = s := by
  rw [trimPrefix, if_pos (hasPrefix_append p s)]
  simp

/-- `strings.ToLower s` for ASCII texts: other letters are left as they are. -/
def toLower (s : String) : String := String.ofList (s.toList.map Char.toLower)

def hasSuffix (s p : String) : Bool := p.toList.isSuffixOf s.toList

def trimSuffix (s p : String) : String :=
  if hasSuffix s p then String.ofList (s.toList.take (s.toList.length - p.toList.length)) else s

theorem hasSuffix_append (s p : String) : hasSuffix (s ++ p) p = true := by
  simp [hasSuffix]

theorem trimSuffix_append (s p : String) : trimSuffix (s ++ p) p = s := by
  rw [trimSuffix, if_pos (hasSuffix_append s p)]
  simp

theorem trimSuffix_append_cancel (h : hasSuffix s p = true) : trimSuffix s p ++ p = s := by
  obtain ⟨t, ht⟩ : p.toList <:+ s.toList := by simpa [hasSuffix] using h
  apply String.toList_inj.1
  rw [trimSuffix, if_pos h, String.toList_append, String.toList_ofList, ← ht]
  simp

/-! ## Decimal numbers -/

def formatUint (n : ℕ) : String := Nat.repr n

def parseUint (s : String) : Option ℕ :=
  if s.toList ≠ [] ∧ s.toList.all Char.isDigit ∧ Nat.ofDigitChars 10 s.toList 0 < 2 ^ 64 then
    some (Nat.ofDigitChars 10 s.toList 0)
  else
    none

theorem isDigit_formatUint (h : c ∈ (formatUint n).toList) : c.isDigit = true := by
  rw [formatUint, toList_repr] at h
  exact isDigit_of_mem_toDigits (by decide) (by decide) h

theorem isSpace_of_isDigit (h : c.isDigit = true) : isSpace c = false := by
  have hc : 48 ≤ c.toNat ∧ c.toNat ≤ 57 := by
    simp only [Char.isDigit, Bool.and_eq_true, decide_eq_true_eq, ge_iff_le] at h
    exact ⟨UInt32.le_iff_toNat_le.1 h.1, UInt32.le_iff_toNat_le.1 h.2⟩
  simp only [isSpace, mem_cons, not_mem_nil, or_false, Bool.or_eq_false_iff,
    decide_eq_false_iff_not, Bool.and_eq_false_iff]
  omega

@[simp] theorem trimSpace_formatUint (n : ℕ) : trimSpace (formatUint n) = formatUint n :=
  trimSpace_of_forall_not fun _ h => isSpace_of_isDigit (isDigit_formatUint h)

theorem ofDigitChars_formatUint (n : ℕ) : ofDigitChars 10 (formatUint n).toList 0 = n := by
  rw [formatUint, toList_repr]
  exact ofDigitChars_toDigits (by decide) (by decide)

theorem formatUint_inj {n' : ℕ} (h : formatUint n = formatUint n') : n = n' := by
  rw [← ofDigitChars_formatUint n, h, ofDigitChars_formatUint]

theorem parseUint_formatUint (h : n < 2 ^ 64) : parseUint (formatUint n) = some n := by
  have hne : (formatUint n).toList ≠ [] := by
    rw [formatUint, toList_repr]
    exact toDigits_ne_nil
  have hall : (formatUint n).toList.all Char.isDigit = true :=
    all_eq_true.2 fun _ hc => isDigit_formatUint hc
  rw [parseUint, ofDigitChars_formatUint, if_pos ⟨hne, hall, h⟩]

theorem head?_formatUint (h : n ≠ 0) : (formatUint n).toList.head? ≠ some '0' := by
  rw [formatUint, toList_repr]
  induction n using Nat.strong_induction_on with
  | _ n ih =>
    by_cases hlt : n < 10
    · have hall : ∀ m ∈ range 10, m ≠ 0 → digitChar m ≠ '0' := by decide
      simpa [toDigits_of_lt_base hlt] using hall n (mem_range.2 hlt) h
    have hdiv := ih (n / 10) (by omega) (by omega)
    rw [toDigits_of_base_le (by decide) (by omega),
      head?_append_of_ne_nil _ toDigits_ne_nil]
    exact hdiv

/-- Decimal digits without a leading zero are how their number is written. -/
theorem formatUint_ofDigitChars {l : List Char} (hne : l ≠ []) (hdigits : ∀ c ∈ l, c.isDigit = true)
    (hhead : l.head? ≠ some '0') : (formatUint (ofDigitChars 10 l 0)).toList = l := by
  have hdigit : ∀ c : Char, c.isDigit = true → c.toNat - 48 < 10 ∧ digitChar (c.toNat - 48) = c := by
    intro c hc
    simp only [Char.isDigit, Bool.and_eq_true, decide_eq_true_eq, ge_iff_le] at hc
    have hlow : 48 ≤ c.toNat := UInt32.le_iff_toNat_le.1 hc.1
    have hhigh : c.toNat ≤ 57 := UInt32.le_iff_toNat_le.1 hc.2
    have hall : ∀ d ∈ range 10, digitChar d = Char.ofNat (48 + d) := by decide
    refine ⟨by omega, ?_⟩
    rw [hall _ (mem_range.2 (by omega)), Nat.add_sub_cancel' hlow, Char.ofNat_toNat]
  simp only [formatUint, toList_repr]
  induction l using List.reverseRecOn with
  | nil => exact absurd rfl hne
  | append_singleton l c ih =>
    obtain ⟨hlt, hc⟩ := hdigit c (hdigits c (by simp))
    have hlast : toDigits 10 (c.toNat - 48) = [c] := by rw [toDigits_of_lt_base hlt, hc]
    rw [ofDigitChars_append, ofDigitChars_cons, ofDigitChars_nil]
    rcases eq_or_ne l [] with rfl | hl
    · simpa using hlast
    rw [head?_append_of_ne_nil _ hl] at hhead
    have hinit := ih hl (fun c hc => hdigits c (mem_append_left _ hc)) hhead
    have hpos : 0 < ofDigitChars 10 l 0 := by
      by_contra hzero
      rw [Nat.eq_zero_of_not_pos hzero, toDigits_zero] at hinit
      exact hhead (by rw [← hinit]; rfl)
    change toDigits 10 (10 * _ + (c.toNat - 48)) = _
    rw [← toDigits_append_toDigits (by decide) hpos hlt, hinit, hlast]

/-! ## Fields -/

/-- The pieces of a list between its separators. -/
def split (sep : Char) : List Char → List (List Char)
  | [] => [[]]
  | c :: l =>
    if c = sep then [] :: split sep l
    else
      match split sep l with
      | [] => [[c]]
      | f :: fs => (c :: f) :: fs

theorem split_ne_nil (sep : Char) (l : List Char) : split sep l ≠ [] := by
  cases l with
  | nil => simp [split]
  | cons c l =>
    rw [split]
    split
    · simp
    · split <;> simp

theorem split_append_cons (sep : Char) (a b : List Char) :
    split sep (a ++ sep :: b) = split sep a ++ split sep b := by
  induction a with
  | nil => simp [split]
  | cons c a ih =>
    by_cases hc : c = sep
    · simp [split, hc, ih]
    rw [cons_append, split, if_neg hc, ih, split, if_neg hc]
    cases h : split sep a with
    | nil => exact absurd h (split_ne_nil sep a)
    | cons f fs => simp

theorem split_of_not_mem {a : List Char} (h : sep ∉ a) : split sep a = [a] := by
  induction a with
  | nil => rfl
  | cons c a ih =>
    simp only [mem_cons, not_or] at h
    rw [split, if_neg (Ne.symm h.1), ih h.2]

def Free (sep : Char) (s : String) : Prop := sep ∉ s.toList
  deriving Decidable

theorem free_formatUint (hc : c.isDigit = false) (n : ℕ) : Free c (formatUint n) := by
  intro h
  rw [isDigit_formatUint h] at hc
  cases hc

/-- The pieces of a text between its separators. -/
def fields (sep : Char) (s : String) : List String := (split sep s.toList).map String.ofList

theorem fields_append {b : String} (hs : s.toList = sep :: b.toList) (a : String) :
    fields sep (a ++ s) = fields sep a ++ fields sep b := by
  rw [fields, String.toList_append, hs, split_append_cons, map_append, fields, fields]

theorem fields_of_free (h : Free sep a) : fields sep a = [a] := by
  rw [fields, split_of_not_mem h, map_singleton, String.ofList_toList]

theorem append_left_cancel_iff {t : String} : a ++ s = a ++ t ↔ s = t := by
  simp [← String.toList_inj]

theorem append_right_cancel_iff {b : String} : a ++ s = b ++ s ↔ a = b := by
  simp [← String.toList_inj]

/-- A text joined to a single piece by the separator. -/
theorem fields_suffix (tag : String) (hs : s.toList = sep :: tag.toList) (htag : Free sep tag)
    (a : String) : fields sep (a ++ s) = fields sep a ++ [tag] := by
  rw [fields_append hs, fields_of_free htag]

/-- Two texts joined around a single piece. -/
theorem fields_join (tag : String) (hs : s.toList = sep :: (tag.toList ++ [sep]))
    (htag : Free sep tag) (a b : String) :
    fields sep (a ++ s ++ b) = fields sep a ++ tag :: fields sep b := by
  rw [fields, String.toList_append, String.toList_append, hs, append_assoc, cons_append,
    append_assoc, singleton_append, split_append_cons, split_append_cons,
    split_of_not_mem htag, map_append, map_append]
  simp [fields]

theorem fields_of_hasPrefix {q t : String} (ht : t.toList = [sep])
    (h : hasPrefix s (q ++ t) = true) : ∃ b, fields sep s = fields sep q ++ fields sep b := by
  obtain ⟨b, hb⟩ := hasPrefix_iff.1 h
  have hs : s = q ++ (t ++ String.ofList b) := by
    rw [← String.toList_inj, ← hb]
    simp
  have ht' : (t ++ String.ofList b).toList = sep :: (String.ofList b).toList := by simp [ht]
  exact ⟨String.ofList b, by rw [hs, fields_append ht']⟩

theorem split_of_mem {a : List Char} (h : sep ∈ a) : 2 ≤ (split sep a).length := by
  obtain ⟨l, r, rfl⟩ := append_of_mem h
  have hl := length_pos_of_ne_nil (split_ne_nil sep l)
  have hr := length_pos_of_ne_nil (split_ne_nil sep r)
  rw [split_append_cons, length_append]
  omega

theorem fields_length_pos (sep : Char) (s : String) : 0 < (fields sep s).length := by
  rw [fields, length_map]
  exact length_pos_of_ne_nil (split_ne_nil sep s.toList)

theorem free_of_fields_length (h : (fields sep s).length ≤ 1) : Free sep s := by
  intro hmem
  have := split_of_mem hmem
  rw [fields, length_map] at h
  omega

/-- Texts differ that end in texts of which neither ends in the other. -/
theorem append_ne_append {s t : String} (h : ¬ s.toList <:+ t.toList ∧ ¬ t.toList <:+ s.toList)
    (a b : String) : a ++ s ≠ b ++ t := by
  intro heq
  have hlist := congrArg String.toList heq
  rw [String.toList_append, String.toList_append] at hlist
  have hsuffix : t.toList <:+ a.toList ++ s.toList := ⟨_, hlist.symm⟩
  exact (suffix_or_suffix_of_suffix (suffix_append ..) hsuffix).elim h.1 h.2

/-! ## Base64 -/

/-- The value of a character of the URL alphabet. -/
def base64Value (c : Char) : Option ℕ :=
  let n := c.toNat
  if 65 ≤ n ∧ n ≤ 90 then some (n - 65)
  else if 97 ≤ n ∧ n ≤ 122 then some (n - 71)
  else if 48 ≤ n ∧ n ≤ 57 then some (n + 4)
  else if n = 45 then some 62
  else if n = 95 then some 63
  else none

/-- The bytes of up to four values of six bits. -/
def base64Quantum : List ℕ → List ℕ
  | [a, b] => [a * 4 + b / 16]
  | [a, b, c] => [a * 4 + b / 16, b % 16 * 16 + c / 4]
  | [a, b, c, d] => [a * 4 + b / 16, b % 16 * 16 + c / 4, c % 4 * 64 + d]
  | _ => []

/-- The decoder after it has read some values of a quantum: the bytes, and whether
the text was read to its end. -/
def base64Decode : List ℕ → List Char → List ℕ × Bool
  | buf, [] => (base64Quantum buf, buf.length ≠ 1)
  | buf, c :: cs =>
    if c = '\r' ∨ c = '\n' then base64Decode buf cs
    else
      match base64Value c with
      | none => ([], false)
      | some v =>
        if buf.length = 3 then
          let (bytes, ok) := base64Decode [] cs
          (base64Quantum (buf ++ [v]) ++ bytes, ok)
        else base64Decode (buf ++ [v]) cs

/-- `base64.RawURLEncoding.DecodeString`: the bytes, and whether there was no error. -/
def base64RawUrl (s : String) : List ℕ × Bool := base64Decode [] s.toList

/-- Bytes as a number, the most significant byte first. -/
def bigEndian (bytes : List ℕ) : ℕ := bytes.foldl (fun n b => n * 256 + b) 0

/-- The character of a six bit value. -/
def base64Char (v : ℕ) : Char :=
  "ABCDEFGHIJKLMNOPQRSTUVWXYZabcdefghijklmnopqrstuvwxyz0123456789-_".toList.getD v 'A'

theorem base64Value_base64Char {v : ℕ} (hv : v < 64) :
    base64Value (base64Char v) = some v ∧ ¬(base64Char v = '\r' ∨ base64Char v = '\n') := by
  have hall : ∀ v : Fin 64, base64Value (base64Char v) = some v.val ∧
      ¬(base64Char v = '\r' ∨ base64Char v = '\n') := by decide +kernel
  exact hall ⟨v, hv⟩

/-- The six bit values of bytes. -/
def sextets : List ℕ → List ℕ
  | a :: b :: c :: bytes =>
    [a / 4, a % 4 * 16 + b / 16, b % 16 * 4 + c / 64, c % 64] ++ sextets bytes
  | [a, b] => [a / 4, a % 4 * 16 + b / 16, b % 16 * 4]
  | [a] => [a / 4, a % 4 * 16]
  | [] => []

theorem base64Decode_cons {v : ℕ} (hv : v < 64) (buf : List ℕ) (cs : List Char) :
    base64Decode buf (base64Char v :: cs) =
      if buf.length = 3 then
        (base64Quantum (buf ++ [v]) ++ (base64Decode [] cs).1, (base64Decode [] cs).2)
      else base64Decode (buf ++ [v]) cs := by
  obtain ⟨hvalue, hline⟩ := base64Value_base64Char hv
  rw [base64Decode, if_neg hline, hvalue]

theorem base64Decode_base64Char {bytes : List ℕ} (hbytes : ∀ b ∈ bytes, b < 256) :
    base64Decode [] ((sextets bytes).map base64Char) = (bytes, true) := by
  have hdecode := fun {v : ℕ} (hv : v < 64) => base64Decode_cons hv
  induction bytes using sextets.induct with
  | case1 a b c bytes ih =>
    simp only [forall_mem_cons] at hbytes
    have hquantum : base64Quantum [a / 4, a % 4 * 16 + b / 16, b % 16 * 4 + c / 64, c % 64] =
        [a, b, c] := by
      simp only [base64Quantum, cons.injEq, and_true]
      omega
    simp [sextets, hdecode (show a / 4 < 64 by omega),
      hdecode (show a % 4 * 16 + b / 16 < 64 by omega),
      hdecode (show b % 16 * 4 + c / 64 < 64 by omega), hdecode (show c % 64 < 64 by omega),
      hquantum, ih hbytes.2.2.2]
  | case2 a b =>
    simp only [forall_mem_cons] at hbytes
    have hquantum : base64Quantum [a / 4, a % 4 * 16 + b / 16, b % 16 * 4] = [a, b] := by
      simp only [base64Quantum, cons.injEq, and_true]
      omega
    simp only [sextets, map_cons, map_nil, hdecode (show a / 4 < 64 by omega),
      hdecode (show a % 4 * 16 + b / 16 < 64 by omega), hdecode (show b % 16 * 4 < 64 by omega)]
    simp [base64Decode, hquantum]
  | case3 a =>
    simp only [forall_mem_cons] at hbytes
    have hquantum : base64Quantum [a / 4, a % 4 * 16] = [a] := by
      simp only [base64Quantum, cons.injEq, and_true]
      omega
    simp only [sextets, map_cons, map_nil, hdecode (show a / 4 < 64 by omega),
      hdecode (show a % 4 * 16 < 64 by omega)]
    simp [base64Decode, hquantum]
  | case4 => simp [sextets, base64Decode, base64Quantum]

theorem bigEndian_digits (n : ℕ) : bigEndian (digits 256 n).reverse = n := by
  rw [bigEndian, foldl_reverse]
  conv_rhs => rw [← ofDigits_digits 256 n, ofDigits_eq_foldr]
  simp only [cast_id, mul_comm, add_comm]

/-- Every number is the value of some text that decodes. -/
theorem exists_base64RawUrl (n : ℕ) :
    ∃ s, s ≠ "" ∧ (base64RawUrl s).2 = true ∧ bigEndian (base64RawUrl s).1 = n := by
  -- A byte more than needed, for the text of zero not to be empty.
  set bytes := 0 :: (digits 256 n).reverse with hbytes
  have hlt : ∀ b ∈ bytes, b < 256 := by
    simp only [hbytes, forall_mem_cons, mem_reverse]
    exact ⟨by decide, fun b hb => digits_lt_base (by decide) hb⟩
  have h := base64Decode_base64Char hlt
  refine ⟨String.ofList ((sextets bytes).map base64Char), fun hempty => ?_, ?_, ?_⟩
  · rw [String.ofList_eq_empty_iff.1 hempty] at h
    simp [base64Decode, base64Quantum, hbytes] at h
  · rw [base64RawUrl, String.toList_ofList, h]
  · rw [base64RawUrl, String.toList_ofList, h, ← bigEndian_digits n]
    rfl

end Text
