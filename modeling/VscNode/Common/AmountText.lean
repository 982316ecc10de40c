import VscNode.Common.Amount

/-!
# Reading back formatted amounts

`formatAssetAmount` writes base units with the decimals of their asset, `parseAssetAmount`
reads them back. Every 64-bit amount but the lowest comes back as it was: the parser negates
behind the conversion, and the lowest amount has no positive counterpart.
-/

namespace VscNode

open List Nat Text

def formatAssetAmount (amount : Int) (asset : String) : Except String String :=
  match getAssetPrecision asset with
  | none => .error ("unknown asset " ++ quote asset)
  | some prec =>
    if prec = 0 then .ok (formatInt amount)
    else
      let s := formatInt amount
      let neg := hasPrefix s "-"
      let s := if neg then trimPrefix s "-" else s
      let s := zeros (prec + 1 - s.length) ++ s
      let cut := s.length - prec
      let out := String.ofList (s.toList.take cut) ++ "." ++ String.ofList (s.toList.drop cut)
      .ok (if neg then "-" ++ out else out)

/-- Decimal digits and nothing else. -/
def Digits (s : String) : Prop := ∀ c ∈ s.toList, c.isDigit = true

variable {s t asset : String} {prec : ℕ}

theorem Digits.append (hs : Digits s) (ht : Digits t) : Digits (s ++ t) := by
  rw [Digits, String.toList_append]
  exact forall_mem_append.2 ⟨hs, ht⟩

theorem digits_zeros (n : ℕ) : Digits (zeros n) := by
  simp only [Digits, zeros, String.toList_ofList, mem_replicate]
  rintro c ⟨-, rfl⟩
  rfl

theorem digits_formatUint (n : ℕ) : Digits (formatUint n) := fun _ => isDigit_formatUint

theorem Digits.free (h : Digits s) {c : Char} (hc : c.isDigit = false) : Free c s := by
  intro hmem
  rw [h c hmem] at hc
  cases hc

theorem Digits.hasPrefix (h : Digits s) {c : Char} (hc : c.isDigit = false) (ht : t.toList = [c]) :
    hasPrefix s t = false := by
  rw [← Bool.not_eq_true, hasPrefix_iff, ht]
  exact fun hpre => h.free hc (hpre.subset mem_cons_self)

/-- The number a text of digits stands for. -/
def digitsValue (s : String) : ℕ := ofDigitChars 10 s.toList 0

theorem digitsValue_zeros_append (n : ℕ) (s : String) :
    digitsValue (zeros n ++ s) = digitsValue s := by
  simp only [digitsValue, zeros, String.toList_append, String.toList_ofList]
  induction n with
  | zero => simp
  | succ n ih => simpa [replicate_succ, ofDigitChars] using ih

theorem parseInt_digits (h : Digits s) (hne : s ≠ "") :
    (digitsValue s < 2 ^ 63 → parseInt s = ((digitsValue s : Int), none)) ∧
      (2 ^ 63 ≤ digitsValue s → ∃ n err, parseInt s = (n, some err)) := by
  have hne : s.toList ≠ [] := by simpa using hne
  have hsyntax : ¬ (s.toList = [] ∨ ¬ s.toList.all Char.isDigit = true) := by
    rw [all_eq_true.2 h]
    simp [hne]
  simp only [parseInt, digitsValue]
  split
  · rename_i rest hs
    exact absurd (h '-' (hs ▸ mem_cons_self)) (by decide)
  · rename_i rest hs
    exact absurd (h '+' (hs ▸ mem_cons_self)) (by decide)
  simp only [if_neg hsyntax, Bool.false_eq_true, if_false]
  refine ⟨fun hlt => ?_, fun hle => ?_⟩
  · rw [if_neg (by omega)]
  · rw [if_pos (by omega)]
    exact ⟨_, _, rfl⟩

/-- The text of an amount with a point. -/
def pointed (neg : Bool) (intPart fracPart : String) : String :=
  (if neg then "-" else "") ++ intPart ++ "." ++ fracPart

/-- A text of the usual form is read as what it says, unless that does not fit. -/
theorem parseAssetAmount_pointed (hprec : getAssetPrecision asset = some prec) (neg : Bool)
    (hs : Digits s) (ht : Digits t) (hne : s ++ t ≠ "") (hlength : t.length ≤ prec) {n : ℕ}
    (hn : digitsValue (s ++ t ++ zeros (prec - t.length)) = n) :
    (n < 2 ^ 63 → parseAssetAmount (pointed neg s t) asset = .ok (if neg then -(n : Int) else n)) ∧
      (2 ^ 63 ≤ n → ∃ err, parseAssetAmount (pointed neg s t) asset = .error err) := by
  have hsigned : Free '.' ((if neg then "-" else "") ++ s) := by
    cases neg <;> simpa [Free] using hs.free rfl
  have htrim : trimSpace (pointed neg s t) = pointed neg s t := by
    refine trimSpace_of_forall_not fun c hc => ?_
    simp only [pointed, String.toList_append, mem_append] at hc
    rcases hc with ((hc | hc) | hc) | hc
    · cases neg
      · simp at hc
      · obtain rfl : c = '-' := by simpa using hc
        rfl
    · exact isSpace_of_isDigit (hs c hc)
    · obtain rfl : c = '.' := by simpa using hc
      rfl
    · exact isSpace_of_isDigit (ht c hc)
  have hfields : fields '.' (pointed neg s t) = [(if neg then "-" else "") ++ s, t] := by
    rw [pointed, String.append_assoc, fields_suffix t (by simp) (ht.free rfl),
      fields_of_free hsigned]
    rfl
  have hneg : hasPrefix ((if neg then "-" else "") ++ s) "-" = neg := by
    cases neg
    · simpa using hs.hasPrefix (c := '-') rfl rfl
    · exact hasPrefix_append "-" s
  have hplus : trimPrefix s "+" = s := by
    rw [trimPrefix, hs.hasPrefix (c := '+') rfl rfl, if_neg Bool.false_ne_true]
  have hpart : (if neg then trimPrefix ((if neg then "-" else "") ++ s) "-"
      else trimPrefix ((if neg then "-" else "") ++ s) "+") = s := by
    cases neg
    · simpa using hplus
    · exact trimPrefix_append "-" s
  have hsign : ¬ (s.toList.any fun c => c = '+' ∨ c = '-') = true := by
    simp only [any_eq_true, decide_eq_true_eq, not_exists, not_and]
    rintro c hc (rfl | rfl)
    · exact hs.free rfl hc
    · exact hs.free rfl hc
  simp only [parseAssetAmount, hprec, htrim, hfields, hneg, hpart, if_neg hsign,
    if_neg (not_lt.2 hlength)]
  have hall : s ++ t ++ zeros (prec - t.length) ≠ "" :=
    fun h => hne (String.append_eq_empty_iff.1 h).1
  obtain ⟨hfits, hover⟩ := parseInt_digits ((hs.append ht).append (digits_zeros _)) hall
  rw [hn] at hfits hover
  refine ⟨fun hlt => ?_, fun hle => ?_⟩
  · rw [hfits hlt]
  · obtain ⟨m, err, herr⟩ := hover hle
    exact ⟨err, by rw [herr]⟩

theorem formatInt_eq (n : Int) :
    formatInt n = (if n < 0 then "-" else "") ++ formatUint n.natAbs := by
  cases n with
  | ofNat n => rw [if_neg (by simp), formatInt, String.empty_append, Int.natAbs_ofNat']
  | negSucc n => simp [formatInt]

theorem precision_pos (h : getAssetPrecision asset = some prec) : prec ≠ 0 := by
  obtain ⟨l₁, l₂, hsplit, -⟩ := lookup_eq_some_iff.1 h
  have hall : ∀ p ∈ assetPrecision, p.2 ≠ 0 := by decide
  exact hall (_, prec) (hsplit ▸ mem_append_right l₁ mem_cons_self)

/-- A formatted amount has a digit before the point and all decimals behind it. -/
theorem formatAssetAmount_eq (hprec : getAssetPrecision asset = some prec) (amount : Int) :
    ∃ s t, Digits s ∧ Digits t ∧ s ++ t ≠ "" ∧ t.length = prec ∧
      digitsValue (s ++ t) = amount.natAbs ∧
      formatAssetAmount amount asset = .ok (pointed (amount < 0) s t) := by
  have hneg : hasPrefix (formatInt amount) "-" = decide (amount < 0) := by
    rw [formatInt_eq]
    split
    · rw [hasPrefix_append, decide_eq_true ‹_›]
    · rw [String.empty_append, (digits_formatUint _).hasPrefix (c := '-') rfl rfl,
        decide_eq_false ‹_›]
  have hbare : (if amount < 0 then trimPrefix (formatInt amount) "-" else formatInt amount) =
      formatUint amount.natAbs := by
    rw [formatInt_eq]
    split
    · exact trimPrefix_append ..
    · exact String.empty_append
  set digits := zeros (prec + 1 - (formatUint amount.natAbs).length) ++ formatUint amount.natAbs
    with hdigits
  have hall : Digits digits := (digits_zeros _).append (digits_formatUint _)
  have hlength : prec < digits.length := by
    rw [hdigits, String.length_append, zeros, String.length_ofList, length_replicate]
    omega
  have hjoin : String.ofList (digits.toList.take (digits.length - prec)) ++
      String.ofList (digits.toList.drop (digits.length - prec)) = digits := by
    rw [← String.ofList_append, take_append_drop, String.ofList_toList]
  refine ⟨String.ofList (digits.toList.take (digits.length - prec)),
    String.ofList (digits.toList.drop (digits.length - prec)), ?_, ?_, ?_, ?_, ?_, ?_⟩
  · exact fun c hc => hall c (mem_of_mem_take (String.toList_ofList ▸ hc))
  · exact fun c hc => hall c (mem_of_mem_drop (String.toList_ofList ▸ hc))
  · rw [hjoin]
    rintro hempty
    simp [hempty] at hlength
  · rw [String.length_ofList, length_drop, String.length_toList]
    omega
  · rw [hjoin, hdigits, digitsValue_zeros_append]
    exact ofDigitChars_formatUint _
  · simp only [formatAssetAmount, hprec, hneg, decide_eq_true_eq, hbare,
      if_neg (precision_pos hprec), pointed, ← hdigits]
    split <;> simp [String.append_assoc]

/-- **A formatted amount is read back as it was**, in every asset, unless it is the lowest
64-bit one. -/
theorem parse_formatAssetAmount (hprec : getAssetPrecision asset = some prec) {amount : Int}
    (hlow : -2 ^ 63 ≤ amount) (hhigh : amount < 2 ^ 63) :
    ∃ text, formatAssetAmount amount asset = .ok text ∧
      (parseAssetAmount text asset = .ok amount ↔ amount ≠ -2 ^ 63) := by
  obtain ⟨s, t, hs, ht, hne, hlength, hvalue, hformat⟩ := formatAssetAmount_eq hprec amount
  have hn : digitsValue (s ++ t ++ zeros (prec - t.length)) = amount.natAbs := by
    rw [hlength, Nat.sub_self, ← hvalue]
    exact congrArg digitsValue String.append_empty
  obtain ⟨hfits, hover⟩ :=
    parseAssetAmount_pointed hprec (amount < 0) hs ht hne hlength.le hn
  refine ⟨_, hformat, ?_⟩
  rcases lt_or_ge amount.natAbs (2 ^ 63) with hlt | hle
  · rw [hfits hlt, Except.ok.injEq]
    simp only [decide_eq_true_eq]
    split <;> omega
  · obtain ⟨err, herr⟩ := hover hle
    rw [herr]
    simp only [reduceCtorEq, false_iff]
    omega

theorem parse_format_hbd : ∃ text, formatAssetAmount (-1) "HBD" = .ok text ∧
    (parseAssetAmount text "HBD" = .ok (-1) ↔ (-1 : Int) ≠ -2 ^ 63) :=
  parse_formatAssetAmount (show getAssetPrecision "HBD" = some 3 by decide) (by decide) (by decide)

example : formatAssetAmount (-1) "HBD" = .ok "-0.001" := by decide

end VscNode
