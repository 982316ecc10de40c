import VscNode.Ledger.Record

/-!
# Amounts written as text

Operations and intents carry amounts as decimal text; the ledger counts base
units.
-/

namespace VscNode

open Text

/-- `%q`, for texts without characters to escape. -/
def quote (s : String) : String := "\"" ++ s ++ "\""

def formatInt : Int → String
  | .ofNat n => formatUint n
  | .negSucc n => "-" ++ formatUint (n + 1)

/-- `strconv.ParseInt s 10 64`: the number, and the error where there is one. A
number out of range is cut to the nearest one. -/
def parseInt (s : String) : Int × Option String :=
  let failed (reason : String) := some ("strconv.ParseInt: parsing " ++ quote s ++ ": " ++ reason)
  let (neg, digits) : Bool × List Char :=
    match s.toList with
    | '-' :: rest => (true, rest)
    | '+' :: rest => (false, rest)
    | cs => (false, cs)
  if digits = [] ∨ ¬ digits.all Char.isDigit then (0, failed "invalid syntax")
  else
    let n := Nat.ofDigitChars 10 digits 0
    if neg then
      if 2 ^ 63 < n then (-2 ^ 63, failed "value out of range") else (-n, none)
    else if 2 ^ 63 ≤ n then (2 ^ 63 - 1, failed "value out of range")
    else (n, none)

def Asset.ofString : String → Asset
  | "hive" => .hive
  | "hbd" => .hbd
  | "hbd_savings" => .hbdSavings
  | "hive_consensus" => .hiveConsensus
  | "delegation" => .delegation
  | "delegation_total" => .delegationTotal
  | name => .other name

def assetPrecision : List (String × ℕ) :=
  [("hbd", 3), ("hive", 3), ("hbd_savings", 3), ("hive_consensus", 3)]

def getAssetPrecision (asset : String) : Option ℕ := assetPrecision.lookup (toLower asset)

def zeros (n : ℕ) : String := String.ofList (List.replicate n '0')

def parseAssetAmount (amount asset : String) : Except String Int :=
  match getAssetPrecision asset with
  | none => .error ("unknown asset " ++ quote asset)
  | some prec =>
    match fields '.' (trimSpace amount) with
    | [whole] =>
      match parseInt whole with
      | (_, some err) => .error err
      | (n, none) =>
        let mult : Int := 10 ^ prec
        if n ≠ 0 ∧ ((2 ^ 63 - 1 : Int) / mult < n ∨ n < (-2 ^ 63 : Int).tdiv mult) then
          .error ("amount " ++ quote amount ++ " overflows int64 base units for " ++ asset)
        else .ok (n * mult)
    | [intPart, fracPart] =>
      if prec < fracPart.length then
        .error ("amount " ++ quote amount ++ " exceeds " ++ asset ++ " precision (" ++
          formatUint prec ++ ")")
      else
        let neg := hasPrefix intPart "-"
        let intPart := if neg then trimPrefix intPart "-" else trimPrefix intPart "+"
        if intPart.toList.any fun c => c = '+' ∨ c = '-' then
          .error ("amount " ++ quote amount ++ " has malformed sign")
        else
          match parseInt (intPart ++ fracPart ++ zeros (prec - fracPart.length)) with
          | (_, some err) => .error err
          | (n, none) => .ok (if neg then -n else n)
    | _ => .error ("amount " ++ quote amount ++ " must contain at most one decimal point")

def parseDecimalsToBaseUnits (amount : String) (decimals : Int) : Int :=
  match fields '.' amount with
  | [whole] => (parseInt (whole ++ zeros decimals.toNat)).1
  | [intPart, fracPart] =>
    let dec := if 0 ≤ decimals then decimals.toNat else fracPart.length
    let fracPart :=
      if dec < fracPart.length then String.ofList (fracPart.toList.take dec)
      else fracPart ++ zeros (dec - fracPart.length)
    (parseInt (intPart ++ fracPart)).1
  | _ => 0

end VscNode
