import Mathlib.Data.String.Basic

/-!
# Byte strings

Big-endian numbers, the hexadecimal text of a byte string with its round trip
(`hexDecode_hexEncode`), and the cut of a blob into records of a fixed width.
-/

/-- A Go `[]byte`. -/
abbrev Bytes := List UInt8

namespace Bytes

open List

variable (s : String) (n : ℕ) (b : Bytes)

def ofString : Bytes := s.toByteArray.data.toList

theorem ofString_injective : Function.Injective ofString := by
  intro s t h
  exact String.toByteArray_inj.1 (ByteArray.ext (Array.toList_inj.1 h))

/-- `binary.BigEndian.PutUint16`. -/
def putUint16 (n : UInt16) : Bytes := [(n >>> 8).toUInt8, n.toUInt8]

theorem putUint16_injective : Function.Injective putUint16 := by
  intro n m h
  simp only [putUint16, List.cons.injEq, ← UInt8.toNat_inj, UInt16.toNat_toUInt8,
    UInt16.toNat_shiftRight, Nat.shiftRight_eq_div_pow] at h
  have hn := n.toNat_lt
  have hm := m.toNat_lt
  apply UInt16.toNat_inj.1
  simp at h
  omega

/-- `binary.BigEndian.PutUint32`. -/
def putUint32 (n : UInt32) : Bytes :=
  [(n >>> 24).toUInt8, (n >>> 16).toUInt8, (n >>> 8).toUInt8, n.toUInt8]

theorem putUint32_injective : Function.Injective putUint32 := by
  intro n m h
  simp only [putUint32, List.cons.injEq, ← UInt8.toNat_inj, UInt32.toNat_toUInt8,
    UInt32.toNat_shiftRight, Nat.shiftRight_eq_div_pow] at h
  have hn := n.toNat_lt
  have hm := m.toNat_lt
  apply UInt32.toNat_inj.1
  simp at h
  omega

/-- `binary.BigEndian.PutUint64`. -/
def putUint64 : Bytes :=
  [56, 48, 40, 32, 24, 16, 8, 0].map fun shift => UInt8.ofNat (n >>> shift)

/-- `binary.BigEndian.Uint32` of the first four bytes. -/
def uint32 : UInt32 :=
  (b.take 4).foldl (fun acc byte => (acc <<< 8) ||| byte.toUInt32) 0

def slice (i j : ℕ) : Bytes := (b.take j).drop i

/-- The blob cut into records of `width` bytes; a shorter rest is dropped. -/
def records (width : ℕ) (b : Bytes) : List Bytes :=
  (List.range (b.length / width)).map fun i => slice b (i * width) (i * width + width)

/-! ## Hexadecimal text -/

/-- The lower-case digit of a number below 16. -/
def hexDigit : Char := if n < 10 then Char.ofNat (48 + n) else Char.ofNat (87 + n)

/-- The value of a hexadecimal digit, of either case. -/
def hexValue (c : Char) : Option ℕ :=
  if '0' ≤ c ∧ c ≤ '9' then some (c.toNat - 48)
  else if 'a' ≤ c ∧ c ≤ 'f' then some (c.toNat - 87)
  else if 'A' ≤ c ∧ c ≤ 'F' then some (c.toNat - 55)
  else none

def hexEncode : String :=
  String.ofList (b.flatMap fun byte => [hexDigit (byte.toNat / 16), hexDigit (byte.toNat % 16)])

/-- The digits of a text read in pairs; an odd digit or a foreign character is an error. -/
def hexPairs : List Char → Option Bytes
  | [] => some []
  | [_] => none
  | hi :: lo :: rest => do
    let h ← hexValue hi
    let l ← hexValue lo
    let bytes ← hexPairs rest
    some (UInt8.ofNat (16 * h + l) :: bytes)

def hexDecode : Option Bytes := hexPairs s.toList

theorem hexValue_hexDigit {n : ℕ} (h : n < 16) : hexValue (hexDigit n) = some n := by
  have hall : ∀ m ∈ range 16, hexValue (hexDigit m) = some m := by decide
  exact hall n (mem_range.2 h)

@[simp] theorem hexDecode_hexEncode : hexDecode (hexEncode b) = some b := by
  rw [hexDecode, hexEncode, String.toList_ofList]
  induction b with
  | nil => rfl
  | cons byte rest ih =>
    have hlt : byte.toNat < 256 := byte.toNat_lt
    have hhi := hexValue_hexDigit (n := byte.toNat / 16) (by omega)
    have hlo := hexValue_hexDigit (n := byte.toNat % 16) (by omega)
    have hsum : 16 * (byte.toNat / 16) + byte.toNat % 16 = byte.toNat := by omega
    simp only [flatMap_cons, cons_append, nil_append, hexPairs, hhi, hlo, ih,
      Option.bind_eq_bind, Option.bind_some, hsum, UInt8.ofNat_toNat]

end Bytes
