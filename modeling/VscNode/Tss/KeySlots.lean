import VscNode.Lib.Bytes
import VscNode.Lib.Text

/-!
# The slots of key shares

A share of a threshold key is stored under a name made of the key id, in base64 without
padding, and the decimal digits of the epoch. Digits are base64 characters, so a name can
be that of a longer key id and an earlier epoch.
-/

namespace VscNode.Tss

open List Text

/-- `base64.RawURLEncoding.EncodeToString`. -/
def base64Text (id : Bytes) : List Char := (sextets (id.map UInt8.toNat)).map base64Char

/-- The name of a slot; `base32` stands for the encoding of the name, in upper case. -/
def makeKey {κ : Type*} (base32 : List Char → κ) (t : String) (id : Bytes) (epochTag : ℕ) : κ :=
  base32 (t.toList ++ '-' :: (base64Text id ++ (formatUint epochTag).toList))

def Extends (id id' : Bytes) : Prop :=
  ∃ n, 0 < n ∧ base64Text id' = base64Text id ++ (formatUint n).toList

theorem Extends.isPrefix {id id' : Bytes} (h : Extends id id') :
    base64Text id <+: base64Text id' := by
  obtain ⟨n, -, h⟩ := h
  exact ⟨_, h.symm⟩

theorem base64Text_injective : Function.Injective base64Text := by
  have hread (id : Bytes) : base64Decode [] (base64Text id) = (id.map UInt8.toNat, true) :=
    base64Decode_base64Char (by simpa using fun b _ => b.toNat_lt)
  intro id id' h
  have hmap := hread id
  rw [h, hread id', Prod.mk.injEq] at hmap
  exact (map_injective_iff.2 (fun _ _ => UInt8.toNat_inj.1) hmap.1).symm

/-- A number without its last digits is a number. -/
theorem exists_formatUint_of_append {ds l : List Char} {e : ℕ} (hds : ds ≠ []) (hl : l ≠ [])
    (h : ds ++ l = (formatUint e).toList) : ∃ n, 0 < n ∧ ds = (formatUint n).toList := by
  simp only [formatUint, Nat.toList_repr] at h ⊢
  induction l using List.reverseRecOn generalizing e with
  | nil => exact absurd rfl hl
  | append_singleton l c ih =>
    have hbig : 10 ≤ e := by
      by_contra hlt
      rw [Nat.toDigits_of_lt_base (not_le.1 hlt)] at h
      have := congrArg length h
      have := length_pos_iff.2 hds
      simp at *
      omega
    rw [Nat.toDigits_of_base_le (by decide) hbig, ← append_assoc] at h
    have hinit := (append_inj' h rfl).1
    rcases eq_or_ne l [] with rfl | hne
    · exact ⟨e / 10, by omega, by simpa using hinit⟩
    · exact ih hne hinit

/-- Shares of two key ids never share a slot iff neither text extends the other. -/
theorem slots_distinct_iff {κ : Type*} {base32 : List Char → κ} (hinj : Function.Injective base32)
    (t : String) (id id' : Bytes) :
    (∀ e e', (id, e) ≠ (id', e') → makeKey base32 t id e ≠ makeKey base32 t id' e') ↔
      ¬ Extends id id' ∧ ¬ Extends id' id := by
  have hslot (id id' : Bytes) (e e' : ℕ) : makeKey base32 t id e = makeKey base32 t id' e' ↔
      base64Text id ++ (formatUint e).toList = base64Text id' ++ (formatUint e').toList := by
    rw [makeKey, makeKey, hinj.eq_iff, append_cancel_left_eq, cons.injEq]
    exact and_iff_right rfl
  constructor
  · -- ten times the number, with the digit 0 for the earlier epoch
    have hclash (id id' : Bytes) (n : ℕ) (hn : 0 < n)
        (h : base64Text id' = base64Text id ++ (formatUint n).toList) :
        makeKey base32 t id (10 * n + 0) = makeKey base32 t id' 0 := by
      rw [hslot, h, append_assoc]
      simp only [formatUint, Nat.toList_repr]
      rw [Nat.toDigits_append_toDigits (by decide) hn (by decide)]
    intro hdistinct
    constructor <;> rintro ⟨n, hn, h⟩
    · exact hdistinct _ _ (by simp; omega) (hclash id id' n hn h)
    · exact hdistinct _ _ (by simp; omega) (hclash id' id n hn h).symm
  · rintro ⟨hfst, hsnd⟩ e e' hne heq
    have hleft (id id' : Bytes) (e e' : ℕ) (ds : List Char) (hne : (id, e) ≠ (id', e'))
        (htext : base64Text id' = base64Text id ++ ds)
        (hdigits : (formatUint e).toList = ds ++ (formatUint e').toList) : Extends id id' := by
      have hds : ds ≠ [] := by
        rintro rfl
        rw [append_nil] at htext
        rw [base64Text_injective htext, formatUint_inj (String.toList_injective hdigits)]
          at hne
        exact hne rfl
      obtain ⟨n, hn, rfl⟩ := exists_formatUint_of_append hds
        (by simp [formatUint, Nat.toDigits_ne_nil]) hdigits.symm
      exact ⟨n, hn, htext⟩
    rcases append_eq_append_iff.1 ((hslot ..).1 heq) with ⟨ds, htext, hds⟩ | ⟨ds, htext, hds⟩
    · exact hfst (hleft _ _ _ _ ds hne htext hds)
    · exact hsnd (hleft _ _ _ _ ds hne.symm htext hds)

theorem slots_distinct_vault : makeKey id "key" (Bytes.ofString "vsc1a-mykey") 12 ≠
    makeKey id "key" (Bytes.ofString "vsc1a-vault") 2 :=
  (slots_distinct_iff Function.injective_id "key" _ _).2
    ⟨fun h => absurd h.isPrefix (by decide +kernel),
      fun h => absurd h.isPrefix (by decide +kernel)⟩ 12 2 (by simp)

/-- The share of `mykey` in epoch 12 is where that of `mykey5` in epoch 2 is. -/
theorem slot_shared : makeKey id "key" (Bytes.ofString "vsc1a-mykey") 12 =
    makeKey id "key" (Bytes.ofString "vsc1a-mykey5") 2 := by
  decide +kernel

end VscNode.Tss
