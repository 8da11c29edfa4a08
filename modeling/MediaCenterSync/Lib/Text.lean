import Mathlib.Data.List.Basic

/-!
# Texts as bytes

What a text is in UTF-8 (`utf8`), the texts it can be cut into at a separator, and decimal numbers,
which have none.
-/

namespace Text

/-- A statement about the characters of a text is decided by going over the text, not over all there
are. -/
instance (priority := high) decidableForallMem {p : Char → Prop} [DecidablePred p]
    (text : List Char) : Decidable (∀ c ∈ text, p c) :=
  List.decidableBAll p text

instance (priority := high) decidableForallMemOption {p : Char → Prop} [DecidablePred p]
    (c? : Option Char) : Decidable (∀ c ∈ c?, p c) :=
  Option.decidableForallMem c?

/-- What ends with a separator, and does not have it before, is cut where it ends. -/
theorem append_cons_inj {α : Type*} {separator : α} {left left' right right' : List α}
    (h : left ++ separator :: right = left' ++ separator :: right') (hleft : separator ∉ left)
    (hleft' : separator ∉ left') : left = left' ∧ right = right' := by
  induction left generalizing left' with
  | nil =>
    cases left' with
    | nil => exact ⟨rfl, (List.cons_eq_cons.mp h).2⟩
    | cons first rest => exact absurd (List.cons_eq_cons.mp h).1 (List.ne_of_not_mem_cons hleft')
  | cons first rest ih =>
    cases left' with
    | nil => exact absurd (List.cons_eq_cons.mp h).1.symm (List.ne_of_not_mem_cons hleft)
    | cons first' rest' =>
      obtain ⟨rfl, hrest⟩ := List.cons_eq_cons.mp h
      obtain ⟨rfl, hright⟩ :=
        ih hrest (List.not_mem_of_not_mem_cons hleft) (List.not_mem_of_not_mem_cons hleft')
      exact ⟨rfl, hright⟩

def utf8 (text : String) : List UInt8 := text.toList.flatMap String.utf8EncodeChar

theorem utf8_append (a b : String) : utf8 (a ++ b) = utf8 a ++ utf8 b := by
  rw [utf8, String.toList_append, List.flatMap_append]
  rfl

theorem toByteArray_utf8 (text : String) : (utf8 text).toByteArray = text.toByteArray := by
  conv_rhs => rw [← String.ofList_toList (s := text)]
  rfl

theorem utf8_injective : Function.Injective utf8 := by
  intro a b h
  rw [← String.toByteArray_inj, ← toByteArray_utf8, ← toByteArray_utf8, h]

/-! ### Decimal numbers -/

theorem isDigit_of_mem_decimal {n : ℕ} {c : Char} (h : c ∈ (toString n).toList) :
    c.isDigit = true := by
  rw [Nat.toString_eq_repr, Nat.toList_repr] at h
  exact Nat.isDigit_of_mem_toDigits (by decide) (by decide) h

theorem decimal_injective {a b : ℕ} (h : toString a = toString b) : a = b := by
  rw [Nat.toString_eq_repr, Nat.toString_eq_repr] at h
  have hdigits := congrArg String.toList h
  rw [Nat.toList_repr, Nat.toList_repr] at hdigits
  rw [← Nat.ofDigitChars_toDigits (b := 10) (n := a) (by decide) (by decide), hdigits,
    Nat.ofDigitChars_toDigits (by decide) (by decide)]

theorem utf8EncodeChar_of_isDigit {c : Char} (h : c.isDigit = true) :
    String.utf8EncodeChar c = [c.val.toUInt8] := by
  refine String.utf8EncodeChar_eq_singleton ?_
  simp only [Char.isDigit, ge_iff_le, Bool.and_eq_true, decide_eq_true_eq] at h
  simp only [Char.utf8Size]
  grind

theorem colon_notMem_utf8_decimal (n : ℕ) : 58 ∉ utf8 (toString n) := by
  intro h
  obtain ⟨c, hc, hbyte⟩ := List.mem_flatMap.mp h
  have hdigit := isDigit_of_mem_decimal hc
  rw [utf8EncodeChar_of_isDigit hdigit, List.mem_singleton] at hbyte
  simp only [Char.isDigit, ge_iff_le, Bool.and_eq_true, decide_eq_true_eq] at hdigit
  have hvalue : 58 = c.val.toNat % 256 := by
    rw [← UInt32.toNat_toUInt8, ← hbyte]
    rfl
  have hlow : 48 ≤ c.val.toNat := UInt32.le_iff_toNat_le.mp hdigit.1
  have hhigh : c.val.toNat ≤ 57 := UInt32.le_iff_toNat_le.mp hdigit.2
  omega

end Text

/-!
## Bytes read as text

What bytes are once they were read as UTF-8 and written as it again (`recode`): the bytes of a
character are kept, and whatever is none becomes the replacement character, once for the longest
start of a character that it is.
-/

namespace Text

/-- U+FFFD -/
def replacement : List UInt8 := [0xEF, 0xBF, 0xBD]

/-- How far a decoder has come: what it wrote, the bytes of the character it is in, how many more
that takes, and between which bounds the next one is. -/
structure Decoder where
  out : List UInt8
  pending : List UInt8
  need : ℕ
  lower : ℕ
  upper : ℕ

namespace Decoder

/-- Between two characters. -/
def ready (out : List UInt8) : Decoder := ⟨out, [], 0, 0x80, 0xBF⟩

/-- The first byte of a character. -/
def lead (out : List UInt8) (byte : UInt8) : Decoder :=
  let n := byte.toNat
  if n < 0x80 then ready (out ++ [byte])
  else if 0xC2 ≤ n ∧ n < 0xE0 then ⟨out, [byte], 1, 0x80, 0xBF⟩
  else if 0xE0 ≤ n ∧ n < 0xF0 then
    ⟨out, [byte], 2, if n = 0xE0 then 0xA0 else 0x80, if n = 0xED then 0x9F else 0xBF⟩
  else if 0xF0 ≤ n ∧ n < 0xF5 then
    ⟨out, [byte], 3, if n = 0xF0 then 0x90 else 0x80, if n = 0xF4 then 0x8F else 0xBF⟩
  else ready (out ++ replacement)

def step (d : Decoder) (byte : UInt8) : Decoder :=
  if d.need = 0 then lead d.out byte
  else if d.lower ≤ byte.toNat ∧ byte.toNat ≤ d.upper then
    if d.need = 1 then ready (d.out ++ d.pending ++ [byte])
    else ⟨d.out, d.pending ++ [byte], d.need - 1, 0x80, 0xBF⟩
  -- What was begun is no character, and this byte may begin one.
  else lead (d.out ++ replacement) byte

def finish (d : Decoder) : List UInt8 :=
  if d.need = 0 then d.out else d.out ++ replacement

end Decoder

/-- Bytes that were read as UTF-8, in UTF-8. -/
def recode (bytes : List UInt8) : List UInt8 := (bytes.foldl Decoder.step (.ready [])).finish

open Decoder

/-- A byte that begins nothing, a character that is broken off, a surrogate. -/
example : recode [0x68, 0xFF, 0xE2, 0x82, 0x69, 0xED, 0xA0, 0x80] =
    [0x68] ++ replacement ++ replacement ++ [0x69] ++ replacement ++ replacement ++
      replacement := by
  decide

end Text
