import Mathlib.Algebra.Group.Nat.Defs
import PascalSyntax.Text.Numeral

/-!
# The literals that fit

The texts that `Numeral.signed?` gives a value, described by what is written: at
most one sign, then decimal digits, with a value in range.
-/

namespace PascalSyntax
namespace Numeral

structure Digits (text : List Char) : Prop where
  nonempty : text ≠ []
  isDigit : ∀ c ∈ text, c.isDigit = true

/-- The value of digits is the decimal number that they write. -/
theorem value_eq_ofDigitChars (digits : List Char) :
    value digits = Nat.ofDigitChars 10 digits 0 :=
  rfl

/-- A literal of a signed number of 64 bits. -/
inductive IsSigned : List Char → Prop
  | unsigned {digits : List Char} : Digits digits → value digits < 2 ^ 63 → IsSigned digits
  | plus {digits : List Char} : Digits digits → value digits < 2 ^ 63 → IsSigned ('+' :: digits)
  | minus {digits : List Char} : Digits digits → value digits ≤ 2 ^ 63 → IsSigned ('-' :: digits)

theorem magnitude?_eq_some_iff {text : List Char} {n : Nat} :
    magnitude? text = some n ↔ Digits text ∧ value text = n := by
  unfold magnitude?
  by_cases h : text ≠ [] ∧ text.all Char.isDigit = true
  · have hdigits : Digits text := ⟨h.1, List.all_eq_true.mp h.2⟩
    rw [if_pos h]
    simp [hdigits]
  · have hdigits : ¬ Digits text := fun hd => h ⟨hd.nonempty, List.all_eq_true.mpr hd.isDigit⟩
    rw [if_neg h]
    simp [hdigits]

theorem signed?_of_digits {digits : List Char} (h : Digits digits) :
    signed? digits = if value digits ≤ maxSigned then some (value digits : Int) else none := by
  have hm : magnitude? digits = some (value digits) := magnitude?_eq_some_iff.mpr ⟨h, rfl⟩
  unfold signed?
  split
  · exact absurd (h.isDigit '-' List.mem_cons_self) (by decide)
  · exact absurd (h.isDigit '+' List.mem_cons_self) (by decide)
  · rw [hm]
    rfl

theorem unsigned?_of_digits {digits : List Char} (h : Digits digits) :
    unsigned? digits = if value digits ≤ maxUnsigned then some (value digits) else none := by
  have hm : magnitude? digits = some (value digits) := magnitude?_eq_some_iff.mpr ⟨h, rfl⟩
  unfold unsigned?
  split
  · exact absurd (h.isDigit '+' List.mem_cons_self) (by decide)
  · dsimp only
    rw [hm]
    rfl

/-- A text has a value just if it is a literal that fits. -/
theorem signed?_eq_some_iff {text : List Char} :
    (∃ v, signed? text = some v) ↔ IsSigned text := by
  constructor
  · intro h
    rcases h with ⟨v, h⟩
    unfold signed? at h
    split at h
    · rename_i digits
      obtain ⟨n, hn, h⟩ := Option.bind_eq_some_iff.mp h
      obtain ⟨hdigits, rfl⟩ := magnitude?_eq_some_iff.mp hn
      by_cases hle : value digits ≤ maxSigned + 1
      · exact .minus hdigits hle
      · simp [hle] at h
    · rename_i digits
      obtain ⟨n, hn, h⟩ := Option.bind_eq_some_iff.mp h
      obtain ⟨hdigits, rfl⟩ := magnitude?_eq_some_iff.mp hn
      by_cases hle : value digits ≤ maxSigned
      · exact .plus hdigits (Nat.lt_of_le_of_lt hle (by decide))
      · simp [hle] at h
    · obtain ⟨n, hn, h⟩ := Option.bind_eq_some_iff.mp h
      obtain ⟨hdigits, rfl⟩ := magnitude?_eq_some_iff.mp hn
      by_cases hle : value text ≤ maxSigned
      · exact .unsigned hdigits (Nat.lt_of_le_of_lt hle (by decide))
      · simp [hle] at h
  · intro h
    cases h with
    | unsigned hdigits hlt =>
      have hle : value text ≤ maxSigned := Nat.le_sub_one_of_lt hlt
      rw [signed?_of_digits hdigits, if_pos hle]
      exact ⟨_, rfl⟩
    | @plus digits hdigits hlt =>
      have hm := magnitude?_eq_some_iff.mpr ⟨hdigits, rfl⟩
      have hle : value digits ≤ maxSigned := Nat.le_sub_one_of_lt hlt
      exact ⟨value digits, by simp [signed?, hm, hle]⟩
    | @minus digits hdigits hle =>
      have hm := magnitude?_eq_some_iff.mpr ⟨hdigits, rfl⟩
      have hle : value digits ≤ maxSigned + 1 := hle
      exact ⟨-value digits, by simp [signed?, hm, hle]⟩

end Numeral
end PascalSyntax
