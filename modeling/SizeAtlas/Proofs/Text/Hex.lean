import Mathlib
import SizeAtlas.Text.Hex

/-!
# Hexadecimal numerals of bytes

The numeral of a byte has two digits behind its padding, each of which is read back
as the half of the byte that it was written for.

## Main statements

* `toList_hex` — the digits of the numeral of a byte.
* `hexValue?_digitChar` — a digit is read back.
-/

namespace SizeAtlas.Text

/-- The numeral of a byte: the padding, then a digit for each half. -/
theorem toList_hex {width n : Nat} (wide : 2 ≤ width) (byte : n < 256) :
    (hex width n).toList =
      List.replicate (width - 2) '0' ++ [Nat.digitChar (n / 16), Nat.digitChar (n % 16)] := by
  rw [hex, String.toList_ofList]
  by_cases small : n < 16
  · -- The first digit is one of the zeros that are put in front.
    obtain ⟨more, rfl⟩ : ∃ more, width = more + 2 := ⟨width - 2, by omega⟩
    have high : n / 16 = 0 := by omega
    have low : n % 16 = n := by omega
    rw [Nat.toDigits_of_lt_base small, high, low]
    simp [List.replicate_succ', Nat.digitChar]
  · have high : n / 16 < 16 := by omega
    rw [Nat.toDigits_of_base_le (by omega) (by omega), Nat.toDigits_of_lt_base high]
    simp

/-- A digit is read back. -/
theorem hexValue?_digitChar {d : Nat} (h : d < 16) :
    hexValue? (Nat.digitChar d).toNat = some d := by
  interval_cases d <;> rfl

/-- A digit is printable. -/
theorem toNat_digitChar_mem {d : Nat} (h : d < 16) :
    0x30 ≤ (Nat.digitChar d).toNat ∧ (Nat.digitChar d).toNat ≤ 0x66 := by
  interval_cases d <;> decide

end SizeAtlas.Text
