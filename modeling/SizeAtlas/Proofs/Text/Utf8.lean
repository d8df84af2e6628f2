import Mathlib
import SizeAtlas.Text.Utf8

/-!
# Reading back the bytes of a text

The bytes of a text are read as that text.  The first byte of a character says how
many bytes follow it and which range the second one must be in, and a character
that is written in as few bytes as it needs keeps to that range.

## Main statements

* `step_of_encodeChar` — the bytes of a character are read as that character.
* `decode_bytesOf` — the bytes of a text are read as that text.
-/

namespace SizeAtlas.Text

theorem bytesOf_eq (s : String) : bytesOf s = s.toList.flatMap String.utf8EncodeChar := by
  have written : s.toByteArray = s.toList.utf8Encode := by
    rw [← String.toByteArray_ofList, String.ofList_toList]
  rw [bytesOf, String.toUTF8, written, List.utf8Encode, List.data_toByteArray]

/-- A text of ASCII characters has one byte for each. -/
theorem bytesOf_ofList_ascii {cs : List Char} (h : ∀ c ∈ cs, c.toNat < 0x80) :
    bytesOf (String.ofList cs) = cs.map fun c => UInt8.ofNat c.toNat := by
  rw [bytesOf_eq, String.toList_ofList, List.map_eq_flatMap]
  refine List.flatMap_congr fun c hc => ?_
  have small : c.val.toNat ≤ 127 := Nat.le_of_lt_succ (h c hc)
  rw [String.utf8EncodeChar, if_pos small]
  rfl

namespace Utf8

/-! ## Single characters -/

/-- The byte with six value bits of `n` adds them, if it is within the range. -/
theorem tail_cons {more acc low high n : Nat} {rest : List UInt8} (above : low ≤ n % 64 + 128)
    (below : n % 64 + 128 ≤ high) :
    tail (more + 1) acc low high (UInt8.ofNat (n % 64 + 128) :: rest) =
      ((tail more (acc * 64 + n % 64) 0x80 0xbf rest).1,
        (tail more (acc * 64 + n % 64) 0x80 0xbf rest).2 + 1) := by
  have value : (UInt8.ofNat (n % 64 + 128)).toNat = n % 64 + 128 := by
    rw [UInt8.toNat_ofNat']
    omega
  rw [tail, value]
  simp [above, below]

/-- A first byte outside ASCII is followed by the bytes that it announces. -/
theorem step_of_lead {n : Nat} {l : Lead} {rest : List UInt8} (lt : n < 256) (ge : 0x80 ≤ n)
    (lead : lead? n = some l) :
    step (UInt8.ofNat n) rest = tail l.more l.bits l.low l.high rest := by
  have value : (UInt8.ofNat n).toNat = n := by
    rw [UInt8.toNat_ofNat']
    omega
  rw [step, value, if_neg (by omega), lead]

/-- The first byte of a character of two bytes. -/
theorem lead?_two {n : Nat} (ge : 2 ≤ n) (lt : n < 32) :
    lead? (n + 192) = some ⟨1, n, 0x80, 0xbf⟩ := by
  rw [lead?, if_neg (by omega), if_pos (by omega)]
  simp

/-- The first byte of a character of three bytes. -/
theorem lead?_three {n : Nat} (lt : n < 16) :
    lead? (n + 224) =
      some ⟨2, n, if n = 0 then 0xa0 else 0x80, if n = 13 then 0x9f else 0xbf⟩ := by
  interval_cases n <;> rfl

/-- The first byte of a character of four bytes. -/
theorem lead?_four {n : Nat} (lt : n < 5) :
    lead? (n + 240) =
      some ⟨3, n, if n = 0 then 0x90 else 0x80, if n = 4 then 0x8f else 0xbf⟩ := by
  interval_cases n <;> rfl

/-- The bytes of a character are read as that character, whatever follows them. -/
theorem step_of_encodeChar (c : Char) : ∃ b more, String.utf8EncodeChar c = b :: more ∧
    ∀ rest, step b (more ++ rest) = (c, more.length) := by
  have back : Char.ofNat c.val.toNat = c := Char.ofNat_toNat c
  have valid : c.val.toNat < 0xd800 ∨ 0xdfff < c.val.toNat ∧ c.val.toNat < 0x110000 := c.valid
  unfold String.utf8EncodeChar
  generalize c.val.toNat = v at back valid
  dsimp only
  split_ifs with one two three
  · refine ⟨_, [], rfl, fun rest => ?_⟩
    have value : (UInt8.ofNat v).toNat = v := by
      rw [UInt8.toNat_ofNat']
      omega
    rw [step, value, if_pos (by omega), back]
    rfl
  · refine ⟨_, _, rfl, fun rest => ?_⟩
    have bits : v / 64 % 32 * 64 + v % 64 = v := by omega
    rw [step_of_lead (by omega) (by omega) (lead?_two (by omega) (by omega)),
      List.singleton_append, tail_cons (by simp) (by simp; omega), bits, tail]
    simp [back]
  · refine ⟨_, _, rfl, fun rest => ?_⟩
    have bits : (v / 4096 % 16 * 64 + v / 64 % 64) * 64 + v % 64 = v := by omega
    -- The narrower ranges keep out overlong forms and surrogates, which no character has.
    have above : (if v / 4096 % 16 = 0 then 0xa0 else 0x80) ≤ v / 64 % 64 + 128 := by
      split <;> omega
    have below : v / 64 % 64 + 128 ≤ if v / 4096 % 16 = 13 then 0x9f else 0xbf := by
      split <;> omega
    rw [step_of_lead (by omega) (by omega) (lead?_three (by omega)), List.cons_append,
      tail_cons above below, List.singleton_append, tail_cons (by omega) (by omega), bits, tail]
    simp [back]
  · refine ⟨_, _, rfl, fun rest => ?_⟩
    have bits : ((v / 262144 % 8 * 64 + v / 4096 % 64) * 64 + v / 64 % 64) * 64 + v % 64 = v := by
      omega
    have above : (if v / 262144 % 8 = 0 then 0x90 else 0x80) ≤ v / 4096 % 64 + 128 := by
      split <;> omega
    have below : v / 4096 % 64 + 128 ≤ if v / 262144 % 8 = 4 then 0x8f else 0xbf := by
      split <;> omega
    rw [step_of_lead (by omega) (by omega) (lead?_four (by omega)), List.cons_append,
      tail_cons above below, List.cons_append, tail_cons (by omega) (by omega),
      List.singleton_append, tail_cons (by omega) (by omega), bits, tail]
    simp [back]

/-! ## Texts -/

theorem decodeChars_encodeChars (cs : List Char) :
    decodeChars (cs.flatMap String.utf8EncodeChar) = cs := by
  induction cs with
  | nil => simp [decodeChars]
  | cons c cs ih =>
    obtain ⟨b, more, bytes, step_eq⟩ := step_of_encodeChar c
    rw [List.flatMap_cons, bytes, List.cons_append, decodeChars, step_eq]
    simp only [List.drop_left, ih]

/-- The bytes of a text are read as that text. -/
@[simp] theorem decode_bytesOf (s : String) : decode (bytesOf s) = s := by
  rw [decode, bytesOf_eq, decodeChars_encodeChars, String.ofList_toList]

end Utf8

end SizeAtlas.Text
