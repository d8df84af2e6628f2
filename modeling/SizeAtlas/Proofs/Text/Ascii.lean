import SizeAtlas.Bytes.Reading
import SizeAtlas.Proofs.Text.Utf8

/-!
# ASCII texts

A text of ASCII characters comes from its own bytes alone, however bytes are read as text:
a character of several bytes lies outside ASCII, and so does what is put for bytes that form
no character.

## Main definitions

* `IsAscii` — a text of ASCII characters.

## Main statements

* `step_of_ascii` — an ASCII character is read from the byte that it is.
* `decode_eq_iff_of_ascii` — an ASCII text is read from its own bytes, and from no others.
-/

namespace SizeAtlas.Text

/-- A text of ASCII characters. -/
def IsAscii (s : String) : Prop := ∀ c ∈ s.toList, c.toNat < 0x80

theorem IsAscii.of_append {s t u : String} (h : IsAscii (s ++ t ++ u)) : IsAscii t := by
  intro c mem
  refine h c ?_
  rw [String.toList_append, String.toList_append]
  exact List.mem_append_left _ (List.mem_append_right _ mem)

/-! ## As UTF-8 -/

namespace Utf8

/-- The bytes after the second one of a character add six value bits each. -/
theorem tail_bounds (more acc : Nat) (bytes : List UInt8) :
    (tail more acc 0x80 0xbf bytes).1 = replacement ∨
      ∃ v, (tail more acc 0x80 0xbf bytes).1 = Char.ofNat v ∧
        acc * 64 ^ more ≤ v ∧ v < (acc + 1) * 64 ^ more := by
  induction more generalizing acc bytes with
  | zero => exact Or.inr ⟨acc, rfl, by omega, by omega⟩
  | succ more ih =>
    match bytes with
    | [] => exact Or.inl rfl
    | b :: rest =>
      by_cases range : 0x80 ≤ b.toNat ∧ b.toNat ≤ 0xbf
      · rw [tail, if_pos range]
        refine (ih (acc * 64 + (b.toNat - 0x80)) rest).imp id ?_
        rintro ⟨v, char, above, below⟩
        refine ⟨v, char, le_trans ?_ above, lt_of_lt_of_le below ?_⟩
        · rw [pow_succ']
          nlinarith [Nat.zero_le ((b.toNat - 0x80) * 64 ^ more)]
        · rw [pow_succ', ← mul_assoc]
          exact Nat.mul_le_mul_right _ (by omega)
      · rw [tail, if_neg range]
        exact Or.inl rfl

/-- The second byte of a character says where its code lies. -/
theorem tail_succ_bounds (more acc low high : Nat) (bytes : List UInt8) :
    (tail (more + 1) acc low high bytes).1 = replacement ∨
      ∃ v, (tail (more + 1) acc low high bytes).1 = Char.ofNat v ∧
        (acc * 64 + (low - 0x80)) * 64 ^ more ≤ v ∧
        v < (acc * 64 + (high - 0x80) + 1) * 64 ^ more := by
  match bytes with
  | [] => exact Or.inl rfl
  | b :: rest =>
    by_cases range : low ≤ b.toNat ∧ b.toNat ≤ high
    · rw [tail, if_pos range]
      refine (tail_bounds more (acc * 64 + (b.toNat - 0x80)) rest).imp id ?_
      rintro ⟨v, char, above, below⟩
      refine ⟨v, char, le_trans ?_ above, lt_of_lt_of_le below ?_⟩
      · exact Nat.mul_le_mul_right _ (by omega)
      · exact Nat.mul_le_mul_right _ (by omega)
    · rw [tail, if_neg range]
      exact Or.inl rfl

/-- A character of several bytes lies outside ASCII, if every code in its range does. -/
theorem le_toNat_tail_succ {more acc low high : Nat} (bytes : List UInt8)
    (large : 0x80 ≤ (acc * 64 + (low - 0x80)) * 64 ^ more)
    (valid : ∀ v, (acc * 64 + (low - 0x80)) * 64 ^ more ≤ v →
      v < (acc * 64 + (high - 0x80) + 1) * 64 ^ more → v.isValidChar) :
    0x80 ≤ (tail (more + 1) acc low high bytes).1.toNat := by
  rcases tail_succ_bounds more acc low high bytes with char | ⟨v, char, above, below⟩
  · rw [char]
    decide
  · rw [char, Char.toNat_ofNat, if_pos (valid v above below)]
    exact le_trans large above

/-- What a first byte says allows only characters outside ASCII. -/
theorem le_toNat_tail_of_lead {n : Nat} {l : Lead} (byte : n < 256) (lead : lead? n = some l)
    (bytes : List UInt8) : 0x80 ≤ (tail l.more l.bits l.low l.high bytes).1.toNat := by
  unfold lead? at lead
  split_ifs at lead <;> obtain rfl := Option.some.inj lead <;>
    refine le_toNat_tail_succ bytes ?_ fun v above below => ?_ <;>
    simp only [Nat.isValidChar, pow_zero, pow_one, mul_one, Nat.reducePow] at * <;> omega

/-- **An ASCII character is read from the byte that it is**, and no other bytes are. -/
theorem step_of_ascii {b : UInt8} {rest : List UInt8} (h : (step b rest).1.toNat < 0x80) :
    step b rest = (Char.ofNat b.toNat, 0) ∧ b.toNat < 0x80 := by
  by_cases small : b.toNat < 0x80
  · exact ⟨if_pos small, small⟩
  · rw [step, if_neg small] at h
    cases lead : lead? b.toNat with
    | none =>
      rw [lead] at h
      exact absurd h (by simp [replacement])
    | some l =>
      rw [lead] at h
      exact absurd h (Nat.not_lt.2 (le_toNat_tail_of_lead b.toNat_lt lead rest))

theorem eq_of_decodeChars_ascii {bytes : List UInt8}
    (ascii : ∀ c ∈ decodeChars bytes, c.toNat < 0x80) :
    bytes = (decodeChars bytes).map fun c => UInt8.ofNat c.toNat := by
  induction bytes with
  | nil => simp [decodeChars]
  | cons b rest ih =>
    rw [decodeChars] at ascii ⊢
    obtain ⟨read, small⟩ := step_of_ascii (ascii _ List.mem_cons_self)
    have valid : b.toNat.isValidChar := Or.inl (by omega)
    rw [read] at ascii ⊢
    simp only [List.drop_zero, List.mem_cons, List.map_cons, Char.toNat_ofNat, if_pos valid,
      UInt8.ofNat_toNat] at ascii ⊢
    rw [← ih fun c mem => ascii c (Or.inr mem)]

end Utf8

/-! ## Under every decoding -/

theorem latin1_decode_eq_iff {s : String} (ascii : IsAscii s) {raw : List UInt8} :
    Latin1.decode raw = s ↔ raw = bytesOf s := by
  have bytes := bytesOf_ofList_ascii ascii
  rw [String.ofList_toList] at bytes
  rw [bytes, Latin1.decode, ← String.toList_inj, String.toList_ofList]
  constructor
  · intro chars
    rw [← chars, List.map_map]
    conv_lhs => rw [← List.map_id raw]
    refine List.map_congr_left fun b _ => ?_
    have valid : b.toNat.isValidChar := Or.inl (by have := b.toNat_lt; omega)
    simp [Char.toNat_ofNat, if_pos valid]
  · rintro rfl
    rw [List.map_map]
    conv_rhs => rw [← List.map_id s.toList]
    refine List.map_congr_left fun c mem => ?_
    have small := ascii c mem
    have value : (UInt8.ofNat c.toNat).toNat = c.toNat := by
      rw [UInt8.toNat_ofNat']
      omega
    simp [value]

/-- **An ASCII text is read from its own bytes, and from no others**, under every decoding. -/
theorem decode_eq_iff_of_ascii {s : String} (ascii : IsAscii s)
    (decoding : Bytes.NameDecoding) {raw : List UInt8} :
    decoding.decode raw = s ↔ raw = bytesOf s := by
  cases decoding with
  | utf8 =>
    constructor
    · rintro rfl
      have chars : (Bytes.NameDecoding.utf8.decode raw).toList = Utf8.decodeChars raw :=
        String.toList_ofList
      have bytes := bytesOf_ofList_ascii ascii
      rw [String.ofList_toList, chars] at bytes
      have ascii' : ∀ c ∈ Utf8.decodeChars raw, c.toNat < 0x80 := fun c mem =>
        ascii c (chars ▸ mem)
      exact (Utf8.eq_of_decodeChars_ascii ascii').trans bytes.symm
    · rintro rfl
      exact Utf8.decode_bytesOf s
  | latin1 => exact latin1_decode_eq_iff ascii

end SizeAtlas.Text
