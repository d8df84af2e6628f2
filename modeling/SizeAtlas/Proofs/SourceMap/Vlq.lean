import Mathlib
import SizeAtlas.SourceMap.Vlq

/-!
# Writing numbers in base 64

The written form of a signed number: its sign goes below its magnitude, and the bits of
the two are written five to a digit, lowest first.  Twelve digits are enough for every
number of magnitude below `2 ^ 59`, and a text of such numbers is read back.

## Main definitions

* `unsigned` — a number with its sign as the lowest bit.
* `groups` — the values of the digits of a number.
* `encode` — the written form of a signed number.

## Main statements

* `length_groups_le` — how many digits a number takes.
* `decodeFrom_encode` — a number in front of a text is read.
* `decodeFrom_flatMap_encode` — the numbers of a text are read back.
-/

namespace SizeAtlas.SourceMap.Vlq

/-! ## Writing -/

/-- The magnitude of a number above its sign. -/
def unsigned (i : Int) : Nat := if i < 0 then 2 * i.natAbs + 1 else 2 * i.natAbs

/-- The values of the digits of `n`, lowest first: five bits each, and a sixth if another
one follows. -/
def groups (n : Nat) : List Nat :=
  if n < 32 then [n] else (n % 32 + 32) :: groups (n / 32)

/-- The digit of a value. -/
def letter (value : Nat) : Char := alphabet.getD value 'A'

/-- The written form of a number. -/
def encode (i : Int) : List Char := (groups (unsigned i)).map letter

theorem signed_unsigned (i : Int) : signed (unsigned i) = i := by
  unfold signed unsigned
  split_ifs <;> omega

theorem unsigned_lt {i : Int} (h : i.natAbs < 2 ^ 59) : unsigned i < 32 ^ maxDigits := by
  unfold unsigned maxDigits
  split_ifs <;> omega

theorem groups_of_lt {n : Nat} (h : n < 32) : groups n = [n] := by
  rw [groups, if_pos h]

theorem groups_of_le {n : Nat} (h : 32 ≤ n) : groups n = (n % 32 + 32) :: groups (n / 32) := by
  rw [groups, if_neg (by omega)]

theorem length_groups_le {n k : Nat} (h : n < 32 ^ (k + 1)) : (groups n).length ≤ k + 1 := by
  induction k generalizing n with
  | zero => simp [groups_of_lt (show n < 32 by simpa using h)]
  | succ k ih =>
    rcases Nat.lt_or_ge n 32 with small | large
    · simp [groups_of_lt small]
    · have high : n / 32 < 32 ^ (k + 1) := by
        rw [Nat.pow_succ] at h
        exact Nat.div_lt_of_lt_mul (by omega)
      rw [groups_of_le large, List.length_cons]
      exact Nat.succ_le_succ (ih high)

theorem groups_ne_nil (n : Nat) : groups n ≠ [] := by
  rw [groups]
  split <;> simp

theorem lt_of_mem_groups {n value : Nat} (h : value ∈ groups n) : value < 64 := by
  induction n using groups.induct with
  | case1 n small =>
    rw [groups_of_lt small, List.mem_singleton] at h
    omega
  | case2 n large ih =>
    rw [groups_of_le (by omega), List.mem_cons] at h
    rcases h with rfl | h
    · omega
    · exact ih h

theorem encode_ne_nil (i : Int) : encode i ≠ [] := by
  simp [encode, groups_ne_nil]

theorem letter_mem_alphabet {value : Nat} (h : value < 64) : letter value ∈ alphabet := by
  have length : alphabet.length = 65 := by decide +kernel
  have inside : value < alphabet.length := by omega
  rw [letter, List.getD_eq_getElem _ _ inside]
  exact List.getElem_mem inside

/-- A written number has no character outside the alphabet. -/
theorem mem_alphabet_of_mem_encode {i : Int} {c : Char} (h : c ∈ encode i) : c ∈ alphabet := by
  obtain ⟨value, mem, rfl⟩ := List.mem_map.1 h
  exact letter_mem_alphabet (lt_of_mem_groups mem)

/-! ## Reading back -/

/-- A digit is read back, since none occurs twice in the alphabet. -/
theorem digit_letter {value : Nat} (h : value < 64) : digit (letter value) = .ok value := by
  have all : ∀ v < 64, alphabet.findIdx? (· == letter v) = some v := by decide +kernel
  rw [digit, all value h]

/-- A digit that no other follows ends its number. -/
theorem decodeFrom_last {value count bits : Nat} {rest : List Char} (small : value < 32)
    (room : count < maxDigits) :
    decodeFrom count bits (letter value :: rest) =
      (decodeFrom 0 0 rest).map (signed (bits + value <<< (5 * count)) :: ·) := by
  have stop : ¬value / 32 % 2 = 1 := by omega
  rw [decodeFrom, digit_letter (by omega)]
  simp only [bind, Except.bind, if_neg (Nat.not_le.2 room), Nat.mod_eq_of_lt small, if_neg stop]
  cases decodeFrom 0 0 rest <;> rfl

/-- A digit that another follows adds its five bits. -/
theorem decodeFrom_more {value count bits : Nat} {rest : List Char} (small : value < 32)
    (room : count < maxDigits) :
    decodeFrom count bits (letter (value + 32) :: rest) =
      decodeFrom (count + 1) (bits + value <<< (5 * count)) rest := by
  have more : (value + 32) / 32 % 2 = 1 := by omega
  have low : (value + 32) % 32 = value := by omega
  rw [decodeFrom, digit_letter (by omega)]
  simp only [bind, Except.bind, if_neg (Nat.not_le.2 room), low, if_pos more]

/-- The digits of a number are added to the bits read so far. -/
theorem decodeFrom_groups {n count bits : Nat} {rest : List Char}
    (room : count + (groups n).length ≤ maxDigits) :
    decodeFrom count bits ((groups n).map letter ++ rest) =
      (decodeFrom 0 0 rest).map (signed (bits + n <<< (5 * count)) :: ·) := by
  induction n using groups.induct generalizing count bits with
  | case1 n small =>
    rw [groups_of_lt small] at room ⊢
    exact decodeFrom_last small (by simpa using room)
  | case2 n large ih =>
    rw [groups_of_le (by omega)] at room ⊢
    rw [List.length_cons] at room
    have split : (n % 32) <<< (5 * count) + (n / 32) <<< (5 * (count + 1)) = n <<< (5 * count) := by
      simp only [Nat.shiftLeft_eq, Nat.mul_add, Nat.pow_add]
      calc n % 32 * 2 ^ (5 * count) + n / 32 * (2 ^ (5 * count) * 2 ^ (5 * 1))
          = (n % 32 + 32 * (n / 32)) * 2 ^ (5 * count) := by ring
        _ = n * 2 ^ (5 * count) := by rw [Nat.mod_add_div]
    rw [List.map_cons, List.cons_append, decodeFrom_more (by omega) (by omega), ih (by omega),
      Nat.add_assoc, split]

/-- A number in front of a text is read. -/
theorem decodeFrom_encode {i : Int} {rest : List Char} (h : i.natAbs < 2 ^ 59) :
    decodeFrom 0 0 (encode i ++ rest) = (decodeFrom 0 0 rest).map (i :: ·) := by
  have room : 0 + (groups (unsigned i)).length ≤ maxDigits := by
    rw [Nat.zero_add]
    exact length_groups_le (unsigned_lt h)
  rw [encode, decodeFrom_groups room]
  simp [signed_unsigned]

/-- The numbers of a text are read back. -/
theorem decodeFrom_flatMap_encode {is : List Int} (h : ∀ i ∈ is, i.natAbs < 2 ^ 59) :
    decodeFrom 0 0 (is.flatMap encode) = .ok is := by
  induction is with
  | nil => rfl
  | cons i is ih =>
    rw [List.flatMap_cons, decodeFrom_encode (h i List.mem_cons_self),
      ih fun j hj => h j (List.mem_cons_of_mem _ hj)]
    rfl

end SizeAtlas.SourceMap.Vlq
