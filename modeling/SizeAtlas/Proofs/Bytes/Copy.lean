import Mathlib
import SizeAtlas.Bytes.Reading

/-!
# Reading a copy

Bytes of one file that stand in another one, perhaps at another place, are read there
with the same result, as long as the reader keeps to the bytes that were copied.  A
reader keeps to all bytes that its file has, so of a whole file everything is read alike.

## Main definitions

* `Copied` — the first bytes of a file stand in another file.

## Main statements

* `copied_extract` — the first bytes of a file stand in it.
* `varint_of_copied`, `name_of_copied` — numbers and names are read alike.
* `varint_le`, `name_le` — a reader does not pass the end of its file.
-/

namespace SizeAtlas.Bytes

/-- The first `limit` bytes of `part` stand in `whole` from `shift` on, as far as `part`
has them. -/
def Copied (part whole : ByteArray) (shift limit : Nat) : Prop :=
  ∀ i < limit, whole[shift + i]? = part[i]?

variable {part whole : ByteArray} {shift limit cursor next : Nat}

theorem Copied.mono {limit' : Nat} (h : Copied part whole shift limit) (le : limit' ≤ limit) :
    Copied part whole shift limit' :=
  fun i hi => h i (Nat.lt_of_lt_of_le hi le)

/-- What is copied lies within the file that it is copied to. -/
theorem Copied.le_size (h : Copied part whole shift part.size) (pos : 0 < part.size) :
    shift + part.size ≤ whole.size := by
  have last := h (part.size - 1) (by omega)
  have inside : part.size - 1 < part.size := by omega
  rw [getElem?_pos part _ inside] at last
  have := (getElem?_eq_some_iff.1 last).1
  omega

/-! ## The first bytes of a file -/

theorem size_extract_of_le {n : Nat} (le : n ≤ whole.size) : (whole.extract 0 n).size = n := by
  rw [ByteArray.size_extract]
  omega

theorem getElem?_extract_of_lt {n i : Nat} (lt : i < n) : (whole.extract 0 n)[i]? = whole[i]? := by
  change (whole.extract 0 n).data[i]? = whole.data[i]?
  rw [ByteArray.data_extract, Array.getElem?_extract]
  simp [lt]

/-- The first bytes of a file stand in the file where they stood. -/
theorem copied_extract {n : Nat} (le : n ≤ whole.size) :
    Copied (whole.extract 0 n) whole 0 (whole.extract 0 n).size := by
  intro i lt
  rw [size_extract_of_le le] at lt
  rw [Nat.zero_add, getElem?_extract_of_lt lt]

/-! ## Bytes -/

theorem byteAt_eq_ok_iff {b : UInt8} :
    byteAt part cursor = .ok (b, next) ↔ part[cursor]? = some b ∧ next = cursor + 1 := by
  unfold byteAt
  cases part[cursor]? with
  | none => simp
  | some b' => simp [eq_comm]

theorem byteAt_eq_error_iff {fault : Fault} :
    byteAt part cursor = .error fault ↔ part.size ≤ cursor ∧ fault = .truncated cursor := by
  rw [byteAt]
  by_cases inside : cursor < part.size
  · rw [getElem?_pos part cursor inside]
    simp [Nat.not_le.2 inside]
  · rw [getElem?_neg part cursor inside]
    simp [Nat.not_lt.1 inside, eq_comm]

theorem byteAt_le {b : UInt8} (h : byteAt part cursor = .ok (b, next)) : next ≤ part.size := by
  obtain ⟨found, rfl⟩ := byteAt_eq_ok_iff.1 h
  exact (getElem?_eq_some_iff.1 found).1

theorem byteAt_of_copied {b : UInt8} (h : Copied part whole shift limit)
    (read : byteAt part cursor = .ok (b, next)) (le : next ≤ limit) :
    byteAt whole (shift + cursor) = .ok (b, shift + next) := by
  obtain ⟨found, rfl⟩ := byteAt_eq_ok_iff.1 read
  rw [byteAt_eq_ok_iff, h cursor le]
  exact ⟨found, rfl⟩

/-! ## Numbers -/

/-- The last group of a number that may have no more groups. -/
theorem varintGroups_zero_eq_ok_iff {bytes : ByteArray} {start v : Nat} :
    varintGroups bytes start 0 cursor = .ok (v, next) ↔
      ∃ b, byteAt bytes cursor = .ok (b, next) ∧ b.toNat ≤ 0x0f ∧ v = b.toNat := by
  rw [varintGroups]
  cases byteAt bytes cursor with
  | error e => simp [bind, Except.bind]
  | ok r =>
    obtain ⟨b, after⟩ := r
    by_cases large : 0x0f < b.toNat
    · simp [bind, Except.bind, large]
    · simp [bind, Except.bind, large]
      omega

/-- A group of a number is the last one, or its high bit says that others follow. -/
theorem varintGroups_succ_eq_ok_iff {bytes : ByteArray} {start more v : Nat} :
    varintGroups bytes start (more + 1) cursor = .ok (v, next) ↔
      ∃ b after, byteAt bytes cursor = .ok (b, after) ∧
        (b.toNat < 0x80 ∧ v = b.toNat ∧ next = after ∨
          0x80 ≤ b.toNat ∧ ∃ high, varintGroups bytes start more after = .ok (high, next) ∧
            v = b.toNat - 0x80 + 0x80 * high) := by
  rw [varintGroups]
  cases byteAt bytes cursor with
  | error e => simp [bind, Except.bind]
  | ok r =>
    obtain ⟨b, after⟩ := r
    by_cases small : b.toNat < 0x80
    · simp [bind, Except.bind, small, eq_comm]
    · have large : 0x80 ≤ b.toNat := by omega
      cases groups : varintGroups bytes start more after with
      | error e => simp [bind, Except.bind, small, groups]
      | ok r =>
        obtain ⟨high, stop⟩ := r
        simp [bind, Except.bind, small, large, groups, eq_comm, and_comm]

theorem varintGroups_le {start more v : Nat}
    (h : varintGroups part start more cursor = .ok (v, next)) : next ≤ part.size := by
  induction more generalizing cursor v with
  | zero =>
    obtain ⟨b, read, _⟩ := varintGroups_zero_eq_ok_iff.1 h
    exact byteAt_le read
  | succ more ih =>
    obtain ⟨b, after, read, ⟨_, _, rfl⟩ | ⟨_, high, groups, _⟩⟩ := varintGroups_succ_eq_ok_iff.1 h
    · exact byteAt_le read
    · exact ih groups

theorem varint_le {v : Nat} (h : varint part cursor = .ok (v, next)) : next ≤ part.size :=
  varintGroups_le h

theorem varintGroups_of_copied {start start' more v : Nat} (h : Copied part whole shift limit)
    (read : varintGroups part start more cursor = .ok (v, next)) (le : next ≤ limit) :
    varintGroups whole start' more (shift + cursor) = .ok (v, shift + next) := by
  induction more generalizing cursor v with
  | zero =>
    obtain ⟨b, first, rest⟩ := varintGroups_zero_eq_ok_iff.1 read
    exact varintGroups_zero_eq_ok_iff.2 ⟨b, byteAt_of_copied h first le, rest⟩
  | succ more ih =>
    rw [varintGroups_succ_eq_ok_iff] at read ⊢
    obtain ⟨b, after, first, ⟨small, rfl, rfl⟩ | ⟨large, high, groups, rfl⟩⟩ := read
    · exact ⟨b, shift + next, byteAt_of_copied h first le, Or.inl ⟨small, rfl, rfl⟩⟩
    · have lt := lt_of_varintGroups groups
      exact ⟨b, shift + after, byteAt_of_copied h first (by omega),
        Or.inr ⟨large, high, ih groups, rfl⟩⟩

/-- A number is read alike in a copy. -/
theorem varint_of_copied {v : Nat} (h : Copied part whole shift limit)
    (read : varint part cursor = .ok (v, next)) (le : next ≤ limit) :
    varint whole (shift + cursor) = .ok (v, shift + next) :=
  varintGroups_of_copied h read le

/-! ## Names -/

theorem name_eq_ok_iff {decoding : NameDecoding} {bytes : ByteArray} {text : String} :
    name decoding bytes cursor = .ok (text, next) ↔
      ∃ length first, varint bytes cursor = .ok (length, first) ∧ next = first + length ∧
        next ≤ bytes.size ∧ text = decoding.decode (bytes.extract first next).data.toList := by
  rw [name]
  cases varint bytes cursor with
  | error e => simp [bind, Except.bind]
  | ok r =>
    obtain ⟨length, first⟩ := r
    simp only [bind, Except.bind, Except.ok.injEq, Prod.mk.injEq]
    constructor
    · intro h
      split at h
      · rename_i le
        simp only [Except.ok.injEq, Prod.mk.injEq] at h
        obtain ⟨rfl, rfl⟩ := h
        exact ⟨length, first, ⟨rfl, rfl⟩, rfl, le, rfl⟩
      · simp at h
    · rintro ⟨_, _, ⟨rfl, rfl⟩, rfl, le, rfl⟩
      simp [le]

theorem name_le {decoding : NameDecoding} {text : String}
    (h : name decoding part cursor = .ok (text, next)) : next ≤ part.size := by
  obtain ⟨_, _, _, _, le, _⟩ := name_eq_ok_iff.1 h
  exact le

/-- A stretch of bytes within a copy is the same in both files. -/
theorem extract_of_copied (h : Copied part whole shift limit) (first : Nat) (le : next ≤ limit) :
    (whole.extract (shift + first) (shift + next)).data.toList =
      (part.extract first next).data.toList := by
  rw [ByteArray.data_extract, ByteArray.data_extract, Array.toList_extract, Array.toList_extract,
    List.extract_eq_take_drop, List.extract_eq_take_drop]
  apply List.ext_getElem?
  intro i
  rw [List.getElem?_take, List.getElem?_take, List.getElem?_drop, List.getElem?_drop,
    Nat.add_sub_add_left]
  by_cases inside : i < next - first
  · have same := h (first + i) (by omega)
    rw [if_pos inside, if_pos inside, Nat.add_assoc]
    rw [Array.getElem?_toList, Array.getElem?_toList]
    exact same
  · rw [if_neg inside, if_neg inside]

/-- A name is read alike in a copy. -/
theorem name_of_copied {decoding : NameDecoding} {text : String}
    (h : Copied part whole shift limit)
    (read : name decoding part cursor = .ok (text, next)) (le : next ≤ limit) :
    name decoding whole (shift + cursor) = .ok (text, shift + next) := by
  have pos := lt_of_name read
  obtain ⟨length, first, field, rfl, le_size, rfl⟩ := name_eq_ok_iff.1 read
  have before := lt_of_varint field
  have same := extract_of_copied h first le
  refine name_eq_ok_iff.2 ⟨length, shift + first, varint_of_copied h field (by omega),
    (Nat.add_assoc _ _ _).symm, ?_, by rw [same]⟩
  -- The last byte of the name, or of its length, stands in the other file too.
  have last := h (first + length - 1) (by omega)
  rw [getElem?_pos part _ (by omega)] at last
  have := (getElem?_eq_some_iff.1 last).1
  omega

end SizeAtlas.Bytes
