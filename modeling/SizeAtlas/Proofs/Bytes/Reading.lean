import SizeAtlas.Bytes.Reading
import SizeAtlas.Proofs.Text.Utf8

/-!
# Numbers and names as they are written

A number may be written in more groups of seven bits than it needs, and a name is the
bytes of a text behind their number.  The readers read each of them back, whatever
bytes surround it.

## Main definitions

* `Lies` — the bytes that lie at an offset.
* `Groups`, `Numeral` — the ways to write a number.
* `Chunk`, `Title` — bytes and a text behind their number.
* `Series` — items behind their number.

## Main statements

* `varint_of_lies` — a number is read back from each numeral of it.
* `name_of_lies` — a name is read back.
-/

namespace SizeAtlas.Bytes

/-! ## Bytes at an offset -/

/-- From `cursor` on the file starts with `bs`. -/
def Lies (bytes : ByteArray) (cursor : Nat) (bs : List UInt8) : Prop :=
  bs <+: bytes.data.toList.drop cursor

/-- The offset behind a byte and those after it. -/
theorem add_length_cons (cursor : Nat) (b : UInt8) (bs : List UInt8) :
    cursor + (b :: bs).length = cursor + 1 + bs.length := by
  rw [List.length_cons]
  omega

/-- The offset behind bytes and those after them. -/
theorem add_length_append (cursor : Nat) (bs cs : List UInt8) :
    cursor + (bs ++ cs).length = cursor + bs.length + cs.length := by
  rw [List.length_append, Nat.add_assoc]

section Lies

variable {bytes : ByteArray} {cursor : Nat} {b : UInt8} {bs cs : List UInt8}

theorem lies_append :
    Lies bytes cursor (bs ++ cs) ↔ Lies bytes cursor bs ∧ Lies bytes (cursor + bs.length) cs := by
  unfold Lies
  rw [← List.drop_drop]
  constructor
  · rintro ⟨rest, h⟩
    rw [← h, List.append_assoc, List.drop_left]
    exact ⟨List.prefix_append .., List.prefix_append ..⟩
  · rintro ⟨⟨rest, h⟩, later⟩
    rw [← h, List.drop_left] at later
    rw [← h]
    exact (List.prefix_append_right_inj bs).2 later

theorem Lies.left (h : Lies bytes cursor (bs ++ cs)) : Lies bytes cursor bs := (lies_append.1 h).1

theorem Lies.right (h : Lies bytes cursor (bs ++ cs)) : Lies bytes (cursor + bs.length) cs :=
  (lies_append.1 h).2

theorem Lies.tail (h : Lies bytes cursor (b :: bs)) : Lies bytes (cursor + 1) bs := by
  have split : Lies bytes cursor ([b] ++ bs) := h
  exact split.right

theorem Lies.le (h : Lies bytes cursor bs) (ne : bs ≠ []) : cursor + bs.length ≤ bytes.size := by
  have len := h.length_le
  have pos := List.length_pos_iff.2 ne
  rw [List.length_drop] at len
  change cursor + bs.length ≤ bytes.data.toList.length
  omega

theorem Lies.getElem? (h : Lies bytes cursor (b :: bs)) : bytes[cursor]? = some b := by
  obtain ⟨rest, h⟩ := h
  have first : (bytes.data.toList.drop cursor)[0]? = some b := by rw [← h]; rfl
  rwa [List.getElem?_drop, Nat.add_zero, Array.getElem?_toList] at first

/-- The bytes that lie at an offset are those up to where they end. -/
theorem Lies.extract (h : Lies bytes cursor bs) :
    (bytes.extract cursor (cursor + bs.length)).data.toList = bs := by
  rw [ByteArray.data_extract, Array.toList_extract, List.extract_eq_take_drop,
    Nat.add_sub_cancel_left]
  exact (List.prefix_iff_eq_take.1 h).symm

end Lies

theorem byteAt_of_lies {bytes : ByteArray} {cursor : Nat} {b : UInt8} {bs : List UInt8}
    (h : Lies bytes cursor (b :: bs)) : byteAt bytes cursor = .ok (b, cursor + 1) := by
  rw [byteAt, h.getElem?]

/-! ## Numbers -/

/-- Groups of seven bits that spell `n`, the lowest first.  The high bit of a group
says that another one follows; so the last groups may be zero. -/
inductive Groups : (n : Nat) → List UInt8 → Prop
  | last {b : UInt8} (small : b.toNat < 0x80) : Groups b.toNat [b]
  | more {b : UInt8} {n : Nat} {bs : List UInt8} (large : 0x80 ≤ b.toNat) (rest : Groups n bs) :
      Groups (b.toNat - 0x80 + 0x80 * n) (b :: bs)

theorem Groups.ne_nil {n : Nat} {bs : List UInt8} (h : Groups n bs) : bs ≠ [] := by
  cases h <;> exact List.cons_ne_nil _ _

/-- A number below `2 ^ 32` as it is written, in one to five groups. -/
structure Numeral where
  /-- The number. -/
  value : Nat
  /-- The bytes that spell it. -/
  bytes : List UInt8
  spells : Groups value bytes
  short : bytes.length ≤ 5
  fits : value < 2 ^ 32

theorem exists_groups (k : Nat) {n : Nat} (h : n < 2 ^ (7 * (k + 1))) :
    ∃ bs, Groups n bs ∧ bs.length ≤ k + 1 := by
  have single : ∀ m < 0x80, ∃ bs, Groups m bs ∧ bs.length = 1 := by
    intro m hm
    have value : (UInt8.ofNat m).toNat = m := by
      rw [UInt8.toNat_ofNat']
      omega
    have last := Groups.last (b := UInt8.ofNat m) (by omega)
    rw [value] at last
    exact ⟨_, last, rfl⟩
  induction k generalizing n with
  | zero =>
    obtain ⟨bs, spells, len⟩ := single n h
    exact ⟨bs, spells, by omega⟩
  | succ k ih =>
    by_cases small : n < 0x80
    · obtain ⟨bs, spells, len⟩ := single n small
      exact ⟨bs, spells, by omega⟩
    · have power : 2 ^ (7 * (k + 1 + 1)) = 0x80 * 2 ^ (7 * (k + 1)) := by
        rw [← Nat.pow_add 2 7]
        congr 1
        omega
      obtain ⟨bs, spells, len⟩ := ih (n := n / 0x80) (by omega)
      have value : (UInt8.ofNat (n % 0x80 + 0x80)).toNat = n % 0x80 + 0x80 := by
        rw [UInt8.toNat_ofNat']
        omega
      have more := Groups.more (b := UInt8.ofNat (n % 0x80 + 0x80)) (by omega) spells
      rw [value, Nat.add_sub_cancel, Nat.mod_add_div] at more
      exact ⟨_, more, Nat.succ_le_succ len⟩

/-- Every number below `2 ^ 32` can be written. -/
theorem exists_numeral {n : Nat} (h : n < 2 ^ 32) : ∃ x : Numeral, x.value = n := by
  obtain ⟨bs, spells, short⟩ := exists_groups 4 (n := n) (by omega)
  exact ⟨⟨n, bs, spells, short, h⟩, rfl⟩

/-- With one more group the values that fit are `128` times as many. -/
theorem two_pow_succ_groups (more : Nat) :
    2 ^ (7 * (more + 1) + 4) = 0x80 * 2 ^ (7 * more + 4) := by
  rw [← Nat.pow_add 2 7]
  congr 1
  omega

theorem varintGroups_of_lies {bytes : ByteArray} {start more cursor n : Nat} {bs : List UInt8}
    (spells : Groups n bs) (short : bs.length ≤ more + 1) (fits : n < 2 ^ (7 * more + 4))
    (h : Lies bytes cursor bs) :
    varintGroups bytes start more cursor = .ok (n, cursor + bs.length) := by
  induction spells generalizing more cursor with
  | last small =>
    have first := byteAt_of_lies h
    cases more with
    | zero =>
      have : ¬ 0x0f < _ := Nat.not_lt.2 (Nat.le_of_lt_succ fits)
      simp [varintGroups, first, bind, Except.bind, this]
    | succ more => simp [varintGroups, first, bind, Except.bind, small]
  | @more b n bs large rest ih =>
    have first := byteAt_of_lies h
    cases more with
    | zero =>
      have := List.length_pos_iff.2 rest.ne_nil
      simp only [List.length_cons] at short
      omega
    | succ more =>
      have power := two_pow_succ_groups more
      have high : n < 2 ^ (7 * more + 4) := by omega
      have later := ih (Nat.le_of_succ_le_succ short) high h.tail
      rw [add_length_cons]
      simp [varintGroups, first, bind, Except.bind, Nat.not_lt.2 large, later]

/-- A number is read back from each numeral of it. -/
theorem varint_of_lies {bytes : ByteArray} {cursor : Nat} {n : Numeral}
    (h : Lies bytes cursor n.bytes) :
    varint bytes cursor = .ok (n.value, cursor + n.bytes.length) :=
  varintGroups_of_lies n.spells n.short n.fits h

/-! ## Names -/

/-- Bytes behind their number. -/
structure Chunk where
  length : Numeral
  content : List UInt8
  length_eq : length.value = content.length

/-- The bytes of a chunk with their number. -/
def Chunk.bytes (b : Chunk) : List UInt8 := b.length.bytes ++ b.content

/-- A text behind the number of its bytes. -/
structure Title where
  length : Numeral
  text : String
  length_eq : length.value = (Text.bytesOf text).length

/-- The bytes of a title. -/
def Title.bytes (t : Title) : List UInt8 := t.length.bytes ++ Text.bytesOf t.text

/-- A name is read back. -/
theorem name_of_lies {bytes : ByteArray} {cursor : Nat} {t : Title}
    (h : Lies bytes cursor t.bytes) :
    name .utf8 bytes cursor = .ok (t.text, cursor + t.bytes.length) := by
  have field := varint_of_lies h.left
  have text := h.right.extract
  have le : cursor + t.bytes.length ≤ bytes.size :=
    h.le (by simp [Title.bytes, t.length.spells.ne_nil])
  have stop : cursor + t.bytes.length = cursor + t.length.bytes.length + t.length.value := by
    rw [Title.bytes, add_length_append, t.length_eq]
  rw [← t.length_eq] at text
  rw [stop] at le ⊢
  simp only [name, field, bind, Except.bind, if_pos le, NameDecoding.decode, text,
    Text.Utf8.decode_bytesOf]

/-! ## Series -/

/-- Items behind their number. -/
structure Series (α : Type) where
  count : Numeral
  items : List α
  count_eq : count.value = items.length

/-- The bytes of a series, where `write` gives those of an item. -/
def Series.bytes {α : Type} (write : α → List UInt8) (s : Series α) : List UInt8 :=
  s.count.bytes ++ s.items.flatMap write

end SizeAtlas.Bytes
