import SizeAtlas.Proofs.Bytes.Copy
import SizeAtlas.Proofs.Bytes.Reading
import SizeAtlas.Proofs.Fallible

/-!
# Where a number of variable width stands

A number is read exactly where the bytes go on with one to five groups of seven bits, all
but the last marked as continued, whose value is below `2 ^ 32`.  Of the two faults one
says that the file ends between the groups, the other that they are no such number.

## Main definitions

* `Writes` — the bytes that write a number, with or without redundant groups.
* `CutOff` — the file ends between the groups of a number.

## Main statements

* `groups_iff` — the groups, taken one by one, are the digits of their value.
* `varint_eq_ok_iff`, `varint_eq_error_iff` — what is read where, and what is refused.
* `varint_outcomes` — both, and that every number is read back.
-/

namespace SizeAtlas.Bytes

/-! ## Numbers as digits to the base 128 -/

/-- The bytes write `n`: one to five of them, all but the last with the high bit set, and
below it the digits of `n` to the base 128, the lowest first.  The last digits may be
zero. -/
structure Writes (bs : List UInt8) (n : Nat) : Prop where
  marked : ∃ more last, bs = more ++ [last] ∧ (∀ b ∈ more, 0x80 ≤ b.toNat) ∧ last.toNat < 0x80
  short : bs.length ≤ 5
  value : Nat.ofDigits 0x80 (bs.map fun b => b.toNat % 0x80) = n
  fits : n < 2 ^ 32

/-- The value of the groups in front is that of the digits. -/
theorem groups_iff {n : Nat} {bs : List UInt8} :
    Groups n bs ↔
      (∃ more last, bs = more ++ [last] ∧ (∀ b ∈ more, 0x80 ≤ b.toNat) ∧ last.toNat < 0x80) ∧
        Nat.ofDigits 0x80 (bs.map fun b => b.toNat % 0x80) = n := by
  constructor
  · intro spells
    induction spells with
    | @last b small =>
      refine ⟨⟨[], b, rfl, by simp, small⟩, ?_⟩
      simp [Nat.mod_eq_of_lt small]
    | @more b n bs large rest ih =>
      obtain ⟨⟨more, last, rfl, high, low⟩, value⟩ := ih
      refine ⟨⟨b :: more, last, rfl, ?_, low⟩, ?_⟩
      · exact List.forall_mem_cons.2 ⟨large, high⟩
      · have := b.toNat_lt
        rw [List.map_cons, Nat.ofDigits_cons, value]
        omega
  · rintro ⟨⟨more, last, rfl, high, low⟩, rfl⟩
    induction more with
    | nil =>
      have spells := Groups.last low
      simpa [Nat.mod_eq_of_lt low] using spells
    | cons b more ih =>
      obtain ⟨large, high⟩ := List.forall_mem_cons.1 high
      have spells := Groups.more large (ih high)
      have := b.toNat_lt
      have digit : b.toNat % 0x80 = b.toNat - 0x80 := by omega
      rw [List.cons_append, List.map_cons, Nat.ofDigits_cons, digit]
      exact spells

theorem writes_iff {n : Nat} {bs : List UInt8} :
    Writes bs n ↔ Groups n bs ∧ bs.length ≤ 5 ∧ n < 2 ^ 32 := by
  rw [groups_iff]
  exact ⟨fun h => ⟨⟨h.marked, h.value⟩, h.short, h.fits⟩,
    fun ⟨⟨marked, value⟩, short, fits⟩ => ⟨marked, short, value, fits⟩⟩

theorem Numeral.writes (n : Numeral) : Writes n.bytes n.value :=
  writes_iff.2 ⟨n.spells, n.short, n.fits⟩

/-! ## Numbers that are read -/

variable {bytes : ByteArray} {cursor next start more n v : Nat} {b : UInt8} {bs : List UInt8}
  {fault : Fault}

theorem drop_eq_cons (found : bytes[cursor]? = some b) :
    bytes.data.toList.drop cursor = b :: bytes.data.toList.drop (cursor + 1) := by
  obtain ⟨lt, here⟩ := getElem?_eq_some_iff.1 found
  have lt' : cursor < bytes.data.toList.length := lt
  have here' : bytes.data.toList[cursor] = b := here
  rw [List.drop_eq_getElem_cons lt', here']

theorem lies_nil : Lies bytes cursor [] := List.nil_prefix

theorem lies_cons (found : bytes[cursor]? = some b) (rest : Lies bytes (cursor + 1) bs) :
    Lies bytes cursor (b :: bs) := by
  rw [Lies, drop_eq_cons found]
  exact (List.prefix_cons_inj b).2 rest

/-- What is read lies in front as the groups of a number. -/
theorem exists_groups_of_varintGroups (h : varintGroups bytes start more cursor = .ok (v, next)) :
    ∃ bs, Lies bytes cursor bs ∧ Groups v bs ∧ bs.length ≤ more + 1 ∧ v < 2 ^ (7 * more + 4) ∧
      next = cursor + bs.length := by
  induction more generalizing cursor v with
  | zero =>
    obtain ⟨b, read, small, rfl⟩ := varintGroups_zero_eq_ok_iff.1 h
    obtain ⟨found, rfl⟩ := byteAt_eq_ok_iff.1 read
    exact ⟨[b], lies_cons found lies_nil, .last (by omega), by simp, by omega, rfl⟩
  | succ more ih =>
    have power := two_pow_succ_groups more
    have pos := Nat.two_pow_pos (7 * more + 4)
    obtain ⟨b, after, read, step⟩ := varintGroups_succ_eq_ok_iff.1 h
    obtain ⟨found, rfl⟩ := byteAt_eq_ok_iff.1 read
    rcases step with ⟨small, rfl, rfl⟩ | ⟨large, high, groups, rfl⟩
    · exact ⟨[b], lies_cons found lies_nil, .last small, by simp, by omega, rfl⟩
    · obtain ⟨bs, lies, spells, short, fits, rfl⟩ := ih groups
      have := b.toNat_lt
      exact ⟨b :: bs, lies_cons found lies, .more large spells, Nat.succ_le_succ short, by omega,
        (add_length_cons ..).symm⟩

/-- A number is read exactly where the bytes go on with one that is written. -/
theorem varint_eq_ok_iff :
    varint bytes cursor = .ok (v, next) ↔
      ∃ bs, Lies bytes cursor bs ∧ Writes bs v ∧ next = cursor + bs.length := by
  simp only [writes_iff]
  constructor
  · intro h
    obtain ⟨bs, lies, spells, short, fits, stop⟩ := exists_groups_of_varintGroups h
    exact ⟨bs, lies, ⟨spells, short, fits⟩, stop⟩
  · rintro ⟨bs, lies, ⟨spells, short, fits⟩, rfl⟩
    exact varintGroups_of_lies spells short fits lies

/-! ## Numbers that are refused -/

/-- The file ends at most `more` bytes behind `cursor`, and each of them has the high bit
set, which says that another follows. -/
def CutOff (bytes : ByteArray) (more cursor : Nat) : Prop :=
  (bytes.data.toList.drop cursor).length ≤ more ∧
    ∀ b ∈ bytes.data.toList.drop cursor, 0x80 ≤ b.toNat

instance (bytes : ByteArray) (more cursor : Nat) : Decidable (CutOff bytes more cursor) :=
  inferInstanceAs (Decidable (_ ∧ _))

theorem cutOff_of_size_le (past : bytes.size ≤ cursor) : CutOff bytes more cursor := by
  have none : bytes.data.toList.drop cursor = [] := List.drop_eq_nil_of_le past
  simp [CutOff, none]

theorem not_cutOff_zero (found : bytes[cursor]? = some b) : ¬CutOff bytes 0 cursor := by
  simp [CutOff, drop_eq_cons found]

theorem cutOff_succ_iff (found : bytes[cursor]? = some b) :
    CutOff bytes (more + 1) cursor ↔ 0x80 ≤ b.toNat ∧ CutOff bytes more (cursor + 1) := by
  unfold CutOff
  rw [drop_eq_cons found, List.length_cons, List.forall_mem_cons, Nat.add_le_add_iff_right]
  exact and_left_comm

/-- A number that the file cuts off is refused for the first byte that is missing. -/
theorem varintGroups_of_cutOff (cut : CutOff bytes more cursor) :
    varintGroups bytes start more cursor = .error (.truncated (max cursor bytes.size)) := by
  induction more generalizing cursor with
  | zero =>
    have past : bytes.size ≤ cursor := by
      by_contra inside
      exact not_cutOff_zero (getElem?_pos bytes cursor (Nat.not_le.1 inside)) cut
    rw [varintGroups, byteAt_eq_error_iff.2 ⟨past, rfl⟩, max_eq_left past]
    rfl
  | succ more ih =>
    rw [varintGroups]
    by_cases inside : cursor < bytes.size
    · have found := getElem?_pos bytes cursor inside
      obtain ⟨large, cut⟩ := (cutOff_succ_iff found).1 cut
      have missing : max (cursor + 1) bytes.size = max cursor bytes.size := by omega
      simp only [byteAt_eq_ok_iff.2 ⟨found, rfl⟩, bind, Except.bind, if_neg (Nat.not_lt.2 large),
        ih cut, missing]
    · have past := Nat.not_lt.1 inside
      rw [byteAt_eq_error_iff.2 ⟨past, rfl⟩, max_eq_left past]
      rfl

/-- A number that is refused otherwise is refused as a whole. -/
theorem fault_of_not_cutOff (whole : ¬CutOff bytes more cursor)
    (failed : varintGroups bytes start more cursor = .error fault) :
    fault = .varintOverflow start := by
  induction more generalizing cursor with
  | zero =>
    rw [varintGroups] at failed
    rcases bind_eq_error.1 failed with missing | ⟨⟨b, next⟩, _, failed⟩
    · exact absurd (cutOff_of_size_le (byteAt_eq_error_iff.1 missing).1) whole
    · dsimp only at failed
      split at failed <;> cases failed
      rfl
  | succ more ih =>
    rw [varintGroups] at failed
    rcases bind_eq_error.1 failed with missing | ⟨⟨b, next⟩, read, failed⟩
    · exact absurd (cutOff_of_size_le (byteAt_eq_error_iff.1 missing).1) whole
    · obtain ⟨found, rfl⟩ := byteAt_eq_ok_iff.1 read
      dsimp only at failed
      split at failed
      · cases failed
      · rename_i large
        rcases bind_eq_error.1 failed with higher | ⟨_, _, failed⟩
        · refine ih (fun cut => whole ?_) higher
          exact (cutOff_succ_iff found).2 ⟨Nat.not_lt.1 large, cut⟩
        · cases failed

theorem fault_of_varint (failed : varint bytes cursor = .error fault) :
    fault = if CutOff bytes 4 cursor then .truncated (max cursor bytes.size)
      else .varintOverflow cursor := by
  by_cases cut : CutOff bytes 4 cursor
  · rw [varint, varintGroups_of_cutOff cut] at failed
    cases failed
    rw [if_pos cut]
  · rw [if_neg cut]
    exact fault_of_not_cutOff cut failed

/-- A number is refused exactly where none is written, and with one fault only. -/
theorem varint_eq_error_iff :
    varint bytes cursor = .error fault ↔
      (¬∃ bs v, Lies bytes cursor bs ∧ Writes bs v) ∧
        fault = if CutOff bytes 4 cursor then .truncated (max cursor bytes.size)
          else .varintOverflow cursor := by
  constructor
  · intro failed
    refine ⟨?_, fault_of_varint failed⟩
    rintro ⟨bs, v, lies, written⟩
    rw [varint_eq_ok_iff.2 ⟨bs, lies, written, rfl⟩] at failed
    cases failed
  · rintro ⟨none, rfl⟩
    cases outcome : varint bytes cursor with
    | ok r =>
      obtain ⟨bs, lies, written, _⟩ := varint_eq_ok_iff.1 outcome
      exact absurd ⟨bs, _, lies, written⟩ none
    | error fault => rw [fault_of_varint outcome]

/-- **Where a number is read, and why it is refused elsewhere.**  A number is read exactly
where the bytes go on with one that is written, and the reader goes on behind it.  Everywhere
else it fails: where the file ends after fewer than five bytes that all say that another
follows, for the first missing byte, and otherwise for the number as a whole.  So every
number below `2 ^ 32` is read back from each way to write it, whatever bytes surround it. -/
theorem varint_outcomes :
    (∀ bytes cursor v next, varint bytes cursor = .ok (v, next) ↔
      ∃ bs, Lies bytes cursor bs ∧ Writes bs v ∧ next = cursor + bs.length) ∧
    (∀ bytes cursor fault, varint bytes cursor = .error fault ↔
      (¬∃ bs v, Lies bytes cursor bs ∧ Writes bs v) ∧
        fault = if CutOff bytes 4 cursor then .truncated (max cursor bytes.size)
          else .varintOverflow cursor) ∧
    ∀ v < 2 ^ 32, (∃ bs, Writes bs v) ∧ ∀ before bs after, Writes bs v →
      varint ⟨(before ++ bs ++ after).toArray⟩ before.length =
        .ok (v, before.length + bs.length) := by
  refine ⟨fun _ _ _ _ => varint_eq_ok_iff, fun _ _ _ => varint_eq_error_iff, fun v fits => ?_⟩
  constructor
  · obtain ⟨n, rfl⟩ := exists_numeral fits
    exact ⟨n.bytes, n.writes⟩
  · intro before bs after written
    refine varint_eq_ok_iff.2 ⟨bs, ?_, written, rfl⟩
    rw [Lies, List.append_assoc, List.drop_left]
    exact List.prefix_append ..

end SizeAtlas.Bytes
