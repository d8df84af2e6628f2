import SizeAtlas.Fault
import SizeAtlas.Text.Utf8

/-!
# Reading numbers and names from bytes

The readers of a binary module.  Each takes the bytes and the offset to read
at, and gives what it read with the offset of the first byte after it.

## Main definitions

* `byteAt`, `word32` — a byte, and four bytes with the lowest first.
* `varint` — a number below `2 ^ 32` in groups of seven bits, lowest first.
* `NameDecoding` — how the bytes of a name become text.
* `name` — a name behind its length.
-/

namespace SizeAtlas.Bytes

/-! ## Fixed widths -/

/-- The byte at `cursor`. -/
def byteAt (bytes : ByteArray) (cursor : Nat) : Except Fault (UInt8 × Nat) :=
  match bytes[cursor]? with
  | some b => .ok (b, cursor + 1)
  | none => .error (.truncated cursor)

theorem byteAt_next {bytes : ByteArray} {cursor next : Nat} {b : UInt8}
    (h : byteAt bytes cursor = .ok (b, next)) : next = cursor + 1 := by
  unfold byteAt at h
  split at h <;> simp_all

/-- The number in the four bytes at `cursor`, the lowest first. -/
def word32 (bytes : ByteArray) (cursor : Nat) : Except Fault (Nat × Nat) :=
  match bytes[cursor]?, bytes[cursor + 1]?, bytes[cursor + 2]?, bytes[cursor + 3]? with
  | some a, some b, some c, some d =>
    .ok (a.toNat + 256 * (b.toNat + 256 * (c.toNat + 256 * d.toNat)), cursor + 4)
  | _, _, _, _ => .error (.truncated cursor)

/-! ## Variable widths -/

/-- The groups of a number that starts at `start`, from the one at `cursor` on,
when `more` groups may follow it.  The last group that fits in 32 bits has four
bits and no successor. -/
def varintGroups (bytes : ByteArray) (start : Nat) : Nat → Nat → Except Fault (Nat × Nat)
  | 0, cursor => do
    let (b, next) ← byteAt bytes cursor
    if 0x0f < b.toNat then .error (.varintOverflow start) else .ok (b.toNat, next)
  | more + 1, cursor => do
    let (b, next) ← byteAt bytes cursor
    if b.toNat < 0x80 then .ok (b.toNat, next)
    else
      let (high, stop) ← varintGroups bytes start more next
      .ok (b.toNat - 0x80 + 0x80 * high, stop)

/-- The number at `cursor`, written in at most five groups of seven bits. -/
def varint (bytes : ByteArray) (cursor : Nat) : Except Fault (Nat × Nat) :=
  varintGroups bytes cursor 4 cursor

theorem lt_of_varintGroups {bytes : ByteArray} {start : Nat} :
    ∀ {more cursor v next : Nat},
      varintGroups bytes start more cursor = .ok (v, next) → cursor < next
  | 0, cursor, v, next, h => by
    simp only [varintGroups] at h
    cases hb : byteAt bytes cursor with
    | error e => simp [hb, bind, Except.bind] at h
    | ok r =>
      obtain ⟨b, after⟩ := r
      have := byteAt_next hb
      simp only [hb, bind, Except.bind] at h
      split at h <;> simp_all
      omega
  | more + 1, cursor, v, next, h => by
    simp only [varintGroups] at h
    cases hb : byteAt bytes cursor with
    | error e => simp [hb, bind, Except.bind] at h
    | ok r =>
      obtain ⟨b, after⟩ := r
      have hn := byteAt_next hb
      simp only [hb, bind, Except.bind] at h
      split at h
      · simp_all
        omega
      · cases hg : varintGroups bytes start more after with
        | error e => simp [hg] at h
        | ok s =>
          obtain ⟨high, stop⟩ := s
          have := lt_of_varintGroups hg
          simp only [hg] at h
          simp_all
          omega

theorem lt_of_varint {bytes : ByteArray} {cursor v next : Nat}
    (h : varint bytes cursor = .ok (v, next)) : cursor < next :=
  lt_of_varintGroups h

/-! ## Names -/

/-- How the bytes of a name become text. -/
inductive NameDecoding where
  /-- As UTF-8, with replacements for what is none. -/
  | utf8
  /-- Every byte as the character of that code point. -/
  | latin1
  deriving DecidableEq, Repr, Inhabited

/-- The text of a name. -/
def NameDecoding.decode : NameDecoding → List UInt8 → String
  | .utf8, bytes => Text.Utf8.decode bytes
  | .latin1, bytes => Text.Latin1.decode bytes

/-- The name at `cursor`: its length in bytes, then the bytes. -/
def name (decoding : NameDecoding) (bytes : ByteArray) (cursor : Nat) :
    Except Fault (String × Nat) := do
  let (length, first) ← varint bytes cursor
  let stop := first + length
  if stop ≤ bytes.size then
    .ok (decoding.decode (bytes.extract first stop).data.toList, stop)
  else .error (.truncated first)

theorem lt_of_name {decoding : NameDecoding} {bytes : ByteArray} {cursor next : Nat} {s : String}
    (h : name decoding bytes cursor = .ok (s, next)) : cursor < next := by
  unfold name at h
  cases hv : varint bytes cursor with
  | error e => simp [hv, bind, Except.bind] at h
  | ok r =>
    obtain ⟨length, first⟩ := r
    have := lt_of_varint hv
    simp only [hv, bind, Except.bind] at h
    split at h <;> simp_all
    omega

end SizeAtlas.Bytes
