import SizeAtlas.Proofs.Text.Hex
import SizeAtlas.Proofs.Text.Utf8
import SizeAtlas.Renames.Escape

/-!
# The written form of a name can be read back

Each byte of a name is written as a backslash with what follows it, or as itself, and
no reading of one byte goes on into the next.  So the bytes are read back one by one,
and with them the name.

## Main definitions

* `writtenByte` — the bytes that one byte is written as.

## Main statements

* `printable_of_mem_escape` — a written form is printable ASCII.
* `unescapeBytes_flatMap` — the bytes of a name are read back.
* `unescape_escape` — a name is read back.
-/

namespace SizeAtlas.Renames

/-! ## Printable characters -/

theorem printable_of_mem_escapeByte {b : UInt8} {c : Char} (h : c ∈ escapeByte b) :
    0x20 ≤ c.toNat ∧ c.toNat ≤ 0x7e := by
  have byte : b.toNat < 256 := b.toNat_lt
  unfold escapeByte at h
  split_ifs at h with slash print
  · obtain rfl : c = '\\' := by simpa using h
    decide
  · obtain rfl : c = Char.ofNat b.toNat := by simpa using h
    rwa [Char.toNat_ofNat, if_pos (Or.inl (by omega))]
  · rw [Text.toList_hex (by omega) byte] at h
    have high := Text.toNat_digitChar_mem (d := b.toNat / 16) (by omega)
    have low := Text.toNat_digitChar_mem (d := b.toNat % 16) (by omega)
    simp only [Nat.sub_self, List.replicate_zero, List.nil_append, List.mem_cons,
      List.not_mem_nil, or_false] at h
    rcases h with rfl | rfl | rfl
    · decide
    · omega
    · omega

theorem printable_of_mem_escape {name : String} {c : Char} (h : c ∈ (escape name).toList) :
    0x20 ≤ c.toNat ∧ c.toNat ≤ 0x7e := by
  rw [escape, String.toList_ofList, List.mem_flatMap] at h
  obtain ⟨b, _, h⟩ := h
  exact printable_of_mem_escapeByte h

/-! ## Bytes -/

/-- The bytes that the byte `b` of a name is written as. -/
def writtenByte (b : UInt8) : List UInt8 := (escapeByte b).map fun c => UInt8.ofNat c.toNat

theorem bytesOf_escape (name : String) :
    Text.bytesOf (escape name) = (Text.bytesOf name).flatMap writtenByte := by
  rw [escape, Text.bytesOf_ofList_ascii, List.map_flatMap]
  · rfl
  · intro c hc
    have written : c ∈ (escape name).toList := by rwa [escape, String.toList_ofList]
    have := printable_of_mem_escape written
    omega

/-- A digit is no backslash. -/
theorem ofNat_digitChar_ne {d : Nat} (h : d < 16) :
    UInt8.ofNat (Nat.digitChar d).toNat ≠ backslash := by
  interval_cases d <;> decide

/-- Two digits are read as the byte with these halves. -/
theorem hexByte?_digitChar {b : UInt8} :
    hexByte? (UInt8.ofNat (Nat.digitChar (b.toNat / 16)).toNat)
      (UInt8.ofNat (Nat.digitChar (b.toNat % 16)).toNat) = some b := by
  have byte : b.toNat < 256 := b.toNat_lt
  have value : ∀ d < 16, (UInt8.ofNat (Nat.digitChar d).toNat).toNat = (Nat.digitChar d).toNat :=
    fun d h => by
      have := Text.toNat_digitChar_mem h
      rw [UInt8.toNat_ofNat']
      omega
  rw [hexByte?, value _ (by omega), value _ (by omega), Text.hexValue?_digitChar (by omega),
    Text.hexValue?_digitChar (by omega)]
  have whole : 16 * (b.toNat / 16) + b.toNat % 16 = b.toNat := Nat.div_add_mod b.toNat 16
  simp [whole]

theorem unescapeBytes_of_ne {x : UInt8} (h : x ≠ backslash) (rest : List UInt8) :
    unescapeBytes (x :: rest) = x :: unescapeBytes rest := by
  rw [unescapeBytes.eq_def]
  simp [h]

theorem unescapeBytes_backslash (rest : List UInt8) :
    unescapeBytes (backslash :: backslash :: rest) = backslash :: unescapeBytes rest := by
  rw [unescapeBytes.eq_def]
  simp

theorem unescapeBytes_hex {a b byte : UInt8} (h : a ≠ backslash)
    (value : hexByte? a b = some byte) (rest : List UInt8) :
    unescapeBytes (backslash :: a :: b :: rest) = byte :: unescapeBytes rest := by
  rw [unescapeBytes.eq_def]
  simp [h, value]

/-- One byte is read back, and the reading does not go on into what follows. -/
theorem unescapeBytes_writtenByte (b : UInt8) (rest : List UInt8) :
    unescapeBytes (writtenByte b ++ rest) = b :: unescapeBytes rest := by
  have byte : b.toNat < 256 := b.toNat_lt
  unfold writtenByte escapeByte
  split_ifs with slash print
  · subst slash
    have two : ['\\', '\\'].map (fun c => UInt8.ofNat c.toNat) = [backslash, backslash] := rfl
    rw [two]
    exact unescapeBytes_backslash rest
  · have same : UInt8.ofNat (Char.ofNat b.toNat).toNat = b := by
      rw [Char.toNat_ofNat, if_pos (Or.inl (by omega)), UInt8.ofNat_toNat]
    rw [List.map_cons, List.map_nil, same]
    exact unescapeBytes_of_ne slash rest
  · have three : ('\\' :: (Text.hex 2 b.toNat).toList).map (fun c => UInt8.ofNat c.toNat) =
        [backslash, UInt8.ofNat (Nat.digitChar (b.toNat / 16)).toNat,
          UInt8.ofNat (Nat.digitChar (b.toNat % 16)).toNat] := by
      rw [Text.toList_hex (by omega) byte]
      rfl
    rw [three]
    exact unescapeBytes_hex (ofNat_digitChar_ne (by omega)) hexByte?_digitChar rest

/-- The bytes of a name are read back from its written form. -/
theorem unescapeBytes_flatMap (bs : List UInt8) :
    unescapeBytes (bs.flatMap writtenByte) = bs := by
  induction bs with
  | nil => simp [unescapeBytes]
  | cons b bs ih => rw [List.flatMap_cons, unescapeBytes_writtenByte, ih]

/-! ## Names -/

/-- A name is read back from its written form. -/
@[simp] theorem unescape_escape (name : String) : unescape (escape name) = name := by
  rw [unescape, bytesOf_escape, unescapeBytes_flatMap, Text.Utf8.decode_bytesOf]

end SizeAtlas.Renames
