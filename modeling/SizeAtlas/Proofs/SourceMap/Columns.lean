import SizeAtlas.Proofs.Fallible
import SizeAtlas.Proofs.SourceMap.Lines
import SizeAtlas.Proofs.SourceMap.RoundTrip
import SizeAtlas.Proofs.Text.Utf8
import SizeAtlas.Script.Units

/-!
# Columns and bytes

A source map counts the columns of a line in units of UTF-16, the rest of the program counts
bytes.  The conversion of positions takes the former for the latter.  So a name is placed at
the character that it was written for only if none before that on its line takes more bytes
than units; otherwise it is placed before it, by what they take more.

## Main definitions

* `Text.byteCount`, `Text.unitCount`, `Text.surplus` — the sizes of characters.
* `Text.Place` — a character of a text, by what is before it on its line.
* `Mapping`, `namedMappings` — the mappings of a document that have a name.

## Main statements

* `LineStarts.start_line` — the line of a character starts where its first byte is.
* `LineStarts.offset_column` — what a column in units is converted to.
* `decodeEntries_eq` — each named mapping is converted by itself.
* `offset_of_decode` — where the names of a source map are placed.
* `misplaced_behindAccent` — a name that is not placed where it belongs.
-/

namespace SizeAtlas.Text

/-! ## Sizes of characters -/

/-- How many bytes characters take. -/
def byteCount (cs : List Char) : Nat := (cs.flatMap String.utf8EncodeChar).length

/-- How many units of UTF-16 characters take. -/
def unitCount (cs : List Char) : Nat :=
  (cs.flatMap fun c => Script.unitsOfCodePoint c.toNat).length

/-- How many more bytes than units a character takes: none if it is one of ASCII, one if it
takes two bytes, and two if it takes three or four. -/
def surplusOf (c : Char) : Nat := if c.toNat < 0x80 then 0 else if c.toNat < 0x800 then 1 else 2

/-- How many more bytes than units characters take. -/
def surplus (cs : List Char) : Nat := (cs.map surplusOf).sum

theorem byteCount_append (as bs : List Char) :
    byteCount (as ++ bs) = byteCount as + byteCount bs := by
  simp [byteCount]

theorem length_encodeChar (c : Char) : (String.utf8EncodeChar c).length =
    (Script.unitsOfCodePoint c.toNat).length + surplusOf c := by
  change _ = (Script.unitsOfCodePoint c.val.toNat).length +
    if c.val.toNat < 0x80 then 0 else if c.val.toNat < 0x800 then 1 else 2
  unfold String.utf8EncodeChar Script.unitsOfCodePoint
  dsimp only
  split_ifs <;> simp only [List.length_cons, List.length_nil] <;> omega

theorem byteCount_eq (cs : List Char) : byteCount cs = unitCount cs + surplus cs := by
  rw [byteCount, unitCount, surplus, List.length_flatMap, List.length_flatMap,
    ← List.sum_map_add]
  simp only [length_encodeChar]

theorem surplusOf_eq_zero_iff {c : Char} : surplusOf c = 0 ↔ c.toNat < 0x80 := by
  unfold surplusOf
  split_ifs with ascii <;> simp [ascii]

theorem surplus_eq_zero_iff {cs : List Char} : surplus cs = 0 ↔ ∀ c ∈ cs, c.toNat < 0x80 := by
  rw [surplus, List.sum_eq_zero_iff, List.forall_mem_map]
  exact forall₂_congr fun c _ => surplusOf_eq_zero_iff

theorem ofNat_ne_feed {n : Nat} (ge : 0x80 ≤ n) (lt : n < 256) : UInt8.ofNat n ≠ 10 := by
  intro feed
  have value := congrArg UInt8.toNat feed
  rw [UInt8.toNat_ofNat'] at value
  have : (10 : UInt8).toNat = 10 := rfl
  omega

theorem count_feed_encodeChar_of_ne {c : Char} (other : c ≠ '\n') :
    (String.utf8EncodeChar c).count 10 = 0 := by
  have value : c.val.toNat ≠ 10 := fun e => other (Char.val_inj.1 (UInt32.toNat_inj.1 e))
  rw [List.count_eq_zero]
  unfold String.utf8EncodeChar
  generalize c.val.toNat = v at value
  dsimp only
  split_ifs with one
  · rw [List.mem_singleton]
    intro feed
    have same := congrArg UInt8.toNat feed
    rw [UInt8.toNat_ofNat'] at same
    have : (10 : UInt8).toNat = 10 := rfl
    omega
  all_goals
    simp only [List.mem_cons, List.not_mem_nil, or_false, not_or]
    and_intros <;> exact (ofNat_ne_feed (by omega) (by omega)).symm

/-- Only a line feed has the byte of one. -/
theorem count_feed (cs : List Char) :
    (cs.flatMap String.utf8EncodeChar).count 10 = cs.count '\n' := by
  induction cs with
  | nil => rfl
  | cons c cs ih =>
    rw [List.flatMap_cons, List.count_append, ih, List.count_cons, Nat.add_comm]
    congr 1
    by_cases feed : c = '\n'
    · subst feed
      rfl
    · rw [count_feed_encodeChar_of_ne feed]
      simp [feed]

/-! ## Characters at their places -/

/-- A character of a text, by what is before it. -/
structure Place (text : List Char) where
  /-- The lines before its own. -/
  above : List Char
  /-- What is before it on its line. -/
  beside : List Char
  /-- The character. -/
  char : Char
  /-- What is behind it. -/
  after : List Char
  /-- Together they are the text. -/
  split : text = above ++ beside ++ char :: after
  /-- Its line starts at the start of the text or behind a line feed. -/
  starts : above = [] ∨ ∃ lines, above = lines ++ ['\n']
  /-- It is on that line. -/
  onLine : '\n' ∉ beside

namespace Place

variable {text : List Char} (p : Place text)

/-- The number of its line. -/
def line : Nat := p.above.count '\n'

/-- Its column as source maps count it. -/
def column : Nat := unitCount p.beside

/-- The offset of its first byte. -/
def offset : Nat := byteCount (p.above ++ p.beside)

/-- How many more bytes than units there are before it on its line. -/
def shift : Nat := surplus p.beside

theorem offset_eq : p.offset = byteCount p.above + p.column + p.shift := by
  rw [offset, byteCount_append, byteCount_eq p.beside, column, shift, Nat.add_assoc]

theorem shift_eq_zero_iff : p.shift = 0 ↔ ∀ c ∈ p.beside, c.toNat < 0x80 := surplus_eq_zero_iff

end Place

end SizeAtlas.Text

namespace SizeAtlas.LineStarts

open Text

variable {text : String} (p : Place text.toList)

/-! ## Lines of characters -/

theorem bytesOf_place : bytesOf text =
    p.above.flatMap String.utf8EncodeChar ++ (p.beside.flatMap String.utf8EncodeChar ++
      (p.char :: p.after).flatMap String.utf8EncodeChar) := by
  rw [bytesOf_eq, ← List.flatMap_append, ← List.flatMap_append, ← List.append_assoc]
  exact congrArg (List.flatMap String.utf8EncodeChar) p.split

theorem take_above : (bytesOf text).take (byteCount p.above) =
    p.above.flatMap String.utf8EncodeChar := by
  rw [bytesOf_place p]
  exact List.take_left

theorem take_offset : (bytesOf text).take p.offset =
    (p.above ++ p.beside).flatMap String.utf8EncodeChar := by
  rw [bytesOf_place p, ← List.append_assoc, ← List.flatMap_append]
  exact List.take_left

theorem offset_le_size : p.offset ≤ text.toUTF8.size := by
  have size : text.toUTF8.size = (bytesOf text).length := rfl
  rw [size, bytesOf_place p, ← List.append_assoc, ← List.flatMap_append, List.length_append]
  exact Nat.le_add_right _ _

/-- The line of a character is that of its first byte. -/
theorem lineOf_offset : lineOf text.toUTF8 p.offset = p.line := by
  have before : text.toUTF8.data.toList.take p.offset = _ := take_offset p
  rw [lineOf, before, count_feed, List.count_append, List.count_eq_zero.2 p.onLine]
  rfl

/-- The last of the starts up to a line feed is the one behind it. -/
theorem getElem?_startsAfter_feed (bs : List UInt8) :
    (0 :: startsAfter 0 (bs ++ [10]))[(bs ++ [10]).count 10]? = some (bs.length + 1) := by
  have last : startsAfter (0 + bs.length) [10] = [bs.length + 1] := by
    simp [startsAfter]
  have count : (bs ++ [10]).count 10 = (startsAfter 0 bs).length + 1 := by
    rw [List.count_append, length_startsAfter]
    rfl
  rw [startsAfter_append, last, count, List.getElem?_cons_succ, List.getElem?_concat_length]

/-- The last of the starts in whole lines is where they end. -/
theorem getElem?_startsAfter_lines {above : List Char}
    (whole : above = [] ∨ ∃ lines, above = lines ++ ['\n']) :
    (0 :: startsAfter 0 (above.flatMap String.utf8EncodeChar))[
      (above.flatMap String.utf8EncodeChar).count 10]? = some (byteCount above) := by
  rcases whole with rfl | ⟨lines, rfl⟩
  · rfl
  · have feed : (['\n'] : List Char).flatMap String.utf8EncodeChar = [10] := rfl
    rw [byteCount, List.flatMap_append, feed, getElem?_startsAfter_feed, List.length_append]
    rfl

/-- The line of a character starts where those before it end. -/
theorem start_line : (ofBytes text.toUTF8).start p.line = byteCount p.above := by
  have le : byteCount p.above ≤ text.toUTF8.size := by
    have := p.offset_eq ▸ offset_le_size p
    omega
  have inside : p.line ≤ (ofBytes text.toUTF8).last :=
    lineOf_offset p ▸ (lineOf_spec (offset_le_size p)).1
  have before : text.toUTF8.data.toList.take (byteCount p.above) = _ := take_above p
  have starts := toList_starts_split le
  rw [before] at starts
  have count : p.line = (p.above.flatMap String.utf8EncodeChar).count 10 := (count_feed _).symm
  have early : p.line < (0 :: startsAfter 0 (p.above.flatMap String.utf8EncodeChar)).length := by
    rw [List.length_cons, length_startsAfter, count]
    exact Nat.lt_succ_self _
  have here := getElem?_starts inside
  rw [← Array.getElem?_toList, starts, List.getElem?_append_left early, count,
    getElem?_startsAfter_lines p.starts, ← count] at here
  exact (Option.some.inj here).symm

/-- The column of a character is converted to an offset before it, by what the characters
before it on its line take more bytes than units. -/
theorem offset_column :
    (ofBytes text.toUTF8).offset p.line p.column + p.shift = p.offset := by
  have le := offset_le_size p
  obtain ⟨inside, -, next⟩ := lineOf_spec le
  rw [lineOf_offset p] at inside next
  have whole := p.offset_eq
  have start := start_line p
  rcases Nat.lt_or_eq_of_le inside with lt | final
  · have := next lt
    rw [offset_of_lt lt]
    omega
  · have size : (ofBytes text.toUTF8).size = text.toUTF8.size := rfl
    rw [final] at start
    rw [final, offset_of_le (Nat.le_refl _), size]
    omega

end SizeAtlas.LineStarts

namespace SizeAtlas.SourceMap

/-! ## Named mappings -/

/-- A mapping that has a name. -/
structure Mapping where
  /-- The line of the generated file. -/
  line : Nat
  /-- What the fields up to it add up to. -/
  values : Running

/-- Its entry, if the document has the name. -/
def Mapping.entry? (d : Document) (index : LineStarts) (q : Mapping) : Option Entry :=
  q.values.entry? d index q.line

/-- Goes on by one mapping of `line`.  Those that have a name are kept newest first. -/
def takeMapping (line : Nat) (state : Running × List Mapping) (mapping : List Char) :
    Except Fault (Running × List Mapping) := do
  let fields ← Vlq.decodeFrom 0 0 mapping
  let (r, named) := state.1.advance fields
  .ok (r, (if named then [⟨line, r⟩] else []) ++ state.2)

/-- Goes on by the mappings of one line. -/
def takeLine (state : Running × List Mapping) (line : List Char × Nat) :
    Except Fault (Running × List Mapping) :=
  (mappingsOf line.1).foldlM (takeMapping line.2) ({ state.1 with column := 0 }, state.2)

/-- The mappings of a document that have a name, in their order. -/
def namedMappings (d : Document) : Except Fault (List Mapping) := do
  let lines := (d.mappings.toList.splitOn ';').zipIdx
  let (_, named) ← lines.foldlM takeLine ({}, [])
  .ok named.reverse

section

variable (d : Document) (index : LineStarts)

/-- The values reached, with the entries for the mappings so far. -/
def withEntries (state : Running × List Mapping) : Running × List Entry :=
  (state.1, state.2.filterMap (Mapping.entry? d index))

theorem decodeMapping_eq (line : Nat) (state : Running × List Mapping) (mapping : List Char) :
    decodeMapping d index line (withEntries d index state) mapping =
      (takeMapping line state mapping).map (withEntries d index) := by
  rw [decodeMapping, takeMapping]
  cases Vlq.decodeFrom 0 0 mapping with
  | error e => rfl
  | ok fields =>
    rcases reached : state.1.advance fields with ⟨r, named⟩
    simp only [bind, Except.bind, Except.map, withEntries, reached]
    cases named with
    | false => rfl
    | true => cases entry : r.entry? d index line <;> simp [Mapping.entry?, entry]

/-- Each named mapping gives its entry by itself. -/
theorem decodeEntries_eq :
    decodeEntries d index =
      (namedMappings d).map fun named => named.filterMap (Mapping.entry? d index) := by
  have line : ∀ state line, decodeLine d index (withEntries d index state) line =
      (takeLine state line).map (withEntries d index) := fun state line =>
    foldlM_image (decodeMapping_eq d index line.2) _ ({ state.1 with column := 0 }, state.2)
  have all := foldlM_image line (d.mappings.toList.splitOn ';').zipIdx ({}, [])
  have start : withEntries d index ({}, []) = ({}, []) := rfl
  rw [decodeEntries, namedMappings, ← start, all]
  cases (d.mappings.toList.splitOn ';').zipIdx.foldlM takeLine ({}, []) with
  | error e => rfl
  | ok state => simp [bind, Except.bind, Except.map, withEntries]

end

/-! ## Where names are placed -/

variable {d : Document} {index : LineStarts} {e : Entry} {q : Mapping}

theorem offset_of_entry (found : q.entry? d index = some e) :
    e.offset = index.offset q.line q.values.column.toNat := by
  obtain ⟨name, -, rfl⟩ := Option.map_eq_some_iff.1 found
  rfl

/-- **Names are placed by units, not by bytes.**  The entries of a decoded source map are those
of its named mappings.  Let the column of such a mapping be that of a character of the text,
counted in units of UTF-16.  Then its entry is before this character, by one byte for each
character of two bytes before it on its line, and by two for each of three or four; so it is at
the character exactly if there are only ASCII characters before it on its line. -/
theorem offset_of_decode {json text : String} {m : SourceMap}
    (decoded : decode json text.toUTF8 = .ok m) :
    ∃ d named, Document.read json = .ok d ∧ namedMappings d = .ok named ∧
      m.entries.toList.Perm (named.filterMap (Mapping.entry? d (.ofBytes text.toUTF8))) ∧
      ∀ q ∈ named, ∀ e, q.entry? d (.ofBytes text.toUTF8) = some e →
        ∀ p : Text.Place text.toList, q.line = p.line → q.values.column = p.column →
          e.offset + p.shift = p.offset ∧
            (e.offset = p.offset ↔ ∀ c ∈ p.beside, c.toNat < 0x80) := by
  obtain ⟨d, read, decoded⟩ := bind_eq_ok.1 decoded
  obtain ⟨entries, found, decoded⟩ := bind_eq_ok.1 decoded
  obtain rfl := Except.ok.inj decoded
  rw [decodeEntries_eq] at found
  cases mappings : namedMappings d with
  | error e => simp [mappings, Except.map] at found
  | ok named =>
    rw [mappings] at found
    obtain rfl := Except.ok.inj found
    refine ⟨d, named, read, mappings, List.mergeSort_perm _ Entry.inOrder, ?_⟩
    intro q _ e entry p line column
    have here : e.offset + p.shift = p.offset := by
      rw [offset_of_entry entry, line, column, Int.toNat_natCast]
      exact LineStarts.offset_column p
    refine ⟨here, ?_⟩
    rw [← p.shift_eq_zero_iff]
    omega

/-- A document with a name at column 4 and one at column 10. -/
def twoColumns : String :=
  "\x7b\"sources\":[\"x.js\"],\"names\":[\"first\",\"second\"],\"mappings\":\"IAAAA,MAAAC\"\x7d"

/-- A text with a character of two bytes between these columns. -/
def accented : String := "var a='é',b=1;"

/-- The character before the two bytes. -/
def beforeAccent : Text.Place accented.toList :=
  ⟨[], "var ".toList, 'a', "='é',b=1;".toList, by decide, .inl rfl, by decide⟩

/-- The one behind them. -/
def behindAccent : Text.Place accented.toList :=
  ⟨[], "var a='é',".toList, 'b', "=1;".toList, by decide, .inl rfl, by decide⟩

theorem read_twoColumns :
    Document.read twoColumns = .ok ⟨#["x.js"], #["first", "second"], "IAAAA,MAAAC"⟩ := by
  cbv

theorem namedMappings_twoColumns :
    namedMappings ⟨#["x.js"], #["first", "second"], "IAAAA,MAAAC"⟩ =
      .ok [⟨0, ⟨4, 0, 0, 0, 0⟩⟩, ⟨0, ⟨10, 0, 0, 0, 1⟩⟩] := by
  cbv

/-- The name at column 4 is placed at the character there, the one at column 10 one byte before
its own. -/
theorem offset_of_decode_twoColumns :
    ∃ m, decode twoColumns accented.toUTF8 = .ok m ∧
      (∃ e ∈ m.entries.toList, e.name = "first" ∧ e.offset = beforeAccent.offset) ∧
      ∃ e ∈ m.entries.toList, e.name = "second" ∧ e.offset + 1 = behindAccent.offset := by
  obtain ⟨m, decoded⟩ := exists_eq_ok (x := decode twoColumns accented.toUTF8) (by cbv)
  obtain ⟨d, named, read, mappings, entries, places⟩ := offset_of_decode decoded
  obtain rfl := Except.ok.inj (read_twoColumns.symm.trans read)
  obtain rfl := Except.ok.inj (namedMappings_twoColumns.symm.trans mappings)
  have first := places _ List.mem_cons_self _ rfl beforeAccent (by decide) (by decide)
  have second := places _ (List.mem_cons_of_mem _ List.mem_cons_self) _ rfl behindAccent
    (by decide) (by decide)
  refine ⟨m, decoded, ⟨_, entries.mem_iff.2 (List.mem_filterMap.2 ⟨_, List.mem_cons_self, rfl⟩),
    rfl, first.2.2 (by simp [beforeAccent])⟩, _, entries.mem_iff.2 (List.mem_filterMap.2
      ⟨_, List.mem_cons_of_mem _ List.mem_cons_self, rfl⟩), rfl, second.1⟩

/-- The mapping for the character at byte 11, which is at column 10, is placed at byte 10. -/
theorem misplaced_behindAccent :
    ∃ d named, Document.read twoColumns = .ok d ∧ namedMappings d = .ok named ∧
      ∃ q ∈ named, ∃ e, q.entry? d (.ofBytes accented.toUTF8) = some e ∧
        q.line = behindAccent.line ∧ q.values.column = behindAccent.column ∧
        behindAccent.offset = 11 ∧ e.offset = 10 :=
  ⟨_, _, read_twoColumns, namedMappings_twoColumns, _,
    List.mem_cons_of_mem _ List.mem_cons_self, _, rfl, by decide, by decide, by decide, by cbv⟩

end SizeAtlas.SourceMap
