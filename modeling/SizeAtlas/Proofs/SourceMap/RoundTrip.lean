import SizeAtlas.Proofs.Json.RoundTrip
import SizeAtlas.Proofs.Sorting
import SizeAtlas.Proofs.SourceMap.Vlq
import SizeAtlas.SourceMap.Basic

/-!
# Decoding undoes delta encoding

The segments of a source map are written relative to those before them: the column of
the generated file to the last one on the same line, the other fields to the last
segment of the file that has them.  Decoding adds the differences up again, those of the
segments that it drops included, so it finds the named segments at the places that they
were written for.

## Main definitions

* `Document.toJson` — the value that is written for a document.
* `Segment` — a segment with absolute fields.
* `fileDeltas`, `mappingsText` — the differences of the segments of a file, and their text.
* `Segment.entry?`, `namedEntries` — what should become of a segment and of a file.

## Main statements

* `Document.read_compact_toJson` — a document is read back.
* `decodeMapping_deltas`, `decodeLine_lineDeltas`, `decodeEntries_mappingsText` — one
  segment, one line and one file are decoded.
* `filter_ofEntries` — sorting leaves the entries at one offset in their order.
* `decode_mappingsText` — the named segments are found.
-/

namespace SizeAtlas.SourceMap

/-! ## Documents -/

namespace Document

/-- A list of texts as a value. -/
def listOf (texts : Array String) : Json.Value := .list (texts.toList.map .text)

/-- A document as a value. -/
def toJson (d : Document) : Json.Value :=
  .object [("sources", listOf d.sources), ("names", listOf d.names), ("mappings", .text d.mappings)]

theorem texts?_listOf (texts : Array String) : texts? (listOf texts) = some texts := by
  have each : ∀ items : List String, (items.map Json.Value.text).mapM text? = some items := by
    intro items
    induction items with
    | nil => rfl
    | cons item items ih => simp [text?, ih]
  simp [texts?, listOf, each]

theorem ofJson?_toJson (d : Document) : ofJson? d.toJson = some d := by
  simp [ofJson?, toJson, member?, texts?_listOf, text?]

theorem reads_listOf (texts : Array String) : Json.Reads 1 (listOf texts) := by
  refine Json.reads_list fun v hv => ?_
  obtain ⟨s, _, rfl⟩ := List.mem_map.1 hv
  exact Json.reads_text 0 s

/-- A document is read back. -/
theorem read_compact_toJson (d : Document) : read d.toJson.compact = .ok d := by
  have readable : ∀ m ∈ [("sources", listOf d.sources), ("names", listOf d.names),
      ("mappings", .text d.mappings)], Json.Reads 1 m.2 := by
    intro m hm
    simp only [List.mem_cons, List.not_mem_nil, or_false] at hm
    rcases hm with rfl | rfl | rfl
    · exact reads_listOf d.sources
    · exact reads_listOf d.names
    · exact Json.reads_text 1 d.mappings
  have value : Json.readRecord? ["sources", "names", "mappings"] d.toJson.compact =
      some d.toJson :=
    Json.readRecord?_object readable _ (by decide)
  rw [read, value, Option.bind_some, ofJson?_toJson]

end Document

/-! ## Segments -/

/-- A place in the sources. -/
structure Origin where
  /-- The index of the source file. -/
  source : Int
  /-- The line in the source file. -/
  line : Int
  /-- The column in the source file. -/
  column : Int
  deriving DecidableEq, Repr

/-- A segment with absolute fields: a column of the generated file, perhaps with its
origin and the index of the name there. -/
inductive Segment where
  | generated (column : Int)
  | mapped (column : Int) (origin : Origin)
  | named (column : Int) (origin : Origin) (name : Int)
  deriving DecidableEq, Repr

/-- What the fields of a segment after `s` are relative to, if those of `s` are relative
to `r`. -/
def Running.after (r : Running) : Segment → Running
  | .generated column => { r with column }
  | .mapped column ⟨source, sourceLine, sourceColumn⟩ =>
    { r with column, source, sourceLine, sourceColumn }
  | .named column ⟨source, sourceLine, sourceColumn⟩ name =>
    { column, source, sourceLine, sourceColumn, name }

/-- The fields of a segment relative to `r`. -/
def Segment.deltas (r : Running) : Segment → List Int
  | .generated column => [column - r.column]
  | .mapped column o =>
    [column - r.column, o.source - r.source, o.line - r.sourceLine, o.column - r.sourceColumn]
  | .named column o name =>
    [column - r.column, o.source - r.source, o.line - r.sourceLine, o.column - r.sourceColumn,
      name - r.name]

/-- The relative fields of the segments of a line, or of the rest of a line. -/
def lineDeltas (r : Running) : List Segment → List (List Int)
  | [] => []
  | s :: line => s.deltas r :: lineDeltas (r.after s) line

/-- The relative fields of the segments of each line.  Only the column starts anew. -/
def fileDeltas (r : Running) : List (List Segment) → List (List (List Int))
  | [] => []
  | line :: lines =>
    let start := { r with column := 0 }
    lineDeltas start line :: fileDeltas (line.foldl Running.after start) lines

/-- The text of a segment with the given relative fields. -/
def segmentText (fields : List Int) : List Char := fields.flatMap Vlq.encode

/-- The text of a line of segments with the given relative fields. -/
def lineText (line : List (List Int)) : List Char := [','].intercalate (line.map segmentText)

/-- The mappings of a file with the given segments. -/
def mappingsText (lines : List (List Segment)) : String :=
  String.ofList ([';'].intercalate ((fileDeltas {} lines).map lineText))

/-- The document of a file with the given segments. -/
def documentOf (sources names : List String) (lines : List (List Segment)) : Document :=
  ⟨sources.toArray, names.toArray, mappingsText lines⟩

/-! ## What should be found -/

/-- The text with a given index, if it is one. -/
def nth? (texts : List String) : Int → Option String
  | .ofNat n => texts[n]?
  | .negSucc _ => none

/-- The entry for a segment of `line`: there is one if it has a name in the list. -/
def Segment.entry? (sources names : List String) (index : LineStarts) (line : Nat) :
    Segment → Option Entry
  | .named column origin name => (nth? names name).map fun text =>
    { offset := index.offset line column.toNat
      sourceFile := nth? sources origin.source
      sourceLine := origin.line
      sourceColumn := origin.column
      name := text }
  | _ => none

/-- The entries for the segments of a file in their order. -/
def namedEntries (sources names : List String) (index : LineStarts)
    (lines : List (List Segment)) : List Entry :=
  lines.zipIdx.flatMap fun (line, i) => line.filterMap (Segment.entry? sources names index i)

/-! ## One segment -/

theorem itemAt?_eq (texts : Array String) (i : Int) : itemAt? texts i = nth? texts.toList i := by
  cases i with
  | ofNat n => simp [itemAt?, nth?]
  | negSucc n => simp [itemAt?, nth?, Int.negSucc_lt_zero]

theorem segmentText_ne_nil {r : Running} (s : Segment) : segmentText (s.deltas r) ≠ [] := by
  cases s <;> simp [segmentText, Segment.deltas, Vlq.encode_ne_nil]

theorem mem_alphabet_of_mem_segmentText {fields : List Int} {c : Char}
    (h : c ∈ segmentText fields) : c ∈ Vlq.alphabet := by
  obtain ⟨i, _, mem⟩ := List.mem_flatMap.1 h
  exact Vlq.mem_alphabet_of_mem_encode mem

theorem mem_alphabet_of_mem_lineText {line : List (List Int)} {c : Char} (h : c ∈ lineText line) :
    c = ',' ∨ c ∈ Vlq.alphabet := by
  induction line with
  | nil => simp [lineText] at h
  | cons fields line ih =>
    cases line with
    | nil => exact Or.inr (mem_alphabet_of_mem_segmentText (by simpa [lineText] using h))
    | cons next line =>
      rw [lineText, List.map_cons, List.map_cons, List.intercalate_cons_cons,
        List.append_assoc, List.mem_append, List.singleton_append, List.mem_cons] at h
      rcases h with h | h | h
      · exact Or.inr (mem_alphabet_of_mem_segmentText h)
      · exact Or.inl h
      · exact ih h

/-- Adding the differences up gives the fields again. -/
theorem advance_deltas (r : Running) (s : Segment) :
    r.advance (s.deltas r) = (r.after s, s matches .named ..) := by
  cases s <;> simp [Running.advance, Segment.deltas, Running.after]

variable {d : Document} {index : LineStarts}

/-- A segment is decoded, whether or not it leaves an entry. -/
theorem decodeMapping_deltas {n : Nat} {r : Running} {s : Segment} {entries : List Entry}
    (small : ∀ i ∈ s.deltas r, i.natAbs < 2 ^ 59) :
    decodeMapping d index n (r, entries) (segmentText (s.deltas r)) =
      .ok (r.after s,
        (s.entry? d.sources.toList d.names.toList index n).toList ++ entries) := by
  rw [decodeMapping, segmentText, Vlq.decodeFrom_flatMap_encode small]
  cases s <;>
    simp [bind, Except.bind, advance_deltas, Running.after, Running.entry?, Segment.entry?,
      itemAt?_eq]

/-! ## One line -/

theorem exists_of_mem_lineDeltas {r : Running} {line : List Segment} {fields : List Int}
    (h : fields ∈ lineDeltas r line) : ∃ (r' : Running) (s : Segment), fields = s.deltas r' := by
  induction line generalizing r with
  | nil => exact absurd h List.not_mem_nil
  | cons s line ih =>
    rcases List.mem_cons.1 h with rfl | h
    · exact ⟨r, s, rfl⟩
    · exact ih h

/-- A line is cut into its segments at the commas. -/
theorem mappingsOf_lineText (r : Running) (line : List Segment) :
    mappingsOf (lineText (lineDeltas r line)) = (lineDeltas r line).map segmentText := by
  have comma : ∀ text ∈ (lineDeltas r line).map segmentText, ',' ∉ text := by
    intro text h mem
    obtain ⟨fields, _, rfl⟩ := List.mem_map.1 h
    exact absurd (mem_alphabet_of_mem_segmentText mem) (by decide)
  have full : ∀ text ∈ (lineDeltas r line).map segmentText, (!text.isEmpty) = true := by
    intro text h
    obtain ⟨fields, mem, rfl⟩ := List.mem_map.1 h
    obtain ⟨r', s, rfl⟩ := exists_of_mem_lineDeltas mem
    simpa using segmentText_ne_nil s
  rw [mappingsOf, lineText]
  by_cases empty : (lineDeltas r line).map segmentText = []
  · rw [empty]
    rfl
  · rw [List.splitOn_intercalate ',' comma empty, List.filter_eq_self.2 full]

/-- The segments of a line, or of the rest of a line, are decoded. -/
theorem foldlM_lineDeltas {n : Nat} {line : List Segment} {r : Running} {entries : List Entry}
    (small : ∀ fields ∈ lineDeltas r line, ∀ i ∈ fields, i.natAbs < 2 ^ 59) :
    ((lineDeltas r line).map segmentText).foldlM (decodeMapping d index n) (r, entries) =
      .ok (line.foldl Running.after r,
        (line.filterMap (Segment.entry? d.sources.toList d.names.toList index n)).reverse ++
          entries) := by
  -- The values that decoding has added up are those that the next segment is relative to,
  -- whether or not the segments so far have left entries.
  induction line generalizing r entries with
  | nil => rfl
  | cons s line ih =>
    rw [lineDeltas] at small ⊢
    rw [List.map_cons, List.foldlM_cons, decodeMapping_deltas (small _ List.mem_cons_self)]
    refine (ih fun fields h => small fields (List.mem_cons_of_mem _ h)).trans ?_
    cases entry : s.entry? d.sources.toList d.names.toList index n <;> simp [entry]

/-- A line is decoded. -/
theorem decodeLine_lineDeltas {n : Nat} {line : List Segment} {r : Running}
    {entries : List Entry}
    (small : ∀ fields ∈ lineDeltas { r with column := 0 } line, ∀ i ∈ fields, i.natAbs < 2 ^ 59) :
    decodeLine d index (r, entries) (lineText (lineDeltas { r with column := 0 } line), n) =
      .ok (line.foldl Running.after { r with column := 0 },
        (line.filterMap (Segment.entry? d.sources.toList d.names.toList index n)).reverse ++
          entries) := by
  rw [decodeLine, mappingsOf_lineText]
  exact foldlM_lineDeltas small

/-! ## A file -/

/-- The lines of a file, or the rest of them, are decoded. -/
theorem foldlM_fileDeltas {n : Nat} {lines : List (List Segment)} {r : Running}
    (entries : List Entry)
    (small : ∀ line ∈ fileDeltas r lines, ∀ fields ∈ line, ∀ i ∈ fields, i.natAbs < 2 ^ 59) :
    ∃ r', (((fileDeltas r lines).map lineText).zipIdx n).foldlM (decodeLine d index) (r, entries) =
      .ok (r', ((lines.zipIdx n).flatMap fun line => line.1.filterMap
        (Segment.entry? d.sources.toList d.names.toList index line.2)).reverse ++ entries) := by
  induction lines generalizing n r entries with
  | nil => exact ⟨r, rfl⟩
  | cons line lines ih =>
    rw [fileDeltas] at small ⊢
    obtain ⟨r', rest⟩ := ih (n := n + 1) _ fun line h => small line (List.mem_cons_of_mem _ h)
    refine ⟨r', ?_⟩
    rw [List.map_cons, List.zipIdx_cons, List.foldlM_cons,
      decodeLine_lineDeltas (small _ List.mem_cons_self)]
    refine rest.trans ?_
    simp

/-- The lines are found between the semicolons; a file of no lines has an empty one. -/
theorem splitOn_mappingsText (lines : List (List Segment)) :
    (mappingsText lines).toList.splitOn ';' =
      if lines = [] then [[]] else (fileDeltas {} lines).map lineText := by
  have semicolon : ∀ text ∈ (fileDeltas {} lines).map lineText, ';' ∉ text := by
    intro text h mem
    obtain ⟨line, _, rfl⟩ := List.mem_map.1 h
    exact absurd (mem_alphabet_of_mem_lineText mem) (by decide)
  rw [mappingsText, String.toList_ofList]
  cases lines with
  | nil => rfl
  | cons line lines =>
    rw [if_neg (List.cons_ne_nil _ _), List.splitOn_intercalate ';' semicolon]
    simp [fileDeltas]

/-- The mappings of a file are decoded. -/
theorem decodeEntries_mappingsText {lines : List (List Segment)}
    (written : d.mappings = mappingsText lines)
    (small : ∀ line ∈ fileDeltas {} lines, ∀ fields ∈ line, ∀ i ∈ fields, i.natAbs < 2 ^ 59) :
    decodeEntries d index = .ok (namedEntries d.sources.toList d.names.toList index lines) := by
  rw [decodeEntries, written, splitOn_mappingsText]
  split_ifs with empty
  · rw [empty]
    rfl
  · obtain ⟨r', folded⟩ := foldlM_fileDeltas (d := d) (n := 0) [] small
    rw [folded]
    simp [bind, Except.bind, namedEntries]

/-! ## In the order of the offsets -/

theorem Entry.inOrder_iff {a b : Entry} : a.inOrder b = true ↔ a.offset ≤ b.offset := by
  rw [Entry.inOrder, decide_eq_true_eq]

theorem Entry.inOrder_trans (a b c : Entry) (hab : a.inOrder b = true) (hbc : b.inOrder c = true) :
    a.inOrder c = true :=
  inOrder_iff.2 ((inOrder_iff.1 hab).trans (inOrder_iff.1 hbc))

theorem Entry.inOrder_total (a b : Entry) : (a.inOrder b || b.inOrder a) = true := by
  rw [Bool.or_eq_true, inOrder_iff, inOrder_iff]
  exact Nat.le_total ..

/-- Sorting leaves the entries at one offset in their order. -/
theorem filter_ofEntries (entries : List Entry) (offset : Nat) :
    (ofEntries entries).entries.toList.filter (·.offset = offset) =
      entries.filter (·.offset = offset) := by
  -- Entries at one offset are those that may stand on either side of any entry there.
  have there : (fun e : Entry => decide (e.offset = offset)) =
      Sorting.tied Entry.inOrder ⟨offset, none, 0, 0, ""⟩ := by
    funext e
    rw [Bool.eq_iff_iff, decide_eq_true_eq, Sorting.tied_iff, Entry.inOrder_iff,
      Entry.inOrder_iff, eq_comm]
    exact Nat.le_antisymm_iff
  rw [there]
  exact Sorting.filter_tied_mergeSort Entry.inOrder_trans Entry.inOrder_total _ entries

/-- **Decoding undoes delta encoding.**  Let the segments of a file be written relative to
those before them, with no difference of magnitude `2 ^ 59` or more.  The document can be
written, and from whatever text it is read, the source map has exactly the entries of the
named segments whose names are in the list, in the order of their offsets; those at one
offset stand in the order of their segments. -/
theorem decode_mappingsText (sources names : List String) (lines : List (List Segment))
    (generated : ByteArray)
    (small : ∀ line ∈ fileDeltas {} lines, ∀ fields ∈ line, ∀ i ∈ fields, i.natAbs < 2 ^ 59) :
    Document.read (documentOf sources names lines).toJson.compact =
      .ok (documentOf sources names lines) ∧
    ∀ text, Document.read text = .ok (documentOf sources names lines) →
      ∃ m, decode text generated = .ok m ∧
        m.entries.toList.Pairwise (·.offset ≤ ·.offset) ∧
        ∀ offset, m.entries.toList.filter (·.offset = offset) =
          (namedEntries sources names (LineStarts.ofBytes generated) lines).filter
            (·.offset = offset) := by
  refine ⟨Document.read_compact_toJson _, fun text read => ?_⟩
  have entries : decodeEntries (documentOf sources names lines) (LineStarts.ofBytes generated) =
      .ok (namedEntries sources names (LineStarts.ofBytes generated) lines) :=
    decodeEntries_mappingsText rfl small
  refine ⟨ofEntries (namedEntries sources names (LineStarts.ofBytes generated) lines), ?_, ?_, ?_⟩
  · rw [decode, read]
    simp only [bind, Except.bind, entries]
  · exact (ofEntries _).sorted.imp Entry.inOrder_iff.1
  · exact filter_ofEntries _

/-- Two lines of which the second goes back to its start: a segment without a name, one
without an origin and one whose name is not in the list stand between two named ones. -/
def twoLines : List (List Segment) :=
  [[.named 4 ⟨0, 0, 0⟩ 0, .mapped 7 ⟨0, 0, 9⟩],
    [.named 2 ⟨1, 1, 4⟩ 7, .generated 3, .named (-1) ⟨3, 2, 0⟩ 1]]

theorem decode_mappingsText_twoLines :
    (∀ line ∈ fileDeltas {} twoLines, ∀ fields ∈ line, ∀ i ∈ fields, i.natAbs < 2 ^ 59) ∧
    ∃ m, decode (documentOf ["a.js", "b.js"] ["alpha", "beta"] twoLines).toJson.compact
        "var a=1;\n  b();\n".toUTF8 = .ok m ∧
      ∀ offset, m.entries.toList.filter (·.offset = offset) =
        [⟨4, some "a.js", 0, 0, "alpha"⟩, ⟨9, none, 2, 0, "beta"⟩].filter
          (·.offset = offset) := by
  have small : ∀ line ∈ fileDeltas {} twoLines, ∀ fields ∈ line, ∀ i ∈ fields,
      i.natAbs < 2 ^ 59 := by
    decide
  have found : namedEntries ["a.js", "b.js"] ["alpha", "beta"]
      (LineStarts.ofBytes "var a=1;\n  b();\n".toUTF8) twoLines =
        [⟨4, some "a.js", 0, 0, "alpha"⟩, ⟨9, none, 2, 0, "beta"⟩] := by
    decide +kernel
  obtain ⟨read, decoded⟩ := decode_mappingsText ["a.js", "b.js"] ["alpha", "beta"] twoLines
    "var a=1;\n  b();\n".toUTF8 small
  obtain ⟨m, result, _, same⟩ := decoded _ read
  exact ⟨small, m, result, fun offset => found ▸ same offset⟩

end SizeAtlas.SourceMap
