import Mathlib
import SizeAtlas.SourceMap.Lines

/-!
# Positions in a file

The starts of the lines ascend, and from this follows all that the conversion of positions
relies on: a position moved inside its line stays before the next one, and no look-up or
subtraction of the conversion is out of range.

## Main definitions

* `Ascending` — the starts ascend and lie in the file.
* `lineOf` — how many lines end before an offset.
* `offset?` — the conversion in steps that fail when they are out of range.

## Main statements

* `toList_starts_ofBytes` — the lines start at the start and behind the line feeds.
* `offset_lineOf` — the position of an offset is converted back to it.
* `offset_mono` — the conversion keeps the order of positions.
* `offset?_eq` — none of its steps fails.
* `line_positions` — all of these.
-/

namespace SizeAtlas.LineStarts

variable {index : LineStarts} {line line' column column' offset o : Nat}

/-! ## Line feeds -/

theorem startsAfter_append (offset : Nat) (as bs : List UInt8) :
    startsAfter offset (as ++ bs) =
      startsAfter offset as ++ startsAfter (offset + as.length) bs := by
  induction as generalizing offset with
  | nil => rfl
  | cons a as ih =>
    have shift : offset + (a :: as).length = offset + 1 + as.length := by
      rw [List.length_cons]
      omega
    simp only [List.cons_append, startsAfter, ih, shift]
    split <;> rfl

theorem length_startsAfter (offset : Nat) (bs : List UInt8) :
    (startsAfter offset bs).length = bs.count 10 := by
  induction bs generalizing offset with
  | nil => rfl
  | cons b bs ih =>
    rw [startsAfter, List.count_cons]
    split <;> simp_all

/-- The starts behind line feeds are the places of these, each plus one. -/
theorem startsAfter_eq (offset : Nat) (bs : List UInt8) :
    startsAfter offset bs =
      ((List.range bs.length).filter fun i => bs[i]? = some 10).map fun i => offset + i + 1 := by
  induction bs generalizing offset with
  | nil => rfl
  | cons b bs ih =>
    have later : startsAfter (offset + 1) bs =
        (((List.range bs.length).map Nat.succ).filter fun i => (b :: bs)[i]? = some 10).map
          fun i => offset + i + 1 := by
      rw [ih, List.filter_map, List.map_map]
      refine List.map_congr_left fun i _ => ?_
      simp only [Function.comp_apply]
      omega
    rw [startsAfter, List.length_cons, List.range_succ_eq_map, later]
    by_cases feed : b = 10
    · rw [if_pos feed, List.filter_cons_of_pos (by simp [feed]), List.map_cons]
    · rw [if_neg feed, List.filter_cons_of_neg (by simp [feed])]

theorem mem_startsAfter_bounds {s : Nat} {bs : List UInt8} (h : s ∈ startsAfter offset bs) :
    offset < s ∧ s ≤ offset + bs.length := by
  rw [startsAfter_eq] at h
  obtain ⟨i, mem, rfl⟩ := List.mem_map.1 h
  have := List.mem_range.1 (List.mem_filter.1 mem).1
  omega

theorem pairwise_startsAfter (offset : Nat) (bs : List UInt8) :
    (startsAfter offset bs).Pairwise (· < ·) := by
  rw [startsAfter_eq, List.pairwise_map]
  exact (List.pairwise_lt_range.filter _).imp fun lt => by omega

/-! ## The starts of the lines -/

/-- The starts ascend and lie in the file. -/
structure Ascending (index : LineStarts) : Prop where
  start_lt : ∀ line < index.last, index.start line < index.start (line + 1)
  start_le : ∀ line, index.start line ≤ index.size

theorem getElem?_starts (le : line ≤ index.last) :
    index.starts[line]? = some (index.start line) := by
  have lt : line < index.starts.size := Nat.lt_of_le_of_lt le index.last_lt
  rw [getElem?_pos index.starts line lt]
  simp only [start, Nat.min_eq_left le]

theorem start_mem (index : LineStarts) (line : Nat) : index.start line ∈ index.starts.toList := by
  rw [start, ← Array.getElem_toList]
  exact List.getElem_mem _

theorem toList_starts (text : ByteArray) :
    (ofBytes text).starts.toList = 0 :: startsAfter 0 text.data.toList :=
  rfl

/-- Lines start at the start of the file and behind each line feed. -/
theorem toList_starts_ofBytes (text : ByteArray) :
    (ofBytes text).starts.toList =
      0 :: ((List.range text.size).filter fun i => text[i]? = some 10).map (· + 1) := by
  have length : text.data.toList.length = text.size := rfl
  rw [toList_starts, startsAfter_eq, length]
  congr 1
  refine List.map_congr_left ?_ |>.trans (congrArg _ (List.filter_congr fun i _ => ?_))
  · intro i _
    rw [Nat.zero_add]
  · rw [Array.getElem?_toList]
    rfl

theorem pairwise_starts_ofBytes (text : ByteArray) :
    (ofBytes text).starts.toList.Pairwise (· < ·) := by
  rw [toList_starts]
  exact List.pairwise_cons.2
    ⟨fun s hs => (mem_startsAfter_bounds hs).1, pairwise_startsAfter 0 _⟩

theorem ascending_ofBytes (text : ByteArray) : (ofBytes text).Ascending where
  start_lt line lt := by
    have here := getElem?_starts (Nat.le_of_lt lt)
    have next := getElem?_starts (Nat.succ_le_of_lt lt)
    rw [← Array.getElem?_toList] at here next
    obtain ⟨inside, here⟩ := List.getElem?_eq_some_iff.1 here
    obtain ⟨inside', next⟩ := List.getElem?_eq_some_iff.1 next
    rw [← here, ← next]
    exact List.pairwise_iff_getElem.1 (pairwise_starts_ofBytes text) _ _ inside inside'
      (Nat.lt_succ_self line)
  start_le line := by
    have mem := start_mem (ofBytes text) line
    rw [toList_starts, List.mem_cons] at mem
    rcases mem with first | later
    · exact first ▸ Nat.zero_le _
    · have := (mem_startsAfter_bounds later).2
      rwa [Nat.zero_add] at this

namespace Ascending

theorem start_mono (h : index.Ascending) (lt : line < line') (le : line' ≤ index.last) :
    index.start line < index.start line' := by
  induction line', lt using Nat.le_induction with
  | base => exact h.start_lt line le
  | succ line' lt ih => exact (ih (Nat.le_of_succ_le le)).trans (h.start_lt line' le)

end Ascending

/-! ## Offsets of positions -/

theorem offset_of_lt (lt : line < index.last) :
    index.offset line column =
      index.start line + min column (index.start (line + 1) - index.start line - 1) := by
  simp only [offset, Nat.min_eq_left (Nat.le_of_lt lt), if_pos lt]

theorem offset_of_le (past : index.last ≤ line) :
    index.offset line column =
      index.start index.last + min column (index.size - index.start index.last) := by
  simp only [offset, Nat.min_eq_right past, lt_irrefl, if_false]

theorem start_le_offset (le : line ≤ index.last) : index.start line ≤ index.offset line column := by
  rcases Nat.lt_or_eq_of_le le with lt | rfl
  · exact offset_of_lt lt ▸ Nat.le_add_right _ _
  · exact offset_of_le (Nat.le_refl _) ▸ Nat.le_add_right _ _

namespace Ascending

/-- However large the column, the offset stays before the next line. -/
theorem offset_lt (h : index.Ascending) (lt : line < index.last) :
    index.offset line column < index.start (line + 1) := by
  have := h.start_lt line lt
  rw [offset_of_lt lt]
  omega

theorem offset_le (h : index.Ascending) (line column : Nat) :
    index.offset line column ≤ index.size := by
  rcases Nat.lt_or_ge line index.last with lt | past
  · exact (h.offset_lt lt).le.trans (h.start_le _)
  · have := h.start_le index.last
    rw [offset_of_le past]
    omega

/-- Positions in their order have offsets in their order. -/
theorem offset_mono (h : index.Ascending) (le : line' ≤ index.last)
    (before : toLex (line, column) ≤ toLex (line', column')) :
    index.offset line column ≤ index.offset line' column' := by
  rcases Prod.Lex.toLex_le_toLex.1 before with lt | ⟨rfl, columns⟩
  · have lt : line < line' := lt
    calc index.offset line column
        ≤ index.start (line + 1) := (h.offset_lt (lt.trans_le le)).le
      _ ≤ index.start line' := by
        rcases Nat.lt_or_eq_of_le (Nat.succ_le_of_lt lt) with lt' | rfl
        · exact (h.start_mono lt' le).le
        · exact Nat.le_refl _
      _ ≤ index.offset line' column' := start_le_offset le
  · have columns : column ≤ column' := columns
    rcases Nat.lt_or_eq_of_le le with lt | rfl
    · rw [offset_of_lt lt, offset_of_lt lt]
      omega
    · rw [offset_of_le (Nat.le_refl _), offset_of_le (Nat.le_refl _)]
      omega

end Ascending

/-! ## Steps out of range -/

/-- `a - b`, unless `b` is larger. -/
def sub? (a b : Nat) : Option Nat := if b ≤ a then some (a - b) else none

/-- The offset of a line and column, unless a look-up or a subtraction on the way to it is out
of range. -/
def offset? (index : LineStarts) (line column : Nat) : Option Nat := do
  let last ← sub? index.starts.size 1
  let line := if last < line then last else line
  let first ← index.starts[line]?
  let length ← match index.starts[line + 1]? with
    | some next => sub? next first
    | none => sub? index.size first
  let column ←
    if line < last ∧ length ≤ column then sub? length 1
    else if line = last ∧ length < column then some length
    else some column
  return first + column

theorem sub?_of_le {a b : Nat} (le : b ≤ a) : sub? a b = some (a - b) := if_pos le

theorem sub?_size_one (index : LineStarts) : sub? index.starts.size 1 = some index.last :=
  sub?_of_le index.starts_pos

theorem getElem?_starts_succ_last (index : LineStarts) : index.starts[index.last + 1]? = none := by
  have := index.starts_pos
  rw [Array.getElem?_eq_none_iff, last]
  omega

theorem Ascending.offset?_of_lt (h : index.Ascending) (lt : line < index.last) :
    index.offset? line column = some (index.offset line column) := by
  have ascends := h.start_lt line lt
  have here := getElem?_starts (Nat.le_of_lt lt)
  have next := getElem?_starts (Nat.succ_le_of_lt lt)
  -- The line has at least the line feed at its end, so its last column exists.
  have length := sub?_of_le ascends.le
  have final := sub?_of_le (Nat.sub_pos_of_lt ascends)
  simp only [offset?, sub?_size_one, Option.bind_eq_bind, Option.bind_some,
    if_neg (Nat.not_lt.2 lt.le), here, next, length, offset_of_lt lt, lt, true_and, lt.ne,
    false_and, if_false]
  split
  · rw [final, Option.bind_some, Nat.min_eq_right (by omega)]
    rfl
  · rw [Nat.min_eq_left (by omega)]
    rfl

theorem Ascending.offset?_of_le (h : index.Ascending) (past : index.last ≤ line) :
    index.offset? line column = some (index.offset line column) := by
  have clamped : (if index.last < line then index.last else line) = index.last := by
    split <;> omega
  have here := getElem?_starts (Nat.le_refl index.last)
  have length := sub?_of_le (h.start_le index.last)
  simp only [offset?, sub?_size_one, Option.bind_eq_bind, Option.bind_some, clamped, here,
    getElem?_starts_succ_last, length, offset_of_le past, lt_irrefl, false_and, if_false, true_and]
  split
  · rw [Nat.min_eq_right (by omega)]
    rfl
  · rw [Nat.min_eq_left (by omega)]
    rfl

/-- No look-up and no subtraction of the conversion is out of range. -/
theorem Ascending.offset?_eq (h : index.Ascending) (line column : Nat) :
    index.offset? line column = some (index.offset line column) := by
  rcases Nat.lt_or_ge line index.last with lt | past
  · exact h.offset?_of_lt lt
  · exact h.offset?_of_le past

/-! ## Positions of offsets -/

/-- The line of the byte at `o`: how many line feeds there are before it. -/
def lineOf (text : ByteArray) (o : Nat) : Nat := (text.data.toList.take o).count 10

/-- The starts up to an offset, and the ones behind it. -/
theorem toList_starts_split {text : ByteArray} (le : o ≤ text.size) :
    (ofBytes text).starts.toList =
      (0 :: startsAfter 0 (text.data.toList.take o)) ++
        startsAfter o (text.data.toList.drop o) := by
  have length : (text.data.toList.take o).length = o := List.length_take_of_le le
  have split := startsAfter_append 0 (text.data.toList.take o) (text.data.toList.drop o)
  rw [List.take_append_drop, length, Nat.zero_add] at split
  rw [toList_starts, split, List.cons_append]

/-- The line of an offset exists, starts at most there, and the next one starts behind it. -/
theorem lineOf_spec {text : ByteArray} (le : o ≤ text.size) :
    lineOf text o ≤ (ofBytes text).last ∧ (ofBytes text).start (lineOf text o) ≤ o ∧
      (lineOf text o < (ofBytes text).last → o < (ofBytes text).start (lineOf text o + 1)) := by
  have starts := toList_starts_split le
  have count : (startsAfter 0 (text.data.toList.take o)).length = lineOf text o :=
    length_startsAfter 0 _
  have inside : lineOf text o ≤ (ofBytes text).last := by
    have size := congrArg List.length starts
    rw [List.length_append, List.length_cons, count, Array.length_toList] at size
    rw [last]
    omega
  refine ⟨inside, ?_, fun lt => ?_⟩
  · have here := getElem?_starts inside
    rw [← Array.getElem?_toList, starts, List.getElem?_append_left (by simp [count])] at here
    rcases List.mem_cons.1 (List.mem_of_getElem? here) with first | before
    · exact first ▸ Nat.zero_le o
    · have := (mem_startsAfter_bounds before).2
      rwa [List.length_take_of_le le, Nat.zero_add] at this
  · have next := getElem?_starts (Nat.succ_le_of_lt lt)
    rw [← Array.getElem?_toList, starts, List.getElem?_append_right (by simp [count])] at next
    exact (mem_startsAfter_bounds (List.mem_of_getElem? next)).1

/-- The position of an offset is converted back to it. -/
theorem offset_lineOf {text : ByteArray} (le : o ≤ text.size) :
    (ofBytes text).offset (lineOf text o) (o - (ofBytes text).start (lineOf text o)) = o := by
  obtain ⟨inside, start_le, before⟩ := lineOf_spec le
  rcases Nat.lt_or_eq_of_le inside with lt | final
  · have := before lt
    rw [offset_of_lt lt]
    omega
  · have size : (ofBytes text).size = text.size := rfl
    rw [final] at start_le ⊢
    rw [offset_of_le (Nat.le_refl _), size]
    omega

/-- **Positions in a file.**  The lines start at the start of the file and behind each line
feed, in their order.  Each offset up to the end has a position, the number of line feeds
before it and the distance to the start of that line, which is converted back to it.  For
every line and column no step of the conversion is out of range, and its result is in the
file.  Of two positions up to the last line the first has no larger offset than the second,
and no column reaches into the next line. -/
theorem line_positions (text : ByteArray) :
    ((ofBytes text).starts.toList =
        0 :: ((List.range text.size).filter fun i => text[i]? = some 10).map (· + 1) ∧
      (ofBytes text).starts.toList.Pairwise (· < ·)) ∧
    (∀ o ≤ text.size, lineOf text o ≤ (ofBytes text).last ∧
      (ofBytes text).start (lineOf text o) ≤ o ∧
      (ofBytes text).offset (lineOf text o) (o - (ofBytes text).start (lineOf text o)) = o) ∧
    (∀ line column, (ofBytes text).offset? line column = some ((ofBytes text).offset line column) ∧
      (ofBytes text).offset line column ≤ text.size) ∧
    (∀ line column line' column', line' ≤ (ofBytes text).last →
      toLex (line, column) ≤ toLex (line', column') →
      (ofBytes text).offset line column ≤ (ofBytes text).offset line' column') ∧
    ∀ line column, line < (ofBytes text).last →
      (ofBytes text).offset line column < (ofBytes text).start (line + 1) := by
  have ascending := ascending_ofBytes text
  refine ⟨⟨toList_starts_ofBytes text, pairwise_starts_ofBytes text⟩, fun o le => ?_,
    fun line column => ⟨ascending.offset?_eq line column, ascending.offset_le line column⟩,
    fun _ _ _ _ => ascending.offset_mono, fun _ _ => ascending.offset_lt⟩
  obtain ⟨inside, start_le, _⟩ := lineOf_spec le
  exact ⟨inside, start_le, offset_lineOf le⟩

example : (ofBytes "ab\ncde\n\nf".toUTF8).offset 1 10 = 6 := by decide +kernel

end SizeAtlas.LineStarts
