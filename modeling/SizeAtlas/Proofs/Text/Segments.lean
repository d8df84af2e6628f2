import SizeAtlas.Text.Segments

/-!
# A segment in front of a text

A segment with a separator after it is the first segment of the whole, and does not change
the segments of what follows.  So a text that is built up in this way comes apart again.

## Main definitions

* `IsSegment` — a text that is a single segment.

## Main statements

* `isSegment_of_mem_segments` — the segments of a text are such.
* `segments_append` — a segment in front of a text.
* `segments_intercalate` — segments that are joined, with a text after them.
-/

namespace SizeAtlas.Text

variable {separates : Char → Bool}

/-- A text that is not empty and has nothing in it that separates. -/
def IsSegment (separates : Char → Bool) (text : String) : Prop :=
  text ≠ "" ∧ ∀ c ∈ text.toList, separates c = false

@[simp] theorem segments_empty : segments separates "" = [] := by
  simp [segments]

/-- A segment with a separator after it comes before what follows. -/
theorem segments_append {text separator : String} {c : Char} (segment : IsSegment separates text)
    (single : separator.toList = [c]) (cut : separates c = true) (rest : String) :
    segments separates (text ++ separator ++ rest) = text :: segments separates rest := by
  have characters : (text ++ separator ++ rest).toList = text.toList ++ c :: rest.toList := by
    simp [single]
  rw [segments, characters, List.splitOnP_append_cons_of_forall_mem segment.2 c cut,
    List.filter_cons_of_pos (by simpa using segment.1), List.map_cons, String.ofList_toList]
  rfl

/-- Between separators there are none. -/
theorem forall_mem_splitOnP {l piece : List Char} (mem : piece ∈ l.splitOnP separates) :
    ∀ c ∈ piece, separates c = false := by
  induction l generalizing piece with
  | nil =>
    obtain rfl : piece = [] := by simpa using mem
    simp
  | cons a l ih =>
    rw [List.splitOnP_cons_eq_if_modifyHead] at mem
    split at mem
    · rcases List.mem_cons.1 mem with rfl | later
      · simp
      · exact ih later
    · rename_i inside
      cases pieces : l.splitOnP separates with
      | nil => exact absurd pieces (List.splitOnP_ne_nil separates l)
      | cons first rest =>
        rw [pieces, List.modifyHead_cons] at mem
        rcases List.mem_cons.1 mem with rfl | later
        · intro c hc
          rcases List.mem_cons.1 hc with rfl | hc
          · simpa using inside
          · exact ih (pieces ▸ List.mem_cons_self) c hc
        · exact ih (pieces ▸ List.mem_cons_of_mem _ later)

theorem isSegment_of_mem_segments {text piece : String} (mem : piece ∈ segments separates text) :
    IsSegment separates piece := by
  obtain ⟨characters, kept, rfl⟩ := List.mem_map.1 mem
  obtain ⟨split, full⟩ := List.mem_filter.1 kept
  constructor
  · intro none
    simp_all
  · rw [String.toList_ofList]
    exact forall_mem_splitOnP split

theorem segments_of_isSegment {text : String} (segment : IsSegment separates text) :
    segments separates text = [text] := by
  rw [segments, List.splitOnP_eq_singleton segment.2,
    List.filter_cons_of_pos (by simpa using segment.1)]
  simp

/-- Segments that are joined come apart again, before the segments of what follows. -/
theorem segments_intercalate {separator : String} {c : Char} (single : separator.toList = [c])
    (cut : separates c = true) {names : List String}
    (plain : ∀ name ∈ names, IsSegment separates name) (last : String) :
    segments separates (String.intercalate separator (names ++ [last])) =
      names ++ segments separates last := by
  induction names with
  | nil => rfl
  | cons first rest ih =>
    have inner := ih fun name mem => plain name (List.mem_cons_of_mem _ mem)
    have first_plain := plain first List.mem_cons_self
    cases rest with
    | nil =>
      rw [List.cons_append, List.nil_append, String.intercalate_cons_cons,
        segments_append first_plain single cut]
      rfl
    | cons second rest =>
      rw [List.cons_append, List.cons_append, String.intercalate_cons_cons,
        segments_append first_plain single cut, ← List.cons_append, inner]
      rfl

end SizeAtlas.Text
