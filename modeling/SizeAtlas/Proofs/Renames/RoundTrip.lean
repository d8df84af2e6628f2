import SizeAtlas.Proofs.Renames.Escape
import SizeAtlas.Proofs.Roster
import SizeAtlas.Renames.Basic

/-!
# The text of a renaming table can be read back

A line of the text ends at its line feed and is split at its first colon.  The written
form of a name has no line feed and no carriage return, so only a colon or a line feed
in a minified name can spoil the text; and no name that was read from a text has one.

## Main definitions

* `Plain` — a minified name that a line can hold.

## Main statements

* `lines_toText` — the lines of the text of a table.
* `pairOfLine?_line` — the pair on such a line.
* `plain_of_mem_keys_parse` — the minified names that are read are plain.
* `parse_toText` — which tables are read back, the ones that were read among them.
-/

namespace SizeAtlas.Renames

/-- A minified name that a line can hold: there is no colon and no line feed in it. -/
def Plain (minified : String) : Prop := ':' ∉ minified.toList ∧ '\n' ∉ minified.toList

/-! ## Lines -/

theorem notMem_of_mem_splitOn {c : Char} {text piece : List Char} (h : piece ∈ text.splitOn c) :
    c ∉ piece := by
  induction text generalizing piece with
  | nil => simp_all
  | cons x text ih =>
    rw [List.splitOn_cons_eq_if_modifyHead] at h
    split_ifs at h with sep
    · rcases List.mem_cons.1 h with rfl | h
      · exact List.not_mem_nil
      · exact ih h
    · obtain ⟨first, others, split⟩ := List.exists_cons_of_ne_nil (List.splitOn_ne_nil c text)
      rw [split, List.modifyHead_cons] at h
      rcases List.mem_cons.1 h with rfl | h
      · have notMem : c ∉ first := ih (split ▸ List.mem_cons_self)
        have ne : x ≠ c := by simpa using sep
        simp [notMem, ne.symm]
      · exact ih (split ▸ List.mem_cons_of_mem _ h)

/-- Lines that are ended by line feeds, with nothing after the last. -/
theorem splitOn_flatMap {ls : List (List Char)} (h : ∀ l ∈ ls, '\n' ∉ l) :
    (ls.flatMap (· ++ ['\n'])).splitOn '\n' = ls ++ [[]] := by
  induction ls with
  | nil => simp
  | cons l ls ih =>
    rw [List.flatMap_cons, List.append_assoc, List.singleton_append,
      List.splitOn_append_cons_self_of_not_mem (h l List.mem_cons_self),
      ih fun l' hl' => h l' (List.mem_cons_of_mem _ hl'), List.cons_append]

theorem trimReturn_of_getLast? {line : List Char} (h : line.getLast? ≠ some '\r') :
    trimReturn line = line :=
  if_neg h

theorem mem_of_mem_trimReturn {line : List Char} {c : Char} (h : c ∈ trimReturn line) :
    c ∈ line := by
  unfold trimReturn at h
  split at h
  · exact List.mem_of_mem_dropLast h
  · exact h

theorem lines_flatMap {ls : List (List Char)} (feed : ∀ l ∈ ls, '\n' ∉ l)
    (ret : ∀ l ∈ ls, l.getLast? ≠ some '\r') : lines (ls.flatMap (· ++ ['\n'])) = ls ++ [[]] := by
  have trim : ls.map trimReturn = ls := by
    rw [List.map_congr_left fun l hl => trimReturn_of_getLast? (ret l hl), List.map_id']
  rw [lines, splitOn_flatMap feed]
  simp [trim]

theorem notMem_of_mem_lines {text line : List Char} (h : line ∈ lines text) : '\n' ∉ line := by
  unfold lines at h
  rcases List.mem_append.1 h with h | h
  · obtain ⟨piece, mem, rfl⟩ := List.mem_map.1 h
    exact fun feed =>
      notMem_of_mem_splitOn (List.mem_of_mem_dropLast mem) (mem_of_mem_trimReturn feed)
  · exact notMem_of_mem_splitOn (List.mem_of_getLast? (Option.mem_toList.1 h))

/-! ## Pairs -/

/-- The line for a pair without its line feed. -/
def lineChars (pair : String × String) : List Char :=
  pair.1.toList ++ ':' :: (escape pair.2).toList

theorem toList_toText (r : Renames) :
    r.toText.toList = (r.entries.map lineChars).flatMap (· ++ ['\n']) := by
  rw [toText, String.toList_join, List.flatMap_map, List.flatMap_map]
  refine List.flatMap_congr fun pair _ => ?_
  simp [lineOfPair, lineChars]

theorem lineFeed_notMem_lineChars {pair : String × String} (plain : Plain pair.1) :
    '\n' ∉ lineChars pair := by
  intro h
  rcases List.mem_append.1 h with h | h
  · exact plain.2 h
  · rcases List.mem_cons.1 h with h | h
    · simp at h
    · exact absurd (printable_of_mem_escape h) (by decide)

theorem getLast?_lineChars (pair : String × String) :
    (lineChars pair).getLast? ≠ some '\r' := by
  intro h
  rw [lineChars, List.getLast?_append_cons] at h
  rcases List.mem_cons.1 (List.mem_of_getLast? h) with h | h
  · simp at h
  · exact absurd (printable_of_mem_escape h) (by decide)

/-- The pair on its line. -/
theorem pairOfLine?_lineChars {pair : String × String} (plain : Plain pair.1) :
    pairOfLine? (lineChars pair) = some pair := by
  have before : ∀ c ∈ pair.1.toList, (c != ':') = true := by
    rintro c hc
    simpa using fun e : c = ':' => plain.1 (e ▸ hc)
  rw [pairOfLine?, List.span_eq_takeWhile_dropWhile, lineChars,
    List.takeWhile_append_of_pos before, List.dropWhile_append_of_pos before]
  simp

theorem plain_of_pairOfLine? {line : List Char} {pair : String × String}
    (feed : '\n' ∉ line) (h : pairOfLine? line = some pair) : Plain pair.1 := by
  rw [pairOfLine?, List.span_eq_takeWhile_dropWhile] at h
  split at h
  · simp at h
  · rename_i minified colon written split
    obtain ⟨rfl, _⟩ := Prod.mk.inj split
    obtain rfl := Option.some.inj h
    constructor
    · intro mem
      have := List.mem_takeWhile_imp (String.toList_ofList ▸ mem)
      simp at this
    · intro mem
      exact feed ((List.takeWhile_sublist _).subset (by simpa using mem))

/-! ## Tables -/

/-- The lines of the text of a table, and nothing after the last. -/
theorem lines_toText {r : Renames} (plain : ∀ k ∈ r.keys, Plain k) :
    lines r.toText.toList = r.entries.map lineChars ++ [[]] := by
  rw [toList_toText]
  refine lines_flatMap (fun l hl => ?_) fun l hl => ?_
  · obtain ⟨pair, mem, rfl⟩ := List.mem_map.1 hl
    exact lineFeed_notMem_lineChars (plain _ (Roster.key_mem_keys mem))
  · obtain ⟨pair, _, rfl⟩ := List.mem_map.1 hl
    exact getLast?_lineChars pair

theorem parse_toText_of_plain {r : Renames} (plain : ∀ k ∈ r.keys, Plain k) :
    parse r.toText = r := by
  have pairs : (r.entries.map lineChars).filterMap pairOfLine? = r.entries := by
    rw [List.filterMap_map, List.filterMap_congr (g := some), List.filterMap_some]
    exact fun pair mem => pairOfLine?_lineChars (plain _ (Roster.key_mem_keys mem))
  have last : [[]].filterMap pairOfLine? = [] := rfl
  rw [parse, lines_toText plain, List.filterMap_append, pairs, last, List.append_nil]
  exact Roster.ofList_entries r

/-- The minified names that are read from a text are plain. -/
theorem plain_of_mem_keys_parse {text minified : String} (h : minified ∈ (parse text).keys) :
    Plain minified := by
  rw [parse, Roster.ofList, Roster.mem_keys_insertAll, Roster.keys_empty] at h
  obtain ⟨pair, mem, rfl⟩ := List.mem_map.1 (h.resolve_left List.not_mem_nil)
  obtain ⟨line, hline, read⟩ := List.mem_filterMap.1 mem
  exact plain_of_pairOfLine? (notMem_of_mem_lines hline) read

/-- **The text of a table can be read back**, with its pairs in their order, exactly if
no minified name has a colon or a line feed in it, whatever the names in the sources
are.  A table that was read from a text is always read back. -/
theorem parse_toText :
    (∀ name, unescape (escape name) = name) ∧
    (∀ r : Renames, parse r.toText = r ↔ ∀ k ∈ r.keys, ':' ∉ k.toList ∧ '\n' ∉ k.toList) ∧
    ∀ text, parse (parse text).toText = parse text := by
  refine ⟨unescape_escape, fun r => ⟨fun same k hk => ?_, parse_toText_of_plain⟩, fun text => ?_⟩
  · exact plain_of_mem_keys_parse (same.symm ▸ hk)
  · exact parse_toText_of_plain fun k hk => plain_of_mem_keys_parse hk

end SizeAtlas.Renames
