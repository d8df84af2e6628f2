import SizeAtlas.Measurement
import SizeAtlas.Proofs.Entering
import SizeAtlas.Proofs.Sorting
import SizeAtlas.Proofs.SymbolTable

/-!
# The report on several inputs

A report shows one symbol per name.  If several inputs have symbols of one name, the
last of them is shown and the bytes of the others do not count; all other bytes of the
inputs do.  A name keeps the place of its first input among the symbols of one ordinal,
and takes the ordinal from its last.

## Main definitions

* `Merged` — a report in which each name has its symbol and its place.

## Main statements

* `perm_ofTables` — what a report shows is what no later input replaces.
* `total_ofTables` — the total of a report and the bytes that it leaves out.
* `total_ofTables_twoModules` — two modules whose header is counted once.
* `merged_iff_eq_ofTables` — which symbols a report shows, and in which order.
* `printed_of_sameEntries` — the order of a renaming table shows in no printed form.
-/

namespace SizeAtlas.Report

/-! ## What is shown -/

/-- A report shows the symbols that no later input replaces. -/
theorem perm_ofTables (tables : List SymbolTable) :
    (ofTables tables).symbols.Perm (Roster.kept tables) :=
  (List.mergeSort_perm _ _).trans (Roster.perm_mergeAll tables)

/-- The bytes that are shown and those that are replaced are all bytes. -/
theorem total_add_replaced (tables : List SymbolTable) :
    (ofTables tables).total + ((Roster.replaced tables).map Symbol.size).sum =
      (tables.map SymbolTable.total).sum := by
  have shown : (ofTables tables).total = ((Roster.kept tables).map Symbol.size).sum :=
    ((perm_ofTables tables).map Symbol.size).sum_eq
  rw [shown, Roster.sum_kept_add]
  rfl

/-! ## In which order -/

theorem inOrder_iff {a b : Symbol} :
    inOrder a b = true ↔ a.ordinal.getD 0 ≤ b.ordinal.getD 0 := by
  rw [inOrder, decide_eq_true_eq]

theorem inOrder_trans (a b c : Symbol) (hab : inOrder a b = true) (hbc : inOrder b c = true) :
    inOrder a c = true :=
  inOrder_iff.2 ((inOrder_iff.1 hab).trans (inOrder_iff.1 hbc))

theorem inOrder_total (a b : Symbol) : (inOrder a b || inOrder b a) = true := by
  rw [Bool.or_eq_true, inOrder_iff, inOrder_iff]
  exact Nat.le_total _ _

/-- Where a name first occurs if the tables are read one after the other. -/
def firstPlace (tables : List SymbolTable) (name : String) : Nat :=
  (tables.flatMap Roster.keys).idxOf name

/-- Before they are sorted, the symbols are in the order in which their names first
occur. -/
theorem pairwise_mergeAll (tables : List SymbolTable) :
    (Roster.mergeAll tables).entries.Pairwise
      fun a b => firstPlace tables a.name < firstPlace tables b.name := by
  have names : tables.flatMap Roster.keys = (tables.flatMap Roster.entries).map Symbol.name :=
    List.map_flatMap.symm
  have keys : (Roster.mergeAll tables).keys.Pairwise
      fun k l => firstPlace tables k < firstPlace tables l := by
    simp only [firstPlace, names, Roster.mergeAll_eq_ofList]
    exact Roster.pairwise_keys_ofList _
  rw [Roster.keys, List.pairwise_map] at keys
  exact keys

/-- A report shows each name that a table has, once, as the symbol that the last table with
that name has.  The symbols are in the order of their ordinals, and those of one ordinal in
the order in which their names first occur. -/
structure Merged (tables : List SymbolTable) (r : Report) : Prop where
  nodup : (r.symbols.map Symbol.name).Nodup
  names : ∀ name, name ∈ r.symbols.map Symbol.name ↔ ∃ t ∈ tables, name ∈ t.keys
  latest : ∀ s ∈ r.symbols, ∃ before t later, tables = before ++ t :: later ∧ s ∈ t.entries ∧
    ∀ u ∈ later, s.name ∉ u.keys
  ordered : r.symbols.Pairwise fun a b => a.ordinal.getD 0 ≤ b.ordinal.getD 0
  stable : r.symbols.Pairwise fun a b => a.ordinal.getD 0 = b.ordinal.getD 0 →
    firstPlace tables a.name < firstPlace tables b.name

theorem mem_ofTables_iff {tables : List SymbolTable} {s : Symbol} :
    s ∈ (ofTables tables).symbols ↔ Roster.lastFind? s.name tables = some s := by
  rw [(perm_ofTables tables).mem_iff, Roster.mem_kept_iff]

theorem merged_ofTables (tables : List SymbolTable) : Merged tables (ofTables tables) where
  nodup := by
    rw [((perm_ofTables tables).map Symbol.name).nodup_iff]
    exact Roster.nodup_map_kept tables
  names name := by
    have shown : name ∈ (ofTables tables).symbols.map Symbol.name ↔
        Roster.lastFind? name tables ≠ none := by
      rw [List.mem_map, Option.ne_none_iff_exists']
      constructor
      · rintro ⟨s, mem, rfl⟩
        exact ⟨s, mem_ofTables_iff.1 mem⟩
      · rintro ⟨s, found⟩
        have same : s.name = name := by
          rw [← Roster.find?_mergeAll] at found
          exact Roster.key_of_find? found
        exact ⟨s, mem_ofTables_iff.2 (same ▸ found), same⟩
    rw [shown, Ne, Roster.lastFind?_eq_none_iff]
    simp
  latest s mem := Roster.mem_kept_iff_last.1 ((perm_ofTables tables).mem_iff.1 mem)
  ordered := (List.pairwise_mergeSort inOrder_trans inOrder_total _).imp inOrder_iff.1
  stable := by
    have tied := Sorting.pairwise_mergeSort_of_tied inOrder_trans inOrder_total
      (pairwise_mergeAll tables)
    exact tied.imp fun keep same => keep (inOrder_iff.2 same.ge)

namespace Merged

variable {tables : List SymbolTable} {r r' : Report}

theorem lastFind?_eq (h : Merged tables r) {s : Symbol} (mem : s ∈ r.symbols) :
    Roster.lastFind? s.name tables = some s :=
  Roster.mem_kept_iff.1 (Roster.mem_kept_iff_last.2 (h.latest s mem))

theorem mem_of_mem (h : Merged tables r) (h' : Merged tables r') {s : Symbol}
    (mem : s ∈ r.symbols) : s ∈ r'.symbols := by
  have named := (h'.names s.name).2 ((h.names s.name).1 (List.mem_map_of_mem mem))
  obtain ⟨s', mem', same⟩ := List.mem_map.1 named
  have last' := h'.lastFind?_eq mem'
  rw [same, h.lastFind?_eq mem] at last'
  exact Option.some.inj last' ▸ mem'

/-- There is one such report. -/
theorem eq (h : Merged tables r) (h' : Merged tables r') : r = r' := by
  have perm : r.symbols.Perm r'.symbols :=
    (List.perm_ext_iff_of_nodup (.of_map _ h.nodup) (.of_map _ h'.nodup)).2
      fun s => ⟨h.mem_of_mem h', h'.mem_of_mem h⟩
  have symbols : r.symbols = r'.symbols := by
    refine perm.eq_of_pairwise ?_ (h.ordered.and h.stable) (h'.ordered.and h'.stable)
    rintro a b - - ⟨le, before⟩ ⟨ge, after⟩
    have same := Nat.le_antisymm le ge
    exact absurd (before same) (Nat.lt_asymm (after same.symm))
  cases r
  cases r'
  exact congrArg Report.mk symbols

end Merged

/-- **The report on several inputs** is the one in which each name has the symbol of its last
table, by the ordinals of these symbols and then by the first places of the names.  It shows
all symbols of the tables but those that a later table replaces, and its total is short of
theirs by the bytes of just these. -/
theorem merged_iff_eq_ofTables (tables : List SymbolTable) :
    (∀ r, Merged tables r ↔ r = ofTables tables) ∧
    ((ofTables tables).symbols ++ Roster.replaced tables).Perm (tables.flatMap Roster.entries) ∧
    (∀ s, s ∈ Roster.replaced tables ↔ ∃ before t later, tables = before ++ t :: later ∧
      s ∈ t.entries ∧ ∃ u ∈ later, s.name ∈ u.keys) ∧
    (ofTables tables).total + ((Roster.replaced tables).map Symbol.size).sum =
      (tables.map SymbolTable.total).sum := by
  refine ⟨fun r => ⟨fun merged => ?_, ?_⟩, ?_, ?_, total_add_replaced tables⟩
  · exact merged.eq (merged_ofTables tables)
  · rintro rfl
    exact merged_ofTables tables
  · exact ((perm_ofTables tables).append_right _).trans (Roster.perm_kept_append_replaced tables)
  · exact fun s => Roster.mem_replaced_iff

/-- A name that moves to a later table keeps its place and takes the later ordinal. -/
example :
    (ofTables [Roster.ofList [⟨"", "b", .function, 5, "b", none, "", some 2⟩,
        ⟨"", "shared", .var, 1, "shared", none, "", none⟩],
      Roster.ofList [⟨"", "a", .imported, 0, "a", none, "", some 1⟩,
        ⟨"", "shared", .var, 9, "shared", none, "", none⟩]]).symbols.map
        (fun s => (s.name, s.size)) = [("shared", 9), ("a", 0), ("b", 5)] := by
  cbv

/-! ## Under which names -/

/-- A symbol is shown alike by renaming tables that know the same names. -/
theorem shownName_congr {renames renames' : Renames}
    (same : ∀ name, renames.sourceName? name = renames'.sourceName? name) (s : Symbol) :
    s.shownName renames = s.shownName renames' := by
  simp only [Symbol.shownName, same]

/-- Renaming tables with the same entries, in whatever order, print a report alike. -/
theorem printed_of_sameEntries {renames renames' : Renames}
    (same : Roster.sameEntries renames renames' = true) (r : Report) :
    r.toText renames = r.toText renames' ∧ r.toJson renames = r.toJson renames' := by
  have known : ∀ name, renames.sourceName? name = renames'.sourceName? name := fun name =>
    congrArg (Option.map Prod.snd) (Roster.find?_of_perm (Roster.sameEntries_iff.1 same) name)
  have lines : line renames = line renames' := by
    funext s
    rw [line, line, shownName_congr known]
  constructor
  · rw [toText, toText, lines]
  · simp only [toJson, shownName_congr known]

/-! ## Runs -/

/-- The report of a run is that on the tables of its files. -/
theorem report_of_measureAll {files : Files} {settings : Settings} {paths : List String}
    {findings : Findings} (h : measureAll files settings paths = .ok findings) :
    ∃ found, paths.mapM (measureFile files settings) = .ok found ∧
      findings.report = ofTables ((found.filterMap id).map Measurement.table) := by
  unfold measureAll at h
  cases read : paths.mapM (measureFile files settings) with
  | error e => simp [read, bind, Except.bind] at h
  | ok found =>
    simp only [read, bind, Except.bind, Except.ok.injEq] at h
    exact ⟨found, rfl, h ▸ rfl⟩

/-- **The total of a report on several inputs** is the sum of their totals less the
bytes of the symbols that a later input has a symbol of the same name for.  So no
byte is lost exactly if all symbols that are replaced are empty. -/
theorem total_ofTables (tables : List SymbolTable) :
    (∀ renames, ∃ lines, (ofTables tables).toText renames =
      lines ++ s!"Total: {(ofTables tables).total} bytes\n") ∧
    (ofTables tables).total + ((Roster.replaced tables).map Symbol.size).sum =
      (tables.map SymbolTable.total).sum ∧
    ((ofTables tables).total = (tables.map SymbolTable.total).sum ↔
      ∀ before t later, tables = before ++ t :: later → ∀ s ∈ t.entries,
        (∃ u ∈ later, s.name ∈ u.keys) → s.size = 0) ∧
    ∀ files settings paths findings, measureAll files settings paths = .ok findings →
      ∃ found, paths.mapM (measureFile files settings) = .ok found ∧
        findings.report = ofTables ((found.filterMap id).map Measurement.table) := by
  have all := total_add_replaced tables
  refine ⟨fun renames => ⟨_, rfl⟩, all, ?_, fun _ _ _ _ => report_of_measureAll⟩
  have lossless : (ofTables tables).total = (tables.map SymbolTable.total).sum ↔
      ((Roster.replaced tables).map Symbol.size).sum = 0 := by omega
  rw [lossless, List.sum_eq_zero_iff_forall_eq_nat]
  constructor
  · intro empty before t later split s hs replaced
    exact empty _ (List.mem_map_of_mem (Roster.mem_replaced_iff.2
      ⟨before, t, later, split, hs, replaced⟩))
  · intro empty n hn
    obtain ⟨s, hs, rfl⟩ := List.mem_map.1 hn
    obtain ⟨before, t, later, split, hs, replaced⟩ := Roster.mem_replaced_iff.1 hs
    exact empty before t later split s hs replaced

/-- The files of a run with two modules that are nothing but a header. -/
def twoModules : Files
  | "a.wasm" | "b.wasm" => some ⟨#[0, 0x61, 0x73, 0x6d, 1, 0, 0, 0]⟩
  | _ => none

/-- Of the sixteen bytes of two modules the report shows eight. -/
theorem total_ofTables_twoModules :
    (measureAll twoModules {} ["a.wasm", "b.wasm"]).map (·.report.total) = .ok 8 ∧
    (["a.wasm", "b.wasm"].mapM (measureFile twoModules {})).map
      (fun found => ((found.filterMap id).map fun m => m.table.total).sum) = .ok 16 := by
  constructor
  · decide +kernel
  · decide +kernel

end SizeAtlas.Report
