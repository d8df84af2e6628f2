import SizeAtlas.Proofs.Measurement
import SizeAtlas.Proofs.Treemap.Drawing
import SizeAtlas.Proofs.Treemap.Renaming

/-!
# Finding boxes by their paths

A path is looked up by the segments between its slashes, and on each level the first box of
a name is taken.  So a box of a drawn treemap is found under the names that lead to it
unless its own name is no segment, or a larger box of the same name stands before one on
the way.  The names further up are files and segments of scopes, which hold no slash; and
of two boxes of one name beside each other one is for own bytes.

## Main definitions

* `Block.follow?` — the box that names lead to, taking the first of each name.
* `Block.LeadsOpenly` — names that lead to a box past no larger box of the same name.

## Main statements

* `Parcel.find?_parts_toBlock` — which part of a box is found.
* `Parcel.follow?_iff` — which boxes are found by following names.
* `Report.found_by_path_iff` — which boxes of a treemap are found by their paths.
-/

namespace SizeAtlas

/-! ## Following names -/

namespace Block

/-- The box that names lead to, if the first box of each name is taken. -/
def follow? (b : Block) (names : List String) : Option Block :=
  names.foldlM (fun b name => b.parts.find? (·.name == name)) b

/-- The names in `path` lead from one drawn box to another one inside it, on no level to a box
beside which there is a larger one of the same name. -/
inductive LeadsOpenly : Block → List String → Block → Prop
  | here {b : Block} : LeadsOpenly b [] b
  | inside {b c d : Block} {path : List String} (mem : c ∈ b.parts)
    (largest : ∀ x ∈ b.parts, x.name = c.name → x.size ≤ c.size)
    (below : LeadsOpenly c path d) : LeadsOpenly b (c.name :: path) d

variable {b c : Block} {path : List String}

theorem find?_eq_follow? (b : Block) (path : String) :
    b.find? path = b.follow? (Text.segments (· == '/') path) := rfl

@[simp] theorem follow?_nil (b : Block) : b.follow? [] = some b := rfl

theorem follow?_cons (b : Block) (name : String) (path : List String) :
    b.follow? (name :: path) = (b.parts.find? (·.name == name)).bind (·.follow? path) :=
  List.foldlM_cons

/-- The box that is found has one of the names, or is the one to start from. -/
theorem name_of_follow? (found : b.follow? path = some c) :
    c.name = b.name ∨ c.name ∈ path := by
  induction path generalizing b with
  | nil => exact Or.inl (congrArg name (Option.some.inj found).symm)
  | cons first rest ih =>
    rw [follow?_cons] at found
    obtain ⟨d, here, below⟩ := Option.bind_eq_some_iff.1 found
    have called : d.name = first := by simpa using List.find?_some here
    right
    rcases ih below with same | later
    · rw [same, called]
      exact List.mem_cons_self
    · exact List.mem_cons_of_mem _ later

theorem Leads.name_eq {around : List String} {last : String}
    (leads : b.Leads (around ++ [last]) c) : c.name = last := by
  induction around generalizing b with
  | nil =>
    cases leads with
    | inside mem below =>
      cases below
      rfl
  | cons first around ih =>
    cases leads with
    | inside mem below => exact ih below

/-- A box inside another one is led to by one name more. -/
theorem Leads.concat {d : Block} (leads : b.Leads path c) (mem : d ∈ c.parts) :
    b.Leads (path ++ [d.name]) d := by
  induction leads with
  | here => exact .inside mem .here
  | inside step _ ih => exact .inside step (ih mem)

/-- The first box of a name is one of the largest of that name. -/
theorem size_le_of_find? {blocks : List Block} {x : String}
    (ordered : blocks.Pairwise fun x y => inOrder x y = true)
    (found : blocks.find? (·.name == x) = some c) (mem : b ∈ blocks) (called : b.name = x) :
    b.size ≤ c.size := by
  obtain ⟨_, before, after, rfl, others⟩ := List.find?_eq_some_iff_append.1 found
  rcases List.mem_append.1 mem with earlier | mem
  · have other := others b earlier
    simp [called] at other
  · rcases List.mem_cons.1 mem with rfl | later
    · exact Nat.le_refl _
    · have first := (List.pairwise_cons.1 (List.pairwise_append.1 ordered).2.1).1 b later
      rcases inOrder_iff.1 first with smaller | ⟨same, _⟩
      · exact Nat.le_of_lt smaller
      · exact Nat.le_of_eq same.symm

end Block

namespace Parcel

variable {p q : Parcel} {depth : Nat} {path : List String} {b c : Block}

/-- **A drawn part is found under its name** unless it is called like the box for the own
bytes and these are more.  If they are as many, the part stands first. -/
theorem find?_parts_toBlock (h : p.WellFormed) (hq : q ∈ p.parts)
    (large : q.name = Block.ownName → p.ownSize ≤ (q.toBlock depth).size) :
    (p.toBlock (depth + 1)).parts.find? (·.name == q.name) = some (q.toBlock depth) := by
  have part : (p.parts.map (toBlock depth)).filter (·.name == q.name) = [q.toBlock depth] := by
    have names : ((fun b : Block => b.name == q.name) ∘ toBlock depth) = (·.name == q.name) := by
      funext x
      simp
    rw [List.filter_map, names, h.filter_name_eq hq, List.map_singleton]
  have sorted : (p.toBlock (depth + 1)).parts =
      (p.parts.map (toBlock depth) ++ p.ownBlocks).mergeSort Block.inOrder := by
    rw [toBlock_succ, if_neg (List.ne_nil_of_mem hq)]
    rfl
  rw [← List.head?_filter, sorted,
    Sorting.filter_mergeSort Block.inOrder_trans Block.inOrder_total, List.filter_append, part]
  have single : (p.ownBlocks.filter (·.name == q.name)).Pairwise
      fun x y => Block.inOrder x y = true := by
    refine List.Pairwise.sublist List.filter_sublist ?_
    rw [ownBlocks]
    split_ifs
    · exact List.pairwise_singleton _ _
    · exact .nil
  have first : ∀ x ∈ p.ownBlocks.filter (·.name == q.name),
      Block.inOrder (q.toBlock depth) x = true := by
    intro x mem
    obtain ⟨own, called⟩ := List.mem_filter.1 mem
    obtain ⟨_, _, rfl⟩ := mem_ownBlocks_iff.1 own
    have same : Block.ownName = q.name := beq_iff_eq.1 called
    have enough : p.ownSize ≤ (q.toBlock depth).size := large same.symm
    rw [Block.inOrder_iff, name_toBlock, ← same]
    exact enough.lt_or_eq.imp_right fun eq => ⟨eq.symm, le_refl _⟩
  have front : (q.toBlock depth :: p.ownBlocks.filter (·.name == q.name)).Pairwise
      fun x y => Block.inOrder x y = true := List.pairwise_cons.2 ⟨first, single⟩
  rw [List.singleton_append, List.mergeSort_of_pairwise front, List.head?_cons]

/-- Along names that lead past no larger box a box of that name and size is found. -/
theorem follow?_of_leadsOpenly (h : p.WellFormed)
    (leads : (p.toBlock depth).LeadsOpenly path b) :
    ∃ c, (p.toBlock depth).follow? path = some c ∧ c.name = b.name ∧ c.size = b.size := by
  induction path generalizing p depth with
  | nil =>
    cases leads with
    | here => exact ⟨_, rfl, rfl, rfl⟩
  | cons first rest ih =>
    cases leads with
    | @inside _ c _ _ mem largest below =>
      obtain ⟨levels, rfl, ⟨q, hq, rfl⟩ | ⟨divided, some_own, rfl⟩⟩ := mem_parts_toBlock mem
      · have large : q.name = Block.ownName → p.ownSize ≤ (q.toBlock levels).size := by
          intro called
          by_contra less
          have drawn := ownBlock_mem_parts (List.ne_nil_of_mem hq)
            (Nat.zero_lt_of_lt (Nat.not_le.1 less)) levels
          exact less (largest _ drawn ((name_toBlock q levels).trans called).symm)
        rw [Block.follow?_cons, name_toBlock, find?_parts_toBlock h hq large, Option.bind_some]
        exact ih (h.of_mem hq) below
      · cases below with
        | here =>
          obtain ⟨c, found⟩ : ∃ c, (p.toBlock (levels + 1)).parts.find?
              (·.name == Block.ownName) = some c :=
            Option.isSome_iff_exists.1 (List.find?_isSome.2 ⟨_, mem, beq_self_eq_true _⟩)
          have called : c.name = Block.ownName := by simpa using List.find?_some found
          have most := largest c (List.mem_of_find?_eq_some found) called
          have least := Block.size_le_of_find? (ordered_toBlock p _) found mem rfl
          refine ⟨c, ?_, called, Nat.le_antisymm most least⟩
          rw [Block.follow?_cons]
          exact congrArg (Option.bind · _) found
        | inside deeper _ _ => exact absurd deeper List.not_mem_nil

/-- If a part is called like the box for the own bytes and these are more, then their box is
found instead of it. -/
theorem find?_parts_toBlock_of_lt (h : p.WellFormed) (hq : q ∈ p.parts)
    (called : q.name = Block.ownName) (less : (q.toBlock depth).size < p.ownSize) :
    (p.toBlock (depth + 1)).parts.find? (·.name == q.name) =
      some (.leaf Block.ownName p.ownSize) := by
  have drawn := ownBlock_mem_parts (List.ne_nil_of_mem hq) (Nat.zero_lt_of_lt less) depth
  obtain ⟨c, found⟩ : ∃ c, (p.toBlock (depth + 1)).parts.find? (·.name == q.name) = some c :=
    Option.isSome_iff_exists.1 (List.find?_isSome.2 ⟨_, drawn, beq_iff_eq.2 called.symm⟩)
  have most : p.ownSize ≤ c.size :=
    Block.size_le_of_find? (ordered_toBlock p _) found drawn called.symm
  obtain ⟨levels, same, ⟨x, hx, rfl⟩ | ⟨_, _, rfl⟩⟩ :=
    mem_parts_toBlock (List.mem_of_find?_eq_some found)
  · have alike : x.name = q.name := by simpa using List.find?_some found
    obtain rfl := List.inj_on_of_nodup_map h.nodup hx hq alike
    obtain rfl := Nat.succ.inj same
    exact absurd less (Nat.not_lt.2 most)
  · exact found

/-- A box is found by names that lead to it only if they lead past no larger box.  What is
found instead of a part is the box for own bytes, which is larger and holds no others. -/
theorem leadsOpenly_of_follow? (h : p.WellFormed) (leads : (p.toBlock depth).Leads path b)
    (found : (p.toBlock depth).follow? path = some c) (same : c.size = b.size) :
    (p.toBlock depth).LeadsOpenly path b := by
  induction path generalizing p depth with
  | nil =>
    cases leads with
    | here => exact .here
  | cons first rest ih =>
    cases leads with
    | @inside _ d _ _ mem below =>
      rw [Block.follow?_cons] at found
      obtain ⟨f, here, later⟩ := Option.bind_eq_some_iff.1 found
      have largest : ∀ x ∈ (p.toBlock depth).parts, x.name = d.name → x.size ≤ f.size :=
        fun x hx called => Block.size_le_of_find? (ordered_toBlock p depth) here hx called
      obtain ⟨levels, rfl, ⟨q, hq, rfl⟩ | ⟨_, _, rfl⟩⟩ := mem_parts_toBlock mem
      · rw [name_toBlock] at here
        by_cases large : q.name = Block.ownName → p.ownSize ≤ (q.toBlock levels).size
        · rw [find?_parts_toBlock h hq large] at here
          obtain rfl := Option.some.inj here
          exact .inside mem largest (ih (h.of_mem hq) below later)
        · obtain ⟨called, less⟩ := Classical.not_imp.1 large
          rw [find?_parts_toBlock_of_lt h hq called (Nat.not_le.1 less)] at here
          obtain rfl := Option.some.inj here
          cases below with
          | here =>
            obtain rfl := Option.some.inj later
            exact absurd (Nat.le_of_eq same) less
          | inside _ _ => cases later
      · cases below with
        | here =>
          obtain rfl := Option.some.inj later
          exact .inside mem (same ▸ largest) .here
        | inside deeper _ => exact absurd deeper List.not_mem_nil

/-- **Which boxes are found by following names**: those that the names lead to past no larger
box of the same name. -/
theorem follow?_iff (h : p.WellFormed) (leads : (p.toBlock depth).Leads path b) :
    (∃ c, (p.toBlock depth).follow? path = some c ∧ c.name = b.name ∧ c.size = b.size) ↔
      (p.toBlock depth).LeadsOpenly path b := by
  constructor
  · rintro ⟨c, found, _, same⟩
    exact leadsOpenly_of_follow? h leads found same
  · exact follow?_of_leadsOpenly h

/-- Only boxes for own bytes have the name of another box beside them. -/
theorem leadsOpenly_of_notMem (h : p.WellFormed) (leads : (p.toBlock depth).Leads path b)
    (other : Block.ownName ∉ path) : (p.toBlock depth).LeadsOpenly path b := by
  induction path generalizing p depth with
  | nil =>
    cases leads with
    | here => exact .here
  | cons first rest ih =>
    cases leads with
    | @inside _ d _ _ mem below =>
      obtain ⟨first_other, rest_other⟩ := not_or.1 (mt List.mem_cons.2 other)
      obtain ⟨levels, rfl, ⟨q, hq, rfl⟩ | ⟨_, _, rfl⟩⟩ := mem_parts_toBlock mem
      · refine .inside mem ?_ (ih (h.of_mem hq) below rest_other)
        intro x hx alike
        obtain ⟨levels', same, ⟨y, hy, rfl⟩ | ⟨_, _, rfl⟩⟩ := mem_parts_toBlock hx
        · rw [name_toBlock, name_toBlock] at alike
          obtain rfl := List.inj_on_of_nodup_map h.nodup hy hq alike
          obtain rfl := Nat.succ.inj same
          exact Nat.le_refl _
        · exact absurd alike first_other
      · exact absurd rfl first_other

end Parcel

namespace Report

/-! ## The names around a box -/

/-- The names of the boxes around a measured symbol are segments. -/
theorem isSegment_of_mem_enclosing {s : Symbol} (measured : s.Measured) {name : String}
    (mem : name ∈ s.enclosing) : Text.IsSegment (· == '/') name := by
  rcases List.mem_cons.1 mem with rfl | scope
  · rw [Symbol.fileBox]
    rcases measured.sourceFile_cases with none | file
    · rw [none]
      simp [Text.IsSegment, Parcel.unfiled]
    · rwa [if_neg (mt String.isEmpty_iff.1 file.1)]
  · obtain ⟨full, plain⟩ := Text.isSegment_of_mem_segments scope
    refine ⟨full, fun c hc => ?_⟩
    exact (Bool.or_eq_false_iff.1 (plain c hc)).2

variable {r : Report} {renames : Renames} {depth : Nat} {path around : List String}
  {last : String} {b : Block}

theorem name_treemap (r : Report) (renames : Renames) : (r.treemap renames).name = "root" := by
  rw [treemap_eq_addAll, Parcel.name_addAll]
  rfl

theorem isSegment_of_at? (measured : r.Measured)
    (known : ((r.treemap renames).at? (around ++ [last])).isSome) :
    ∀ name ∈ around, Text.IsSegment (· == '/') name := by
  intro name mem
  rcases (r.isSome_at?_treemap renames _).1 known with none | ⟨s, hs, through⟩
  · exact absurd none (List.append_ne_nil_of_right_ne_nil _ (List.cons_ne_nil _ _))
  · have short : around.length ≤ s.enclosing.length := by
      have := through.length_le
      simpa using this
    have outer : around <+: s.enclosing :=
      List.prefix_of_prefix_length_le ((List.prefix_append _ _).trans through)
        (List.prefix_append _ _) short
    exact isSegment_of_mem_enclosing (measured s hs) (outer.subset mem)

/-- The names of the boxes around a drawn one are segments. -/
theorem isSegment_of_leads (measured : r.Measured)
    (leads : ((r.treemap renames).toBlock depth).Leads (around ++ [last]) b) :
    ∀ name ∈ around, Text.IsSegment (· == '/') name := by
  have wf := r.wellFormed_treemap renames
  rcases (Parcel.of_leads_toBlock wf leads).2 with ⟨q, found, _⟩ | ⟨_, q, ends, found, divided, _⟩
  · exact isSegment_of_at? measured (Option.isSome_of_eq_some found)
  · obtain ⟨rfl, _⟩ := List.append_inj' ends rfl
    obtain ⟨x, hx⟩ := List.exists_mem_of_ne_nil _ divided
    have known : ((r.treemap renames).at? (around ++ [x.name])).isSome := by
      rw [Parcel.at?_append, found, Option.bind_some,
        Parcel.at?_cons_of_find? ((wf.of_at? found).find?_eq hx)]
      rfl
    exact isSegment_of_at? measured known

/-- What is found by following segments has a segment as its name: it is the root, or it has
one of these names. -/
theorem isSegment_of_follow? {names : List String} {c : Block}
    (plain : ∀ name ∈ names, Text.IsSegment (· == '/') name)
    (found : ((r.treemap renames).toBlock depth).follow? names = some c) :
    Text.IsSegment (· == '/') c.name := by
  rcases Block.name_of_follow? found with start | mem
  · rw [start, Parcel.name_toBlock, name_treemap]
    simp [Text.IsSegment]
  · exact plain _ mem

/-- **Which boxes of a treemap are found by their paths.**  Let names lead to a box in the
treemap of measured symbols, under any renaming table and drawn to any depth.  Looking them
up with slashes between them gives a box of that name and size exactly if the last of them is
a segment, so not empty and without a slash, and on no level there is a larger box of the
same name.  The former is so for all divided boxes, the latter if none of the names is that
of the boxes for own bytes. -/
theorem found_by_path_iff (measured : r.Measured)
    (leads : ((r.treemap renames).toBlock depth).Leads path b) :
    ((∃ c, ((r.treemap renames).toBlock depth).find? (String.intercalate "/" path) = some c ∧
        c.name = b.name ∧ c.size = b.size) ↔
      (∀ last ∈ path.getLast?, Text.IsSegment (· == '/') last) ∧
        ((r.treemap renames).toBlock depth).LeadsOpenly path b) ∧
    (b.parts ≠ [] → ∀ last ∈ path.getLast?, Text.IsSegment (· == '/') last) ∧
    (Block.ownName ∉ path → ((r.treemap renames).toBlock depth).LeadsOpenly path b) := by
  have wf := r.wellFormed_treemap renames
  refine ⟨?_, ?_, Parcel.leadsOpenly_of_notMem wf leads⟩
  · rw [Block.find?_eq_follow?]
    rcases List.eq_nil_or_concat' path with rfl | ⟨around, last, rfl⟩
    · cases leads with
      | here =>
        rw [show String.intercalate "/" [] = "" from rfl, Text.segments_empty]
        simpa using Block.LeadsOpenly.here
    · have plain := isSegment_of_leads measured leads
      have called : b.name = last := leads.name_eq
      rw [Text.segments_intercalate rfl rfl plain]
      simp only [List.getLast?_append, List.getLast?_singleton, Option.some_or, Option.mem_some,
        forall_eq']
      by_cases segment : Text.IsSegment (· == '/') last
      · rw [Text.segments_of_isSegment segment, Parcel.follow?_iff wf leads, and_iff_right segment]
      · refine iff_of_false ?_ fun both => segment both.1
        rintro ⟨c, found, same, _⟩
        have pieces : ∀ name ∈ Text.segments (· == '/') last, Text.IsSegment (· == '/') name :=
          fun _ => Text.isSegment_of_mem_segments
        have named := isSegment_of_follow? (List.forall_mem_append.2 ⟨plain, pieces⟩) found
        rw [same, called] at named
        exact segment named
  · intro divided last ends
    obtain ⟨d, inner⟩ := List.exists_mem_of_ne_nil _ divided
    exact isSegment_of_leads measured (leads.concat inner) last (List.mem_of_getLast? ends)

/-- The files of a run with a module that has a custom section called `x`. -/
def customSection : Files
  | "a.wasm" => some ⟨#[0, 0x61, 0x73, 0x6d, 1, 0, 0, 0, 0, 2, 1, 0x78]⟩
  | _ => none

/-- The report on it. -/
def customReport : Report where
  symbols := [
    { scope := "", selfName := "CUSTOM/\"x\"", kind := .moduleSection, size := 4,
      sourceFile := "a.wasm" },
    { scope := "", selfName := "file header", kind := .wasmHeader, size := 8,
      sourceFile := "a.wasm" }]

theorem measured_customReport : customReport.Measured := by
  have entries : (measureFile customSection {} "a.wasm").map (·.map (·.table.entries)) =
      .ok (some customReport.symbols) := by decide +kernel
  intro s mem
  cases found : measureFile customSection {} "a.wasm" with
  | error e => simp [found, Except.map] at entries
  | ok result =>
    rw [found] at entries
    obtain ⟨m, rfl, same⟩ := Option.map_eq_some_iff.1 (Except.ok.inj entries)
    exact .inFile found (same ▸ mem)

/-- The header of the module is found by its path. -/
theorem found_by_path_customSection :
    ∃ c, ((customReport.treemap ∅).toBlock 2).find?
        (String.intercalate "/" ["a.wasm", "file header"]) = some c ∧
      c.name = "file header" ∧ c.size = 8 := by
  have box : (customReport.treemap ∅).at? ["a.wasm", "file header"] =
      some (.mk "file header" 8 []) := by rfl
  have leads : ((customReport.treemap ∅).toBlock 2).Leads ["a.wasm", "file header"]
      (.leaf "file header" 8) := Parcel.leads_toBlock box (by decide)
  obtain ⟨found, -, openly⟩ := found_by_path_iff measured_customReport leads
  refine found.2 ⟨?_, openly (by decide)⟩
  simp [Text.IsSegment]

/-- The custom section has a slash in its name and is not found by its path. -/
theorem lost_path_customSection :
    customReport.Measured ∧
    ((customReport.treemap ∅).toBlock 2).Leads ["a.wasm", "CUSTOM/\"x\""]
      (.leaf "CUSTOM/\"x\"" 4) ∧
    ((customReport.treemap ∅).toBlock 2).find?
      (String.intercalate "/" ["a.wasm", "CUSTOM/\"x\""]) = none := by
  have box : (customReport.treemap ∅).at? ["a.wasm", "CUSTOM/\"x\""] =
      some (.mk "CUSTOM/\"x\"" 4 []) := by rfl
  exact ⟨measured_customReport, Parcel.leads_toBlock box (by decide), by cbv⟩

end Report

end SizeAtlas
