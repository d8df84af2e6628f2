import SizeAtlas.Path
import SizeAtlas.Proofs.Entering
import SizeAtlas.Proofs.SymbolTable

/-!
# How a table came about

A table is made from the empty one in steps.  A table that is merged was made in steps itself,
and merging it enters its symbols in turn, so that all that ever happens to a table is a history
of single changes: a symbol is entered, bytes are added to one, the file is noted for all.  The
history tells which symbols there are, in which order, and with which sizes and files.

A table keeps no keys, since the name of a symbol is its key.  A map that keeps keys beside the
symbols and knows nothing of names comes to the same ones in the same steps.

## Main definitions

* `Change`, `Step` — single changes, and steps that may also merge a table.
* `made` — the table that is made in steps.
* `history` — the changes that steps come to.
* `inserted`, `added`, `lastFile?` — what changes do to the names, to a size and to the file.
* `Keyed`, `Keyed.made` — symbols under keys that are kept beside them.

## Main statements

* `made_eq_replay` — a table is made by the changes of its history.
* `keys_replay` — the names are in the order in which they were first entered.
* `mem_replay_iff` — a symbol is the one last entered under its name, with all that came since.
* `Keyed.made_eq` — each key is the name of the symbol under it.
* `made_of_history` — all of these.
-/

namespace SizeAtlas.SymbolTable

/-! ## Steps -/

/-- A single change of a table. -/
inductive Change where
  /-- A symbol is entered. -/
  | insert (s : Symbol)
  /-- Bytes are added to the symbol called `name`, if there is one. -/
  | addSize (name : String) (n : Nat)
  /-- The file at `path` is noted for all symbols. -/
  | inFile (path : String)
  deriving DecidableEq, Repr

/-- A step in the making of a table. -/
inductive Step where
  | change (c : Change)
  /-- A table is merged that was made in the steps `other`. -/
  | extend (other : List Step)

/-- A table after a change. -/
def change (t : SymbolTable) : Change → SymbolTable
  | .insert s => Roster.insert t s
  | .addSize name n => t.addSize name n
  | .inFile path => t.inFile (Path.baseName path)

/-- A table after changes. -/
def replay (t : SymbolTable) (changes : List Change) : SymbolTable := changes.foldl change t

mutual

/-- A table after a step. -/
def step (t : SymbolTable) : Step → SymbolTable
  | .change c => t.change c
  | .extend other => t.extend (run ∅ other)

/-- A table after steps. -/
def run (t : SymbolTable) : List Step → SymbolTable
  | [] => t
  | s :: steps => run (step t s) steps

end

/-- The table that is made in steps. -/
def made (steps : List Step) : SymbolTable := run ∅ steps

/-- The changes that a step comes to. -/
def Step.changes : Step → List Change
  | .change c => [c]
  | .extend other => (made other).entries.map .insert

/-- The changes that steps come to. -/
def history (steps : List Step) : List Change := steps.flatMap Step.changes

@[simp] theorem history_cons (s : Step) (steps : List Step) :
    history (s :: steps) = s.changes ++ history steps :=
  List.flatMap_cons

@[simp] theorem history_append (before steps : List Step) :
    history (before ++ steps) = history before ++ history steps :=
  List.flatMap_append

theorem history_map_insert (ss : List Symbol) :
    history (ss.map fun s => .change (.insert s)) = ss.map .insert := by
  rw [history, List.flatMap_map, List.map_eq_flatMap]
  rfl

/-! ## What changes do -/

/-- The name that a change enters a symbol under. -/
def Change.insertedName? : Change → Option String
  | .insert s => some s.name
  | _ => none

/-- The names that symbols are entered under, in their order. -/
def inserted (changes : List Change) : List String := changes.filterMap Change.insertedName?

/-- How many bytes a change adds to a symbol called `name`. -/
def Change.added (name : String) : Change → Nat
  | .addSize name' n => if name' = name then n else 0
  | _ => 0

/-- How many bytes changes add to a symbol called `name`. -/
def added (name : String) (changes : List Change) : Nat := (changes.map (Change.added name)).sum

/-- The base name of the file that a change notes. -/
def Change.file? : Change → Option String
  | .inFile path => some (Path.baseName path)
  | _ => none

/-- The base name of the file that was noted last. -/
def lastFile? (changes : List Change) : Option String := (changes.filterMap Change.file?).getLast?

/-- What becomes of a symbol by changes that do not replace it. -/
def grown (s : Symbol) (changes : List Change) : Symbol :=
  { s with
    size := s.size + added s.name changes
    sourceFile := (lastFile? changes).getD s.sourceFile }

section

variable {s : Symbol} {c : Change} {changes before : List Change} {name : String}

@[simp] theorem grown_nil (s : Symbol) : grown s [] = s := rfl

@[simp] theorem name_grown (s : Symbol) (changes : List Change) : (grown s changes).name = s.name :=
  rfl

@[simp] theorem inserted_append (before changes : List Change) :
    inserted (before ++ changes) = inserted before ++ inserted changes :=
  List.filterMap_append

@[simp] theorem inserted_insert (s : Symbol) : inserted [.insert s] = [s.name] := rfl

@[simp] theorem inserted_addSize (name : String) (n : Nat) : inserted [.addSize name n] = [] := rfl

@[simp] theorem inserted_inFile (path : String) : inserted [.inFile path] = [] := rfl

@[simp] theorem inserted_map_insert (ss : List Symbol) :
    inserted (ss.map .insert) = ss.map Symbol.name := by
  rw [inserted, List.filterMap_map, ← List.filterMap_eq_map]
  rfl

theorem added_concat (name : String) (changes : List Change) (c : Change) :
    added name (changes ++ [c]) = added name changes + c.added name := by
  simp [added]

theorem lastFile?_concat (changes : List Change) (c : Change) :
    lastFile? (changes ++ [c]) = c.file?.or (lastFile? changes) := by
  rw [lastFile?, List.filterMap_append, List.getLast?_append, lastFile?]
  cases c <;> rfl

theorem grown_concat_insert (s x : Symbol) (changes : List Change) :
    grown s (changes ++ [.insert x]) = grown s changes := by
  rw [grown, added_concat, lastFile?_concat]
  rfl

theorem grown_concat_addSize (s : Symbol) (changes : List Change) (name : String) (n : Nat) :
    grown s (changes ++ [.addSize name n]) =
      if s.name = name then (grown s changes).grow n else grown s changes := by
  rw [grown, added_concat, lastFile?_concat, Change.added]
  by_cases same : s.name = name
  · rw [if_pos same, if_pos same.symm, ← Nat.add_assoc]
    rfl
  · rw [if_neg same, if_neg fun e => same e.symm]
    rfl

theorem grown_concat_inFile (s : Symbol) (changes : List Change) (path : String) :
    grown s (changes ++ [.inFile path]) = (grown s changes).inFile (Path.baseName path) := by
  rw [grown, added_concat, lastFile?_concat]
  rfl

end

/-! ## Replaying a history -/

section

variable {t : SymbolTable} {changes : List Change} {r : Symbol}

theorem replay_append (t : SymbolTable) (before changes : List Change) :
    replay t (before ++ changes) = replay (replay t before) changes :=
  List.foldl_append

theorem replay_concat (t : SymbolTable) (changes : List Change) (c : Change) :
    replay t (changes ++ [c]) = (replay t changes).change c :=
  replay_append t changes [c]

/-- Entering symbols by single changes is entering them in turn. -/
theorem replay_map_insert (t : SymbolTable) (ss : List Symbol) :
    replay t (ss.map .insert) = Roster.insertAll t ss := by
  rw [replay, List.foldl_map]
  rfl

/-- A step is the changes that it comes to. -/
theorem step_eq_replay (t : SymbolTable) (s : Step) : step t s = replay t s.changes := by
  cases s with
  | change c => rw [step]; rfl
  | extend other =>
    rw [step, Step.changes, replay_map_insert, Roster.extend_eq_insertAll, made]

theorem run_eq_replay (t : SymbolTable) (steps : List Step) :
    run t steps = replay t (history steps) := by
  induction steps generalizing t with
  | nil => rw [run]; rfl
  | cons s steps ih => rw [run, ih, step_eq_replay, history_cons, replay_append]

/-- A table is made by the changes of its history. -/
theorem made_eq_replay (steps : List Step) : made steps = replay ∅ (history steps) :=
  run_eq_replay ∅ steps

theorem made_append (before steps : List Step) :
    made (before ++ steps) = run (made before) steps := by
  rw [made_eq_replay, run_eq_replay, made_eq_replay, history_append, replay_append]

end

/-! ## Names -/

/-- The names are those that symbols were entered under, in the order in which they first
were. -/
theorem keys_replay (changes : List Change) :
    (replay ∅ changes).keys = (inserted changes).eraseDups := by
  induction changes using List.reverseRecOn with
  | nil => rfl
  | append_singleton changes c ih =>
    rw [replay_concat, inserted_append, List.eraseDups_append, ← ih]
    cases c with
    | insert s =>
      have known : s.name ∈ inserted changes ↔ s.name ∈ (replay ∅ changes).keys := by
        rw [ih, List.mem_eraseDups]
      rw [change, Roster.keys_insert]
      by_cases mem : s.name ∈ (replay ∅ changes).keys
      · simp [List.removeAll, mem, known.2 mem]
      · simp [List.removeAll, mem, mt known.1 mem, List.eraseDups_cons]
    | addSize name n =>
      rw [change, keys_addSize]
      simp [List.removeAll]
    | inFile path =>
      rw [change, inFile, Roster.keys_map]
      simp [List.removeAll]

/-! ## Symbols -/

section

variable {changes : List Change} {c : Change} {r : Symbol}

/-- Where a symbol is entered by changes with one more at their end. -/
theorem exists_insert_concat {P : Symbol → List Change → Prop} :
    (∃ before s later, changes ++ [c] = before ++ .insert s :: later ∧ P s later) ↔
      (∃ s, c = .insert s ∧ P s []) ∨
        ∃ before s later, changes = before ++ .insert s :: later ∧ P s (later ++ [c]) := by
  constructor
  · rintro ⟨before, s, later, split, holds⟩
    rcases Roster.concat_eq_append_cons_iff.1 split with ⟨-, rfl, rfl⟩ | ⟨later, earlier, rfl⟩
    · exact .inl ⟨s, rfl, holds⟩
    · exact .inr ⟨before, s, later, earlier, holds⟩
  · rintro (⟨s, rfl, holds⟩ | ⟨before, s, later, rfl, holds⟩)
    · exact ⟨changes, s, [], rfl, holds⟩
    · exact ⟨before, s, later ++ [c], by simp, holds⟩

/-- The symbol `r` is one that was entered by changes, with what came since, and that was not
replaced. -/
def Results (changes : List Change) (r : Symbol) : Prop :=
  ∃ before s later, changes = before ++ .insert s :: later ∧ s.name ∉ inserted later ∧
    r = grown s later

theorem results_concat_insert {x : Symbol} :
    Results (changes ++ [.insert x]) r ↔ r = x ∨ Results changes r ∧ r.name ≠ x.name := by
  rw [Results, exists_insert_concat]
  simp only [inserted_append, inserted_insert, grown_concat_insert, List.mem_append,
    List.mem_singleton, not_or]
  constructor
  · rintro (⟨s, same, -, rfl⟩ | ⟨before, s, later, split, ⟨last, other⟩, rfl⟩)
    · cases same
      exact .inl rfl
    · exact .inr ⟨⟨before, s, later, split, last, rfl⟩, other⟩
  · rintro (rfl | ⟨⟨before, s, later, split, last, rfl⟩, other⟩)
    · exact .inl ⟨r, rfl, List.not_mem_nil, rfl⟩
    · exact .inr ⟨before, s, later, split, ⟨last, other⟩, rfl⟩

/-- A change that enters nothing goes on from what there was. -/
theorem results_concat_of_inserted {f : Symbol → Symbol} (none : inserted [c] = [])
    (grows : ∀ s later, grown s (later ++ [c]) = f (grown s later)) :
    Results (changes ++ [c]) r ↔ ∃ x, Results changes x ∧ f x = r := by
  have other : ∀ s, c ≠ .insert s := by
    rintro s rfl
    simp at none
  rw [Results, exists_insert_concat]
  simp only [inserted_append, none, List.append_nil, grows]
  constructor
  · rintro (⟨s, same, -⟩ | ⟨before, s, later, split, last, rfl⟩)
    · exact absurd same (other s)
    · exact ⟨_, ⟨before, s, later, split, last, rfl⟩, rfl⟩
  · rintro ⟨_, ⟨before, s, later, split, last, rfl⟩, rfl⟩
    exact .inr ⟨before, s, later, split, last, rfl⟩

/-- The symbol last entered under its name is there, with what was added to it since and with
the file that was noted last since; and nothing else is there. -/
theorem mem_replay_iff (changes : List Change) (r : Symbol) :
    r ∈ (replay ∅ changes).entries ↔ Results changes r := by
  induction changes using List.reverseRecOn generalizing r with
  | nil =>
    constructor
    · intro mem
      exact absurd mem List.not_mem_nil
    · rintro ⟨before, s, later, split, -⟩
      simp at split
  | append_singleton changes c ih =>
    rw [replay_concat]
    cases c with
    | insert x => rw [change, Roster.mem_insert_iff, ih, results_concat_insert]
    | addSize name n =>
      rw [results_concat_of_inserted (f := fun s => if s.name = name then s.grow n else s) rfl
        fun s later => grown_concat_addSize s later name n]
      rw [change, entries_addSize, List.mem_map]
      simp only [ih]
    | inFile path =>
      rw [results_concat_of_inserted rfl fun s later => grown_concat_inFile s later path]
      rw [change, inFile, Roster.map, List.mem_map]
      simp only [ih]

end

/-! ## Keys beside the symbols -/

/-- Symbols under keys that are kept beside them, whatever their names. -/
abbrev Keyed := Roster (Prod.fst : String × Symbol → String)

namespace Keyed

/-- What is under keys after a change. -/
def change (m : Keyed) : Change → Keyed
  | .insert s => m.insert (s.name, s)
  | .addSize name n => m.modify name (fun e => (e.1, e.2.grow n)) fun _ => rfl
  | .inFile path => m.map (fun e => (e.1, e.2.inFile (Path.baseName path))) fun _ => rfl

mutual

/-- What is under keys after a step. -/
def step (m : Keyed) : Step → Keyed
  | .change c => m.change c
  | .extend other => m.extend (run ∅ other)

/-- What is under keys after steps. -/
def run (m : Keyed) : List Step → Keyed
  | [] => m
  | s :: steps => run (step m s) steps

end

/-- What is under keys that is made in steps. -/
def made (steps : List Step) : Keyed := run ∅ steps

/-- The symbols of a table under their names. -/
def ofTable (t : SymbolTable) : Keyed where
  entries := t.entries.map fun s => (s.name, s)
  nodup := by
    rw [List.map_map]
    exact t.nodup

theorem place_named (s : Symbol) (l : List Symbol) :
    Roster.place Prod.fst (s.name, s) (l.map fun s => (s.name, s)) =
      (Roster.place Symbol.name s l).map fun s => (s.name, s) := by
  induction l with
  | nil => rfl
  | cons x l ih =>
    rw [List.map_cons, Roster.place, Roster.place]
    split
    · rfl
    · rw [ih, List.map_cons]

theorem insert_ofTable (t : SymbolTable) (s : Symbol) :
    (ofTable t).insert (s.name, s) = ofTable (Roster.insert t s) :=
  Roster.ext (place_named s t.entries)

theorem insertAll_ofTable (t : SymbolTable) (ss : List Symbol) :
    (ofTable t).insertAll (ss.map fun s => (s.name, s)) = ofTable (Roster.insertAll t ss) := by
  induction ss generalizing t with
  | nil => rfl
  | cons s ss ih =>
    rw [List.map_cons, Roster.insertAll, List.foldl_cons, ← Roster.insertAll, insert_ofTable, ih]
    rfl

theorem extend_ofTable (t u : SymbolTable) :
    (ofTable t).extend (ofTable u) = ofTable (t.extend u) := by
  rw [Roster.extend_eq_insertAll, Roster.extend_eq_insertAll]
  exact insertAll_ofTable t u.entries

theorem change_ofTable (t : SymbolTable) (c : Change) :
    (ofTable t).change c = ofTable (t.change c) := by
  cases c with
  | insert s => exact insert_ofTable t s
  | addSize name n =>
    apply Roster.ext
    simp only [change, SymbolTable.change, ofTable, Roster.entries_modify, entries_addSize,
      List.map_map]
    refine List.map_congr_left fun s _ => ?_
    by_cases same : s.name = name
    · simp [same]
    · simp [same]
  | inFile path =>
    apply Roster.ext
    simp only [change, SymbolTable.change, ofTable, Roster.map, inFile, List.map_map]
    rfl

mutual

theorem step_ofTable (t : SymbolTable) : ∀ s, step (ofTable t) s = ofTable (t.step s)
  | .change c => change_ofTable t c
  | .extend other => by
    have made : run ∅ other = ofTable (SymbolTable.run ∅ other) := run_ofTable ∅ other
    rw [step, SymbolTable.step, made, extend_ofTable]

theorem run_ofTable (t : SymbolTable) : ∀ steps, run (ofTable t) steps = ofTable (t.run steps)
  | [] => rfl
  | s :: steps => by rw [run, SymbolTable.run, step_ofTable t s, run_ofTable]

end

/-- The keys are the names of the symbols under them. -/
theorem made_eq (steps : List Step) : made steps = ofTable (SymbolTable.made steps) :=
  run_ofTable ∅ steps

theorem keys_ofTable (t : SymbolTable) : (ofTable t).keys = t.keys := by
  rw [Roster.keys, ofTable, List.map_map]
  rfl

end Keyed

/-! ## Whole histories -/

/-- **A table follows from its history.**  Of the symbols that steps come to, under keys kept
beside them, the keys are pairwise distinct and the names of the symbols, which are those of
the table; they are in the order in which they were first entered.  A symbol is in the table
exactly if it is the one last entered under its name, with the bytes that were added to it
since and the file that was noted last since.  Merging a table comes to the same as entering
its symbols one by one, and entering a symbol adds its size to the total and takes that of the
one that it replaces away. -/
theorem made_of_history (steps : List Step) :
    ((Keyed.made steps).entries = (made steps).entries.map (fun s => (s.name, s)) ∧
      (Keyed.made steps).keys.Nodup) ∧
    (Keyed.made steps).keys = (inserted (history steps)).eraseDups ∧
    (∀ r, r ∈ (made steps).entries ↔
      ∃ before s later, history steps = before ++ .insert s :: later ∧
        s.name ∉ inserted later ∧
        r = { s with
          size := s.size + added s.name later
          sourceFile := (lastFile? later).getD s.sourceFile }) ∧
    (∀ other, made (steps ++ [.extend other]) =
      made (steps ++ (made other).entries.map fun s => .change (.insert s))) ∧
    ∀ s, (made (steps ++ [.change (.insert s)])).total +
        (((made steps).find? s.name).map Symbol.size).getD 0 =
      (made steps).total + s.size := by
  have keys : (Keyed.made steps).keys = (inserted (history steps)).eraseDups := by
    rw [Keyed.made_eq, Keyed.keys_ofTable, made_eq_replay, keys_replay]
  refine ⟨⟨?_, (Keyed.made steps).nodup⟩, keys, fun r => ?_, fun other => ?_, fun s => ?_⟩
  · rw [Keyed.made_eq]
    rfl
  · rw [made_eq_replay]
    exact mem_replay_iff (history steps) r
  · have one : history [.extend other] = (made other).entries.map .insert :=
      List.flatMap_singleton ..
    rw [made_eq_replay, made_eq_replay, history_append, history_append, one, history_map_insert]
  · rw [made_append]
    exact total_insert (made steps) s

/-- A symbol that is entered again keeps its place. -/
example :
    (made [.change (.insert { scope := "", selfName := "a", kind := .var, size := 1 }),
      .extend [.change (.insert { scope := "", selfName := "b", kind := .var, size := 2 }),
        .change (.insert { scope := "", selfName := "a", kind := .function, size := 3 })],
      .change (.addSize "a" 4)]).entries.map (fun s => (s.name, s.size)) =
      [("a", 7), ("b", 2)] := by
  cbv

end SizeAtlas.SymbolTable
