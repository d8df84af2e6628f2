import SizeAtlas.Proofs.SourceMap.Lookup
import SizeAtlas.Proofs.SourceMap.Renaming

/-!
# Whose name a declaration gets

A declaration gets the name of the entry at its own identifier, if the map has one.  If
not, it gets the name of the nearest entry around its first byte, whichever declaration that
one belongs to: a function that was not renamed takes the name of what is declared up to
nine bytes before it.

## Main definitions

* `Insertion`, `insertionsOf` — the renamings that the search enters, in their order.
* `Declared` — the declarations that the search comes to.
* `Owns` — the entry at the identifier of a declaration.

## Main statements

* `renamesOf_eq_ofList` — the search enters its renamings one after the other.
* `exists_insertion_iff` — which declarations are renamed, and to what.
* `forall_owns_iff` — when each gets the name of its own entry.
-/

namespace SizeAtlas.SourceMap

open Script

/-! ## The renamings in their order -/

/-- A renaming that the search enters: the declaration, its scope and its name, and the
scope and the name that it has in the sources. -/
structure Insertion where
  node : Node
  scope : String
  minified : String
  sourceScope : String
  source : String

/-- What is entered: the two qualified names. -/
def Insertion.pair (i : Insertion) : String × String :=
  (i.scope ++ i.minified, i.sourceScope ++ i.source)

/-- The renaming of what `n` declares. -/
def insertion? (m : SourceMap) (scope source : String) (n : Node) : Option Insertion :=
  match n.mappableName?, mappedName? m n with
  | some minified, some name =>
    if declares n ∧ minified ≠ name then some ⟨n, scope, minified, source, name⟩ else none
  | _, _ => none

/-- The renamings of `n` and of all inside it. -/
def insertions (m : SourceMap) (scope source : String) (n : Node) : List Insertion :=
  (insertion? m scope source n).toList ++
    (n.children .each).attach.flatMap fun ⟨c, _⟩ =>
      insertions m (innerScope scope n) (sourceScope m source n) c
termination_by n
decreasing_by exact Node.sizeOf_lt_of_mem_children ‹_›

/-- The renamings of a script. -/
def insertionsOf (m : SourceMap) (body : List Node) : List Insertion :=
  body.flatMap (insertions m "" "")

variable {m : SourceMap} {scope source : String} {n : Node} {body : List Node}

theorem rename?_eq :
    rename? scope source n (mappedName? m n) = (insertion? m scope source n).map Insertion.pair := by
  unfold rename? insertion?
  cases n.mappableName? with
  | none => rfl
  | some minified =>
    cases mappedName? m n with
    | none => rfl
    | some name =>
      by_cases renamed : declares n ∧ minified ≠ name
      · simp only [if_pos renamed]
        rfl
      · simp only [if_neg renamed]
        rfl

theorem insertions_eq (m : SourceMap) (scope source : String) (n : Node) :
    insertions m scope source n = (insertion? m scope source n).toList ++
      (n.children .each).flatMap (insertions m (innerScope scope n) (sourceScope m source n)) := by
  have attached := List.flatMap_subtype (l := (n.children .each).attach)
    (g := insertions m (innerScope scope n) (sourceScope m source n))
    (f := fun c => insertions m (innerScope scope n) (sourceScope m source n) c.1)
    fun _ _ => rfl
  rw [List.unattach_attach] at attached
  rw [insertions, attached]

theorem foldl_collectRenames {level : List Node} (r : Renames)
    (each : ∀ n ∈ level, ∀ r, collectRenames m scope source n r =
      r.insertAll ((insertions m scope source n).map Insertion.pair)) :
    level.foldl (fun r n => collectRenames m scope source n r) r =
      r.insertAll ((level.flatMap (insertions m scope source)).map Insertion.pair) := by
  induction level generalizing r with
  | nil => rfl
  | cons n level ih =>
    rw [List.foldl_cons, each n (by simp), ih _ fun c hc => each c (by simp [hc]),
      List.flatMap_cons, List.map_append]
    simp only [Roster.insertAll, List.foldl_append]

/-- The search enters the renamings of a node and of all inside it one after the other. -/
theorem collectRenames_eq_insertAll (m : SourceMap) (n : Node) (scope source : String)
    (r : Renames) : collectRenames m scope source n r =
      r.insertAll ((insertions m scope source n).map Insertion.pair) := by
  induction n using Node.induction_children .each generalizing scope source r with
  | step n ih =>
    have here : (rename? scope source n (mappedName? m n)).toList =
        (insertion? m scope source n).toList.map Insertion.pair := by
      rw [rename?_eq]
      cases insertion? m scope source n <;> rfl
    rw [collectRenames_eq, foldl_collectRenames _ fun c hc r => ih c hc _ _ r, here,
      insertions_eq, List.map_append]
    simp only [Roster.insertAll, List.foldl_append]

/-- The renamings of a script are entered one after the other, so the last one for a name
counts. -/
theorem renamesOf_eq_ofList (m : SourceMap) (body : List Node) :
    renamesOf m body = Roster.ofList ((insertionsOf m body).map Insertion.pair) :=
  foldl_collectRenames ∅ fun n _ r => collectRenames_eq_insertAll m n "" "" r

/-! ## Which declarations are renamed -/

/-- The map gives the declaration of a renaming the name that is entered for it. -/
structure Insertion.Mapped (m : SourceMap) (i : Insertion) : Prop where
  declares : declares i.node = true
  known : i.node.mappableName? = some i.minified
  mapped : mappedName? m i.node = some i.source
  differs : i.minified ≠ i.source

theorem insertion?_eq_some_iff {i : Insertion} :
    insertion? m scope source n = some i ↔
      i.Mapped m ∧ i.node = n ∧ i.scope = scope ∧ i.sourceScope = source := by
  unfold insertion?
  constructor
  · intro h
    split at h
    · rename_i minified name known mapped
      split at h
      · rename_i renamed
        obtain rfl := Option.some.inj h
        exact ⟨⟨renamed.1, known, mapped, renamed.2⟩, rfl, rfl, rfl⟩
      · simp at h
    · simp at h
  · rintro ⟨⟨declared, known, mapped, differs⟩, rfl, rfl, rfl⟩
    simp [known, mapped, declared, differs]

/-- What is entered for a node and all inside it is for a node that the search comes to. -/
theorem of_mem_insertions {i : Insertion} (mem : i ∈ insertions m scope source n) :
    i.Mapped m ∧ Comes (fun _ => True) scope [n] i.scope i.node := by
  induction n using Node.induction_children .each generalizing scope source with
  | step n ih =>
    rw [insertions_eq, List.mem_append, List.mem_flatMap] at mem
    rcases mem with here | ⟨c, hc, below⟩
    · obtain ⟨mapped, rfl, rfl, _⟩ := insertion?_eq_some_iff.1 (Option.mem_toList.1 here)
      exact ⟨mapped, .here (List.mem_singleton.2 rfl)⟩
    · obtain ⟨mapped, comes⟩ := ih c hc below
      exact ⟨mapped, .inside (List.mem_singleton.2 rfl) trivial (comes.mono (by simpa using hc))⟩

/-- What the search comes to is renamed if the map gives another name for it. -/
theorem exists_insertion {level : List Node} {scope' minified name : String}
    (comes : Comes (fun _ => True) scope level scope' n) (declared : declares n = true)
    (known : n.mappableName? = some minified) (mapped : mappedName? m n = some name)
    (differs : minified ≠ name) (source : String) :
    ∃ i ∈ level.flatMap (insertions m scope source),
      i.node = n ∧ i.scope = scope' ∧ i.minified = minified ∧ i.source = name := by
  induction comes generalizing source with
  | @here scope level n mem =>
    refine ⟨⟨n, scope, minified, source, name⟩, List.mem_flatMap.2 ⟨n, mem, ?_⟩, rfl, rfl, rfl, rfl⟩
    rw [insertions_eq]
    refine List.mem_append_left _ (Option.mem_toList.2 (insertion?_eq_some_iff.2 ⟨?_, rfl, rfl, rfl⟩))
    exact ⟨declared, known, mapped, differs⟩
  | @inside scope scope' level a n mem _ below ih =>
    obtain ⟨i, hi, rest⟩ := ih declared known mapped (sourceScope m source a)
    refine ⟨i, List.mem_flatMap.2 ⟨a, mem, ?_⟩, rest⟩
    rw [insertions_eq]
    exact List.mem_append_right _ hi

/-- A script declares `minified` by `n`, which the search comes to in `scope`. -/
structure Declared (body : List Node) (scope : String) (n : Node) (minified : String) : Prop where
  comes : Comes (fun _ => True) "" body scope n
  declares : declares n = true
  known : n.mappableName? = some minified

/-- **Which declarations are renamed, and to what**: those for which the map gives another
name. -/
theorem exists_insertion_iff {minified name : String} :
    (∃ i ∈ insertionsOf m body,
        i.node = n ∧ i.scope = scope ∧ i.minified = minified ∧ i.source = name) ↔
      Declared body scope n minified ∧ mappedName? m n = some name ∧ minified ≠ name := by
  constructor
  · rintro ⟨i, mem, rfl, rfl, rfl, rfl⟩
    obtain ⟨a, ha, below⟩ := List.mem_flatMap.1 mem
    obtain ⟨⟨declared, known, mapped, differs⟩, comes⟩ := of_mem_insertions below
    exact ⟨⟨comes.mono (by simpa using ha), declared, known⟩, mapped, differs⟩
  · rintro ⟨⟨comes, declared, known⟩, mapped, differs⟩
    exact exists_insertion comes declared known mapped differs ""

/-! ## Whose name it is -/

/-- The entry stands at the identifier that `n` declares. -/
def Owns (m : SourceMap) (n : Node) (e : Entry) : Prop :=
  e ∈ m.entries ∧ declaredAt? n = some e.offset

/-- Between distinct offsets a declaration gets the name of its own entry, or else that of
the nearest entry. -/
theorem mappedName?_eq_some_iff (distinct : (m.entries.toList.map Entry.offset).Nodup)
    {name : String} :
    mappedName? m n = some name ↔
      (∃ e, Owns m n e ∧ e.name = name) ∨
        (∀ e, ¬Owns m n e) ∧ ∃ e, Nearest m n.start (reach n) e ∧ e.name = name := by
  have near : m.lookup n.start (reach n) = some name ↔
      ∃ e, Nearest m n.start (reach n) e ∧ e.name = name := by
    simp only [lookup, Option.map_eq_some_iff, nearest?_eq_some_iff distinct]
  cases declared : declaredAt? n with
  | none =>
    have none : ∀ e, ¬Owns m n e := fun e own => by simp [Owns, declared] at own
    simp [mappedName?, declared, near, none]
  | some offset =>
    have owns : ∀ e, Owns m n e ↔ m.nearest? offset 0 = some e := fun e => by
      rw [nearest?_eq_some_iff distinct, nearest_zero_iff, Owns, declared, Option.some.injEq,
        eq_comm]
    have here : m.lookup offset 0 = (m.nearest? offset 0).map Entry.name := rfl
    simp only [mappedName?, declared, Option.bind_some, owns, here]
    cases m.nearest? offset 0 <;> simp [near]

/-! ## Scripts -/

/-- **When each declaration that is renamed gets the name of its own entry.**  The renamings
are entered one after the other.  Each has the name of the entry at the identifier of its
declaration, exactly if for every declaration without such an entry the nearest entry around
its first byte, nine bytes around that of a function and one byte around any other, has the
minified name by coincidence, or there is none. -/
theorem forall_owns_iff (distinct : (m.entries.toList.map Entry.offset).Nodup) :
    renamesOf m body = Roster.ofList ((insertionsOf m body).map Insertion.pair) ∧
      ((∀ i ∈ insertionsOf m body, ∃ e, Owns m i.node e ∧ e.name = i.source) ↔
        ∀ scope n minified e, Declared body scope n minified → (∀ e', ¬Owns m n e') →
          Nearest m n.start (reach n) e → e.name = minified) := by
  refine ⟨renamesOf_eq_ofList m body, ?_, ?_⟩
  · intro own scope n minified e declared none nearest
    by_contra differs
    have mapped : mappedName? m n = some e.name :=
      (mappedName?_eq_some_iff distinct).2 (Or.inr ⟨none, e, nearest, rfl⟩)
    obtain ⟨i, mem, rfl, _⟩ := exists_insertion_iff.2 ⟨declared, mapped, fun eq => differs eq.symm⟩
    obtain ⟨e', own, _⟩ := own i mem
    exact none e' own
  · intro same i mem
    obtain ⟨declared, mapped, differs⟩ := exists_insertion_iff.1 ⟨i, mem, rfl, rfl, rfl, rfl⟩
    rcases (mappedName?_eq_some_iff distinct).1 mapped with own | ⟨none, e, nearest, name⟩
    · exact own
    · exact absurd ((same _ _ _ e declared none nearest).symm.trans name) differs

/-- The variable of `var a=1;function b(){}`. -/
def leftNeighbour : Node := .mk 4 7 (.variableDeclarator (some ⟨"a", 4, 5⟩) (some (.mk 6 7 .literal)))

/-- The function of `var a=1;function b(){}`. -/
def rightNeighbour : Node :=
  .mk 8 22 (.functionDeclaration (some ⟨"b", 17, 18⟩) (.mk 20 22 (.blockStatement [])))

/-- The tree of `var a=1;function b(){}`. -/
def neighbours : List Node := [.mk 0 8 (.variableDeclaration [leftNeighbour]), rightNeighbour]

/-- Both have an entry at their identifiers. -/
def bothNamed : SourceMap where
  entries := #[⟨4, none, 0, 0, "answer"⟩, ⟨17, none, 0, 0, "build"⟩]
  sorted := by decide

/-- Only the variable was renamed. -/
def oneNamed : SourceMap where
  entries := #[⟨4, none, 0, 0, "answer"⟩]
  sorted := by decide

/-- With an entry each, the two neighbours get their own names, and nothing else is near. -/
theorem forall_owns_iff_bothNamed :
    (bothNamed.entries.toList.map Entry.offset).Nodup ∧
      renamesOf bothNamed neighbours = Roster.ofList [("a", "answer"), ("b", "build")] ∧
      ∀ scope n minified e, Declared neighbours scope n minified → (∀ e', ¬Owns bothNamed n e') →
        Nearest bothNamed n.start (reach n) e → e.name = minified := by
  have distinct : (bothNamed.entries.toList.map Entry.offset).Nodup := by decide
  have order : insertionsOf bothNamed neighbours =
      [⟨leftNeighbour, "", "a", "", "answer"⟩, ⟨rightNeighbour, "", "b", "", "build"⟩] := by cbv
  obtain ⟨entered, own⟩ : renamesOf bothNamed neighbours = _ ∧ (_ ↔ _) := forall_owns_iff distinct
  rw [order] at entered own
  refine ⟨distinct, entered, own.1 ?_⟩
  rw [List.forall_mem_cons, List.forall_mem_cons]
  refine ⟨⟨⟨4, none, 0, 0, "answer"⟩, ⟨?_, rfl⟩, rfl⟩, ⟨⟨17, none, 0, 0, "build"⟩, ⟨?_, rfl⟩, rfl⟩, by simp⟩
  · simp [bothNamed]
  · simp [bothNamed]

/-- All entries stand at identifiers of declarations, and yet the function, which has none,
gets the name of the variable before it. -/
theorem not_forall_owns_oneNamed :
    (oneNamed.entries.toList.map Entry.offset).Nodup ∧
      (∀ e ∈ oneNamed.entries, ∃ scope n minified, Declared neighbours scope n minified ∧
        Owns oneNamed n e) ∧
      (renamesOf oneNamed neighbours).entries = [("a", "answer"), ("b", "answer")] ∧
      ∃ i ∈ insertionsOf oneNamed neighbours, i.pair = ("b", "answer") ∧
        ∀ e, ¬Owns oneNamed i.node e := by
  have entered : insertionsOf oneNamed neighbours =
      [⟨leftNeighbour, "", "a", "", "answer"⟩, ⟨rightNeighbour, "", "b", "", "answer"⟩] := by cbv
  have renames : (renamesOf oneNamed neighbours).entries = [("a", "answer"), ("b", "answer")] := by cbv
  have only : ∀ e, e ∈ oneNamed.entries ↔ e = ⟨4, none, 0, 0, "answer"⟩ := by simp [oneNamed]
  refine ⟨by decide, fun e mem => ?_, renames, ⟨rightNeighbour, "", "b", "", "answer"⟩, ?_, rfl, ?_⟩
  · obtain rfl := (only e).1 mem
    obtain ⟨declared, _⟩ := exists_insertion_iff.1
      ⟨⟨leftNeighbour, "", "a", "", "answer"⟩, entered ▸ List.mem_cons_self, rfl, rfl, rfl, rfl⟩
    exact ⟨"", leftNeighbour, "a", declared, mem, rfl⟩
  · rw [entered]
    exact List.mem_cons_of_mem _ List.mem_cons_self
  · rintro e ⟨mem, at_identifier⟩
    obtain rfl := (only e).1 mem
    exact absurd at_identifier (by decide)

end SizeAtlas.SourceMap
