import SizeAtlas.Proofs.Roster
import SizeAtlas.Proofs.Script.Walk
import SizeAtlas.SourceMap.Renaming

/-!
# Which names are renamed

The search for renamings comes to every node of a script, and the scope in which it
comes to a node is made of the names that a map may know the nodes above it by.  So
a name is renamed if it is that of a declaration in such a scope.

## Main definitions

* `innerScope` — the scope of what is inside a node.
* `Comes` — the nodes that the search comes to, with their scopes.
* `Renamed` — what a map gives another name for.

## Main statements

* `mem_keys_renamesOf` — the names that are renamed.
-/

namespace SizeAtlas.SourceMap

open Script

/-! ## Scopes -/

/-- The scope of what is inside `n`, which stands in `scope`. -/
def innerScope (scope : String) (n : Node) : String :=
  n.childScope scope n.mappableName? (n.children .each)

/-- The scope of what is inside `n` in the sources, where `n` stands in `scope`. -/
def sourceScope (m : SourceMap) (scope : String) (n : Node) : String :=
  n.childScope scope (n.mappableName?.map fun minified => (mappedName? m n).getD minified)
    (n.children .each)

/-- The search adds the renaming of a node and goes on to its children. -/
theorem collectRenames_eq (m : SourceMap) (scope source : String) (n : Node) (r : Renames) :
    collectRenames m scope source n r =
      (n.children .each).foldl
        (fun r c => collectRenames m (innerScope scope n) (sourceScope m source n) c r)
        (r.insertAll (rename? scope source n (mappedName? m n)).toList) := by
  rw [collectRenames]
  have fold : ∀ s t r', (n.children .each).attach.foldl
      (fun r c => collectRenames m s t c.1 r) r' =
        (n.children .each).foldl (fun r c => collectRenames m s t c r) r' := fun s t r' =>
    List.foldl_attach (f := fun r c => collectRenames m s t c r)
  simp only [fold]
  unfold innerScope sourceScope Node.childScope
  cases n.mappableName? <;> rfl

/-! ## Where the search comes to -/

/-- The search over the nodes `level` in `scope` comes to `n` in `scope'` through
nodes with the property `P`. -/
inductive Comes (P : Node → Prop) :
    (scope : String) → (level : List Node) → (scope' : String) → Node → Prop
  | here {scope : String} {level : List Node} {n : Node} (mem : n ∈ level) :
      Comes P scope level scope n
  | inside {scope scope' : String} {level : List Node} {a n : Node} (mem : a ∈ level)
      (holds : P a) (below : Comes P (innerScope scope a) (a.children .each) scope' n) :
      Comes P scope level scope' n

/-- A map gives another name for what `n` declares as `minified`. -/
structure Renamed (m : SourceMap) (n : Node) (minified : String) : Prop where
  declares : declares n = true
  known : n.mappableName? = some minified
  mapped : ∃ source, mappedName? m n = some source ∧ minified ≠ source

/-- Among the nodes `level` in `scope` and all inside them, `name` is renamed. -/
def RenamedIn (m : SourceMap) (scope : String) (level : List Node) (name : String) : Prop :=
  ∃ scope' n minified, Comes (fun _ => True) scope level scope' n ∧ Renamed m n minified ∧
    name = scope' ++ minified

/-- By `n`, which stands in `scope`, and all inside it, `name` is renamed. -/
def RenamedAt (m : SourceMap) (scope : String) (n : Node) (name : String) : Prop :=
  (∃ minified, Renamed m n minified ∧ name = scope ++ minified) ∨
    RenamedIn m (innerScope scope n) (n.children .each) name

variable {m : SourceMap} {scope source name : String} {level : List Node} {n : Node}

theorem renamedIn_iff : RenamedIn m scope level name ↔ ∃ n ∈ level, RenamedAt m scope n name := by
  constructor
  · rintro ⟨scope', n, minified, comes, renamed, eq⟩
    cases comes with
    | here mem => exact ⟨n, mem, Or.inl ⟨minified, renamed, eq⟩⟩
    | inside mem _ below => exact ⟨_, mem, Or.inr ⟨scope', n, minified, below, renamed, eq⟩⟩
  · rintro ⟨a, mem, ⟨minified, renamed, eq⟩ | ⟨scope', n, minified, below, renamed, eq⟩⟩
    · exact ⟨scope, a, minified, .here mem, renamed, eq⟩
    · exact ⟨scope', n, minified, .inside mem trivial below, renamed, eq⟩

/-- Among more nodes the search comes to more. -/
theorem Comes.mono {P : Node → Prop} {scope' : String} {level' : List Node}
    (h : Comes P scope level scope' n) (sub : level ⊆ level') : Comes P scope level' scope' n := by
  cases h with
  | here mem => exact .here (sub mem)
  | inside mem holds below => exact .inside (sub mem) holds below

/-! ## The names -/

/-- A node adds a renaming if the map gives another name for what it declares. -/
theorem mem_map_rename? :
    name ∈ (rename? scope source n (mappedName? m n)).toList.map Prod.fst ↔
      ∃ minified, Renamed m n minified ∧ name = scope ++ minified := by
  unfold rename?
  constructor
  · intro h
    split at h
    · rename_i minified source' hminified hmapped
      split at h
      · rename_i declared
        simp only [Option.toList_some, List.map_cons, List.map_nil, List.mem_singleton] at h
        exact ⟨minified, ⟨declared.1, hminified, source', hmapped, declared.2⟩, h⟩
      · simp at h
    · simp at h
  · rintro ⟨minified, ⟨declared, hminified, source', hmapped, ne⟩, rfl⟩
    simp [hminified, hmapped, declared, ne]

theorem mem_keys_foldl_collectRenames
    (each : ∀ n ∈ level, ∀ r, name ∈ (collectRenames m scope source n r).keys ↔
      name ∈ r.keys ∨ RenamedAt m scope n name) (r : Renames) :
    name ∈ (level.foldl (fun r n => collectRenames m scope source n r) r).keys ↔
      name ∈ r.keys ∨ RenamedIn m scope level name := by
  induction level generalizing r with
  | nil => simp [renamedIn_iff]
  | cons n level ih =>
    rw [List.foldl_cons, ih fun x hx => each x (by simp [hx]), each n (by simp), renamedIn_iff,
      renamedIn_iff]
    simp [or_assoc]

/-- What the search adds at a node and below it. -/
theorem mem_keys_collectRenames (m : SourceMap) (n : Node) (scope source : String) (r : Renames) :
    name ∈ (collectRenames m scope source n r).keys ↔
      name ∈ r.keys ∨ RenamedAt m scope n name := by
  induction n using Node.induction_children .each generalizing scope source r with
  | step n ih =>
    rw [collectRenames_eq, mem_keys_foldl_collectRenames fun c hc r => ih c hc _ _ r,
      Roster.mem_keys_insertAll, mem_map_rename?, or_assoc]
    rfl

/-- The names that are renamed in a script. -/
theorem mem_keys_renamesOf {body : List Node} :
    name ∈ (renamesOf m body).keys ↔ RenamedIn m "" body name := by
  rw [renamesOf, mem_keys_foldl_collectRenames fun n _ r => mem_keys_collectRenames m n _ _ r]
  simp

end SizeAtlas.SourceMap
