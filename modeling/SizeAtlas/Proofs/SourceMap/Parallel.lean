import SizeAtlas.Proofs.Entering
import SizeAtlas.Proofs.Script.Lineage
import SizeAtlas.Proofs.SourceMap.Ownership

/-!
# The two names of a renaming

Each renaming comes from a declaration and the named nodes above it.  Its two qualified
names go through the same nodes, with the same delimiters after them.  In the minified name
each node stands under the name that the script has for it.  In the other one a node above
stands under the name that the map gives for it, or else keeps the minified one; only the
declaration itself must have another name.

## Main definitions

* `Link` — a node with its two names.
* `Link.qualified` — the qualified name along links.
* `Chain` — a declaration that is renamed, with the named nodes above it.

## Main statements

* `mem_insertions_iff` — which renamings are entered, with the nodes above each.
* `exists_chain_iff` — a chain has the qualified names of the renaming that is entered for it.
* `renames_along_chains` — the two names of each renaming are those of a chain.
-/

namespace SizeAtlas.SourceMap

open Script

variable {m : SourceMap} {body level above : List Node} {n : Node} {scope source name : String}

/-! ## What a map gives -/

/-- The map has an entry with the name that it gives. -/
theorem exists_entry_of_lookup {offset reach : Nat} (found : m.lookup offset reach = some name) :
    ∃ e ∈ m.entries, e.name = name := by
  obtain ⟨e, nearest, named⟩ := Option.map_eq_some_iff.1 found
  exact ⟨e, (nearest_of_nearest? nearest).mem, named⟩

theorem exists_entry_of_mappedName? (mapped : mappedName? m n = some name) :
    ∃ e ∈ m.entries, e.name = name := by
  rcases Option.or_eq_some_iff.1 mapped with declared | ⟨-, near⟩
  · obtain ⟨offset, -, found⟩ := Option.bind_eq_some_iff.1 declared
    exact exists_entry_of_lookup found
  · exact exists_entry_of_lookup near

/-- The name under which a node stands in the sources. -/
def sourceName? (m : SourceMap) (n : Node) : Option String :=
  n.mappableName?.map fun minified => (mappedName? m n).getD minified

/-! ## The nodes above a renaming -/

/-- The renamings that are entered are those of the declarations below `level`, each in the
two scopes that the nodes above it make. -/
theorem mem_insertions_iff {i : Insertion} :
    i ∈ level.flatMap (insertions m scope source) ↔
      ∃ above, Lineage .each level above i.node ∧ i.Mapped m ∧
        i.scope = scopeAlong .each Node.mappableName? scope above ∧
        i.sourceScope = scopeAlong .each (sourceName? m) source above := by
  constructor
  · have each : ∀ n : Node, ∀ scope source, i ∈ insertions m scope source n →
        ∃ above, Lineage .each [n] above i.node ∧ i.Mapped m ∧
          i.scope = scopeAlong .each Node.mappableName? scope above ∧
          i.sourceScope = scopeAlong .each (sourceName? m) source above := by
      intro n
      induction n using Node.induction_children .each with
      | step n ih =>
        intro scope source mem
        rw [insertions_eq, List.mem_append, List.mem_flatMap] at mem
        rcases mem with here | ⟨c, hc, below⟩
        · obtain ⟨mapped, rfl, rfl, rfl⟩ := insertion?_eq_some_iff.1 (Option.mem_toList.1 here)
          exact ⟨[], .here (List.mem_singleton_self _), mapped, rfl, rfl⟩
        · obtain ⟨above, lineage, rest⟩ := ih c hc _ _ below
          have inside : Lineage .each (n.children .each) above i.node :=
            lineage.mono (by simpa using hc)
          exact ⟨n :: above, .inside (List.mem_singleton_self n) inside, rest⟩
    intro mem
    obtain ⟨n, hn, here⟩ := List.mem_flatMap.1 mem
    obtain ⟨above, lineage, rest⟩ := each n scope source here
    exact ⟨above, lineage.mono (by simpa using hn), rest⟩
  · rintro ⟨above, lineage, mapped, minified, sources⟩
    generalize place : i.node = n at lineage
    induction lineage generalizing scope source with
    | here mem =>
      refine List.mem_flatMap.2 ⟨_, mem, ?_⟩
      rw [insertions_eq]
      refine List.mem_append_left _ (Option.mem_toList.2 ?_)
      exact insertion?_eq_some_iff.2 ⟨mapped, place, minified, sources⟩
    | inside mem below ih =>
      refine List.mem_flatMap.2 ⟨_, mem, ?_⟩
      rw [insertions_eq]
      exact List.mem_append_right _ (ih minified sources place)

/-! ## Chains -/

/-- A node with its name in the script and its name in the sources. -/
structure Link where
  node : Node
  minified : String
  source : String

namespace Link

/-- What follows the name of a node in the names of what is inside it. -/
def delimiter (l : Link) : String := l.node.delimiter (l.node.children .each)

/-- The qualified name of `last` behind `outer`, in which `name` tells what each is called. -/
def qualified (name : Link → String) (outer : List Link) (last : Link) : String :=
  String.join (outer.map fun l => name l ++ l.delimiter) ++ name last

/-- A node that has a name in the script. -/
def of? (m : SourceMap) (n : Node) : Option Link :=
  n.mappableName?.map fun minified => ⟨n, minified, (mappedName? m n).getD minified⟩

theorem of?_eq_some_iff {l : Link} :
    of? m n = some l ↔ l.node = n ∧ n.mappableName? = some l.minified ∧
      l.source = (mappedName? m n).getD l.minified := by
  unfold of?
  rw [Option.map_eq_some_iff]
  constructor
  · rintro ⟨minified, known, rfl⟩
    exact ⟨rfl, known, rfl⟩
  · rintro ⟨rfl, known, source⟩
    exact ⟨l.minified, known, source ▸ rfl⟩

end Link

/-- `last` is a declaration in the script, below the nodes of `outer` and others that have no
name there.  The map gives another name for it, and for those above their names in the
sources. -/
structure Chain (m : SourceMap) (body : List Node) (outer : List Link) (last : Link) : Prop where
  /-- The links lie below each other, and nodes without a name are passed over. -/
  nested : ∃ above, Lineage .each body above last.node ∧
    outer.map Link.node = above.filter (·.mappableName?.isSome)
  known : ∀ l ∈ outer ++ [last], l.node.mappableName? = some l.minified
  /-- A node above has the name that the map gives for it, or keeps its own. -/
  passed : ∀ l ∈ outer, mappedName? m l.node = some l.source ∧ (∃ e ∈ m.entries, e.name = l.source) ∨
    mappedName? m l.node = none ∧ l.source = l.minified
  mapped : mappedName? m last.node = some last.source ∧ ∃ e ∈ m.entries, e.name = last.source
  renamed : last.source ≠ last.minified
  declares : (∃ id body, last.node.form = .functionDeclaration id body) ∨
    ∃ id init, last.node.form = .variableDeclarator id init

/-- What declares something and has a name is a function or a single variable. -/
theorem form_of_declares (declared : declares n = true) (known : n.mappableName? = some name) :
    (∃ id body, n.form = .functionDeclaration id body) ∨
      ∃ id init, n.form = .variableDeclarator id init := by
  unfold declares at declared
  unfold Node.mappableName? at known
  split at declared <;> simp_all

theorem declares_of_form (form : (∃ id body, n.form = .functionDeclaration id body) ∨
    ∃ id init, n.form = .variableDeclarator id init) : declares n = true := by
  rcases form with ⟨id, body, form⟩ | ⟨id, init, form⟩ <;> simp [declares, form]

/-- A scope goes through the nodes above that have a name. -/
theorem scopeAlong_eq_join {name? : Node → Option String} (name : Link → String)
    (same : ∀ a, name? a = (Link.of? m a).map name) (above : List Node) :
    scopeAlong .each name? "" above =
      String.join ((above.filterMap (Link.of? m)).map fun l => name l ++ l.delimiter) := by
  have each : ∀ a, qualifier .each name? a =
      (Link.of? m a).map fun l => name l ++ l.delimiter := by
    intro a
    unfold qualifier
    rw [same]
    cases found : Link.of? m a with
    | none => rfl
    | some l =>
      obtain ⟨rfl, -, -⟩ := Link.of?_eq_some_iff.1 found
      rfl
  rw [scopeAlong_eq, String.empty_append, List.map_filterMap]
  congr 1
  exact List.filterMap_congr fun a _ => each a

theorem mappableName?_eq (m : SourceMap) (n : Node) :
    n.mappableName? = (Link.of? m n).map Link.minified := by
  simp [Link.of?, Function.comp_def]

theorem sourceName?_eq (m : SourceMap) (n : Node) :
    sourceName? m n = (Link.of? m n).map Link.source := by
  simp [Link.of?, sourceName?, Function.comp_def]

/-- The nodes above the last one of a chain make up the others. -/
theorem Chain.outer_eq {outer : List Link} {last : Link} (h : Chain m body outer last)
    (named : outer.map Link.node = above.filter (·.mappableName?.isSome)) :
    outer = above.filterMap (Link.of? m) := by
  have own : ∀ l ∈ outer, Link.of? m l.node = some l := by
    intro l mem
    refine Link.of?_eq_some_iff.2 ⟨rfl, h.known l (List.mem_append_left _ mem), ?_⟩
    rcases h.passed l mem with ⟨mapped, -⟩ | ⟨mapped, source⟩
    · rw [mapped, Option.getD_some]
    · rw [mapped, Option.getD_none, source]
  have unnamed : above.filterMap (Link.of? m) =
      (above.filter (·.mappableName?.isSome)).filterMap (Link.of? m) := by
    rw [List.filterMap_filter]
    refine List.filterMap_congr fun a _ => ?_
    cases known : a.mappableName? <;> simp [Link.of?, known]
  rw [unnamed, ← named, List.filterMap_map]
  symm
  calc outer.filterMap (Link.of? m ∘ Link.node)
      = outer.filterMap some := List.filterMap_congr own
    _ = outer := List.filterMap_some

/-- A declaration that is renamed ends a chain, with the nodes above it that have a name. -/
theorem Insertion.Mapped.chain {i : Insertion} (h : i.Mapped m)
    (lineage : Lineage .each body above i.node) :
    Chain m body (above.filterMap (Link.of? m)) ⟨i.node, i.minified, i.source⟩ where
  nested := by
    have node : ∀ a, (Link.of? m a).map Link.node =
        Option.guard (fun a => a.mappableName?.isSome) a := by
      intro a
      cases known : a.mappableName? <;> simp [Link.of?, Option.guard, known]
    refine ⟨above, lineage, ?_⟩
    rw [List.map_filterMap, ← List.filterMap_eq_filter]
    exact List.filterMap_congr fun a _ => node a
  known l mem := by
    rcases List.mem_append.1 mem with outer | last
    · obtain ⟨a, -, found⟩ := List.mem_filterMap.1 outer
      obtain ⟨rfl, known, -⟩ := Link.of?_eq_some_iff.1 found
      exact known
    · obtain rfl := List.mem_singleton.1 last
      exact h.known
  passed l mem := by
    obtain ⟨a, -, found⟩ := List.mem_filterMap.1 mem
    obtain ⟨rfl, -, source⟩ := Link.of?_eq_some_iff.1 found
    cases mapped : mappedName? m l.node with
    | none => exact Or.inr ⟨rfl, by rw [source, mapped, Option.getD_none]⟩
    | some name =>
      rw [mapped, Option.getD_some] at source
      exact Or.inl ⟨congrArg some source.symm, source ▸ exists_entry_of_mappedName? mapped⟩
  mapped := ⟨h.mapped, exists_entry_of_mappedName? h.mapped⟩
  renamed := h.differs.symm
  declares := form_of_declares h.declares h.known

/-- **A chain for each renaming.**  What is entered for a declaration are its two qualified
names, and they go through the same nodes. -/
theorem exists_chain_iff {pair : String × String} :
    pair ∈ (insertionsOf m body).map Insertion.pair ↔
      ∃ outer last, Chain m body outer last ∧
        pair = (Link.qualified Link.minified outer last, Link.qualified Link.source outer last) := by
  constructor
  · intro mem
    obtain ⟨i, hi, rfl⟩ := List.mem_map.1 mem
    obtain ⟨above, lineage, mapped, minified, sources⟩ := mem_insertions_iff.1 hi
    rw [scopeAlong_eq_join Link.minified (mappableName?_eq m)] at minified
    rw [scopeAlong_eq_join Link.source (sourceName?_eq m)] at sources
    refine ⟨above.filterMap (Link.of? m), ⟨i.node, i.minified, i.source⟩, mapped.chain lineage, ?_⟩
    rw [Insertion.pair, minified, sources]
    rfl
  · rintro ⟨outer, last, chain, rfl⟩
    obtain ⟨above, lineage, named⟩ := chain.nested
    refine List.mem_map.2 ⟨⟨last.node, scopeAlong .each Node.mappableName? "" above, last.minified,
      scopeAlong .each (sourceName? m) "" above, last.source⟩, ?_, ?_⟩
    · refine mem_insertions_iff.2 ⟨above, lineage, ⟨declares_of_form chain.declares, ?_,
        chain.mapped.1, chain.renamed.symm⟩, rfl, rfl⟩
      exact chain.known last (by simp)
    · rw [Insertion.pair, scopeAlong_eq_join Link.minified (mappableName?_eq m),
        scopeAlong_eq_join Link.source (sourceName?_eq m), ← chain.outer_eq named]
      rfl

/-- **The two names of a renaming go side by side.**  Every renaming of a script has the two
qualified names of a chain; for every chain the minified name is renamed; and without entries
in the map none is. -/
theorem renames_along_chains (m : SourceMap) (body : List Node) :
    (∀ pair ∈ (renamesOf m body).entries, ∃ outer last, Chain m body outer last ∧
      pair = (Link.qualified Link.minified outer last, Link.qualified Link.source outer last)) ∧
    (∀ outer last, Chain m body outer last →
      Link.qualified Link.minified outer last ∈ (renamesOf m body).keys) ∧
    (m.entries = #[] → renamesOf m body = ∅) := by
  refine ⟨fun pair mem => ?_, fun outer last chain => ?_, fun none => ?_⟩
  · rw [renamesOf_eq_ofList, Roster.mem_ofList_iff] at mem
    obtain ⟨before, after, entered, -⟩ := mem
    exact exists_chain_iff.1 (entered ▸ List.mem_append_right before List.mem_cons_self)
  · have entered := exists_chain_iff.2 ⟨outer, last, chain, rfl⟩
    rw [renamesOf_eq_ofList, Roster.ofList, Roster.mem_keys_insertAll]
    exact Or.inr (List.mem_map_of_mem entered)
  · have nothing : (insertionsOf m body).map Insertion.pair = [] := by
      rw [List.eq_nil_iff_forall_not_mem]
      intro pair entered
      obtain ⟨outer, last, chain, -⟩ := exists_chain_iff.1 entered
      obtain ⟨-, e, mem, -⟩ := chain.mapped
      simp [none] at mem
    rw [renamesOf_eq_ofList, nothing]
    rfl

/-- The tree of `function a(){var b=1;var c=2;}`. -/
def twoVariables : Node :=
  .mk 0 30 (.functionDeclaration (some ⟨"a", 9, 10⟩) (.mk 12 30 (.blockStatement
    [.mk 13 21 (.variableDeclaration [.mk 17 20 (.variableDeclarator (some ⟨"b", 17, 18⟩)
      (some (.mk 19 20 .literal)))]),
     .mk 21 29 (.variableDeclaration [.mk 25 28 (.variableDeclarator (some ⟨"c", 25, 26⟩)
      (some (.mk 27 28 .literal)))])])))

/-- The function and the first variable have other names in the sources. -/
def outerAndFirst : SourceMap where
  entries := #[⟨0, none, 0, 0, "outer"⟩, ⟨17, none, 0, 0, "first"⟩, ⟨25, none, 0, 0, "c"⟩]
  sorted := by decide

/-- No entry has a name. -/
def nothingNamed : SourceMap where
  entries := #[]
  sorted := by decide

/-- The variable stands inside the function under both names; the other one keeps its name. -/
theorem renames_along_chains_twoVariables :
    (renamesOf outerAndFirst [twoVariables]).entries =
      [("a", "outer"), ("a/b", "outer/first")] ∧
    ∃ outer last, Chain outerAndFirst [twoVariables] outer last ∧
      Link.qualified Link.minified outer last = "a/b" ∧
      Link.qualified Link.source outer last = "outer/first" ∧
      "a/b" ∈ (renamesOf outerAndFirst [twoVariables]).keys ∧
      renamesOf nothingNamed [twoVariables] = ∅ := by
  have entries : (renamesOf outerAndFirst [twoVariables]).entries =
      [("a", "outer"), ("a/b", "outer/first")] := by cbv
  obtain ⟨chains, keys, -⟩ := renames_along_chains outerAndFirst [twoVariables]
  obtain ⟨outer, last, chain, names⟩ := chains ("a/b", "outer/first") (by simp [entries])
  obtain ⟨minified, source⟩ := Prod.mk.inj names
  exact ⟨entries, outer, last, chain, minified.symm, source.symm, minified ▸ keys outer last chain,
    (renames_along_chains nothingNamed [twoVariables]).2.2 rfl⟩

end SizeAtlas.SourceMap
