import SizeAtlas.Proofs.Entering
import SizeAtlas.Proofs.Script.Refinement

/-!
# Which symbols of a script are lost

A symbol takes the place of an earlier one of the same qualified name, whatever node that
one is of.  The names of nodes in different scopes may well be the same, since a function
without a name opens no scope, so a script can lose symbols; then their bytes are counted
for the node around them, or as unclassified.  No symbol is lost exactly if no name repeats
among all that are made.

## Main definitions

* `Sizing.made` — the symbols that a visit makes, in the order in which they are entered.
* `Sizing.Makes` — what a part of the walk enters.
* `Sizing.Puts`, `Sizing.Fresh` — which symbols are put into which tables, and that all
  find their names free there.

## Main statements

* `Sizing.makes_visit` — a visit enters what it makes.
* `Sizing.fresh_iff` — all names are free exactly if none repeats.
* `Sizing.made_congr` — without a name twice, each node keeps what no symbol inside it has.
* `Sizing.nothing_lost_tfae` — when a script loses symbols.
-/

namespace SizeAtlas.Script

/-! ## Bytes and numbers of symbols -/

/-- How many of the symbols are numbered blocks of code. -/
def numbered (symbols : List Symbol) : Nat := symbols.countP (·.description.isSome)

/-- The bytes of the symbols that are left when all are entered into one table. -/
def bytesEntered (symbols : List Symbol) : Nat :=
  SymbolTable.total (Roster.ofList symbols)

/-- The bytes of all the symbols together. -/
def bytesTogether (symbols : List Symbol) : Nat := (symbols.map Symbol.size).sum

theorem numbered_append (xs ys : List Symbol) :
    numbered (xs ++ ys) = numbered xs + numbered ys :=
  List.countP_append

theorem bytesEntered_of_nodup {symbols : List Symbol} (nodup : (symbols.map Symbol.name).Nodup) :
    bytesEntered symbols = bytesTogether symbols := by
  rw [bytesEntered, SymbolTable.total_eq, Roster.entries_ofList_of_nodup nodup, bytesTogether]

/-- The symbols of several parts in turn, where `part s blocks` are those of `s` if there
are `blocks` numbered blocks before it. -/
def inTurn {α : Type} (part : α → Nat → List Symbol) : List α → Nat → List Symbol
  | [], _ => []
  | s :: rest, blocks => part s blocks ++ inTurn part rest (blocks + numbered (part s blocks))

theorem inTurn_map {α β : Type} (part : β → Nat → List Symbol) (f : α → β) (l : List α)
    (blocks : Nat) : inTurn part (l.map f) blocks = inTurn (fun s => part (f s)) l blocks := by
  induction l generalizing blocks with
  | nil => rfl
  | cons s l ih => rw [List.map_cons, inTurn, ih, inTurn]

theorem inTurn_attach {α : Type} (part : α → Nat → List Symbol) (l : List α) (blocks : Nat) :
    inTurn (fun s => part s.1) l.attach blocks = inTurn part l blocks := by
  rw [← inTurn_map part Subtype.val, List.attach_map_subtype_val]

namespace Sizing

/-! ## The symbols that are made -/

/-- The symbols that are made for `n` and all inside it, in the order in which they are
entered.  `n` has `share` bytes and stands in `scope`, there are `blocks` numbered blocks
before it, and `bytes` tells how many of its bytes the symbols inside it take. -/
def made (z : Sizing) (bytes : List Symbol → Nat) (scope : String) (n : Node)
    (share blocks : Nat) : List Symbol :=
  let within :=
    if z.expands n then
      inTurn (fun s => made z bytes (z.innerScope scope n) s.1.1 s.1.2)
        (n.shares .collapsed).attach blocks
    else []
  within ++ (z.symbol? scope n (n.treatment z.splits) (share - bytes within)
    (blocks + numbered within)).toList
termination_by n
decreasing_by
  exact Node.sizeOf_lt_of_mem_children (Node.mem_children_of_mem_shares s.2)

variable (z : Sizing) (bytes : List Symbol → Nat) (scope : String)

/-- The symbols that are made for `nodes`, each with its share, and for all inside them. -/
def madeList (nodes : List (Node × Nat)) (blocks : Nat) : List Symbol :=
  inTurn (fun s => z.made bytes scope s.1 s.2) nodes blocks

/-- The symbols that are made inside `n`. -/
def madeInside (n : Node) (blocks : Nat) : List Symbol :=
  if z.expands n then z.madeList bytes (z.innerScope scope n) (n.shares .collapsed) blocks else []

theorem madeInside_of_expands {n : Node} (expands : z.expands n = true) (blocks : Nat) :
    z.madeInside bytes scope n blocks =
      z.madeList bytes (z.innerScope scope n) (n.shares .collapsed) blocks :=
  if_pos expands

theorem madeInside_of_not_expands {n : Node} (whole : ¬z.expands n = true) (blocks : Nat) :
    z.madeInside bytes scope n blocks = [] :=
  if_neg whole

/-- The symbols that are made for the statements of a script. -/
def madeAll (body : List Node) : List Symbol := z.madeList bytes "" (topLevel body) 0

/-- The symbol of a node comes after those inside it. -/
theorem made_eq (n : Node) (share blocks : Nat) :
    z.made bytes scope n share blocks =
      z.madeInside bytes scope n blocks ++
        (z.symbol? scope n (n.treatment z.splits)
          (share - bytes (z.madeInside bytes scope n blocks))
          (blocks + numbered (z.madeInside bytes scope n blocks))).toList := by
  have level := inTurn_attach (fun s => z.made bytes (z.innerScope scope n) s.1 s.2)
    (n.shares .collapsed) blocks
  rw [made, level]
  rfl

@[simp] theorem madeList_nil (blocks : Nat) : z.madeList bytes scope [] blocks = [] := rfl

theorem madeList_cons (s : Node × Nat) (nodes : List (Node × Nat)) (blocks : Nat) :
    z.madeList bytes scope (s :: nodes) blocks =
      z.made bytes scope s.1 s.2 blocks ++
        z.madeList bytes scope nodes (blocks + numbered (z.made bytes scope s.1 s.2 blocks)) :=
  rfl

/-! ## What the walk enters -/

/-- From `f` to `g` the walk enters `symbols`, some of which may be blocks of code with the
numbers that come next. -/
structure Makes (symbols : List Symbol) (f g : Found) : Prop where
  table : g.table = f.table.insertAll symbols
  blocks : g.blocks = f.blocks + numbered symbols

variable {z scope} {n : Node} {share : Nat} {level : List (Node × Nat)} {f g h : Found}
  {xs ys : List Symbol}

theorem Makes.refl (f : Found) : Makes [] f f := ⟨rfl, rfl⟩

theorem Makes.trans (first : Makes xs f g) (second : Makes ys g h) : Makes (xs ++ ys) f h where
  table := by rw [second.table, first.table, Roster.insertAll_append]
  blocks := by rw [second.blocks, first.blocks, numbered_append, Nat.add_assoc]

/-- What is kept for a node depends on the symbols inside it only through their bytes and
numbers. -/
theorem kept?_of_makes {inner : Found} (within : Makes xs { f with table := ∅ } inner) :
    z.kept? scope n share inner =
      z.symbol? scope n (n.treatment z.splits) (share - bytesEntered xs)
        (f.blocks + numbered xs) := by
  rw [kept?, within.table, within.blocks]
  rfl

/-- Settling a node enters the symbols inside it and its own. -/
theorem makes_settle {inner : Found} (within : Makes xs { f with table := ∅ } inner) :
    Makes (xs ++ (z.kept? scope n share inner).toList) f (z.settle scope n share f inner) := by
  have merged : f.table.extend inner.table = f.table.insertAll xs := by
    rw [within.table]
    exact Roster.extend_ofList f.table xs
  have blocks : inner.blocks = f.blocks + numbered xs := within.blocks
  cases kept : z.kept? scope n share inner with
  | none =>
    rw [settle_of_none z kept, Option.toList_none, List.append_nil]
    exact ⟨merged, blocks⟩
  | some s =>
    rw [settle_of_some z kept, Option.toList_some]
    refine ⟨?_, ?_⟩
    · rw [Roster.insertAll_append, ← merged]
      rfl
    · rw [numbered_append, ← Nat.add_assoc, ← blocks, enter]
      by_cases described : s.description.isSome = true
      · simp [numbered, described]
      · simp [numbered, described]

theorem makes_visitList
    (each : ∀ s ∈ level, ∀ f,
      Makes (z.made bytesEntered scope s.1 s.2 f.blocks) f (z.visit scope s.1 s.2 f)) (f : Found) :
    Makes (z.madeList bytesEntered scope level f.blocks) f (z.visitList scope level f) := by
  induction level generalizing f with
  | nil => exact .refl f
  | cons s level ih =>
    have first := each s (by simp) f
    have rest := ih (fun x hx => each x (by simp [hx])) (z.visit scope s.1 s.2 f)
    rw [first.blocks] at rest
    rw [visitList_cons, madeList_cons]
    exact first.trans rest

theorem makes_inside_of_each
    (each : ∀ s ∈ n.shares .collapsed, ∀ scope f,
      Makes (z.made bytesEntered scope s.1 s.2 f.blocks) f (z.visit scope s.1 s.2 f))
    (scope : String) (f : Found) :
    Makes (z.madeInside bytesEntered scope n f.blocks) { f with table := ∅ } (z.inside scope n f) := by
  by_cases expands : z.expands n = true
  · rw [inside, if_pos expands, z.madeInside_of_expands _ _ expands]
    exact makes_visitList (fun s hs => each s hs _) { f with table := ∅ }
  · rw [inside, if_neg expands, z.madeInside_of_not_expands _ _ expands]
    exact .refl _

/-- **A visit enters the symbols that it makes.**  The induction is along the walk. -/
theorem makes_visit (n : Node) (scope : String) (share : Nat) (f : Found) :
    Makes (z.made bytesEntered scope n share f.blocks) f (z.visit scope n share f) := by
  induction n using Node.induction_inside generalizing scope share f with
  | step n ih =>
    have within := makes_inside_of_each (fun s hs scope => ih s hs scope s.2) scope f
    rw [visit_eq, made_eq, ← kept?_of_makes within]
    exact makes_settle within

theorem makes_inside (n : Node) (scope : String) (f : Found) :
    Makes (z.madeInside bytesEntered scope n f.blocks) { f with table := ∅ } (z.inside scope n f) :=
  makes_inside_of_each (fun s _ scope f => makes_visit s.1 scope s.2 f) scope f

theorem makes_level (level : List (Node × Nat)) (scope : String) (f : Found) :
    Makes (z.madeList bytesEntered scope level f.blocks) f (z.visitList scope level f) :=
  makes_visitList (fun s _ f => makes_visit s.1 scope s.2 f) f

/-! ## Names that are free -/

/-- The walk over `level` in `scope` from `f` puts `symbols` into `table`: those inside a
node into the table of the nodes before it, and then its own. -/
inductive Puts (z : Sizing) :
    (scope : String) → (level : List (Node × Nat)) → Found → (table : SymbolTable) →
      (symbols : List Symbol) → Prop
  | merge {scope : String} {n : Node} {share : Nat} {level : List (Node × Nat)} {f : Found} :
    Puts z scope ((n, share) :: level) f f.table (z.inside scope n f).table.entries
  | enter {scope : String} {n : Node} {share : Nat} {level : List (Node × Nat)} {f : Found}
      {s : Symbol} (kept : z.kept? scope n share (z.inside scope n f) = some s) :
    Puts z scope ((n, share) :: level) f (f.table.extend (z.inside scope n f).table) [s]
  | inside {scope : String} {n : Node} {share : Nat} {level : List (Node × Nat)} {f : Found}
      {table : SymbolTable} {symbols : List Symbol} (expands : z.expands n = true)
      (below : Puts z (z.innerScope scope n) (n.shares .collapsed) { f with table := ∅ } table
        symbols) :
    Puts z scope ((n, share) :: level) f table symbols
  | later {scope : String} {n : Node} {share : Nat} {level : List (Node × Nat)} {f : Found}
      {table : SymbolTable} {symbols : List Symbol}
      (rest : Puts z scope level (z.visit scope n share f) table symbols) :
    Puts z scope ((n, share) :: level) f table symbols

/-- Whatever the walk over `level` in `scope` from `f` puts into a table, there is no symbol
of that name in the table yet. -/
def Fresh (z : Sizing) (scope : String) (level : List (Node × Nat)) (f : Found) : Prop :=
  ∀ table symbols, z.Puts scope level f table symbols → ∀ s ∈ symbols, s.name ∉ table.keys

theorem fresh_nil (z : Sizing) (scope : String) (f : Found) : z.Fresh scope [] f := by
  intro table symbols puts
  cases puts

/-- The symbols inside `n` and its own symbol find their names free. -/
structure FreshAt (z : Sizing) (scope : String) (n : Node) (share : Nat) (f : Found) : Prop where
  inside : z.expands n = true →
    z.Fresh (z.innerScope scope n) (n.shares .collapsed) { f with table := ∅ }
  merged : ∀ s ∈ (z.inside scope n f).table.entries, s.name ∉ f.table.keys
  entered : ∀ s, z.kept? scope n share (z.inside scope n f) = some s →
    s.name ∉ (f.table.extend (z.inside scope n f).table).keys

theorem fresh_cons_iff :
    z.Fresh scope ((n, share) :: level) f ↔
      z.FreshAt scope n share f ∧ z.Fresh scope level (z.visit scope n share f) := by
  constructor
  · intro fresh
    refine ⟨⟨?_, ?_, ?_⟩, ?_⟩
    · intro expands table symbols below
      exact fresh table symbols (.inside expands below)
    · exact fresh _ _ .merge
    · intro s kept
      exact fresh _ _ (.enter kept) s (List.mem_singleton_self s)
    · intro table symbols rest
      exact fresh table symbols (.later rest)
  · rintro ⟨here, rest⟩ table symbols puts
    cases puts with
    | merge => exact here.merged
    | enter kept =>
      intro s hs
      rw [List.mem_singleton.1 hs]
      exact here.entered _ kept
    | inside expands below => exact here.inside expands table symbols below
    | later later => exact rest table symbols later

theorem mem_keys_of_makes (makes : Makes xs f g) {name : String} :
    name ∈ g.table.keys ↔ name ∈ f.table.keys ∨ name ∈ xs.map Symbol.name := by
  rw [makes.table, Roster.mem_keys_insertAll]

/-- A node finds its names free if they repeat neither one that is there nor each other. -/
theorem freshAt_iff (within : Makes xs { f with table := ∅ } (z.inside scope n f))
    (inside : (z.expands n = true →
      z.Fresh (z.innerScope scope n) (n.shares .collapsed) { f with table := ∅ }) ↔
        (xs.map Symbol.name).Nodup) :
    z.FreshAt scope n share f ↔
      (f.table.keys ++ (xs ++ (z.kept? scope n share (z.inside scope n f)).toList).map
        Symbol.name).Nodup := by
  have keys : ∀ name, name ∈ (z.inside scope n f).table.keys ↔ name ∈ xs.map Symbol.name := by
    intro name
    rw [mem_keys_of_makes within, Roster.keys_empty]
    simp
  have merged : (∀ s ∈ (z.inside scope n f).table.entries, s.name ∉ f.table.keys) ↔
      List.Disjoint f.table.keys (xs.map Symbol.name) := by
    rw [List.disjoint_right]
    simp only [← keys, Roster.mem_keys, forall_exists_index, and_imp, forall_apply_eq_imp_iff₂]
  have entered : (∀ s, z.kept? scope n share (z.inside scope n f) = some s →
      s.name ∉ (f.table.extend (z.inside scope n f).table).keys) ↔
      List.Disjoint f.table.keys
        ((z.kept? scope n share (z.inside scope n f)).toList.map Symbol.name) ∧
      List.Disjoint (xs.map Symbol.name)
        ((z.kept? scope n share (z.inside scope n f)).toList.map Symbol.name) := by
    simp only [Roster.mem_keys_extend, keys, List.disjoint_right]
    cases z.kept? scope n share (z.inside scope n f) with
    | none => simp
    | some s => simp
  have own : ((z.kept? scope n share (z.inside scope n f)).toList.map Symbol.name).Nodup := by
    cases z.kept? scope n share (z.inside scope n f) with
    | none => exact .nil
    | some s => exact List.nodup_singleton _
  have old : f.table.keys.Nodup := f.table.nodup
  have parts : z.FreshAt scope n share f ↔ _ ∧ _ ∧ _ :=
    ⟨fun fresh => ⟨fresh.inside, fresh.merged, fresh.entered⟩, fun h => ⟨h.1, h.2.1, h.2.2⟩⟩
  rw [parts, inside, merged, entered, List.map_append, List.nodup_append', List.nodup_append',
    List.disjoint_append_right]
  tauto

theorem fresh_level_iff
    (each : ∀ s ∈ level, ∀ f, z.FreshAt scope s.1 s.2 f ↔
      (f.table.keys ++ (z.made bytesEntered scope s.1 s.2 f.blocks).map Symbol.name).Nodup)
    (f : Found) :
    z.Fresh scope level f ↔
      (f.table.keys ++ (z.madeList bytesEntered scope level f.blocks).map Symbol.name).Nodup := by
  induction level generalizing f with
  | nil =>
    have old : f.table.keys.Nodup := f.table.nodup
    simpa [old] using fresh_nil z scope f
  | cons s level ih =>
    have visit := makes_visit (z := z) s.1 scope s.2 f
    rw [← Prod.mk.eta (p := s), fresh_cons_iff, each s (by simp),
      ih (fun x hx => each x (by simp [hx])), visit.blocks, madeList_cons, List.map_append,
      ← List.append_assoc]
    constructor
    · rintro ⟨first, rest⟩
      rwa [visit.table, Roster.keys_insertAll_of_nodup first] at rest
    · intro nodup
      have first := nodup.sublist (List.sublist_append_left _ _)
      rw [visit.table, Roster.keys_insertAll_of_nodup first]
      exact ⟨first, nodup⟩

/-- The names of a node and of all inside it are free exactly if none of them repeats one
that is there or another one of them.  The induction is along the walk. -/
theorem freshAt_iff_nodup (n : Node) (scope : String) (share : Nat) (f : Found) :
    z.FreshAt scope n share f ↔
      (f.table.keys ++ (z.made bytesEntered scope n share f.blocks).map Symbol.name).Nodup := by
  induction n using Node.induction_inside generalizing scope share f with
  | step n ih =>
    have within := makes_inside (z := z) n scope f
    rw [made_eq, ← kept?_of_makes within]
    refine freshAt_iff within ?_
    by_cases expands : z.expands n = true
    · rw [z.madeInside_of_expands _ _ expands, fresh_level_iff fun s hs => ih s hs _ s.2]
      simp [expands]
    · simp [expands, z.madeInside_of_not_expands _ _ expands]

/-- **All names are free exactly if none repeats.** -/
theorem fresh_iff (level : List (Node × Nat)) (scope : String) (f : Found) :
    z.Fresh scope level f ↔
      (f.table.keys ++ (z.madeList bytesEntered scope level f.blocks).map Symbol.name).Nodup :=
  fresh_level_iff (fun s _ => freshAt_iff_nodup s.1 scope s.2) f

/-! ## Bytes that symbols take -/

section Congruence

variable {bytes bytes' : List Symbol → Nat}

theorem madeList_congr
    (each : ∀ s ∈ level, ∀ blocks, ((z.made bytes scope s.1 s.2 blocks).map Symbol.name).Nodup →
      z.made bytes scope s.1 s.2 blocks = z.made bytes' scope s.1 s.2 blocks) (blocks : Nat)
    (nodup : ((z.madeList bytes scope level blocks).map Symbol.name).Nodup) :
    z.madeList bytes scope level blocks = z.madeList bytes' scope level blocks := by
  induction level generalizing blocks with
  | nil => rfl
  | cons s level ih =>
    rw [madeList_cons, List.map_append, List.nodup_append'] at nodup
    have first := each s (by simp) blocks nodup.1
    rw [first] at nodup
    rw [madeList_cons, madeList_cons, first,
      ih (fun x hx => each x (by simp [hx])) _ nodup.2.1]

/-- Two ways to count the bytes of symbols that agree where no name repeats make the same
symbols for a node if no name repeats in it.  The induction is along the walk. -/
theorem made_congr (agree : ∀ xs, (xs.map Symbol.name).Nodup → bytes xs = bytes' xs) (n : Node)
    (scope : String) (share blocks : Nat)
    (nodup : ((z.made bytes scope n share blocks).map Symbol.name).Nodup) :
    z.made bytes scope n share blocks = z.made bytes' scope n share blocks := by
  induction n using Node.induction_inside generalizing scope share blocks with
  | step n ih =>
    rw [made_eq, List.map_append, List.nodup_append'] at nodup
    have within : z.madeInside bytes scope n blocks = z.madeInside bytes' scope n blocks := by
      by_cases expands : z.expands n = true
      · have level := nodup.1
        rw [z.madeInside_of_expands _ _ expands] at level
        rw [z.madeInside_of_expands _ _ expands, z.madeInside_of_expands _ _ expands]
        exact madeList_congr (fun s hs => ih s hs _ s.2) blocks level
      · rw [z.madeInside_of_not_expands _ _ expands, z.madeInside_of_not_expands _ _ expands]
    rw [made_eq, made_eq, agree _ nodup.1, within]

theorem madeAll_congr (agree : ∀ xs, (xs.map Symbol.name).Nodup → bytes xs = bytes' xs)
    {body : List Node} (nodup : ((z.madeAll bytes body).map Symbol.name).Nodup) :
    z.madeAll bytes body = z.madeAll bytes' body :=
  madeList_congr (fun s _ => made_congr agree s.1 "" s.2) 0 nodup

end Congruence

/-! ## Names of blocks -/

/-- The blocks of code among the symbols have the numbers from `blocks` on. -/
def NumbersFrom (blocks : Nat) (symbols : List Symbol) : Prop :=
  (symbols.filter (·.description.isSome)).map Symbol.name =
    (List.range' blocks (numbered symbols)).map blockName

theorem NumbersFrom.append {blocks : Nat} (first : NumbersFrom blocks xs)
    (second : NumbersFrom (blocks + numbered xs) ys) : NumbersFrom blocks (xs ++ ys) := by
  rw [NumbersFrom, List.filter_append, List.map_append, first, second, numbered_append,
    ← List.range'_append_1, List.map_append]

theorem numbersFrom_symbol? (z : Sizing) (scope : String) (n : Node) (size blocks : Nat) :
    NumbersFrom blocks (z.symbol? scope n (n.treatment z.splits) size blocks).toList := by
  have kept : z.symbol? scope n (n.treatment z.splits) size blocks =
      z.kept? scope n size ⟨∅, blocks, []⟩ := rfl
  rw [kept]
  rcases z.kept?_cases scope n size ⟨∅, blocks, []⟩ with
    ⟨s, kept, plain, -⟩ | ⟨s, kept, described, name, -⟩ | ⟨kept, -⟩
  · simp [NumbersFrom, numbered, kept, plain]
  · simp [NumbersFrom, numbered, kept, described, name]
  · simp [NumbersFrom, numbered, kept]

theorem numbersFrom_madeList {bytes : List Symbol → Nat}
    (each : ∀ s ∈ level, ∀ blocks, NumbersFrom blocks (z.made bytes scope s.1 s.2 blocks))
    (blocks : Nat) : NumbersFrom blocks (z.madeList bytes scope level blocks) := by
  induction level generalizing blocks with
  | nil => rfl
  | cons s level ih =>
    rw [madeList_cons]
    exact (each s (by simp) blocks).append (ih (fun x hx => each x (by simp [hx])) _)

theorem numbersFrom_made (bytes : List Symbol → Nat) (n : Node) (scope : String)
    (share blocks : Nat) : NumbersFrom blocks (z.made bytes scope n share blocks) := by
  induction n using Node.induction_inside generalizing scope share blocks with
  | step n ih =>
    rw [made_eq]
    refine NumbersFrom.append ?_ (numbersFrom_symbol? z scope n _ _)
    by_cases expands : z.expands n = true
    · rw [z.madeInside_of_expands _ _ expands]
      exact numbersFrom_madeList (fun s hs => ih s hs _ s.2) blocks
    · rw [z.madeInside_of_not_expands _ _ expands]
      rfl

/-- The symbols with names of their own have distinct ones, and none that a numbered block
of code has. -/
structure NamedApart (symbols : List Symbol) : Prop where
  distinct : ((symbols.filter (·.description.isNone)).map Symbol.name).Nodup
  unnumbered : ∀ s ∈ symbols, s.description = none → ∀ i < numbered symbols, s.name ≠ blockName i

/-- No name repeats among symbols whose blocks are numbered in turn exactly if the other
ones are named apart. -/
theorem nodup_iff_namedApart (numbers : NumbersFrom 0 xs) :
    (xs.map Symbol.name).Nodup ↔ NamedApart xs := by
  have parts : (xs.filter (·.description.isNone) ++ xs.filter (·.description.isSome)).Perm xs := by
    simpa using List.filter_append_perm (fun s : Symbol => s.description.isNone) xs
  have blocks : ((List.range' 0 (numbered xs)).map blockName).Nodup :=
    (List.nodup_map_iff blockName_injective).2 List.nodup_range'
  have apart : List.Disjoint ((xs.filter (·.description.isNone)).map Symbol.name)
      ((List.range' 0 (numbered xs)).map blockName) ↔
        ∀ s ∈ xs, s.description = none → ∀ i < numbered xs, s.name ≠ blockName i := by
    constructor
    · intro disjoint s hs plain i lt same
      refine disjoint (List.mem_map_of_mem (List.mem_filter.2 ⟨hs, by simp [plain]⟩)) ?_
      exact List.mem_map.2 ⟨i, List.mem_range'_1.2 ⟨Nat.zero_le i, by omega⟩, same.symm⟩
    · intro unnumbered name here numbered
      obtain ⟨s, hs, rfl⟩ := List.mem_map.1 here
      obtain ⟨i, hi, same⟩ := List.mem_map.1 numbered
      obtain ⟨hs, plain⟩ := List.mem_filter.1 hs
      have lt := (List.mem_range'_1.1 hi).2
      exact unnumbered s hs (Option.isNone_iff_eq_none.1 plain) i (by omega) same.symm
  rw [← (parts.map Symbol.name).nodup_iff, List.map_append, numbers, List.nodup_append', apart]
  exact ⟨fun h => ⟨h.1, h.2.2⟩, fun h => ⟨h.distinct, blocks, h.unnumbered⟩⟩

/-! ## Whole scripts -/

theorem makes_visitAll (z : Sizing) (body : List Node) :
    Makes (z.madeAll bytesEntered body) ⟨∅, 0, []⟩ (z.visitAll body) := by
  rw [visitAll_eq]
  exact makes_level (topLevel body) "" ⟨∅, 0, []⟩

theorem entries_run (z : Sizing) (body : List Node) :
    (z.run body).1.entries = (z.visitAll body).table.entries ++
      if 0 < z.source.size - (z.visitAll body).table.total then
        [z.leftover (z.visitAll body).table]
      else [] := by
  have table : (z.run body).1 = z.addRest (z.visitAll body).table := rfl
  rw [table, addRest_eq]
  by_cases rest : 0 < z.source.size - (z.visitAll body).table.total
  · rw [if_pos rest, if_pos rest, Roster.entries_insert_of_notMem (leftover_notMem z _)]
  · rw [if_neg rest, if_neg rest, List.append_nil]

/-- **When a script loses symbols.**  Of the symbols that are made for a script those are
listed that no later one has the name of, and the leftover replaces none.  None is lost
exactly if all symbols of nodes have distinct names other than those of numbered blocks;
that is if every symbol that is entered or merged finds its name free, or if as many symbols
are listed as are made, or if those are listed as they are made; and then each has the bytes
of its node without those of all symbols that are made inside it. -/
theorem nothing_lost_tfae (z : Sizing) (body : List Node) :
    (z.run body).1.entries = (z.visitAll body).table.entries ++
      (if 0 < z.source.size - (z.visitAll body).table.total then
        [z.leftover (z.visitAll body).table]
      else []) ∧
    (∀ s, s ∈ (z.visitAll body).table.entries ↔
      ∃ before after, z.madeAll bytesEntered body = before ++ s :: after ∧
        s.name ∉ after.map Symbol.name) ∧
    List.TFAE
      [NamedApart (z.madeAll bytesEntered body),
        z.Fresh "" (topLevel body) ⟨∅, 0, []⟩,
        (z.visitAll body).table.size = (z.madeAll bytesEntered body).length,
        (z.visitAll body).table.entries = z.madeAll bytesEntered body,
        (z.visitAll body).table.entries = z.madeAll bytesTogether body] := by
  have table : (z.visitAll body).table = Roster.ofList (z.madeAll bytesEntered body) :=
    (makes_visitAll z body).table
  have numbers : NumbersFrom 0 (z.madeAll bytesEntered body) :=
    numbersFrom_madeList (fun s _ => numbersFrom_made bytesEntered s.1 "" s.2) 0
  have agree : ∀ xs : List Symbol, (xs.map Symbol.name).Nodup →
      bytesEntered xs = bytesTogether xs := fun xs => bytesEntered_of_nodup
  have apart := nodup_iff_namedApart numbers
  have fresh := fresh_iff (z := z) (topLevel body) "" ⟨∅, 0, []⟩
  refine ⟨entries_run z body, ?_, ?_⟩
  · intro s
    rw [table]
    exact Roster.mem_ofList_iff
  · tfae_have 1 ↔ 2 := apart.symm.trans fresh.symm
    tfae_have 3 ↔ 1 := by
      rw [table, Roster.size_ofList_eq_iff]
      exact apart
    tfae_have 1 → 4 := by
      intro named
      rw [table]
      exact Roster.entries_ofList_of_nodup (apart.2 named)
    tfae_have 4 → 3 := congrArg List.length
    tfae_have 1 → 5 := by
      intro named
      have nodup := apart.2 named
      rw [table, Roster.entries_ofList_of_nodup nodup]
      exact madeAll_congr agree nodup
    tfae_have 5 → 1 := by
      intro same
      have nodup : ((z.madeAll bytesTogether body).map Symbol.name).Nodup :=
        same ▸ (z.visitAll body).table.nodup
      have made := madeAll_congr (fun xs h => (agree xs h).symm) nodup
      exact apart.1 (made ▸ nodup)
    tfae_finish

/-- The tree of `(function(){var a=1})();` behind `start` bytes. -/
def calledFunction (start : Nat) : Node :=
  .mk start (start + 24) (.expressionStatement (.mk start (start + 23) (.callExpression
    (.mk (start + 1) (start + 20) (.functionExpression none
      (.mk (start + 11) (start + 20) (.blockStatement
        [.mk (start + 12) (start + 19) (.variableDeclaration
          [.mk (start + 16) (start + 19) (.variableDeclarator
            (some ⟨"a", start + 16, start + 17⟩)
            (some (.mk (start + 18) (start + 19) .literal)))])]))))
    [])))

/-- Of two variables of different functions one is lost, and its bytes are left over. -/
theorem lost_calledFunctions :
    ∃ z : Sizing, z.source = "(function(){var a=1})();(function(){var a=2})();".toUTF8 ∧
      (z.madeAll bytesEntered [calledFunction 0, calledFunction 24]).map
          (fun s => (s.name, s.size)) =
        [("a", 7), ("code#0", 16), ("code#1", 1), ("a", 7), ("code#2", 16), ("code#3", 1)] ∧
      (z.run [calledFunction 0, calledFunction 24]).1.entries.map (fun s => (s.name, s.size)) =
        [("a", 7), ("code#0", 16), ("code#1", 1), ("code#2", 16), ("code#3", 1),
          ("unclassified", 7)] ∧
      ¬z.Fresh "" (topLevel [calledFunction 0, calledFunction 24]) ⟨∅, 0, []⟩ := by
  let z : Sizing :=
    ⟨"(function(){var a=1})();(function(){var a=2})();".toUTF8, fun n => 0 < n, []⟩
  have made : (z.madeAll bytesEntered [calledFunction 0, calledFunction 24]).map
      (fun s => (s.name, s.size)) =
        [("a", 7), ("code#0", 16), ("code#1", 1), ("a", 7), ("code#2", 16), ("code#3", 1)] := by
    cbv
  refine ⟨z, rfl, made, by cbv, ?_⟩
  have names := congrArg (List.map Prod.fst) made
  rw [List.map_map] at names
  rw [fresh_iff]
  intro nodup
  have distinct : ((z.madeAll bytesEntered [calledFunction 0, calledFunction 24]).map
      Symbol.name).Nodup := nodup
  rw [show Symbol.name = Prod.fst ∘ fun s : Symbol => (s.name, s.size) from rfl, names] at distinct
  exact absurd distinct (by decide)

end Sizing

end SizeAtlas.Script
