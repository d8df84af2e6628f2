import SizeAtlas.Proofs.FreeName
import SizeAtlas.Proofs.SymbolTable
import SizeAtlas.Script.Sizes

/-!
# The walk over a script

The walk in steps: at each node it first lists what is inside the node, if the node
is split, and then settles what the node keeps.  Every later fact about the walk
follows from these two steps and not from the definition of the walk.

## Main definitions

* `Sizing.visitList` — the walk over nodes in one scope.
* `Sizing.inside` — what is listed inside a node.
* `Sizing.kept?`, `Sizing.settle` — what becomes of the node itself.
* `Sizing.Reaches` — the nodes that the walk comes to, with their shares.
* `Sizing.MakesOnly` — a property of all symbols that the walk makes.
* `Sizing.leftover` — the symbol for what no symbol has.

## Main statements

* `Sizing.visit_eq` — a visit lists what is inside and settles the node.
* `Node.induction_children`, `Node.induction_inside` — induction below a node.
* `Sizing.forall_mem_visitAll` — what holds of all symbols that are made holds of the table.
-/

namespace SizeAtlas.Script

/-! ## Steps of the walk -/

namespace Sizing

variable (z : Sizing)

/-- Adds the symbols of `nodes`, each with its share, which stand in `scope`. -/
def visitList (scope : String) (nodes : List (Node × Nat)) (f : Found) : Found :=
  nodes.foldl (fun f s => z.visit scope s.1 s.2 f) f

/-- Whether the walk goes into `n`. -/
def expands (n : Node) : Bool := (n.treatment z.splits).expand

/-- The scope of what is inside `n`, which stands in `scope`. -/
def innerScope (scope : String) (n : Node) : String :=
  n.childScope scope (n.treatment z.splits).name (n.children .collapsed)

/-- What is listed inside `n`, which stands in `scope`, in a table of its own. -/
def inside (scope : String) (n : Node) (f : Found) : Found :=
  if z.expands n then
    z.visitList (z.innerScope scope n) (n.shares .collapsed) { f with table := ∅ }
  else { f with table := ∅ }

/-- The symbol of `n` for what remains of its share beside what is inside it. -/
def kept? (scope : String) (n : Node) (share : Nat) (inner : Found) : Option Symbol :=
  z.symbol? scope n (n.treatment z.splits) (share - inner.table.total) inner.blocks

/-- Merges what is inside `n` into the table of `f`, and lists the symbol of `n`. -/
def settle (scope : String) (n : Node) (share : Nat) (f inner : Found) : Found :=
  match z.kept? scope n share inner with
  | some s => z.enter n s { inner with table := f.table.extend inner.table }
  | none => { inner with table := f.table.extend inner.table }

/-- A visit lists what is inside a node and then settles the node. -/
theorem visit_eq (scope : String) (n : Node) (share : Nat) (f : Found) :
    z.visit scope n share f = z.settle scope n share f (z.inside scope n f) := by
  rw [visit]
  have fold : ∀ scope' g, (n.shares .collapsed).attach.foldl
      (fun f x => z.visit scope' x.1.1 x.1.2 f) g =
        z.visitList scope' (n.shares .collapsed) g := fun scope' g =>
    List.foldl_attach (f := fun f (s : Node × Nat) => z.visit scope' s.1 s.2 f)
  simp only [fold]
  rfl

theorem settle_of_some {scope : String} {n : Node} {share : Nat} {f inner : Found} {s : Symbol}
    (h : z.kept? scope n share inner = some s) :
    z.settle scope n share f inner =
      z.enter n s { inner with table := f.table.extend inner.table } := by
  rw [settle, h]

theorem settle_of_none {scope : String} {n : Node} {share : Nat} {f inner : Found}
    (h : z.kept? scope n share inner = none) :
    z.settle scope n share f inner = { inner with table := f.table.extend inner.table } := by
  rw [settle, h]

@[simp] theorem visitList_nil (scope : String) (f : Found) : z.visitList scope [] f = f := rfl

@[simp] theorem visitList_cons (scope : String) (s : Node × Nat) (nodes : List (Node × Nat))
    (f : Found) :
    z.visitList scope (s :: nodes) f = z.visitList scope nodes (z.visit scope s.1 s.2 f) := rfl

end Sizing

/-- The statements of a script, each with its bytes. -/
def topLevel (body : List Node) : List (Node × Nat) := body.map fun n => (n, n.length)

theorem Sizing.visitAll_eq (z : Sizing) (body : List Node) :
    z.visitAll body = z.visitList "" (topLevel body) ⟨∅, 0, []⟩ := by
  rw [visitAll, visitList, topLevel, List.foldl_map]

theorem Node.map_fst_shares (n : Node) (visit : Visit) :
    (n.shares visit).map Prod.fst = n.children visit := by
  rw [shares, List.map_map]
  exact List.zipIdx_map_fst 0 (n.children visit)

/-- Induction over the nodes below a node. -/
theorem Node.induction_children {P : Node → Prop} (visit : Visit)
    (step : ∀ n : Node, (∀ c ∈ n.children visit, P c) → P n) (n : Node) : P n := by
  induction n using WellFounded.induction (measure (sizeOf : Node → Nat)).wf with
  | _ n ih => exact step n fun c hc => ih c (sizeOf_lt_of_mem_children hc)

/-- Induction along the walk. -/
theorem Node.induction_inside {P : Node → Prop}
    (step : ∀ n : Node, (∀ s ∈ n.shares .collapsed, P s.1) → P n) (n : Node) : P n := by
  induction n using Node.induction_children .collapsed with
  | step n ih => exact step n fun s hs => ih s.1 (mem_children_of_mem_shares hs)

/-! ## Where the walk comes to -/

/-- The walk over the nodes `level` in `scope` comes to `n` in `scope'`, with
`share` bytes to give away. -/
inductive Sizing.Reaches (z : Sizing) :
    (scope : String) → (level : List (Node × Nat)) → (scope' : String) → Node →
      (share : Nat) → Prop
  | here {scope : String} {level : List (Node × Nat)} {n : Node} {share : Nat}
      (mem : (n, share) ∈ level) : Reaches z scope level scope n share
  | inside {scope scope' : String} {level : List (Node × Nat)} {m n : Node} {whole share : Nat}
      (mem : (m, whole) ∈ level) (expands : z.expands m = true)
      (below : Reaches z (z.innerScope scope m) (m.shares .collapsed) scope' n share) :
      Reaches z scope level scope' n share

/-! ## The symbol of a node -/

/-- The symbol of a node stands in its scope and has what remains of its share. -/
theorem Sizing.scope_and_size_of_kept? {z : Sizing} {scope : String} {n : Node} {share : Nat}
    {inner : Found} {s : Symbol} (h : z.kept? scope n share inner = some s) :
    s.scope = scope ∧ s.size = share - inner.table.total := by
  unfold kept? symbol? at h
  split at h
  · simp at h
  · split at h <;> split at h <;> simp at h
    all_goals rw [← h]; exact ⟨rfl, rfl⟩

/-! ## What holds of all symbols -/

namespace Sizing

variable {z : Sizing} {P : Symbol → Prop} {scope scope' : String} {level : List (Node × Nat)}
  {n : Node} {share : Nat}

/-- From some of the nodes of a level the walk comes to no more than from all of them. -/
theorem Reaches.mono {level' : List (Node × Nat)}
    (h : z.Reaches scope level' scope' n share) (sub : level' ⊆ level) :
    z.Reaches scope level scope' n share := by
  cases h with
  | here mem => exact .here (sub mem)
  | inside mem expands below => exact .inside (sub mem) expands below

/-- Every symbol that the walk over `level` in `scope` makes has the property `P`. -/
def MakesOnly (z : Sizing) (P : Symbol → Prop) (scope : String) (level : List (Node × Nat)) :
    Prop :=
  ∀ scope' n share inner s, z.Reaches scope level scope' n share →
    z.kept? scope' n share inner = some s → P s

theorem MakesOnly.head {m : Node × Nat} (makes : z.MakesOnly P scope (m :: level)) :
    z.MakesOnly P scope [m] :=
  fun _ _ _ _ _ reached => makes _ _ _ _ _ (reached.mono (by simp))

theorem MakesOnly.tail {m : Node × Nat} (makes : z.MakesOnly P scope (m :: level)) :
    z.MakesOnly P scope level :=
  fun _ _ _ _ _ reached => makes _ _ _ _ _ (reached.mono (List.subset_cons_self m level))

theorem MakesOnly.inside (makes : z.MakesOnly P scope ((n, share) :: level))
    (expands : z.expands n = true) :
    z.MakesOnly P (z.innerScope scope n) (n.shares .collapsed) :=
  fun _ _ _ _ _ below => makes _ _ _ _ _ (.inside List.mem_cons_self expands below)

theorem MakesOnly.own (makes : z.MakesOnly P scope ((n, share) :: level)) (inner : Found)
    {s : Symbol} (kept : z.kept? scope n share inner = some s) : P s :=
  makes _ _ _ inner s (.here List.mem_cons_self) kept

theorem forall_mem_settle {f inner : Found} (old : ∀ s ∈ f.table.entries, P s)
    (within : ∀ s ∈ inner.table.entries, P s)
    (own : ∀ s, z.kept? scope n share inner = some s → P s) :
    ∀ s ∈ (z.settle scope n share f inner).table.entries, P s := by
  have merged : ∀ s ∈ (f.table.extend inner.table).entries, P s := fun s hs =>
    (Roster.mem_of_mem_extend hs).elim (old s) (within s)
  cases kept : z.kept? scope n share inner with
  | none =>
    rw [settle_of_none z kept]
    exact merged
  | some x =>
    rw [settle_of_some z kept]
    intro s hs
    rcases Roster.mem_of_mem_insert hs with rfl | hs
    · exact own _ kept
    · exact merged s hs

theorem forall_mem_visitList (makes : z.MakesOnly P scope level)
    (each : ∀ s ∈ level, z.MakesOnly P scope [s] → ∀ f : Found,
      (∀ x ∈ f.table.entries, P x) → ∀ x ∈ (z.visit scope s.1 s.2 f).table.entries, P x)
    (f : Found) (old : ∀ x ∈ f.table.entries, P x) :
    ∀ x ∈ (z.visitList scope level f).table.entries, P x := by
  induction level generalizing f with
  | nil => exact old
  | cons s level ih =>
    exact ih makes.tail (fun x hx => each x (by simp [hx])) _
      (each s (by simp) makes.head f old)

/-- What holds of every symbol that the walk makes holds of every symbol in the table.
The induction is along the walk. -/
theorem forall_mem_visit (n : Node) (scope : String) (share : Nat)
    (makes : z.MakesOnly P scope [(n, share)]) (f : Found) (old : ∀ x ∈ f.table.entries, P x) :
    ∀ x ∈ (z.visit scope n share f).table.entries, P x := by
  induction n using Node.induction_inside generalizing scope share f with
  | step n ih =>
    rw [visit_eq]
    refine forall_mem_settle old ?_ fun s => makes.own _
    unfold Sizing.inside
    by_cases expands : z.expands n = true
    · rw [if_pos expands]
      exact forall_mem_visitList (makes.inside expands) (fun s hs inner => ih s hs _ s.2 inner) _
        (by simp)
    · rw [if_neg expands]
      simp

/-- What holds of every symbol that the walk over a script makes holds of every symbol
that it lists. -/
theorem forall_mem_visitAll {body : List Node} (makes : z.MakesOnly P "" (topLevel body)) :
    ∀ x ∈ (z.visitAll body).table.entries, P x := by
  rw [visitAll_eq]
  exact forall_mem_visitList makes (fun s _ inner => forall_mem_visit s.1 "" s.2 inner) _ (by simp)

end Sizing

/-! ## The leftover -/

namespace Sizing

variable (z : Sizing) (t : SymbolTable)

/-- The symbol for the bytes of the source that no symbol of `t` has. -/
def leftover : Symbol :=
  { scope := ""
    selfName := freeName "unclassified" Symbol.Kind.other.label t.keys
    kind := .other
    size := z.source.size - t.total }

theorem addRest_eq :
    z.addRest t = if 0 < z.source.size - t.total then t.insert (z.leftover t) else t := rfl

theorem leftover_notMem : (z.leftover t).name ∉ t.keys := by
  simpa [leftover, Symbol.name] using
    freeName_notMem "unclassified" Symbol.Kind.other.label t.keys

end Sizing

end SizeAtlas.Script
