import SizeAtlas.Proofs.Script.Walk

/-!
# Which names a script is listed under

A node that the walk comes to is listed under its name in its scope, or as a
numbered block of code, or not at all, and how many bytes it keeps does not matter.
So the names of the symbols follow from where the walk comes to.

## Main definitions

* `Sizing.listedName?` — the qualified name of the symbol of a node.
* `Sizing.Named` — the names of the nodes that the walk comes to.
* `Sizing.Adds` — what a part of the walk adds to the names found so far.
* `Sizing.Lists` — the names of the symbols of a script.

## Main statements

* `Sizing.adds_visit` — what a visit adds.
* `Sizing.mem_keys_run` — `Sizing.Lists` is what its name says.
-/

namespace SizeAtlas.Script.Sizing

variable (z : Sizing)

/-! ## Names of nodes -/

/-- The qualified name of the symbol of `n`, which stands in `scope`, if it has one
other than a number. -/
def listedName? (scope : String) (n : Node) : Option String :=
  if n.isTransparent then none
  else
    match (n.treatment z.splits).name with
    | some name =>
      if (n.treatment z.splits).kind ≠ .code ∨ scope.isEmpty then some (scope ++ name) else none
    | none => none

/-- The name of the block of code with number `i`. -/
def blockName (i : Nat) : String := s!"code#{i}"

/-- A block of code is called `name` whose number is from `first` to below `last`. -/
def NumberedFrom (first last : Nat) (name : String) : Prop :=
  ∃ i, first ≤ i ∧ i < last ∧ name = blockName i

/-- The walk over `level` in `scope` comes to a node that it lists as `name`. -/
def Named (scope : String) (level : List (Node × Nat)) (name : String) : Prop :=
  ∃ scope' n share, z.Reaches scope level scope' n share ∧ z.listedName? scope' n = some name

/-- A visit of `n`, which stands in `scope`, lists something as `name`. -/
def NamedAt (scope : String) (n : Node) (name : String) : Prop :=
  z.listedName? scope n = some name ∨
    z.expands n = true ∧ z.Named (z.innerScope scope n) (n.shares .collapsed) name

variable {z} {scope name : String} {level : List (Node × Nat)} {n : Node} {f g : Found}

theorem named_iff : z.Named scope level name ↔ ∃ s ∈ level, z.NamedAt scope s.1 name := by
  constructor
  · rintro ⟨scope', n, share, reached, listed⟩
    cases reached with
    | here mem => exact ⟨_, mem, Or.inl listed⟩
    | inside mem expands below => exact ⟨_, mem, Or.inr ⟨expands, _, _, _, below, listed⟩⟩
  · rintro ⟨⟨m, whole⟩, mem, listed | ⟨expands, scope', n, share, below, listed⟩⟩
    · exact ⟨scope, m, whole, .here mem, listed⟩
    · exact ⟨scope', n, share, .inside mem expands below, listed⟩

/-- A node is listed under its name, as the next block of code, or not at all. -/
theorem kept?_cases (scope : String) (n : Node) (share : Nat) (inner : Found) :
    (∃ s, z.kept? scope n share inner = some s ∧ s.description = none ∧
      z.listedName? scope n = some s.name) ∨
    (∃ s, z.kept? scope n share inner = some s ∧ s.description.isSome ∧
      s.name = blockName inner.blocks ∧ z.listedName? scope n = none) ∨
    z.kept? scope n share inner = none ∧ z.listedName? scope n = none := by
  simp only [kept?, symbol?, listedName?]
  by_cases transparent : n.isTransparent = true
  · right; right
    simp [transparent]
  · simp only [transparent, if_false, Bool.false_eq_true]
    cases (n.treatment z.splits).name with
    | some name =>
      by_cases shown : (n.treatment z.splits).kind ≠ .code ∨ scope.isEmpty
      · left
        simp only [if_pos shown]
        exact ⟨_, rfl, rfl, rfl⟩
      · right; right
        simp only [if_neg shown, and_self]
    | none =>
      by_cases shown : (n.treatment z.splits).kind = .code ∧ scope.isEmpty
      · right; left
        have top : scope = "" := String.isEmpty_iff.1 shown.2
        simp only [if_pos shown]
        exact ⟨_, rfl, rfl, by simp [Symbol.name, top, blockName], trivial⟩
      · right; right
        simp only [if_neg shown, and_self]

/-! ## Numbers of blocks -/

theorem not_numberedFrom (i : Nat) : ¬NumberedFrom i i name := by
  rintro ⟨j, low, high, _⟩
  omega

theorem numberedFrom_succ {first last : Nat} (le : first ≤ last) :
    NumberedFrom first (last + 1) name ↔
      name = blockName last ∨ NumberedFrom first last name := by
  constructor
  · rintro ⟨i, low, high, rfl⟩
    by_cases newest : i = last
    · exact Or.inl (newest ▸ rfl)
    · exact Or.inr ⟨i, low, by omega, rfl⟩
  · rintro (rfl | ⟨i, low, high, rfl⟩)
    · exact ⟨last, le, Nat.lt_succ_self _, rfl⟩
    · exact ⟨i, low, Nat.lt_succ_of_lt high, rfl⟩

theorem numberedFrom_trans {first middle last : Nat} (le : first ≤ middle)
    (le' : middle ≤ last) :
    NumberedFrom first last name ↔
      NumberedFrom first middle name ∨ NumberedFrom middle last name := by
  constructor
  · rintro ⟨i, low, high, rfl⟩
    by_cases before : i < middle
    · exact Or.inl ⟨i, low, before, rfl⟩
    · exact Or.inr ⟨i, Nat.le_of_not_lt before, high, rfl⟩
  · rintro (⟨i, low, high, rfl⟩ | ⟨i, low, high, rfl⟩)
    · exact ⟨i, low, Nat.lt_of_lt_of_le high le', rfl⟩
    · exact ⟨i, Nat.le_trans le low, high, rfl⟩

/-! ## What the walk adds -/

/-- From `f` to `g` the walk lists what is in `names`, and beside that blocks of code
with the numbers that come next. -/
structure Adds (names : String → Prop) (f g : Found) : Prop where
  blocks_le : f.blocks ≤ g.blocks
  mem_keys : ∀ k, k ∈ g.table.keys ↔
    k ∈ f.table.keys ∨ names k ∨ NumberedFrom f.blocks g.blocks k

namespace Adds

variable {A B : String → Prop} {h : Found}

theorem refl (f : Found) : Adds (fun _ => False) f f where
  blocks_le := Nat.le_refl _
  mem_keys k := by simp [not_numberedFrom]

theorem trans (first : Adds A f g) (second : Adds B g h) : Adds (fun k => A k ∨ B k) f h where
  blocks_le := Nat.le_trans first.blocks_le second.blocks_le
  mem_keys k := by
    rw [second.mem_keys, first.mem_keys, numberedFrom_trans first.blocks_le second.blocks_le]
    tauto

theorem congr (h : Adds A f g) (same : ∀ k, A k ↔ B k) : Adds B f g where
  blocks_le := h.blocks_le
  mem_keys k := by rw [h.mem_keys, same]

end Adds

/-- Settling a node adds its own name to those inside it. -/
theorem adds_settle {share : Nat} {A : String → Prop} {inner : Found}
    (h : Adds A { f with table := ∅ } inner) :
    Adds (fun k => z.listedName? scope n = some k ∨ A k) f (z.settle scope n share f inner) := by
  have le : f.blocks ≤ inner.blocks := h.blocks_le
  have merged : ∀ k, k ∈ (f.table.extend inner.table).keys ↔
      k ∈ f.table.keys ∨ A k ∨ NumberedFrom f.blocks inner.blocks k := by
    intro k
    rw [Roster.mem_keys_extend, h.mem_keys]
    simp
  rcases z.kept?_cases scope n share inner with
    ⟨s, kept, plain, listed⟩ | ⟨s, kept, described, name, listed⟩ | ⟨kept, listed⟩
  · rw [settle_of_some z kept]
    refine ⟨by simp [enter, plain, le], fun k => ?_⟩
    simp only [enter, Roster.mem_keys_insert, merged, plain, listed, Option.some.injEq,
      Option.isSome_none, Bool.false_eq_true, if_false, eq_comm (a := s.name)]
    tauto
  · rw [settle_of_some z kept]
    refine ⟨by simp only [enter, described, if_true]; omega, fun k => ?_⟩
    simp only [enter, Roster.mem_keys_insert, merged, described, if_true, name, listed,
      numberedFrom_succ le, reduceCtorEq, false_or]
    tauto
  · rw [settle_of_none z kept]
    refine ⟨le, fun k => ?_⟩
    simp [merged, listed]

/-- A walk over nodes adds what its visits add. -/
theorem adds_visitList
    (each : ∀ s ∈ level, ∀ f, Adds (z.NamedAt scope s.1) f (z.visit scope s.1 s.2 f))
    (f : Found) : Adds (z.Named scope level) f (z.visitList scope level f) := by
  induction level generalizing f with
  | nil => exact (Adds.refl f).congr fun k => by simp [named_iff]
  | cons s level ih =>
    have first := each s (by simp) f
    have rest := ih (fun x hx => each x (by simp [hx])) (z.visit scope s.1 s.2 f)
    exact (first.trans rest).congr fun k => by simp [named_iff]

/-- A visit adds the names that the walk comes to from there.  The induction is along
the walk. -/
theorem adds_visit (n : Node) (scope : String) (share : Nat) (f : Found) :
    Adds (z.NamedAt scope n) f (z.visit scope n share f) := by
  induction n using Node.induction_inside generalizing scope share f with
  | step n ih =>
    rw [visit_eq]
    refine adds_settle ?_
    unfold inside
    by_cases expands : z.expands n = true
    · rw [if_pos expands]
      have each : ∀ s ∈ n.shares .collapsed, ∀ g, Adds (z.NamedAt (z.innerScope scope n) s.1) g
          (z.visit (z.innerScope scope n) s.1 s.2 g) := fun s hs g => ih s hs _ s.2 g
      exact (adds_visitList each _).congr fun k => by simp [expands]
    · rw [if_neg expands]
      exact (Adds.refl _).congr fun k => by simp [expands]

/-! ## Whole scripts -/

/-- The symbols of a script whose walk comes to `body` have a symbol called `name`: a
node under its name, a block of code, or the leftover. -/
def Lists (z : Sizing) (body : List Node) (name : String) : Prop :=
  z.Named "" (topLevel body) name ∨
    NumberedFrom 0 (z.visitAll body).blocks name ∨
    (z.visitAll body).table.total < z.source.size ∧
      name = (z.leftover (z.visitAll body).table).name

theorem mem_keys_visitAll {body : List Node} :
    name ∈ (z.visitAll body).table.keys ↔
      z.Named "" (topLevel body) name ∨ NumberedFrom 0 (z.visitAll body).blocks name := by
  have each : ∀ s ∈ topLevel body, ∀ f, Adds (z.NamedAt "" s.1) f (z.visit "" s.1 s.2 f) :=
    fun s _ f => adds_visit s.1 "" s.2 f
  have all := adds_visitList each ⟨∅, 0, []⟩
  rw [← visitAll_eq] at all
  simpa using all.mem_keys name

/-- The keys of the symbols of a script. -/
theorem mem_keys_run {body : List Node} : name ∈ (z.run body).1.keys ↔ z.Lists body name := by
  have before : name ∈ (z.visitAll body).table.keys ↔ _ := mem_keys_visitAll
  have table : (z.run body).1 = z.addRest (z.visitAll body).table := rfl
  unfold Lists
  rw [table, addRest_eq]
  by_cases rest : (z.visitAll body).table.total < z.source.size
  · rw [if_pos (Nat.sub_pos_of_lt rest), Roster.mem_keys_insert, before]
    simp only [rest, true_and]
    tauto
  · rw [if_neg (by omega), before]
    simp [rest]

end SizeAtlas.Script.Sizing
