import SizeAtlas.Proofs.Script.Walk

/-!
# Nodes and the nodes above them

Where a node lies below others is told by the nodes above it.  Whatever goes from a node to
its children, like the walk over a script or a search in it, is known from these; so is the
scope that a node stands in, which is made of the names of the nodes above it.

## Main definitions

* `Lineage` — a node below others, with the nodes between.
* `scopeAlong` — the scope that a node stands in.

## Main statements

* `scopeAlong_eq` — a scope is made of names, each with its delimiter.
-/

namespace SizeAtlas.Script

/-- Among the nodes `level` and those below them `n` lies below `above`, of which each is a
child of the one before it. -/
inductive Lineage (visit : Visit) : (level above : List Node) → Node → Prop
  | here {level : List Node} {n : Node} (mem : n ∈ level) : Lineage visit level [] n
  | inside {level above : List Node} {a n : Node} (mem : a ∈ level)
      (below : Lineage visit (a.children visit) above n) : Lineage visit level (a :: above) n

namespace Lineage

variable {visit : Visit} {level level' above : List Node} {n : Node}

/-- Among more nodes there is more below. -/
theorem mono (h : Lineage visit level above n) (sub : level ⊆ level') :
    Lineage visit level' above n := by
  cases h with
  | here mem => exact .here (sub mem)
  | inside mem below => exact .inside (sub mem) below

end Lineage

/-! ## Scopes -/

/-- The scope of what is inside the last of the nodes `above`, the first of which stands in
`scope`, where `name?` tells what they are called. -/
def scopeAlong (visit : Visit) (name? : Node → Option String) (scope : String)
    (above : List Node) : String :=
  above.foldl (fun scope a => a.childScope scope (name? a) (a.children visit)) scope

section

variable (visit : Visit) (name? : Node → Option String) (scope : String)

@[simp] theorem scopeAlong_nil : scopeAlong visit name? scope [] = scope := rfl

@[simp] theorem scopeAlong_cons (a : Node) (above : List Node) :
    scopeAlong visit name? scope (a :: above) =
      scopeAlong visit name? (a.childScope scope (name? a) (a.children visit)) above := rfl

/-- What a node adds to a scope. -/
def qualifier (a : Node) : Option String :=
  (name? a).map fun name => name ++ a.delimiter (a.children visit)

theorem childScope_eq (a : Node) :
    a.childScope scope (name? a) (a.children visit) =
      scope ++ (qualifier visit name? a).getD "" := by
  unfold Node.childScope qualifier
  cases name? a with
  | none => simp
  | some name => simp [String.append_assoc]

/-- A scope is made of the names of the nodes that have one, each with its delimiter. -/
theorem scopeAlong_eq (above : List Node) :
    scopeAlong visit name? scope above =
      scope ++ String.join (above.filterMap (qualifier visit name?)) := by
  induction above generalizing scope with
  | nil => simp
  | cons a above ih =>
    rw [scopeAlong_cons, ih, childScope_eq, String.append_assoc, List.filterMap_cons]
    cases qualifier visit name? a with
    | none => simp
    | some text => simp

end

end SizeAtlas.Script
