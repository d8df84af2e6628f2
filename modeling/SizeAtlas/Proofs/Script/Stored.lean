import Mathlib
import SizeAtlas.Proofs.Fallible
import SizeAtlas.Proofs.Script.Nesting
import SizeAtlas.Proofs.Script.Walk
import SizeAtlas.Script.Program

/-!
# The nodes inside a node

The children of a node are the nodes that are stored in its fields, each of them once.  What
is stored there follows from the type of the shapes alone, whose traversal goes over the
fields of every shape.  So a search along the children comes to every node of a script, and
a script that is accepted has no syntax that cannot be attributed, however deep.

## Main definitions

* `Form.stored` — the nodes in the fields of a shape.
* `Node.Contains` — a node and those inside it, at every depth.

## Main statements

* `Form.perm_stored` — the parts of a shape are what is stored in it.
* `Node.firstUnattributable?_eq_none_iff`, `Node.exists_of_firstUnattributable?` — what the
  search finds, and when it finds nothing.
* `children_exhaustive` — both, and what it means for scripts.
-/

namespace SizeAtlas.Script

-- Made from the constructors, so that it cannot leave out a field.
deriving instance Traversable for Form

namespace Form

open Functor (Const)

variable {α β γ : Type}

/-! ## What is stored in a shape -/

/-- The nodes in the fields of a shape, in the order of the fields. -/
def stored (f : Form α) : List α := FreeMonoid.toList (Traversable.foldMap FreeMonoid.of f)

/-- Notes a node that a traversal comes to. -/
def note (a : α) : Const (FreeMonoid α) PUnit := Const.mk' (FreeMonoid.of a)

/-- The nodes that a traversal has noted. -/
def noted (x : Const (FreeMonoid α) β) : List α := FreeMonoid.toList x

theorem noted_pure (b : β) : noted (pure b : Const (FreeMonoid α) β) = [] := rfl

theorem noted_seq (x : Const (FreeMonoid α) (β → γ)) (y : Const (FreeMonoid α) β) :
    noted (x <*> y) = noted x ++ noted y :=
  rfl

theorem noted_note (a : α) : noted (note a) = [a] := rfl

theorem noted_list (l : List α) : noted (Traversable.traverse note l) = l :=
  (Traversable.toList_spec l).symm.trans Traversable.toList_eq_self

theorem noted_option (o : Option α) : noted (Traversable.traverse note o) = o.toList := by
  cases o <;> rfl

theorem stored_eq (f : Form α) : f.stored = noted (Form.traverse note f) := rfl

/-- The parts of a shape are the nodes in its fields, each as often as it is stored. -/
theorem perm_stored (f : Form α) : f.parts.Perm f.stored := by
  rw [stored_eq]
  cases f with
  | switchCase test consequent =>
    -- The statements of a case come before its test, which is the field in front of them.
    simp only [parts, Form.traverse, noted_pure, noted_seq, noted_option, noted_list,
      List.nil_append]
    exact List.perm_append_comm
  | _ =>
    simp only [parts, Form.traverse, noted_pure, noted_seq, noted_note, noted_option, noted_list,
      List.nil_append, List.append_assoc, List.cons_append, List.Perm.refl]

end Form

namespace Node

variable {n m c d : Node} {kind : String} {offset : Nat}

/-! ## Children -/

theorem children_each (n : Node) : n.children .each = n.form.parts := by
  unfold children
  split
  · contradiction
  · rfl

/-- The children are the nodes in the fields, each once. -/
theorem children_each_perm (n : Node) : (n.children .each).Perm n.form.stored :=
  n.children_each ▸ n.form.perm_stored

theorem mem_stored_iff : c ∈ n.form.stored ↔ c ∈ n.children .each :=
  n.children_each_perm.mem_iff.symm

theorem children_collapsed_of_single (form : n.form = .variableDeclaration [d]) :
    n.children .collapsed = d.initializer?.toList := by
  simp only [children, form]

theorem children_collapsed_of_ne (several : ∀ d, n.form ≠ .variableDeclaration [d]) :
    n.children .collapsed = n.children .each := by
  rw [children_each]
  exact (n.children_cases .collapsed).resolve_right fun ⟨d, form, _⟩ => several d form

theorem initializer?_of_ne (other : ∀ id init, d.form ≠ .variableDeclarator id init) :
    d.initializer? = none := by
  unfold initializer?
  split
  · exact absurd ‹_› (other _ _)
  · rfl

/-! ## Nodes at every depth -/

/-- `n` is `m`, or has it inside at some depth. -/
inductive Contains : (n m : Node) → Prop
  | self (n : Node) : Contains n n
  | inside {n c m : Node} (mem : c ∈ n.form.stored) (below : Contains c m) : Contains n m

theorem contains_iff : n.Contains m ↔ m = n ∨ ∃ c ∈ n.children .each, c.Contains m := by
  constructor
  · intro h
    cases h with
    | self => exact Or.inl rfl
    | inside mem below => exact Or.inr ⟨_, mem_stored_iff.1 mem, below⟩
  · rintro (rfl | ⟨c, mem, below⟩)
    · exact .self m
    · exact .inside (mem_stored_iff.2 mem) below

/-! ## The search for what cannot be attributed -/

theorem firstUnattributable?_of_unsupported (form : n.form = .unsupported kind) :
    n.firstUnattributable? = some (kind, n.start) := by
  rw [firstUnattributable?, form]

theorem firstUnattributable?_of_ne (supported : ∀ kind, n.form ≠ .unsupported kind) :
    n.firstUnattributable? = (n.children .each).findSome? firstUnattributable? := by
  have attached := List.findSome?_subtype (l := (n.children .each).attach)
    (g := firstUnattributable?) (f := fun c => c.1.firstUnattributable?) fun _ _ => rfl
  rw [List.unattach_attach] at attached
  rw [firstUnattributable?, attached]
  split
  · exact absurd ‹_› (supported _)
  · rfl

/-- The search finds nothing exactly if every node at every depth can be attributed. -/
theorem firstUnattributable?_eq_none_iff (n : Node) :
    n.firstUnattributable? = none ↔ ∀ m, n.Contains m → ∀ kind, m.form ≠ .unsupported kind := by
  induction n using Node.induction_children .each with
  | step n ih =>
    by_cases unsupported : ∃ kind, n.form = .unsupported kind
    · obtain ⟨kind, form⟩ := unsupported
      rw [firstUnattributable?_of_unsupported form]
      exact iff_of_false (Option.some_ne_none _) fun all => all n (.self n) kind form
    · have supported := not_exists.1 unsupported
      rw [firstUnattributable?_of_ne supported, List.findSome?_eq_none_iff]
      constructor
      · intro none m contains
        rcases contains_iff.1 contains with rfl | ⟨c, mem, below⟩
        · exact supported
        · exact (ih c mem).1 (none c mem) m below
      · intro all c mem
        exact (ih c mem).2 fun m below => all m (contains_iff.2 (Or.inr ⟨c, mem, below⟩))

/-- What the search finds is a node at some depth, with its kind and where it starts. -/
theorem exists_of_firstUnattributable? (found : n.firstUnattributable? = some (kind, offset)) :
    ∃ m, n.Contains m ∧ m.form = .unsupported kind ∧ m.start = offset := by
  induction n using Node.induction_children .each with
  | step n ih =>
    by_cases unsupported : ∃ kind, n.form = .unsupported kind
    · obtain ⟨kind, form⟩ := unsupported
      rw [firstUnattributable?_of_unsupported form] at found
      cases found
      exact ⟨n, .self n, form, rfl⟩
    · rw [firstUnattributable?_of_ne (not_exists.1 unsupported)] at found
      obtain ⟨c, mem, found⟩ := List.exists_of_findSome?_eq_some found
      obtain ⟨m, below, rest⟩ := ih c mem found
      exact ⟨m, contains_iff.2 (Or.inr ⟨c, mem, below⟩), rest⟩

end Node

/-! ## Scripts -/

variable {body : List Node}

/-- One of the statements of a script is `m`, or has it inside at some depth. -/
def Occurs (body : List Node) (m : Node) : Prop := ∃ n ∈ body, n.Contains m

theorem firstUnattributable?_eq_none_iff :
    firstUnattributable? body = none ↔
      ∀ m, Occurs body m → ∀ kind, m.form ≠ .unsupported kind := by
  simp only [firstUnattributable?, List.findSome?_eq_none_iff,
    Node.firstUnattributable?_eq_none_iff]
  exact ⟨fun all m ⟨n, mem, below⟩ => all n mem m below,
    fun all n mem m below => all m ⟨n, mem, below⟩⟩

theorem exists_of_firstUnattributable? {kind : String} {offset : Nat}
    (found : firstUnattributable? body = some (kind, offset)) :
    ∃ m, Occurs body m ∧ m.form = .unsupported kind ∧ m.start = offset := by
  obtain ⟨n, mem, found⟩ := List.exists_of_findSome?_eq_some found
  obtain ⟨m, below, rest⟩ := Node.exists_of_firstUnattributable? found
  exact ⟨m, ⟨n, mem, below⟩, rest⟩

theorem firstUnattributable?_of_parse {source : String} (parsed : parse source = .ok body) :
    firstUnattributable? body = none := by
  obtain ⟨statements, _, checked⟩ := bind_eq_ok.1 parsed
  cases found : firstUnattributable? statements with
  | some fault =>
    simp only [found] at checked
    cases checked
  | none =>
    simp only [found] at checked
    cases checked
    exact found

/-- **The children miss nothing.**  With every declarator visited they are the nodes in the
fields of a node, each as often as it is stored, and nothing else.  With single declarators
left out they are the same, but a declaration of one variable has the value of the variable
instead, if it has one, and nothing if its only entry declares none.  So the search for
syntax that cannot be attributed finds nothing exactly if no node at any depth is such, and
else one of those nodes, and an accepted script has none of them. -/
theorem children_exhaustive :
    (∀ n : Node, (n.children .each).Perm n.form.stored) ∧
    (∀ n d : Node, n.form = .variableDeclaration [d] →
      (∀ id init, d.form = .variableDeclarator id init → n.children .collapsed = init.toList) ∧
      ((∀ id init, d.form ≠ .variableDeclarator id init) → n.children .collapsed = [])) ∧
    (∀ n : Node, (∀ d, n.form ≠ .variableDeclaration [d]) →
      n.children .collapsed = n.children .each) ∧
    (∀ body, firstUnattributable? body = none ↔
      ∀ m, Occurs body m → ∀ kind, m.form ≠ .unsupported kind) ∧
    (∀ body kind offset, firstUnattributable? body = some (kind, offset) →
      ∃ m, Occurs body m ∧ m.form = .unsupported kind ∧ m.start = offset) ∧
    ∀ source body, parse source = .ok body →
      ∀ m, Occurs body m → ∀ kind, m.form ≠ .unsupported kind := by
  refine ⟨Node.children_each_perm, fun n d form => ⟨fun id init declares => ?_, fun other => ?_⟩,
    fun n => Node.children_collapsed_of_ne, fun _ => firstUnattributable?_eq_none_iff,
    fun _ _ _ => exists_of_firstUnattributable?, fun source body parsed => ?_⟩
  · rw [Node.children_collapsed_of_single form, Node.initializer?, declares]
  · rw [Node.children_collapsed_of_single form, Node.initializer?_of_ne other,
      Option.toList_none]
  · exact firstUnattributable?_eq_none_iff.1 (firstUnattributable?_of_parse parsed)

end SizeAtlas.Script
