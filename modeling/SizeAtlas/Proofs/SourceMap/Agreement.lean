import SizeAtlas.Proofs.Script.Listing
import SizeAtlas.Proofs.SourceMap.Renaming

/-!
# Whether renamed names are names of symbols

The walk that lists symbols and the search for renamings each make names of their
own.  They keep in step below a node that the walk splits and to which both give
the same name.  The search goes also into nodes that are not split, and it names
function expressions and assignments, which the walk only looks through; what is
renamed behind such a node need not be the name of a symbol.

## Main definitions

* `Sizing.InStep` — the nodes below which the two keep in step.

## Main statements

* `named_of_inStep` — in step, what is declared is listed.
* `keys_renamesOf_subset_iff` — when all that is renamed is the name of a symbol.
-/

namespace SizeAtlas.Script

variable {z : Sizing} {scope name : String} {n d : Node}

/-! ## Statements with one declarator -/

theorem Node.form_of_isDeclarator (h : d.isDeclarator = true) :
    ∃ id init, d.form = .variableDeclarator id init := by
  unfold isDeclarator at h
  split at h
  · exact ⟨_, _, ‹_›⟩
  · simp at h

section OneDeclarator

variable (form : n.form = .variableDeclaration [d]) (declarator : d.isDeclarator = true)
include form declarator

/-- The nodes below a statement with one declarator are those below the declarator. -/
theorem Node.children_of_declarator : n.children .collapsed = d.children .collapsed := by
  obtain ⟨id, init, shape⟩ := form_of_isDeclarator declarator
  simp [children, form, shape, initializer?, Form.parts]

/-- A statement with one declarator is treated like the declarator. -/
theorem Node.treatment_of_declarator (splits : Nat → Bool) :
    n.treatment splits = d.treatment splits := by
  obtain ⟨id, init, shape⟩ := form_of_isDeclarator declarator
  have below := children_of_declarator form declarator
  have named : n.ownName? = d.ownName? := by
    rw [ownName?]
    split
    · rename_i one
      rw [form, Form.variableDeclaration.injEq, List.cons.injEq] at one
      rw [one.1]
    · rename_i other
      exact absurd form (other d)
  have sort : n.kind = d.kind := by simp [kind, ownKind, form, shape]
  have container : n.isContainer = d.isContainer := by simp [isContainer, form, shape]
  simp only [treatment, childrenLength, below, named, sort, container]

theorem Node.shares_of_declarator : n.shares .collapsed = d.shares .collapsed := by
  obtain ⟨id, init, shape⟩ := form_of_isDeclarator declarator
  simp [shares, children_of_declarator form declarator, shareAt, form, shape]

/-- A statement with one declarator lists what the declarator would list. -/
theorem Sizing.namedAt_of_declarator (h : z.NamedAt scope d name) : z.NamedAt scope n name := by
  obtain ⟨id, init, shape⟩ := Node.form_of_isDeclarator declarator
  have treatment := Node.treatment_of_declarator form declarator z.splits
  have below := Node.children_of_declarator form declarator
  have listed : z.listedName? scope n = z.listedName? scope d := by
    simp only [listedName?, treatment, Node.isTransparent, form, shape]
  have expands : z.expands n = z.expands d := by rw [Sizing.expands, treatment, Sizing.expands]
  have inner : z.innerScope scope n = z.innerScope scope d := by
    simp only [innerScope, treatment, below, Node.childScope, Node.delimiter, Node.isObject,
      form, shape]
  rw [NamedAt, listed, expands, inner, Node.shares_of_declarator form declarator]
  exact h

end OneDeclarator

/-- Elsewhere both visits see the same nodes below a node. -/
theorem Node.children_of_several (several : ∀ d, n.form ≠ .variableDeclaration [d])
    {visit : Visit} : n.children visit = n.form.parts := by
  unfold children
  split
  · rename_i d form
    exact absurd form (several d)
  · rfl

/-! ## In step -/

/-- A node that is no mere container and no code is listed under its name. -/
theorem Sizing.listedName?_of_declaredName? {place : NameAt} (named : n.declaredName? = some place)
    (several : ∀ d, n.form ≠ .variableDeclaration [d]) (container : n.isContainer = false)
    (sort : n.kind ≠ .code) : z.listedName? scope n = some (scope ++ place.name) := by
  have own : n.ownName? = some place := by
    rw [Node.ownName?]
    split
    · rename_i d form
      exact absurd form (several d)
    · exact named
  have transparent : n.isTransparent = false := by
    unfold Node.isContainer at container
    unfold Node.isTransparent
    split <;> simp_all
  simp [listedName?, Node.treatment, own, container, transparent, sort]

/-- Below `n` the walk and the search for renamings keep in step: the walk splits the
node and has the same name for it.  Both pass over a statement with one declarator. -/
def Sizing.InStep (z : Sizing) (n : Node) : Prop :=
  match n.form with
  | .variableDeclaration [d] => d.isDeclarator = true
  | _ => z.expands n = true ∧ (n.treatment z.splits).name = n.mappableName?

end SizeAtlas.Script

namespace SizeAtlas.SourceMap

open Script

variable {z : Sizing} {m : SourceMap} {scope scope' minified : String} {level : List Node}
  {n : Node}

/-- What declares something by a name is listed under this name. -/
theorem listedName?_of_declares (declared : declares n = true)
    (known : n.mappableName? = some minified) :
    z.listedName? scope n = some (scope ++ minified) := by
  unfold declares at declared
  split at declared
  · rename_i id body form
    simp only [Node.mappableName?, form, Option.map_eq_some_iff] at known
    obtain ⟨id, rfl, rfl⟩ := known
    have named : n.declaredName? = some id.nameAt := by simp [Node.declaredName?, form]
    exact Sizing.listedName?_of_declaredName? named (by simp [form])
      (by simp [Node.isContainer, form]) (by simp [Node.kind, Node.ownKind, form])
  · rename_i form
    simp [Node.mappableName?, form] at known
  · rename_i id init form
    simp only [Node.mappableName?, form, Option.map_eq_some_iff] at known
    obtain ⟨id, rfl, rfl⟩ := known
    have named : n.declaredName? = some id.nameAt := by simp [Node.declaredName?, form]
    exact Sizing.listedName?_of_declaredName? named (by simp [form])
      (by simp [Node.isContainer, form]) (by simp [Node.kind, Node.ownKind, form])
  · simp at declared

/-- In step the walk comes to what the search comes to, in the same scope. -/
theorem named_of_inStep (h : Comes z.InStep scope level scope' n)
    (declared : declares n = true) (known : n.mappableName? = some minified) :
    ∀ nodes : List (Node × Nat), (∀ a ∈ level, ∃ share, (a, share) ∈ nodes) →
      z.Named scope nodes (scope' ++ minified) := by
  induction h with
  | here mem =>
    intro nodes all
    obtain ⟨share, hs⟩ := all _ mem
    exact Sizing.named_iff.2 ⟨_, hs, Or.inl (listedName?_of_declares declared known)⟩
  | @inside scope scope' level a n mem inStep below ih =>
    intro nodes all
    obtain ⟨share, hs⟩ := all a mem
    refine Sizing.named_iff.2 ⟨_, hs, ?_⟩
    unfold Sizing.InStep at inStep
    split at inStep
    · -- The search takes two steps here and the walk takes one.
      rename_i d form
      have scope_eq : innerScope scope a = scope := by
        simp [innerScope, Node.childScope, Node.mappableName?, form]
      have children : a.children .each = [d] := by simp [Node.children, form, Form.parts]
      have inner := ih declared known [(d, 0)] (by simp [children])
      rw [scope_eq] at inner
      obtain ⟨s, hs, at_s⟩ := Sizing.named_iff.1 inner
      rw [List.mem_singleton] at hs
      subst hs
      exact Sizing.namedAt_of_declarator form inStep at_s
    · rename_i other
      have children : a.children .each = a.children .collapsed := by
        rw [Node.children_of_several other, Node.children_of_several other]
      have scope_eq : z.innerScope scope a = innerScope scope a := by
        rw [Sizing.innerScope, innerScope, inStep.2, children]
      refine Or.inr ⟨inStep.1, scope_eq ▸ ih declared known _ fun c hc => ?_⟩
      rw [children, ← a.map_fst_shares, List.mem_map] at hc
      obtain ⟨s, hs, rfl⟩ := hc
      exact ⟨s.2, hs⟩

/-- **When all that is renamed is the name of a symbol.**  It is so exactly if what is
renamed behind a node that is not in step happens to be called like some symbol; in
step it always is.  Nothing is supposed of which nodes are large enough to split. -/
theorem keys_renamesOf_subset_iff (z : Sizing) (m : SourceMap) (body : List Node) :
    (renamesOf m body).keys ⊆ (z.run body).1.keys ↔
      ∀ scope n minified, Comes (fun _ => True) "" body scope n → Renamed m n minified →
        ¬Comes z.InStep "" body scope n → z.Lists body (scope ++ minified) := by
  constructor
  · intro sub scope n minified comes renamed _
    exact Sizing.mem_keys_run.1 (sub (mem_keys_renamesOf.2 ⟨_, _, _, comes, renamed, rfl⟩))
  · intro others name mem
    obtain ⟨scope, n, minified, comes, renamed, rfl⟩ := mem_keys_renamesOf.1 mem
    rw [Sizing.mem_keys_run]
    by_cases inStep : Comes z.InStep "" body scope n
    · refine Or.inl (named_of_inStep inStep renamed.declares renamed.known _ fun a ha => ?_)
      exact ⟨a.length, List.mem_map.2 ⟨a, ha, rfl⟩⟩
    · exact others scope n minified comes renamed inStep

/-- The tree of `var a=function b(){var c=1}`. -/
def namedFunction : Node :=
  .mk 0 27 (.variableDeclaration [.mk 4 27 (.variableDeclarator (some ⟨"a", 4, 5⟩)
    (some (.mk 6 27 (.functionExpression (some ⟨"b", 15, 16⟩) (.mk 18 27 (.blockStatement
      [.mk 19 26 (.variableDeclaration [.mk 23 26 (.variableDeclarator (some ⟨"c", 23, 24⟩)
        (some (.mk 25 26 .literal)))])]))))))])

/-- The name of the function is in the renamed name and not in that of the symbol. -/
theorem keys_renamesOf_namedFunction :
    ∃ (z : Sizing) (m : SourceMap), (∀ n, z.splits n = decide (0 < n)) ∧
      (renamesOf m [namedFunction]).keys = ["a/b/c"] ∧
      (z.run [namedFunction]).1.keys = ["a/c", "a"] := by
  refine ⟨⟨"var a=function b(){var c=1}".toUTF8, fun n => 0 < n, []⟩,
    .ofEntries [⟨23, none, 0, 0, "count"⟩], fun _ => rfl, ?_, ?_⟩
  · cbv
  · cbv

end SizeAtlas.SourceMap
