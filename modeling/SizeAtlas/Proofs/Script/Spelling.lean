import SizeAtlas.Proofs.Script.Walk

/-!
# Names come from the identifiers of a script

Whatever name a node carries or borrows, and so every segment of a scope, is spelled by
an identifier somewhere in the node.  What holds of all identifiers of a script thus
holds of all names that it is listed under.

## Main definitions

* `Node.spelling` — the names that a node itself spells.
* `Node.Spells` — a property of all names that a node and those in it spell.

## Main statements

* `Node.Spells.treatment` — the name that a node is listed under is one of them.
* `Sizing.Reaches.scope_of_spells` — scopes are made of them.
-/

namespace SizeAtlas.Script

namespace Node

/-- The names that the identifiers of a node spell, those of the nodes in it apart. -/
def spelling (n : Node) : List String :=
  match n.form with
  | .functionDeclaration id _ | .functionExpression id _ | .variableDeclarator id _ =>
    id.toList.map Identifier.name
  | .identifier name => [name]
  | _ => []

/-- Every name that is spelled in a node has the property `P`. -/
inductive Spells (P : String → Prop) : Node → Prop
  | intro {n : Node} (own : ∀ name ∈ n.spelling, P name)
      (below : ∀ c ∈ n.form.parts, Spells P c) : Spells P n

namespace Spells

variable {P : String → Prop} {n : Node} {visit : Visit} {place : NameAt}

theorem of_mem_spelling (h : n.Spells P) : ∀ name ∈ n.spelling, P name := by
  cases h
  assumption

theorem of_mem_parts (h : n.Spells P) : ∀ c ∈ n.form.parts, c.Spells P := by
  cases h
  assumption

/-- What is spelled in a node whose shape is known. -/
theorem mk_iff {start stop : Nat} {form : Form Node} :
    (Node.mk start stop form).Spells P ↔
      (∀ name ∈ (Node.mk start stop form).spelling, P name) ∧ ∀ c ∈ form.parts, c.Spells P :=
  ⟨fun h => ⟨h.of_mem_spelling, h.of_mem_parts⟩, fun h => .intro h.1 h.2⟩

theorem of_mem_children (h : n.Spells P) : ∀ c ∈ n.children visit, c.Spells P := by
  intro c hc
  unfold children at hc
  split at hc
  · rename_i d form
    have hd : d ∈ n.form.parts := by simp [form, Form.parts]
    refine (h.of_mem_parts d hd).of_mem_parts c ?_
    unfold initializer? at hc
    split at hc
    · rename_i shape
      simpa [shape, Form.parts] using hc
    · simp at hc
  · exact h.of_mem_parts c hc

/-! ## Names of single nodes -/

theorem variableRef? (h : n.Spells P) (ref : n.variableRef? = some place) : P place.name := by
  obtain ⟨name, known, rfl⟩ := Option.map_eq_some_iff.1 ref
  refine h.of_mem_spelling name ?_
  unfold variableName? at known
  split at known
  · rename_i form
    simpa [spelling, form] using known.symm
  · simp at known

theorem assigned? {left : Node} (h : n.Spells P) (assigned : n.assigned? = some left) :
    left.Spells P := by
  refine h.of_mem_parts left ?_
  unfold Node.assigned? at assigned
  split at assigned
  · rename_i form
    simp_all [Form.parts]
  · simp at assigned

/-- The identifier of a declaration is spelled there. -/
theorem identifier {id : Option Identifier} (h : n.Spells P)
    (spelling : n.spelling = id.toList.map Identifier.name)
    (named : id.map Identifier.nameAt = some place) : P place.name := by
  obtain ⟨id, rfl, rfl⟩ := Option.map_eq_some_iff.1 named
  exact h.of_mem_spelling _ (by simp [spelling, Identifier.nameAt])

theorem declaredName? (h : n.Spells P) (declared : n.declaredName? = some place) :
    P place.name := by
  unfold Node.declaredName? at declared
  split at declared
  · rename_i expression form
    obtain ⟨left, assigned, ref⟩ := Option.bind_eq_some_iff.1 declared
    have inner := h.of_mem_parts expression (by simp [form, Form.parts])
    exact (inner.assigned? assigned).variableRef? ref
  · rename_i key value form
    rcases Option.or_eq_some_iff.1 declared with ofKey | ⟨_, ofValue⟩
    · obtain ⟨key, rfl, ref⟩ := Option.bind_eq_some_iff.1 ofKey
      exact (h.of_mem_parts key (by simp [form, Form.parts])).variableRef? ref
    · exact (h.of_mem_parts value (by simp [form, Form.parts])).variableRef? ofValue
  · rename_i form
    exact h.identifier (by simp [Node.spelling, form]) declared
  · rename_i form
    exact h.identifier (by simp [Node.spelling, form]) declared
  · rename_i form
    exact h.identifier (by simp [Node.spelling, form]) declared
  · simp at declared

/-- The name that a node carries is spelled in it. -/
theorem ownName? (h : n.Spells P) (own : n.ownName? = some place) : P place.name := by
  induction n using WellFounded.induction (measure (sizeOf : Node → Nat)).wf with
  | _ n ih =>
    rw [Node.ownName?] at own
    split at own
    · rename_i d form
      have hd : d ∈ n.form.parts := by simp [form, Form.parts]
      exact ih d (sizeOf_lt_of_mem_parts hd) (h.of_mem_parts d hd) own
    · exact h.declaredName? own

end Spells

end Node

/-! ## Borrowed names -/

/-- A name that a search finds is one that it started with or that is offered to it. -/
theorem SoleName.mem_of_ofOffers {found : SoleName} {offers : List Offer} {name : String}
    {kind : Symbol.Kind} (h : found.ofOffers offers = .named name kind) :
    found = .named name kind ∨ .name name kind ∈ offers := by
  induction offers generalizing found with
  | nil => exact Or.inl h
  | cons offer offers ih =>
    cases offer with
    | nothing => exact (ih h).imp id (List.mem_cons_of_mem _)
    | barrier => simp [ofOffers] at h
    | several => simp [ofOffers] at h
    | name name' kind' =>
      cases found with
      | anonymous =>
        rcases ih h with same | later
        · cases same
          exact Or.inr List.mem_cons_self
        · exact Or.inr (List.mem_cons_of_mem _ later)
      | named _ _ => simp [ofOffers] at h
      | ambiguous => simp [ofOffers] at h

namespace Node.Spells

variable {P : String → Prop} {n : Node} {visit : Visit} {name : String} {kind : Symbol.Kind}

/-- The name that a node offers to a search is spelled in it.  The induction is over the
nodes that the search goes through. -/
theorem offer (h : n.Spells P) (offered : n.offer visit = .name name kind) : P name := by
  induction n using Node.induction_children visit with
  | step n ih =>
    rw [Node.offer] at offered
    split at offered
    · rename_i place own
      cases offered
      exact h.ownName? own
    · split at offered
      · simp at offered
      · generalize search : SoleName.ofOffers _ _ = outcome at offered
        cases outcome with
        | named name' kind' =>
          cases offered
          rcases SoleName.mem_of_ofOffers search with none | mem
          · simp at none
          · obtain ⟨⟨c, hc⟩, _, given⟩ := List.mem_map.1 mem
            exact ih c hc (h.of_mem_children c hc) given
        | anonymous => simp [SoleName.toOffer] at offered
        | ambiguous => simp [SoleName.toOffer] at offered

theorem soleName {nodes : List Node} (h : ∀ n ∈ nodes, n.Spells P)
    (sole : soleName visit nodes = .named name kind) : P name := by
  rcases SoleName.mem_of_ofOffers sole with none | mem
  · simp at none
  · obtain ⟨n, hn, offered⟩ := List.mem_map.1 mem
    exact (h n hn).offer offered

/-- The name that a node is listed under is spelled in it. -/
theorem treatment {splits : Nat → Bool} (h : n.Spells P)
    (listed : (n.treatment splits).name = some name) : P name := by
  have plain : (∃ place, n.ownName? = some place ∧ place.name = name) ∨
      ∃ kind, Script.soleName .collapsed (n.children .collapsed) = .named name kind := by
    simp only [Node.treatment] at listed
    split at listed
    · simp at listed
    · cases own : n.ownName? with
      | some place =>
        rw [own] at listed
        exact Or.inl ⟨place, rfl, by simpa using listed⟩
      | none =>
        rw [own] at listed
        cases sole : Script.soleName .collapsed (n.children .collapsed) with
        | named name' kind => simp_all
        | anonymous => simp [sole] at listed
        | ambiguous => simp [sole] at listed
  rcases plain with ⟨place, own, rfl⟩ | ⟨kind, sole⟩
  · exact h.ownName? own
  · exact soleName h.of_mem_children sole

end Node.Spells

/-! ## Scopes -/

theorem Node.delimiter_eq_or (n : Node) (children : List Node) :
    n.delimiter children = "." ∨ n.delimiter children = "/" :=
  ite_eq_or_eq _ _ _

namespace Sizing

variable {z : Sizing} {scope scope' : String} {level : List (Node × Nat)} {n : Node} {share : Nat}
  {P Q : String → Prop}

/-- What is true of a scope remains true when names and delimiters are added to it. -/
theorem innerScope_of_spells (grow : ∀ scope name delimiter, Q scope → P name →
    delimiter = "." ∨ delimiter = "/" → Q (scope ++ name ++ delimiter))
    (h : n.Spells P) (outer : Q scope) : Q (z.innerScope scope n) := by
  unfold innerScope Node.childScope
  split
  · rename_i name listed
    exact grow scope name _ outer (h.treatment listed) (Node.delimiter_eq_or n _)
  · exact outer

/-- Wherever the walk comes to, the scope is made of names that are spelled in the nodes
that it came from, and so are the names in the node. -/
theorem Reaches.scope_of_spells (grow : ∀ scope name delimiter, Q scope → P name →
    delimiter = "." ∨ delimiter = "/" → Q (scope ++ name ++ delimiter))
    (h : z.Reaches scope level scope' n share) (spells : ∀ s ∈ level, s.1.Spells P)
    (outer : Q scope) : Q scope' ∧ n.Spells P := by
  induction h with
  | here mem => exact ⟨outer, spells _ mem⟩
  | @inside scope scope' level m n whole share mem expands below ih =>
    have above := spells _ mem
    refine ih (fun s hs => above.of_mem_children s.1 (Node.mem_children_of_mem_shares hs)) ?_
    exact innerScope_of_spells grow above outer

end Sizing

end SizeAtlas.Script
