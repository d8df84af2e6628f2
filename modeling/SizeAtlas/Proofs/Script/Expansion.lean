import SizeAtlas.Proofs.Script.Borrowing

/-!
# Which nodes are split for their size

A node that is no mere container is split for its size only if something inside it could have
a name of its own.  The test of that asks at each node below for its own name and for the
outcome of a search below it, and ends such a search as early as the search itself does.  All
the same it answers as if it only looked for a name: where the search finds one or several
there is one, and what lies behind a barrier is still tested node by node.

## Main definitions

* `Within` — a node among others or below one of them.

## Main statements

* `bearersOf_ne_nil_of_soleName` — a search that finds one name or several came to one.
* `anyNameable_of_named` — no name is overlooked.
* `exists_named_of_anyNameable` — nothing is nameable without a name.
* `Node.expand_treatment` — what a node is split for.
* `anyNameable_finds_names` — so the test finds a name exactly if there is one.
-/

namespace SizeAtlas.Script

/-- Among `nodes`, or below one of them, is `n`. -/
def Within (visit : Visit) (nodes : List Node) (n : Node) : Prop :=
  ∃ above, Lineage visit nodes above n

variable {visit : Visit} {nodes : List Node} {n m : Node} {except : Option Nat}

theorem within_of_mem (mem : n ∈ nodes) : Within visit nodes n := ⟨[], .here mem⟩

theorem Within.inside (mem : m ∈ nodes) (below : Within visit (m.children visit) n) :
    Within visit nodes n := by
  obtain ⟨above, lineage⟩ := below
  exact ⟨m :: above, .inside mem lineage⟩

theorem Reached.within (h : Reached visit nodes n) : Within visit nodes n := by
  obtain ⟨above, lineage, -⟩ := h
  exact ⟨above, lineage⟩

/-! ## What a search tells -/

/-- A search that does not end without a name was offered one, or several. -/
theorem SoleName.exists_of_ofOffers_ne {offers : List Offer}
    (some : anonymous.ofOffers offers ≠ .anonymous) :
    ∃ o ∈ offers, o ≠ .nothing ∧ o ≠ .barrier := by
  induction offers with
  | nil => exact absurd rfl some
  | cons o offers ih =>
    cases o with
    | nothing =>
      obtain ⟨o, mem, offered⟩ := ih some
      exact ⟨o, List.mem_cons_of_mem _ mem, offered⟩
    | barrier => exact absurd rfl some
    | name name kind => exact ⟨_, List.mem_cons_self, by simp⟩
    | several => exact ⟨_, List.mem_cons_self, by simp⟩

/-- Who offers a name, or several, has a bearer of one. -/
theorem bearers_ne_nil_of_offer (some : n.offer visit ≠ .nothing)
    (through : n.offer visit ≠ .barrier) : n.bearers visit ≠ [] := by
  induction n using Node.induction_children visit with
  | step n ih =>
    rcases n.named_or_barrier_or_open with named | barrier | isOpen
    · rw [Node.bearers_of_isSome named]
      exact List.cons_ne_nil _ _
    · exact absurd (Node.offer_of_isBarrier visit barrier) through
    · have found : soleName visit (n.children visit) ≠ .anonymous := fun none =>
        some (Node.offer_eq_nothing_iff.2 ⟨isOpen, none⟩)
      obtain ⟨o, mem, offered⟩ := SoleName.exists_of_ofOffers_ne found
      obtain ⟨c, hc, rfl⟩ := List.mem_map.1 mem
      obtain ⟨b, bearer⟩ := List.exists_mem_of_ne_nil _ (ih c hc offered.1 offered.2)
      rw [Node.bearers_of_isOpen isOpen]
      exact List.ne_nil_of_mem (List.mem_flatMap.2 ⟨c, hc, bearer⟩)

/-- A search that does not end without a name has come to one. -/
theorem bearersOf_ne_nil_of_soleName (some : soleName visit nodes ≠ .anonymous) :
    bearersOf visit nodes ≠ [] := by
  obtain ⟨o, mem, offered⟩ := SoleName.exists_of_ofOffers_ne some
  obtain ⟨c, hc, rfl⟩ := List.mem_map.1 mem
  obtain ⟨b, bearer⟩ := List.exists_mem_of_ne_nil _ (bearers_ne_nil_of_offer offered.1 offered.2)
  exact List.ne_nil_of_mem (List.mem_flatMap.2 ⟨c, hc, bearer⟩)

/-! ## What the test tells -/

theorem anyNameable_iff :
    anyNameable visit except nodes = true ↔
      ∃ n ∈ nodes, (∃ place, n.ownName? = some place ∧ some place.start ≠ except) ∨
        soleName visit (n.children visit) ≠ .anonymous ∨
        anyNameable visit except (n.children visit) = true := by
  rw [anyNameable, List.any_eq_true]
  refine exists_congr fun n => and_congr_right fun _ => ?_
  simp only [Node.isNameable_eq, Bool.or_eq_true, Option.any_eq_true, bne_iff_ne, or_assoc]

/-- A name that does not start at the excepted offset is found, however many barriers stand
before it. -/
theorem anyNameable_of_named (below : Within visit nodes n) {place : NameAt}
    (own : n.ownName? = some place) (other : some place.start ≠ except) :
    anyNameable visit except nodes = true := by
  obtain ⟨above, lineage⟩ := below
  induction lineage with
  | here mem => exact anyNameable_iff.2 ⟨_, mem, .inl ⟨place, own, other⟩⟩
  | inside mem _ ih => exact anyNameable_iff.2 ⟨_, mem, .inr (.inr (ih own))⟩

/-- What is nameable has a name, its own or that of a node below. -/
theorem exists_named_of_isNameable (n : Node) (nameable : n.isNameable visit except = true) :
    ∃ m, Within visit [n] m ∧ m.ownName?.isSome = true := by
  induction n using Node.induction_children visit with
  | step n ih =>
    have inside : ∀ m, Within visit (n.children visit) m → Within visit [n] m := fun m =>
      Within.inside (List.mem_singleton_self n)
    rw [Node.isNameable_eq, Bool.or_eq_true, Bool.or_eq_true] at nameable
    rcases nameable with (own | sole) | below
    · obtain ⟨place, own, -⟩ := Option.any_eq_true _ _ |>.1 own
      exact ⟨n, within_of_mem (List.mem_singleton_self n), Option.isSome_of_mem own⟩
    · obtain ⟨m, reached, named⟩ :=
        bearersOf_ne_nil_iff.1 (bearersOf_ne_nil_of_soleName (bne_iff_ne.1 sole))
      exact ⟨m, inside m reached.within, named⟩
    · obtain ⟨c, hc, nameable⟩ := List.any_eq_true.1 below
      obtain ⟨m, ⟨above, lineage⟩, named⟩ := ih c hc nameable
      exact ⟨m, inside m ⟨above, lineage.mono (by simpa using hc)⟩, named⟩

/-- Nothing is nameable unless there is a name. -/
theorem exists_named_of_anyNameable (nameable : anyNameable visit except nodes = true) :
    ∃ n, Within visit nodes n ∧ n.ownName?.isSome = true := by
  obtain ⟨c, hc, nameable⟩ := List.any_eq_true.1 nameable
  obtain ⟨n, ⟨above, lineage⟩, named⟩ := exists_named_of_isNameable c nameable
  exact ⟨n, ⟨above, lineage.mono (by simpa using hc)⟩, named⟩

/-! ## Splitting for size -/

/-- A node that is no container is split only if it is large enough and something inside it
is nameable. -/
theorem Node.expand_treatment {splits : Nat → Bool} (split : (n.treatment splits).expand = true) :
    n.isContainer = true ∨ splits (n.childrenLength .collapsed) = true ∧
      anyNameable .collapsed (n.ownName?.map NameAt.start) (n.children .collapsed) = true := by
  by_cases container : n.isContainer = true
  · exact .inl container
  · refine .inr ?_
    rw [← Bool.and_eq_true]
    simp only [treatment, container, Bool.false_eq_true, if_false] at split
    split at split
    · exact split
    · split at split
      · cases split
      · cases split
      · exact split

theorem Node.expand_treatment_of_isContainer {splits : Nat → Bool}
    (container : n.isContainer = true) : (n.treatment splits).expand = true := by
  simp only [treatment, container, if_true]

/-- **The test for names finds one exactly if there is one.**  It holds if a node at or below
those it is asked about has a name that does not start at the excepted offset, and whenever it
holds one of them has a name; so without such an exception it holds exactly if one has.  A node
inside which nothing has a name is split only if it is a container, whatever its size. -/
theorem anyNameable_finds_names :
    (∀ visit except nodes,
      ((∃ n place, Within visit nodes n ∧ n.ownName? = some place ∧ some place.start ≠ except) →
        anyNameable visit except nodes = true) ∧
      (anyNameable visit except nodes = true →
        ∃ n, Within visit nodes n ∧ n.ownName?.isSome = true) ∧
      ((∀ n place, Within visit nodes n → n.ownName? = some place → some place.start ≠ except) →
        (anyNameable visit except nodes = true ↔
          ∃ n, Within visit nodes n ∧ n.ownName?.isSome = true))) ∧
    ∀ (z : Sizing) (n : Node),
      (∀ m, Within .collapsed (n.children .collapsed) m → m.ownName? = none) →
        z.expands n = n.isContainer := by
  refine ⟨fun visit except nodes => ⟨?_, exists_named_of_anyNameable, fun apart => ?_⟩, ?_⟩
  · rintro ⟨n, place, below, own, other⟩
    exact anyNameable_of_named below own other
  · refine ⟨exists_named_of_anyNameable, ?_⟩
    rintro ⟨n, below, named⟩
    obtain ⟨place, own⟩ := Option.isSome_iff_exists.1 named
    exact anyNameable_of_named below own (apart n place below own)
  · intro z n nameless
    rw [Sizing.expands, Bool.eq_iff_iff]
    refine ⟨fun split => ?_, Node.expand_treatment_of_isContainer⟩
    rcases Node.expand_treatment split with container | ⟨-, nameable⟩
    · exact container
    · obtain ⟨m, below, named⟩ := exists_named_of_anyNameable nameable
      simp [nameless m below] at named

/-- The search below a node does not know of the exception. -/
example : anyNameable .each (some 4)
    [.mk 0 9 (.arrayExpression [.mk 4 7 (.variableDeclarator (some ⟨"a", 4, 5⟩) none)])] =
      true := by
  cbv

end SizeAtlas.Script
