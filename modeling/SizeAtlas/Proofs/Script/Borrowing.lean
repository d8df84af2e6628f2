import SizeAtlas.Proofs.Script.Lineage

/-!
# Whose name is borrowed

A node without a name borrows the only one that a search below it comes to.  The search goes
below a node unless that has a name, or is a function or a call; such a function or call
without a name is a barrier, and the search among its siblings ends there without a name.
What is found is always the name of a node that the search comes to.  But one level up the
siblings of a barrier count as if there were no name among them, so that the name found need
not be the only one: the search overlooks those beside a barrier.

## Main definitions

* `Node.isOpen`, `Node.isBarrier` — where a search goes on, and where it ends.
* `Reached` — what the search comes to.
* `bearersOf` — the nodes with names that it comes to.
* `Overlooks` — whether there are names beside a barrier.

## Main statements

* `mem_bearersOf_iff` — the bearers are the nodes with names that the search comes to.
* `exists_bears_of_soleName` — the name that is found is one of theirs.
* `bearersOf_eq_singleton_iff` — when it is the only one.
* `soleName_besideCall` — a name that is not.
-/

namespace SizeAtlas.Script

/-! ## Outcomes of a search -/

namespace SoleName

variable {offers : List Offer} {name : String} {kind : Symbol.Kind}

/-- Who offers nothing makes no difference. -/
theorem ofOffers_filter (found : SoleName) (offers : List Offer) :
    found.ofOffers (offers.filter (· ≠ .nothing)) = found.ofOffers offers := by
  induction offers generalizing found with
  | nil => rfl
  | cons o offers ih =>
    cases o with
    | nothing => exact ih found
    | name name kind =>
      rw [List.filter_cons_of_pos (by simp)]
      cases found with
      | anonymous => exact ih _
      | named _ _ => rfl
      | ambiguous => rfl
    | barrier => rfl
    | several => rfl

/-- A name is found if it is offered once, and nothing else is. -/
theorem ofOffers_eq_named_iff :
    anonymous.ofOffers offers = .named name kind ↔
      offers.filter (· ≠ .nothing) = [.name name kind] := by
  have something : ∀ o ∈ offers.filter (· ≠ .nothing), o ≠ .nothing := by simp
  rw [← ofOffers_filter]
  generalize offers.filter (· ≠ .nothing) = offers at something
  rcases offers with _ | ⟨o, _ | ⟨o', offers⟩⟩
  · simp [ofOffers]
  · cases o <;> simp_all [ofOffers]
  · cases o <;> cases o' <;> simp_all [ofOffers]

/-- Without a barrier no name is found only if none is offered. -/
theorem eq_nothing_of_ofOffers (h : anonymous.ofOffers offers = .anonymous)
    (through : .barrier ∉ offers) : ∀ o ∈ offers, o = .nothing := by
  have none : offers.filter (· ≠ .nothing) = [] := by
    have something : ∀ o ∈ offers.filter (· ≠ .nothing), o ≠ .nothing ∧ o ≠ .barrier := by
      intro o mem
      obtain ⟨mem, something⟩ := List.mem_filter.1 mem
      exact ⟨by simpa using something, fun barrier => through (barrier ▸ mem)⟩
    rw [← ofOffers_filter] at h
    generalize offers.filter (· ≠ .nothing) = offers at h something
    rcases offers with _ | ⟨o, _ | ⟨o', offers⟩⟩
    · rfl
    · cases o <;> simp_all [ofOffers]
    · cases o <;> cases o' <;> simp_all [ofOffers]
  simpa [List.filter_eq_nil_iff] using none

end SoleName

/-! ## Where a search goes -/

namespace Node

/-- Whether a search goes below a node. -/
def isOpen (n : Node) : Bool := n.ownName?.isNone && !(n.isFunction || n.isCall)

/-- Whether a node ends the search among its siblings. -/
def isBarrier (n : Node) : Bool := n.ownName?.isNone && (n.isFunction || n.isCall)

theorem isOpen_iff {n : Node} :
    n.isOpen = true ↔ n.ownName? = none ∧ (n.isFunction || n.isCall) = false := by
  rw [isOpen, Bool.and_eq_true, Option.isNone_iff_eq_none, Bool.not_eq_true']

theorem isBarrier_iff {n : Node} :
    n.isBarrier = true ↔ n.ownName? = none ∧ (n.isFunction || n.isCall) = true := by
  rw [isBarrier, Bool.and_eq_true, Option.isNone_iff_eq_none]

/-- A node carries a name, and it is of a kind. -/
def Bears (n : Node) (name : String) (kind : Symbol.Kind) : Prop :=
  n.ownName?.map NameAt.name = some name ∧ n.kind = kind

theorem Bears.isSome {n : Node} {name : String} {kind : Symbol.Kind} (h : n.Bears name kind) :
    n.ownName?.isSome = true := by
  obtain ⟨place, own, -⟩ := Option.map_eq_some_iff.1 h.1
  exact Option.isSome_of_mem own

/-- A node has a name, is a barrier or is open. -/
theorem named_or_barrier_or_open (n : Node) :
    n.ownName?.isSome = true ∨ n.isBarrier = true ∨ n.isOpen = true := by
  unfold isBarrier isOpen
  cases n.ownName? <;> cases n.isFunction || n.isCall <;> simp

/-- The nodes with names at or below `n` that a search comes to. -/
def bearers (visit : Visit) (n : Node) : List Node :=
  if n.ownName?.isSome then [n]
  else if n.isFunction || n.isCall then []
  else (n.children visit).attach.flatMap fun ⟨c, _⟩ => c.bearers visit
termination_by n
decreasing_by exact sizeOf_lt_of_mem_children ‹_›

end Node

/-- The nodes with names that a search among `nodes` comes to. -/
def bearersOf (visit : Visit) (nodes : List Node) : List Node :=
  nodes.flatMap (Node.bearers visit)

/-- A search among `nodes` comes to `n`. -/
def Reached (visit : Visit) (nodes : List Node) (n : Node) : Prop :=
  ∃ above, Lineage visit nodes above n ∧ ∀ a ∈ above, a.isOpen = true

/-- A search among `nodes` goes below a node that has a barrier among its children, and a
name below it. -/
def Overlooks (visit : Visit) (nodes : List Node) : Prop :=
  ∃ a, Reached visit nodes a ∧ a.isOpen = true ∧ (∃ c ∈ a.children visit, c.isBarrier = true) ∧
    ∃ n, Reached visit (a.children visit) n ∧ n.ownName?.isSome = true

variable {visit : Visit} {nodes : List Node} {n : Node} {name : String} {kind : Symbol.Kind}

namespace Node

theorem bearers_of_isSome (named : n.ownName?.isSome = true) : n.bearers visit = [n] := by
  rw [bearers, if_pos named]

theorem bearers_of_isBarrier (barrier : n.isBarrier = true) : n.bearers visit = [] := by
  obtain ⟨own, ends⟩ := isBarrier_iff.1 barrier
  simp [bearers, own, ends]

theorem bearers_of_isOpen (isOpen : n.isOpen = true) :
    n.bearers visit = bearersOf visit (n.children visit) := by
  obtain ⟨own, through⟩ := isOpen_iff.1 isOpen
  have below : (n.children visit).attach.flatMap (fun c => c.1.bearers visit) =
      bearersOf visit (n.children visit) := by
    simp [bearersOf]
  rw [bearers, below]
  simp [own, through]

theorem isOpen_of_isSome (named : n.ownName?.isSome = true) : n.isOpen = false := by
  rw [isOpen, Option.isNone_eq_false_iff.2 named, Bool.false_and]

theorem isOpen_of_isBarrier (barrier : n.isBarrier = true) : n.isOpen = false := by
  rw [isOpen, (isBarrier_iff.1 barrier).2, Bool.not_true, Bool.and_false]

theorem isSome_of_isBarrier (barrier : n.isBarrier = true) : n.ownName?.isSome = false := by
  rw [(isBarrier_iff.1 barrier).1, Option.isSome_none]

theorem isSome_of_isOpen (isOpen : n.isOpen = true) : n.ownName?.isSome = false := by
  rw [(isOpen_iff.1 isOpen).1, Option.isSome_none]

/-- What a node offers. -/
theorem offer_eq (visit : Visit) (n : Node) :
    n.offer visit =
      match n.ownName? with
      | some place => .name place.name n.kind
      | none =>
        if n.isFunction || n.isCall then .barrier
        else (soleName visit (n.children visit)).toOffer := by
  have below : (n.children visit).attach.map (fun c => c.1.offer visit) =
      (n.children visit).map (offer visit) := by
    simp
  rw [offer, below]
  rfl

theorem offer_of_isBarrier (visit : Visit) (barrier : n.isBarrier = true) :
    n.offer visit = .barrier := by
  obtain ⟨own, ends⟩ := isBarrier_iff.1 barrier
  rw [offer_eq, own, ends]
  rfl

theorem offer_of_isOpen (isOpen : n.isOpen = true) :
    n.offer visit = (soleName visit (n.children visit)).toOffer := by
  obtain ⟨own, through⟩ := isOpen_iff.1 isOpen
  rw [offer_eq, own, through]
  rfl

theorem offer_of_isSome (visit : Visit) (named : n.ownName?.isSome = true) :
    ∃ name, n.offer visit = .name name n.kind ∧ n.Bears name n.kind := by
  obtain ⟨place, own⟩ := Option.isSome_iff_exists.1 named
  refine ⟨place.name, ?_, ?_, rfl⟩
  · rw [offer_eq, own]
  · rw [own, Option.map_some]

theorem offer_eq_barrier_iff : n.offer visit = .barrier ↔ n.isBarrier = true := by
  refine ⟨fun offered => ?_, offer_of_isBarrier visit⟩
  rcases n.named_or_barrier_or_open with named | barrier | isOpen
  · obtain ⟨name, offer, -⟩ := offer_of_isSome visit named
    simp [offer] at offered
  · exact barrier
  · rw [offer_of_isOpen isOpen] at offered
    cases sole : soleName visit (n.children visit) <;> simp [sole, SoleName.toOffer] at offered

/-- A node offers nothing if a search below it ends without a name. -/
theorem offer_eq_nothing_iff :
    n.offer visit = .nothing ↔
      n.isOpen = true ∧ soleName visit (n.children visit) = .anonymous := by
  rcases n.named_or_barrier_or_open with named | barrier | isOpen
  · obtain ⟨name, offer, -⟩ := offer_of_isSome visit named
    simp [offer, isOpen_of_isSome named]
  · simp [offer_of_isBarrier visit barrier, isOpen_of_isBarrier barrier]
  · rw [offer_of_isOpen isOpen]
    cases sole : soleName visit (n.children visit) <;> simp [isOpen, SoleName.toOffer]

/-- A node offers its own name or the one that a search below it finds. -/
theorem bears_or_of_offer (offered : n.offer visit = .name name kind) :
    n.Bears name kind ∨
      n.isOpen = true ∧ soleName visit (n.children visit) = .named name kind := by
  rcases n.named_or_barrier_or_open with named | barrier | isOpen
  · obtain ⟨name', offer, bears⟩ := offer_of_isSome visit named
    rw [offer] at offered
    cases offered
    exact Or.inl bears
  · simp [offer_of_isBarrier visit barrier] at offered
  · rw [offer_of_isOpen isOpen] at offered
    refine Or.inr ⟨isOpen, ?_⟩
    cases sole : soleName visit (n.children visit) <;> simp_all [SoleName.toOffer]

end Node

/-! ## What a search comes to -/

theorem reached_iff :
    Reached visit nodes n ↔
      n ∈ nodes ∨ ∃ a ∈ nodes, a.isOpen = true ∧ Reached visit (a.children visit) n := by
  constructor
  · rintro ⟨above, lineage, through⟩
    cases lineage with
    | here mem => exact Or.inl mem
    | @inside _ above a _ mem below =>
      rw [List.forall_mem_cons] at through
      exact Or.inr ⟨a, mem, through.1, above, below, through.2⟩
  · rintro (mem | ⟨a, mem, isOpen, above, below, through⟩)
    · exact ⟨[], .here mem, by simp⟩
    · exact ⟨a :: above, .inside mem below, List.forall_mem_cons.2 ⟨isOpen, through⟩⟩

theorem Reached.mono {nodes' : List Node} (h : Reached visit nodes n) (sub : nodes ⊆ nodes') :
    Reached visit nodes' n := by
  obtain ⟨above, lineage, through⟩ := h
  exact ⟨above, lineage.mono sub, through⟩

theorem mem_bearers_iff {a : Node} :
    n ∈ a.bearers visit ↔
      a.ownName?.isSome = true ∧ n = a ∨
        a.isOpen = true ∧ n ∈ bearersOf visit (a.children visit) := by
  rcases a.named_or_barrier_or_open with named | barrier | isOpen
  · simp [Node.bearers_of_isSome named, Node.isOpen_of_isSome named, named]
  · simp [Node.bearers_of_isBarrier barrier, Node.isOpen_of_isBarrier barrier,
      Node.isSome_of_isBarrier barrier]
  · simp [Node.bearers_of_isOpen isOpen, Node.isSome_of_isOpen isOpen, isOpen]

/-- The bearers are the nodes with names that the search comes to. -/
theorem mem_bearersOf_iff :
    n ∈ bearersOf visit nodes ↔ n.ownName?.isSome = true ∧ Reached visit nodes n := by
  constructor
  · have each : ∀ a : Node, n ∈ a.bearers visit →
        n.ownName?.isSome = true ∧ Reached visit [a] n := by
      intro a
      induction a using Node.induction_children visit with
      | step a ih =>
        rw [mem_bearers_iff]
        rintro (⟨named, rfl⟩ | ⟨isOpen, mem⟩)
        · exact ⟨named, reached_iff.2 (Or.inl (List.mem_singleton_self n))⟩
        · obtain ⟨c, hc, below⟩ := List.mem_flatMap.1 mem
          obtain ⟨named, reached⟩ := ih c hc below
          refine ⟨named, reached_iff.2 (Or.inr ⟨a, List.mem_singleton_self a, isOpen, ?_⟩)⟩
          exact reached.mono (by simpa using hc)
    intro mem
    obtain ⟨a, ha, below⟩ := List.mem_flatMap.1 mem
    obtain ⟨named, reached⟩ := each a below
    exact ⟨named, reached.mono (by simpa using ha)⟩
  · rintro ⟨named, above, lineage, through⟩
    induction lineage with
    | here mem => exact List.mem_flatMap.2 ⟨_, mem, mem_bearers_iff.2 (Or.inl ⟨named, rfl⟩)⟩
    | inside mem below ih =>
      rw [List.forall_mem_cons] at through
      exact List.mem_flatMap.2
        ⟨_, mem, mem_bearers_iff.2 (Or.inr ⟨through.1, ih named through.2⟩)⟩

theorem bearersOf_ne_nil_iff :
    bearersOf visit nodes ≠ [] ↔ ∃ n, Reached visit nodes n ∧ n.ownName?.isSome = true := by
  constructor
  · intro some
    obtain ⟨n, mem⟩ := List.exists_mem_of_ne_nil _ some
    exact ⟨n, (mem_bearersOf_iff.1 mem).symm⟩
  · rintro ⟨n, reached, named⟩
    exact List.ne_nil_of_mem (mem_bearersOf_iff.2 ⟨named, reached⟩)

/-! ## Barriers on the way -/

theorem overlooks_iff : Overlooks visit nodes ↔ ∃ b ∈ nodes, Overlooks visit [b] := by
  constructor
  · rintro ⟨a, reached, rest⟩
    rcases reached_iff.1 reached with mem | ⟨b, mem, isOpen, below⟩
    · exact ⟨a, mem, a, reached_iff.2 (Or.inl (List.mem_singleton_self a)), rest⟩
    · exact ⟨b, mem, a, reached_iff.2 (Or.inr ⟨b, List.mem_singleton_self b, isOpen, below⟩), rest⟩
  · rintro ⟨b, mem, a, reached, rest⟩
    exact ⟨a, reached.mono (by simpa using mem), rest⟩

theorem overlooks_singleton_iff :
    Overlooks visit [n] ↔ n.isOpen = true ∧
      ((∃ c ∈ n.children visit, c.isBarrier = true) ∧ bearersOf visit (n.children visit) ≠ [] ∨
        Overlooks visit (n.children visit)) := by
  rw [bearersOf_ne_nil_iff]
  constructor
  · rintro ⟨a, reached, isOpen, rest⟩
    rcases reached_iff.1 reached with mem | ⟨b, mem, isOpen', below⟩
    · obtain rfl := List.mem_singleton.1 mem
      exact ⟨isOpen, Or.inl rest⟩
    · obtain rfl := List.mem_singleton.1 mem
      exact ⟨isOpen', Or.inr ⟨a, below, isOpen, rest⟩⟩
  · rintro ⟨isOpen, rest | ⟨a, below, rest⟩⟩
    · exact ⟨n, reached_iff.2 (Or.inl (List.mem_singleton_self n)), isOpen, rest⟩
    · exact ⟨a, reached_iff.2 (Or.inr ⟨n, List.mem_singleton_self n, isOpen, below⟩), rest⟩

/-- Who overlooks a name has one below. -/
theorem bearers_ne_nil_of_overlooks (overlooks : Overlooks visit [n]) : n.bearers visit ≠ [] := by
  induction n using Node.induction_children visit with
  | step n ih =>
    obtain ⟨isOpen, ⟨-, named⟩ | below⟩ := overlooks_singleton_iff.1 overlooks
    · rwa [Node.bearers_of_isOpen isOpen]
    · obtain ⟨c, hc, overlooks⟩ := overlooks_iff.1 below
      obtain ⟨m, mem⟩ := List.exists_mem_of_ne_nil _ (ih c hc overlooks)
      rw [Node.bearers_of_isOpen isOpen]
      exact List.ne_nil_of_mem (List.mem_flatMap.2 ⟨c, hc, mem⟩)

/-! ## Who offers the name -/

/-- A name is found if one node offers it, and the others offer nothing. -/
theorem soleName_eq_named_iff :
    soleName visit nodes = .named name kind ↔
      ∃ h, nodes.filter (fun c => c.offer visit ≠ .nothing) = [h] ∧
        h.offer visit = .name name kind := by
  rw [soleName, SoleName.ofOffers_eq_named_iff, List.filter_map, List.map_eq_singleton_iff]
  rfl

/-- Where a name is found there is no barrier among the nodes. -/
theorem isBarrier_of_soleName (sole : soleName visit nodes = .named name kind) :
    ∀ c ∈ nodes, c.isBarrier = false := by
  intro c hc
  by_contra barrier
  have offer := Node.offer_of_isBarrier visit (by simpa using barrier)
  obtain ⟨h, heir, offered⟩ := soleName_eq_named_iff.1 sole
  have mem : c ∈ nodes.filter (fun c => c.offer visit ≠ .nothing) :=
    List.mem_filter.2 ⟨hc, by simp [offer]⟩
  rw [heir, List.mem_singleton] at mem
  rw [mem, offered] at offer
  simp at offer

/-- Who offers a name has a bearer of it. -/
theorem exists_bears_of_offer (offered : n.offer visit = .name name kind) :
    ∃ m ∈ n.bearers visit, m.Bears name kind := by
  induction n using Node.induction_children visit with
  | step n ih =>
    rcases Node.bears_or_of_offer offered with bears | ⟨isOpen, sole⟩
    · exact ⟨n, mem_bearers_iff.2 (Or.inl ⟨bears.isSome, rfl⟩), bears⟩
    · obtain ⟨h, heir, offered⟩ := soleName_eq_named_iff.1 sole
      have mem : h ∈ n.children visit :=
        List.mem_of_mem_filter (heir ▸ List.mem_singleton_self h)
      obtain ⟨m, below, bears⟩ := ih h mem offered
      exact ⟨m, mem_bearers_iff.2 (Or.inr ⟨isOpen, List.mem_flatMap.2 ⟨h, mem, below⟩⟩), bears⟩

/-- A name that is found is that of a node that the search comes to. -/
theorem exists_bears_of_soleName (sole : soleName visit nodes = .named name kind) :
    ∃ n ∈ bearersOf visit nodes, n.Bears name kind := by
  obtain ⟨h, heir, offered⟩ := soleName_eq_named_iff.1 sole
  obtain ⟨n, below, bears⟩ := exists_bears_of_offer offered
  have mem : h ∈ nodes := List.mem_of_mem_filter (heir ▸ List.mem_singleton_self h)
  exact ⟨n, List.mem_flatMap.2 ⟨h, mem, below⟩, bears⟩

/-! ## Whether it is the only one -/

/-- Who offers nothing has no bearers, unless names are overlooked. -/
theorem bearers_eq_nil_of_offer (offered : n.offer visit = .nothing)
    (heard : ¬Overlooks visit [n]) : n.bearers visit = [] := by
  induction n using Node.induction_children visit with
  | step n ih =>
    obtain ⟨isOpen, sole⟩ := Node.offer_eq_nothing_iff.1 offered
    rw [Node.bearers_of_isOpen isOpen]
    by_contra named
    -- A barrier beside a name would be overlooked, so there is none, and all children offer
    -- nothing.
    have through : Offer.barrier ∉ (n.children visit).map (Node.offer visit) := by
      intro mem
      obtain ⟨c, hc, offered⟩ := List.mem_map.1 mem
      have barrier := Node.offer_eq_barrier_iff.1 offered
      exact heard (overlooks_singleton_iff.2 ⟨isOpen, Or.inl ⟨⟨c, hc, barrier⟩, named⟩⟩)
    have nothing := SoleName.eq_nothing_of_ofOffers sole through
    refine named (List.flatMap_eq_nil_iff.2 fun c hc => ?_)
    refine ih c hc (nothing _ (List.mem_map_of_mem hc)) fun overlooks => heard ?_
    exact overlooks_singleton_iff.2 ⟨isOpen, Or.inr (overlooks_iff.2 ⟨c, hc, overlooks⟩)⟩

/-- The bearers of nodes are those of the ones that offer something if the others have none. -/
theorem bearersOf_filter (none : ∀ c ∈ nodes, c.offer visit = .nothing → c.bearers visit = []) :
    bearersOf visit (nodes.filter fun c => c.offer visit ≠ .nothing) = bearersOf visit nodes := by
  induction nodes with
  | nil => rfl
  | cons c nodes ih =>
    have rest := ih fun c hc => none c (List.mem_cons_of_mem _ hc)
    by_cases offered : c.offer visit = .nothing
    · rw [List.filter_cons_of_neg (by simp [offered]), rest]
      simp [bearersOf, none c List.mem_cons_self offered]
    · rw [List.filter_cons_of_pos (by simp [offered])]
      simpa [bearersOf] using rest

/-- Without names that are overlooked there is one bearer of the name that is found. -/
theorem bearersOf_eq_singleton_of_each
    (each : ∀ c ∈ nodes, c.offer visit = .name name kind → ¬Overlooks visit [c] →
      ∃ m, c.bearers visit = [m] ∧ m.Bears name kind)
    (sole : soleName visit nodes = .named name kind) (heard : ¬Overlooks visit nodes) :
    ∃ m, bearersOf visit nodes = [m] ∧ m.Bears name kind := by
  have none : ∀ c ∈ nodes, c.offer visit = .nothing → c.bearers visit = [] := fun c hc offered =>
    bearers_eq_nil_of_offer offered fun overlooks => heard (overlooks_iff.2 ⟨c, hc, overlooks⟩)
  obtain ⟨h, heir, offered⟩ := soleName_eq_named_iff.1 sole
  have mem : h ∈ nodes := List.mem_of_mem_filter (heir ▸ List.mem_singleton_self h)
  obtain ⟨m, only, bears⟩ := each h mem offered fun overlooks =>
    heard (overlooks_iff.2 ⟨h, mem, overlooks⟩)
  refine ⟨m, ?_, bears⟩
  rw [← bearersOf_filter none, heir]
  simpa [bearersOf] using only

theorem bearers_eq_singleton_of_offer (offered : n.offer visit = .name name kind)
    (heard : ¬Overlooks visit [n]) : ∃ m, n.bearers visit = [m] ∧ m.Bears name kind := by
  induction n using Node.induction_children visit with
  | step n ih =>
    rcases Node.bears_or_of_offer offered with bears | ⟨isOpen, sole⟩
    · exact ⟨n, Node.bearers_of_isSome bears.isSome, bears⟩
    · rw [Node.bearers_of_isOpen isOpen]
      exact bearersOf_eq_singleton_of_each ih sole fun overlooks =>
        heard (overlooks_singleton_iff.2 ⟨isOpen, Or.inr overlooks⟩)

/-- Names that are overlooked come on top of the one that is found. -/
theorem two_le_length_bearersOf_of_each
    (each : ∀ c ∈ nodes, c.offer visit = .name name kind → Overlooks visit [c] →
      2 ≤ (c.bearers visit).length)
    (sole : soleName visit nodes = .named name kind) (overlooks : Overlooks visit nodes) :
    2 ≤ (bearersOf visit nodes).length := by
  obtain ⟨h, heir, offered⟩ := soleName_eq_named_iff.1 sole
  obtain ⟨b, hb, overlooks⟩ := overlooks_iff.1 overlooks
  have parts := ((List.filter_append_perm (fun c => c.offer visit ≠ .nothing) nodes).flatMap_right
    (Node.bearers visit)).length_eq
  rw [List.flatMap_append, List.length_append, heir] at parts
  have one : (([h] : List Node).flatMap (Node.bearers visit)).length = (h.bearers visit).length := by
    simp
  by_cases silent : b.offer visit = .nothing
  · -- The one that is overlooked is not below the node that offers the name.
    obtain ⟨m, mem, -⟩ := exists_bears_of_offer offered
    have first := List.length_pos_of_mem mem
    obtain ⟨m', mem'⟩ := List.exists_mem_of_ne_nil _ (bearers_ne_nil_of_overlooks overlooks)
    have rest : b ∈ nodes.filter (fun c => !decide (c.offer visit ≠ .nothing)) :=
      List.mem_filter.2 ⟨hb, by simpa using silent⟩
    have second := List.length_pos_of_mem (List.mem_flatMap.2 ⟨b, rest, mem'⟩)
    unfold bearersOf
    omega
  · have mem : b ∈ nodes.filter (fun c => c.offer visit ≠ .nothing) :=
      List.mem_filter.2 ⟨hb, by simpa using silent⟩
    rw [heir, List.mem_singleton] at mem
    rw [mem] at overlooks hb
    have both := each h hb offered overlooks
    unfold bearersOf
    omega

theorem two_le_length_bearers (offered : n.offer visit = .name name kind)
    (overlooks : Overlooks visit [n]) : 2 ≤ (n.bearers visit).length := by
  induction n using Node.induction_children visit with
  | step n ih =>
    obtain ⟨isOpen, here | below⟩ := overlooks_singleton_iff.1 overlooks
    · rcases Node.bears_or_of_offer offered with bears | ⟨-, sole⟩
      · simp [Node.isOpen_of_isSome bears.isSome] at isOpen
      · obtain ⟨⟨c, hc, barrier⟩, -⟩ := here
        simp [isBarrier_of_soleName sole c hc] at barrier
    · rcases Node.bears_or_of_offer offered with bears | ⟨-, sole⟩
      · simp [Node.isOpen_of_isSome bears.isSome] at isOpen
      · rw [Node.bearers_of_isOpen isOpen]
        exact two_le_length_bearersOf_of_each ih sole below

/-- **When the name that is found is the only one.**  A search that finds a name has come to
a node that bears it.  That node is the only one with a name that it has come to, exactly if
the search went below no node that has both a function without a name or a call among its
children and a name below it. -/
theorem bearersOf_eq_singleton_iff (sole : soleName visit nodes = .named name kind) :
    (∀ n, n ∈ bearersOf visit nodes ↔ n.ownName?.isSome = true ∧ Reached visit nodes n) ∧
    (∃ n ∈ bearersOf visit nodes, n.Bears name kind) ∧
    ((∃ n, bearersOf visit nodes = [n] ∧ n.Bears name kind) ↔ ¬Overlooks visit nodes) := by
  refine ⟨fun n => mem_bearersOf_iff, exists_bears_of_soleName sole, ?_, ?_⟩
  · rintro ⟨n, only, -⟩ overlooks
    have several := two_le_length_bearersOf_of_each
      (fun c _ offered overlooks => two_le_length_bearers offered overlooks) sole overlooks
    simp [only] at several
  · exact bearersOf_eq_singleton_of_each
      (fun c _ offered heard => bearers_eq_singleton_of_offer offered heard) sole

/-- The variable of `var a=1;` is the only one that the search comes to. -/
theorem bearersOf_oneVariable :
    let a : Node := .mk 4 7 (.variableDeclarator (some ⟨"a", 4, 5⟩) (some (.mk 6 7 .literal)))
    let nodes : List Node := [a, .mk 8 9 .literal]
    soleName .each nodes = .named "a" .var ∧ ¬Overlooks .each nodes ∧
      ∃ n, bearersOf .each nodes = [n] ∧ n.Bears "a" .var := by
  intro a nodes
  have sole : soleName .each nodes = .named "a" .var := by cbv
  have only : ∃ n, bearersOf .each nodes = [n] ∧ n.Bears "a" .var :=
    ⟨a, by cbv, by cbv, rfl⟩
  exact ⟨sole, (bearersOf_eq_singleton_iff sole).2.2.1 only, only⟩

/-- What stands inside `if([{a:1},f()])var b=2;`, where the name `a` is beside a call. -/
def besideCall : List Node :=
  [.mk 3 14 (.arrayExpression
    [.mk 4 9 (.objectExpression
      [.mk 5 8 (.property (some (.mk 5 6 (.identifier "a"))) (.mk 7 8 .literal))]),
     .mk 10 13 (.callExpression (.mk 10 11 (.identifier "f")) [])]),
   .mk 15 23 (.variableDeclaration
    [.mk 19 22 (.variableDeclarator (some ⟨"b", 19, 20⟩) (some (.mk 21 22 .literal)))])]

/-- A search that comes to two nodes with names finds the second one's, under which the
whole statement is listed then. -/
theorem soleName_besideCall :
    (∀ visit, soleName visit besideCall = .named "b" .var) ∧
    (∀ visit, ¬∃! n, n.ownName?.isSome = true ∧ Reached visit besideCall n) ∧
    (∀ visit, (bearersOf visit besideCall).map Node.ownName? =
      [some ⟨"a", 5⟩, some ⟨"b", 19⟩]) ∧
    ∃ test consequent, besideCall = [test, consequent] ∧
      Node.treatment (fun _ => false) (.mk 0 23 (.ifStatement test consequent none)) =
        ⟨some "b", .var, false⟩ := by
  have names : ∀ visit, (bearersOf visit besideCall).map Node.ownName? =
      [some ⟨"a", 5⟩, some ⟨"b", 19⟩] := by
    intro visit
    cases visit <;> cbv
  refine ⟨fun visit => by cases visit <;> cbv, ?_, names, _, _, rfl, by cbv⟩
  rintro visit ⟨n, -, unique⟩
  have same : ∀ place ∈ (bearersOf visit besideCall).map Node.ownName?, place = n.ownName? := by
    intro place called
    obtain ⟨m, mem, rfl⟩ := List.mem_map.1 called
    rw [unique m (mem_bearersOf_iff.1 mem)]
  rw [names visit] at same
  have first := same (some ⟨"a", 5⟩) (by simp)
  have second := same (some ⟨"b", 19⟩) (by simp)
  exact absurd (first.trans second.symm) (by decide)

end SizeAtlas.Script
