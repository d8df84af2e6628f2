import SizeAtlas.Proofs.Script.Nesting
import SizeAtlas.Proofs.Script.Walk

/-!
# Declarators of one statement

The declarators of one statement give away the bytes of the statement.  Each has at least its
own bytes, and nothing of the statement is left over but what stands between two declarators
beside the comma.  So in code without blanks they give away just the statement.

## Main definitions

* `Node.Declares` — a statement that holds its declarators in order.

## Main statements

* `Node.Declares.shares_eq` — which bytes each declarator gives away.
* `Node.sum_shares_of_declares` — how many they are together.
-/

namespace SizeAtlas.Script.Node

/-- `statement` declares two or more variables by the declarators `ds`, which lie in order
inside it with a byte or more between neighbours. -/
structure Declares (statement : Node) (ds : List Node) : Prop where
  form : statement.form = .variableDeclaration ds
  two : 2 ≤ ds.length
  declarators : ∀ d ∈ ds, d.isDeclarator = true
  ordered : ∀ d ∈ ds, d.start ≤ d.stop
  inside : ∀ d ∈ ds, d.Inside statement.start statement.stop
  chain : ds.IsChain Before

namespace Declares

variable {statement : Node} {ds : List Node}

/-- Each declarator gives away what it has by its place. -/
theorem shares_eq (h : statement.Declares ds) (visit : Visit) :
    statement.shares visit =
      ds.zipIdx.map fun (d, i) => (d, declaratorShare statement ds.length i d) := by
  rw [shares, children_of_two_le h.form h.two]
  refine List.map_congr_left ?_
  rintro ⟨d, i⟩ mem
  have hd : d ∈ ds := (List.mem_zipIdx' mem).2 ▸ List.getElem_mem _
  simp only [shareAt, h.form, h.two, h.declarators d hd, and_self, if_true]

theorem map_snd_shares (h : statement.Declares ds) (visit : Visit) :
    (statement.shares visit).map Prod.snd =
      ds.zipIdx.map fun (d, i) => declaratorShare statement ds.length i d := by
  rw [h.shares_eq, List.map_map]
  rfl

/-- Between neighbours there is a byte or more. -/
theorem pos_of_mem_gaps (h : statement.Declares ds) : ∀ g ∈ gaps ds, 1 ≤ g := by
  have chain := h.chain
  clear h
  induction ds with
  | nil => simp [gaps]
  | cons d ds ih =>
    cases ds with
    | nil => simp
    | cons e ds =>
      obtain ⟨after, later⟩ := List.isChain_cons_cons.1 chain
      rw [gaps_cons_cons, List.forall_mem_cons]
      unfold Before at after
      exact ⟨by omega, ih later⟩

end Declares

/-- **The declarators of one statement share it out**, each once in their order.  Together
they give away the bytes of the statement but for those between neighbours beyond the one
comma, so never more than the statement has, and all of it exactly if every gap is a single
byte.  Each gives away at least its own bytes. -/
theorem sum_shares_of_declares {statement : Node} {ds : List Node} (h : statement.Declares ds)
    (visit : Visit) :
    (statement.shares visit).map Prod.fst = ds ∧
    ((statement.shares visit).map Prod.snd).sum + ((gaps ds).map (· - 1)).sum =
      statement.length ∧
    ((statement.shares visit).map Prod.snd).sum ≤ statement.length ∧
    (((statement.shares visit).map Prod.snd).sum = statement.length ↔ ∀ g ∈ gaps ds, g = 1) ∧
    ∀ s ∈ statement.shares visit, s.1.length ≤ s.2 := by
  have sum := sum_declaratorShare statement h.two h.chain h.inside h.ordered
  rw [← h.map_snd_shares visit] at sum
  refine ⟨?_, sum, (Nat.le_add_right _ _).trans sum.le, ?_, ?_⟩
  · rw [map_fst_shares, children_of_two_le h.form h.two]
  · have exact_iff : ((statement.shares visit).map Prod.snd).sum = statement.length ↔
        ((gaps ds).map (· - 1)).sum = 0 := by omega
    rw [exact_iff, List.sum_eq_zero_iff_forall_eq_nat, List.forall_mem_map]
    refine forall₂_congr fun g mem => ?_
    have pos := h.pos_of_mem_gaps g mem
    omega
  · rw [h.shares_eq, List.forall_mem_map]
    rintro ⟨d, i⟩ mem
    have hd : d ∈ ds := (List.mem_zipIdx' mem).2 ▸ List.getElem_mem _
    exact length_le_declaratorShare (h.inside d hd)

/-- The declarators of `var foo=4, bar=2,baz=3;`. -/
def threeDeclarators : List Node :=
  [.mk 4 9 (.variableDeclarator (some ⟨"foo", 4, 7⟩) (some (.mk 8 9 .literal))),
    .mk 11 16 (.variableDeclarator (some ⟨"bar", 11, 14⟩) (some (.mk 15 16 .literal))),
    .mk 17 22 (.variableDeclarator (some ⟨"baz", 17, 20⟩) (some (.mk 21 22 .literal)))]

/-- The blank before the second declarator is not given away. -/
theorem sum_shares_threeDeclarators :
    let statement : Node := .mk 0 23 (.variableDeclaration threeDeclarators)
    statement.Declares threeDeclarators ∧ gaps threeDeclarators = [2, 1] ∧
      (statement.shares .each).map Prod.snd = [9, 6, 7] ∧
      ((statement.shares .each).map Prod.snd).sum + (1 + 0) = statement.length := by
  intro statement
  have layout : statement.Declares threeDeclarators :=
    { form := rfl
      two := by decide
      declarators := by simp [threeDeclarators, isDeclarator, Node.form]
      ordered := by simp [threeDeclarators, start, stop]
      inside := by simp [threeDeclarators, statement, Inside, start, stop]
      chain := by simp [threeDeclarators, Before, start, stop] }
  exact ⟨layout, rfl, by decide, (sum_shares_of_declares layout .each).2.1⟩

end SizeAtlas.Script.Node
