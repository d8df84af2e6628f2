import Mathlib.Data.List.Perm.Basic

/-!
# What a stable sort depends on

A stable sort leaves the elements that may stand either way in the order in which they
came.  So the sorted list is known from the elements of each such class in their order,
and two lists that agree on these are sorted alike.

## Main definitions

* `Sorting.tied` — elements that may stand either way.

## Main statements

* `Sorting.filter_tied_mergeSort` — a class keeps its order.
* `Sorting.pairwise_mergeSort_of_tied` — what held of tied elements in turn still holds.
* `Sorting.mergeSort_congr` — the classes determine the sorted list.
* `Sorting.filter_mergeSort` — the elements that are picked are sorted among themselves.
-/

namespace SizeAtlas.Sorting

variable {α : Type} {le : α → α → Bool}

/-- Whether each of two elements may stand before the other. -/
def tied (le : α → α → Bool) (a b : α) : Bool := le a b && le b a

theorem tied_iff {a b : α} : tied le a b = true ↔ le a b = true ∧ le b a = true := by
  rw [tied, Bool.and_eq_true]

section

variable (trans : ∀ a b c, le a b = true → le b c = true → le a c = true)
  (total : ∀ a b, (le a b || le b a) = true)
include total

theorem tied_self (a : α) : tied le a a = true := by
  have here := total a a
  rw [Bool.or_self] at here
  exact tied_iff.2 ⟨here, here⟩

/-- Two sorted lists are one if they agree on every class of tied elements.  The least of
both classes at the front stands at the front of either list. -/
theorem eq_of_filter_tied {l l' : List α} (sorted : l.Pairwise fun a b => le a b = true)
    (sorted' : l'.Pairwise fun a b => le a b = true)
    (same : ∀ a, l.filter (tied le a) = l'.filter (tied le a)) : l = l' := by
  induction l generalizing l' with
  | nil =>
    cases l' with
    | nil => rfl
    | cons b l' =>
      have at_b := same b
      rw [List.filter_cons_of_pos (tied_self total b)] at at_b
      exact absurd at_b (List.cons_ne_nil _ _).symm
  | cons a l ih =>
    cases l' with
    | nil =>
      have at_a := same a
      rw [List.filter_cons_of_pos (tied_self total a)] at at_a
      exact absurd at_a (List.cons_ne_nil _ _)
    | cons b l' =>
      obtain ⟨least, rest⟩ := List.pairwise_cons.1 sorted
      obtain ⟨least', rest'⟩ := List.pairwise_cons.1 sorted'
      have mem : ∀ x, x ∈ a :: l ↔ x ∈ b :: l' := by
        intro x
        have at_x := congrArg (x ∈ ·) (same x)
        simpa [tied_self total x] using at_x
      have front : tied le a b = true := by
        refine tied_iff.2 ⟨?_, ?_⟩
        · rcases List.mem_cons.1 ((mem b).2 List.mem_cons_self) with rfl | later
          · exact (tied_iff.1 (tied_self total b)).1
          · exact least b later
        · rcases List.mem_cons.1 ((mem a).1 List.mem_cons_self) with rfl | later
          · exact (tied_iff.1 (tied_self total a)).1
          · exact least' a later
      have heads := same a
      rw [List.filter_cons_of_pos (tied_self total a), List.filter_cons_of_pos front] at heads
      obtain rfl := (List.cons.inj heads).1
      refine congrArg (a :: ·) (ih rest rest' ?_)
      intro c
      have at_c := same c
      rw [List.filter_cons, List.filter_cons] at at_c
      split at at_c
      · exact (List.cons.inj at_c).2
      · exact at_c

include trans

/-- Sorting leaves tied elements in their order. -/
theorem filter_tied_mergeSort (a : α) (l : List α) :
    (l.mergeSort le).filter (tied le a) = l.filter (tied le a) := by
  have together : (l.filter (tied le a)).Pairwise fun b c => le b c = true := by
    apply List.pairwise_of_forall_mem_list
    intro b hb c hc
    have first := tied_iff.1 (List.mem_filter.1 hb).2
    have second := tied_iff.1 (List.mem_filter.1 hc).2
    exact trans b a c first.2 second.1
  have kept := (List.sublist_mergeSort trans total together List.filter_sublist).filter (tied le a)
  simp only [List.filter_filter, Bool.and_self] at kept
  have count := ((List.mergeSort_perm l le).filter (tied le a)).length_eq
  exact (kept.eq_of_length count.symm).symm

/-- What holds of each two elements in turn still holds after sorting where they are tied. -/
theorem pairwise_mergeSort_of_tied {R : α → α → Prop} {l : List α} (h : l.Pairwise R) :
    (l.mergeSort le).Pairwise fun a b => le b a = true → R a b := by
  rw [List.pairwise_iff_forall_sublist] at h ⊢
  intro a b sub back
  have forth : le a b = true :=
    List.pairwise_iff_forall_sublist.1 (List.pairwise_mergeSort trans total l) sub
  have pair : [a, b].filter (tied le a) = [a, b] := by
    simp [tied, forth, back, (tied_iff.1 (tied_self total a)).1]
  have kept := sub.filter (tied le a)
  rw [pair, filter_tied_mergeSort trans total] at kept
  exact h (kept.trans List.filter_sublist)

/-- **A stable sort depends only on the order within each class of tied elements.** -/
theorem mergeSort_congr {l l' : List α}
    (same : ∀ a, l.filter (tied le a) = l'.filter (tied le a)) :
    l.mergeSort le = l'.mergeSort le := by
  refine eq_of_filter_tied total (List.pairwise_mergeSort trans total l)
    (List.pairwise_mergeSort trans total l') ?_
  intro a
  rw [filter_tied_mergeSort trans total, filter_tied_mergeSort trans total, same]

/-- **What is picked from a sorted list is what was picked before, sorted.** -/
theorem filter_mergeSort (p : α → Bool) (l : List α) :
    (l.mergeSort le).filter p = (l.filter p).mergeSort le := by
  refine eq_of_filter_tied total ((List.pairwise_mergeSort trans total l).sublist
    List.filter_sublist) (List.pairwise_mergeSort trans total _) ?_
  intro a
  rw [filter_tied_mergeSort trans total, List.filter_comm, filter_tied_mergeSort trans total,
    List.filter_comm]

end

end SizeAtlas.Sorting
