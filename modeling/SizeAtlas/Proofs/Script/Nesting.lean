import Mathlib
import SizeAtlas.Script.Shares

/-!
# Nodes that lie inside each other

In the tree of a script every node lies inside the one above it and shares no byte
with the nodes beside it.  Then the nodes below a node have no more bytes to give
away than the node has, also where declarators share out their statement.

## Main definitions

* `Node.bytes` — the offsets of the bytes of a node.
* `Node.WellNested` — a node in which everything lies so.
* `Node.gaps` — the bytes between neighbours.
* `NestedIn` — statements that lie so in a source.

## Main statements

* `sum_length_le` — nodes without a common byte fit into what they lie in.
* `sum_declaratorShare` — declarators share out their statement but for wide gaps.
* `Node.WellNested.sum_shares_le` — nor do the nodes below any node.
-/

namespace SizeAtlas.Script

namespace Node

/-! ## Bytes -/

/-- The offsets of the bytes of a node. -/
def bytes (n : Node) : List Nat := List.range' n.start n.length

theorem mem_bytes {n : Node} {offset : Nat} :
    offset ∈ n.bytes ↔ n.start ≤ offset ∧ offset < n.stop := by
  rw [bytes, List.mem_range'_1, length]
  omega

/-- A node lies between two offsets. -/
def Inside (first last : Nat) (n : Node) : Prop := first ≤ n.start ∧ n.stop ≤ last

/-- Two nodes have no byte in common. -/
def Apart (m n : Node) : Prop := List.Disjoint m.bytes n.bytes

end Node

/-- Nodes without a common byte have together no more bytes than there are between
the offsets between which they lie. -/
theorem sum_length_le {first last : Nat} {nodes : List Node}
    (inside : ∀ n ∈ nodes, n.Inside first last) (apart : nodes.Pairwise Node.Apart) :
    (nodes.map Node.length).sum ≤ last - first := by
  have nodup : (nodes.flatMap Node.bytes).Nodup := by
    rw [List.nodup_flatMap]
    exact ⟨fun n _ => List.nodup_range', apart⟩
  have sub : nodes.flatMap Node.bytes ⊆ List.range' first (last - first) := by
    intro offset h
    obtain ⟨n, hn, mem⟩ := List.mem_flatMap.1 h
    have := Node.mem_bytes.1 mem
    have := inside n hn
    rw [List.mem_range'_1]
    unfold Node.Inside at this
    omega
  have le := (List.subperm_of_subset nodup sub).length_le
  rw [List.length_range', List.length_flatMap] at le
  simpa [Node.bytes] using le

/-! ## Well-nested nodes -/

/-- Two declarators are in order, with a byte for the comma between them. -/
def Node.Before (d e : Node) : Prop := d.stop < e.start

/-- The numbers of bytes between neighbours. -/
def Node.gaps (ds : List Node) : List Nat := List.zipWith (fun d e => e.start - d.stop) ds ds.tail

@[simp] theorem Node.gaps_singleton (d : Node) : gaps [d] = [] := rfl

@[simp] theorem Node.gaps_cons_cons (d e : Node) (ds : List Node) :
    gaps (d :: e :: ds) = (e.start - d.stop) :: gaps (e :: ds) := rfl

/-- Everything in a node lies inside what is above it, apart from what is beside
it; the declarators of one statement are in order with a byte between them. -/
inductive Node.WellNested : Node → Prop
  | intro {n : Node} (ordered : n.start ≤ n.stop)
      (inside : ∀ c ∈ n.form.parts, c.Inside n.start n.stop)
      (apart : n.form.parts.Pairwise Apart)
      (gaps : ∀ declarations, n.form = .variableDeclaration declarations →
        declarations.IsChain Before)
      (below : ∀ c ∈ n.form.parts, WellNested c) : WellNested n

/-- The statements of a script are well nested and lie apart from each other in a
source of `size` bytes. -/
structure NestedIn (size : Nat) (body : List Node) : Prop where
  inside : ∀ n ∈ body, n.Inside 0 size
  apart : body.Pairwise Node.Apart
  nested : ∀ n ∈ body, n.WellNested

namespace Node.WellNested

variable {n : Node}

theorem ordered (h : n.WellNested) : n.start ≤ n.stop := by
  cases h
  assumption

theorem inside (h : n.WellNested) : ∀ c ∈ n.form.parts, c.Inside n.start n.stop := by
  cases h
  assumption

theorem apart (h : n.WellNested) : n.form.parts.Pairwise Apart := by
  cases h
  assumption

theorem gaps (h : n.WellNested) {declarations : List Node}
    (form : n.form = .variableDeclaration declarations) : declarations.IsChain Before := by
  cases h with
  | intro _ _ _ gaps _ => exact gaps declarations form

theorem of_mem_parts (h : n.WellNested) : ∀ c ∈ n.form.parts, c.WellNested := by
  cases h
  assumption

end Node.WellNested

/-! ## Declarators -/

section Declarators

variable {statement : Node}

/-- No declarator gives away less than its own bytes. -/
theorem length_le_declaratorShare {count i : Nat} {d : Node}
    (inside : d.Inside statement.start statement.stop) :
    d.length ≤ Node.declaratorShare statement count i d := by
  unfold Node.Inside at inside
  unfold Node.declaratorShare Node.length
  split
  · omega
  · split <;> omega

/-- The declarators from the `i`-th on, which come after `d`, share out what is left of the
statement but for the bytes between them beyond one comma each. -/
theorem sum_declaratorShare_from (count i : Nat) {d e : Node} {ds : List Node} (hi : 0 < i)
    (hcount : i + (e :: ds).length = count) (chain : (d :: e :: ds).IsChain Node.Before)
    (inside : ∀ x ∈ e :: ds, x.Inside statement.start statement.stop)
    (ordered : ∀ x ∈ e :: ds, x.start ≤ x.stop) :
    (((e :: ds).zipIdx i).map fun (x, j) => Node.declaratorShare statement count j x).sum +
      ((Node.gaps (d :: e :: ds)).map (· - 1)).sum = statement.stop - d.stop := by
  induction ds generalizing d e i with
  | nil =>
    -- The last declarator takes what is left of the statement.
    have after : d.stop < e.start := (List.isChain_cons_cons.1 chain).1
    have within : e.stop ≤ statement.stop := (inside e (by simp)).2
    have pos : e.start ≤ e.stop := ordered e (by simp)
    have last : i = count - 1 := by simp at hcount; omega
    simp only [Node.declaratorShare, if_neg (show i ≠ 0 by omega), if_pos last,
      Nat.max_eq_left within, List.zipIdx_cons, List.zipIdx_nil, List.map_cons, List.map_nil,
      List.sum_cons, List.sum_nil, Node.gaps_cons_cons, Node.gaps_singleton]
    omega
  | cons x ds ih =>
    obtain ⟨after, later⟩ := List.isChain_cons_cons.1 chain
    have within : e.stop ≤ statement.stop := (inside e (by simp)).2
    have pos : e.start ≤ e.stop := ordered e (by simp)
    rw [List.length_cons] at hcount
    have rest := ih (i + 1) (by omega) (by omega) later
      (fun y hy => inside y (List.mem_cons_of_mem e hy))
      (fun y hy => ordered y (List.mem_cons_of_mem e hy))
    have inner : i ≠ count - 1 := by simp at hcount; omega
    rw [List.zipIdx_cons, List.map_cons, List.sum_cons, Node.gaps_cons_cons, List.map_cons,
      List.sum_cons]
    simp only [Node.declaratorShare, if_neg (show i ≠ 0 by omega), if_neg inner] at rest ⊢
    unfold Node.Before at after
    omega

/-- **Two or more declarators share out their statement** but for the bytes between them
beyond one comma each: the first takes what is before it, each later one the byte before it,
and the last one what is after it. -/
theorem sum_declaratorShare (statement : Node) {ds : List Node} (two : 2 ≤ ds.length)
    (chain : ds.IsChain Node.Before)
    (inside : ∀ d ∈ ds, d.Inside statement.start statement.stop)
    (ordered : ∀ d ∈ ds, d.start ≤ d.stop) :
    (ds.zipIdx.map fun (d, i) => Node.declaratorShare statement ds.length i d).sum +
      ((Node.gaps ds).map (· - 1)).sum = statement.length := by
  match ds, two with
  | d :: e :: es, _ =>
    have rest := sum_declaratorShare_from (d :: e :: es).length 1 (by omega)
      (by simp; omega) chain (fun x hx => inside x (List.mem_cons_of_mem d hx))
      (fun x hx => ordered x (List.mem_cons_of_mem d hx))
    have first := inside d (by simp)
    have pos := ordered d (by simp)
    unfold Node.Inside at first
    rw [List.zipIdx_cons, List.map_cons, List.sum_cons, Nat.zero_add, Node.length]
    simp only [Node.declaratorShare, if_pos] at rest ⊢
    omega

/-- Two or more declarators share out at most their statement. -/
theorem sum_declaratorShare_le (statement : Node) {ds : List Node} (two : 2 ≤ ds.length)
    (chain : ds.IsChain Node.Before)
    (inside : ∀ d ∈ ds, d.Inside statement.start statement.stop)
    (ordered : ∀ d ∈ ds, d.start ≤ d.stop) :
    (ds.zipIdx.map fun (d, i) => Node.declaratorShare statement ds.length i d).sum ≤
      statement.length :=
  (Nat.le_add_right _ _).trans (sum_declaratorShare statement two chain inside ordered).le

end Declarators

/-! ## Shares -/

theorem Node.mem_parts_of_initializer? {d c : Node} (h : d.initializer? = some c) :
    c ∈ d.form.parts := by
  unfold initializer? at h
  split at h
  · rename_i form
    simp [form, h, Form.parts]
  · simp at h

/-- The children of a node are its parts, unless it declares one variable. -/
theorem Node.children_cases (visit : Visit) (n : Node) :
    n.children visit = n.form.parts ∨
      ∃ d, n.form = .variableDeclaration [d] ∧ n.children visit = d.initializer?.toList := by
  unfold children
  split
  · rename_i d form
    exact Or.inr ⟨d, form, rfl⟩
  · exact Or.inl rfl

/-- The children of a statement with two or more declarations are these. -/
theorem Node.children_of_two_le {n : Node} {visit : Visit} {ds : List Node}
    (form : n.form = .variableDeclaration ds) (two : 2 ≤ ds.length) :
    n.children visit = ds := by
  rcases n.children_cases visit with parts | ⟨d, one, _⟩
  · rw [parts, form, Form.parts]
  · rw [form, Form.variableDeclaration.injEq] at one
    simp [one] at two

namespace Node.WellNested

variable {n : Node} {visit : Visit}

theorem children_inside (h : n.WellNested) : ∀ c ∈ n.children visit, c.Inside n.start n.stop := by
  intro c hc
  rcases n.children_cases visit with parts | ⟨d, form, children⟩
  · exact h.inside c (parts ▸ hc)
  · rw [children, Option.mem_toList] at hc
    have hd : d ∈ n.form.parts := by simp [form, Form.parts]
    have outer := h.inside d hd
    have inner := (h.of_mem_parts d hd).inside c (mem_parts_of_initializer? hc)
    unfold Inside at outer inner ⊢
    omega

theorem children_apart (h : n.WellNested) : (n.children visit).Pairwise Apart := by
  rcases n.children_cases visit with parts | ⟨d, form, children⟩
  · exact parts ▸ h.apart
  · rw [children]
    cases d.initializer? with
    | none => exact .nil
    | some c => exact List.pairwise_singleton Apart c

theorem of_mem_children (h : n.WellNested) : ∀ c ∈ n.children visit, c.WellNested := by
  intro c hc
  rcases n.children_cases visit with parts | ⟨d, form, children⟩
  · exact h.of_mem_parts c (parts ▸ hc)
  · rw [children, Option.mem_toList] at hc
    have hd : d ∈ n.form.parts := by simp [form, Form.parts]
    exact (h.of_mem_parts d hd).of_mem_parts c (mem_parts_of_initializer? hc)

/-- No child gives away less than its own bytes. -/
theorem length_le_shareAt (h : n.WellNested) {i : Nat} {c : Node} (hc : c ∈ n.children visit) :
    c.length ≤ n.shareAt i c := by
  unfold shareAt
  split
  · split
    · exact length_le_declaratorShare (h.children_inside c hc)
    · exact Nat.le_refl _
  · exact Nat.le_refl _

theorem length_le_of_mem_shares (h : n.WellNested) {s : Node × Nat} (hs : s ∈ n.shares visit) :
    s.1.length ≤ s.2 := by
  have hc := mem_children_of_mem_shares hs
  simp only [shares, List.mem_map, Prod.exists] at hs
  obtain ⟨c, i, _, rfl⟩ := hs
  exact h.length_le_shareAt hc

theorem sum_map_shareAt_le (h : n.WellNested) :
    (((n.children visit).zipIdx).map fun (c, i) => n.shareAt i c).sum ≤ n.length := by
  by_cases many : ∃ ds, n.form = .variableDeclaration ds ∧ 2 ≤ ds.length
  · obtain ⟨ds, form, two⟩ := many
    have parts : n.form.parts = ds := by simp [form, Form.parts]
    have children : n.children visit = ds := children_of_two_le form two
    have all := sum_declaratorShare_le n two (h.gaps form)
      (fun d hd => h.inside d (parts ▸ hd))
      (fun d hd => (h.of_mem_parts d (parts ▸ hd)).ordered)
    rw [children]
    refine Nat.le_trans (List.sum_le_sum fun x hx => ?_) all
    have hd : x.1 ∈ ds := by
      have := (List.mem_zipIdx' (x := x.1) (i := x.2) hx).2
      exact this ▸ List.getElem_mem _
    simp only [shareAt, form]
    split
    · exact Nat.le_refl _
    · exact length_le_declaratorShare (h.inside _ (parts ▸ hd))
  · -- Elsewhere every child gives away its own bytes.
    have own : ∀ i c, n.shareAt i c = c.length := by
      intro i c
      unfold shareAt
      split
      · rename_i ds form
        exact if_neg fun two => many ⟨ds, form, two.1⟩
      · rfl
    have lengths : (n.children visit).zipIdx.map (fun (c, i) => n.shareAt i c) =
        (n.children visit).map length := by
      have := congrArg (List.map length) (List.zipIdx_map_fst 0 (n.children visit))
      simpa only [own, List.map_map, Function.comp_def] using this
    rw [lengths]
    exact sum_length_le h.children_inside h.children_apart

/-- The nodes below a node give away no more bytes than it has. -/
theorem sum_shares_le (h : n.WellNested) : ((n.shares visit).map Prod.snd).sum ≤ n.length := by
  rw [shares, List.map_map]
  exact h.sum_map_shareAt_le

end Node.WellNested

end SizeAtlas.Script
