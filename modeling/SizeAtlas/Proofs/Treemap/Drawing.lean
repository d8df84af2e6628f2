import SizeAtlas.Proofs.Sorting
import SizeAtlas.Proofs.Treemap.Aggregation
import SizeAtlas.Proofs.Treemap.Block

/-!
# What a drawn treemap shows

Every box down to the depth of the drawing is drawn, the boxes that it is divided among stand
in one order, and besides them there is nothing but boxes for own bytes.  The order of the
parts of a box does not show: among the drawn parts of a box no two have one name, and the
box for own bytes always comes after a part of the same name and size.  A box that fits into
a word with all inside it is drawn with its own size.

## Main definitions

* `Block.Leads` — names that lead from one drawn box to another.
* `Block.Depicts` — what a drawn box shows of a box.
* `Block.Weighs` — that it shows its size and those of its parts.

## Main statements

* `Parcel.leads_toBlock` — where a box is drawn.
* `Parcel.of_leads_toBlock` — what is drawn at the end of a path.
* `Parcel.toBlock_eq_of_reordered` — the order of parts does not show.
* `Parcel.toBlock_addAll` — what the drawing of a treemap shows.
-/

namespace SizeAtlas

namespace Block

/-! ## Boxes inside drawn boxes -/

/-- The names in `path` lead from one drawn box to another one inside it. -/
inductive Leads : Block → List String → Block → Prop
  | here {b : Block} : Leads b [] b
  | inside {b c d : Block} {path : List String} (mem : c ∈ b.parts) (below : Leads c path d) :
    Leads b (c.name :: path) d

/-- What the drawn box `b` shows of the box `p`, if there may be `levels` more levels inside
it: its name, and if it is divided then its parts and own bytes, the larger first and of equal
ones that with the smaller name. -/
structure Depicts (b : Block) (p : Parcel) (levels : Nat) : Prop where
  name : b.name = p.name
  undivided : (∃ value, b = .leaf p.name value) ↔ p.parts = [] ∨ levels = 0
  ordered : b.parts.Pairwise fun x y => y.size < x.size ∨ x.size = y.size ∧ x.name ≤ y.name
  entries : p.parts ≠ [] → levels ≠ 0 →
    (b.parts.map Block.name).Perm
      (p.parts.map Parcel.name ++ if 0 < p.ownSize then [ownName] else [])

/-- The drawn box `b` has the size of the box `p`, and if it is divided then each of its entries
has the size of the part that it is for, or of the own bytes. -/
structure Weighs (b : Block) (p : Parcel) (levels : Nat) : Prop where
  size : b.size = p.size
  entries : p.parts ≠ [] → levels ≠ 0 →
    (b.parts.map fun x => (x.name, x.size)).Perm
      (p.parts.map (fun q => (q.name, q.size)) ++
        if 0 < p.ownSize then [(ownName, p.ownSize)] else [])

variable {b c d : Block} {path : List String}

theorem inOrder_iff :
    inOrder b c = true ↔ c.size < b.size ∨ b.size = c.size ∧ b.name ≤ c.name := by
  rw [inOrder, Bool.or_eq_true, Bool.and_eq_true, decide_eq_true_eq, beq_iff_eq,
    Bool.not_eq_true', decide_eq_false_iff_not, String.not_lt]

theorem inOrder_trans (b c d : Block) (hbc : inOrder b c = true) (hcd : inOrder c d = true) :
    inOrder b d = true := by
  rw [inOrder_iff] at *
  rcases hbc with larger | ⟨same, le⟩
  · exact .inl (by omega)
  · rcases hcd with larger' | ⟨same', le'⟩
    · exact .inl (by omega)
    · exact .inr ⟨same.trans same', le_trans le le'⟩

theorem inOrder_total (b c : Block) : (inOrder b c || inOrder c b) = true := by
  rw [Bool.or_eq_true, inOrder_iff, inOrder_iff]
  rcases Nat.lt_trichotomy b.size c.size with smaller | same | larger
  · exact .inr (.inl smaller)
  · rcases le_total b.name c.name with le | le
    · exact .inl (.inr ⟨same, le⟩)
    · exact .inr (.inr ⟨same.symm, le⟩)
  · exact .inl (.inl larger)

/-- Boxes that may stand either way have one name. -/
theorem name_eq_of_tied (h : Sorting.tied inOrder b c = true) : b.name = c.name := by
  obtain ⟨first, second⟩ := Sorting.tied_iff.1 h
  rw [inOrder_iff] at first second
  rcases first with larger | ⟨same, le⟩
  · omega
  · rcases second with larger | ⟨-, le'⟩
    · omega
    · exact le_antisymm le le'

/-- Of boxes with distinct names at most one may stand either way beside a given one, so
these are the same in all orders. -/
theorem filter_tied_eq_of_perm {blocks blocks' : List Block} (perm : blocks.Perm blocks')
    (nodup : (blocks.map name).Nodup) (c : Block) :
    blocks.filter (Sorting.tied inOrder c) = blocks'.filter (Sorting.tied inOrder c) := by
  have apart : ∀ l : List Block, (l.map name).Nodup →
      (l.filter (Sorting.tied inOrder c)).Pairwise fun x y => x.name ≠ y.name := by
    intro l distinct
    exact List.pairwise_map.1 (distinct.sublist (List.filter_sublist.map name))
  have nodup' : (blocks'.map name).Nodup := (perm.map name).nodup_iff.1 nodup
  refine (perm.filter _).eq_of_pairwise ?_ (apart blocks nodup) (apart blocks' nodup')
  intro x y hx hy ne
  have first := name_eq_of_tied (List.mem_filter.1 hx).2
  have second := name_eq_of_tied (List.mem_filter.1 hy).2
  exact absurd (first.symm.trans second) ne

end Block

namespace Parcel

variable {p q : Parcel} {depth : Nat} {path : List String} {b : Block}

/-! ## Single boxes -/

/-- A drawn box is undivided if there is nothing inside it or no level left. -/
theorem undivided_toBlock_iff (p : Parcel) (depth : Nat) :
    (∃ value, p.toBlock depth = .leaf p.name value) ↔ p.parts = [] ∨ depth = 0 := by
  cases depth with
  | zero =>
    rw [toBlock_zero]
    simp
  | succ depth =>
    rw [toBlock_succ]
    by_cases empty : p.parts = []
    · simp [empty]
    · simp [empty]

theorem ordered_toBlock (p : Parcel) (depth : Nat) :
    (p.toBlock depth).parts.Pairwise fun x y => Block.inOrder x y = true := by
  cases depth with
  | zero =>
    rw [toBlock_zero]
    exact .nil
  | succ depth =>
    rw [toBlock_succ]
    by_cases empty : p.parts = []
    · rw [if_pos empty]
      exact .nil
    · rw [if_neg empty]
      exact List.pairwise_mergeSort Block.inOrder_trans Block.inOrder_total _

/-- A divided box has an entry for each part and one for its own bytes if it has any. -/
theorem entries_toBlock (p : Parcel) (divided : p.parts ≠ []) (depth : Nat) :
    ((p.toBlock (depth + 1)).parts.map Block.name).Perm
      (p.parts.map name ++ if 0 < p.ownSize then [Block.ownName] else []) := by
  have drawn := map_parts_toBlock depth fun q (_ : q ∈ p.parts) => name_toBlock q depth
  rwa [map_ownBlocks divided] at drawn

/-- The entries of a divided box into which all inside fits have the sizes of the parts and of
the own bytes. -/
theorem sizes_toBlock (h : p.Fits) (divided : p.parts ≠ []) (depth : Nat) :
    ((p.toBlock (depth + 1)).parts.map fun x => (x.name, x.size)).Perm
      (p.parts.map (fun q => (q.name, q.size)) ++
        if 0 < p.ownSize then [(Block.ownName, p.ownSize)] else []) := by
  have drawn := map_parts_toBlock (f := fun x : Block => (x.name, x.size))
    (g := fun q => (q.name, q.size)) depth fun q hq =>
      congrArg₂ Prod.mk (name_toBlock q depth) (size_toBlock (h.of_mem hq) depth)
  rwa [map_ownBlocks divided] at drawn

/-- **A drawn box shows the box that it was made of.** -/
theorem depicts_toBlock (p : Parcel) (depth : Nat) : (p.toBlock depth).Depicts p depth where
  name := name_toBlock p depth
  undivided := undivided_toBlock_iff p depth
  ordered := (ordered_toBlock p depth).imp Block.inOrder_iff.1
  entries := by
    intro divided levels
    obtain ⟨depth, rfl⟩ := Nat.exists_eq_succ_of_ne_zero levels
    exact entries_toBlock p divided depth

/-- **A box into which all inside fits is drawn with its size.** -/
theorem weighs_toBlock (h : p.Fits) (depth : Nat) : (p.toBlock depth).Weighs p depth where
  size := size_toBlock h depth
  entries := by
    intro divided levels
    obtain ⟨depth, rfl⟩ := Nat.exists_eq_succ_of_ne_zero levels
    exact sizes_toBlock h divided depth

/-! ## Boxes inside -/

/-- A box is drawn at the end of its own path, if the drawing goes as deep. -/
theorem leads_toBlock (found : p.at? path = some q) (deep : path.length ≤ depth) :
    (p.toBlock depth).Leads path (q.toBlock (depth - path.length)) := by
  induction path generalizing p depth with
  | nil =>
    obtain rfl := Option.some.inj found
    exact .here
  | cons first rest ih =>
    obtain ⟨inner, here, below⟩ := Option.bind_eq_some_iff.1 found
    obtain ⟨depth, rfl⟩ := Nat.exists_eq_add_one_of_ne_zero (n := depth) (by
      rw [List.length_cons] at deep
      omega)
    rw [List.length_cons] at deep ⊢
    have drawn : inner.toBlock depth ∈ (p.toBlock (depth + 1)).parts := by
      rw [(p.parts_toBlock_succ depth).mem_iff]
      exact List.mem_append_left _ (List.mem_map_of_mem (List.mem_of_find?_eq_some here))
    have called : (inner.toBlock depth).name = first := by
      rw [name_toBlock]
      simpa using List.find?_some here
    rw [Nat.add_sub_add_right]
    have step := Block.Leads.inside drawn (ih below (by omega))
    rwa [called] at step

theorem mem_ownBlocks_iff :
    b ∈ p.ownBlocks ↔ p.parts ≠ [] ∧ 0 < p.ownSize ∧ b = .leaf Block.ownName p.ownSize := by
  rw [ownBlocks]
  split_ifs with h
  · simp [h.1, h.2]
  · constructor
    · intro mem
      exact absurd mem List.not_mem_nil
    · rintro ⟨divided, some_own, -⟩
      exact absurd ⟨divided, some_own⟩ h

/-- What lies in a drawn box is a part of it or its own bytes. -/
theorem mem_parts_toBlock (mem : b ∈ (p.toBlock depth).parts) :
    ∃ levels, depth = levels + 1 ∧ ((∃ q ∈ p.parts, b = q.toBlock levels) ∨
      p.parts ≠ [] ∧ 0 < p.ownSize ∧ b = .leaf Block.ownName p.ownSize) := by
  cases depth with
  | zero =>
    rw [toBlock_zero] at mem
    exact absurd mem List.not_mem_nil
  | succ levels =>
    refine ⟨levels, rfl, ?_⟩
    rw [(p.parts_toBlock_succ levels).mem_iff] at mem
    rcases List.mem_append.1 mem with drawn | own
    · obtain ⟨q, hq, rfl⟩ := List.mem_map.1 drawn
      exact Or.inl ⟨q, hq, rfl⟩
    · exact Or.inr (mem_ownBlocks_iff.1 own)

theorem ownBlock_mem_parts (divided : p.parts ≠ []) (some_own : 0 < p.ownSize) (levels : Nat) :
    Block.leaf Block.ownName p.ownSize ∈ (p.toBlock (levels + 1)).parts := by
  rw [(p.parts_toBlock_succ levels).mem_iff]
  exact List.mem_append_right _ (mem_ownBlocks_iff.2 ⟨divided, some_own, rfl⟩)

/-- At the end of a path there is drawn the box that lies there, or the own bytes of the
box around that place; and no path is longer than the drawing is deep. -/
theorem of_leads_toBlock (h : p.WellFormed) (leads : (p.toBlock depth).Leads path b) :
    path.length ≤ depth ∧
      ((∃ q, p.at? path = some q ∧ b = q.toBlock (depth - path.length)) ∨
        ∃ around q, path = around ++ [Block.ownName] ∧ p.at? around = some q ∧ q.parts ≠ [] ∧
          0 < q.ownSize ∧ b = .leaf Block.ownName q.ownSize) := by
  induction path generalizing p depth with
  | nil =>
    cases leads with
    | here => exact ⟨Nat.zero_le _, .inl ⟨p, rfl, rfl⟩⟩
  | cons first rest ih =>
    cases leads with
    | @inside _ c _ _ mem below =>
      obtain ⟨depth, rfl, ⟨inner, here, rfl⟩ | ⟨divided, some_own, rfl⟩⟩ := mem_parts_toBlock mem
      · rw [name_toBlock, List.length_cons, Nat.add_sub_add_right]
        have found := h.find?_eq here
        obtain ⟨short, place⟩ := ih (h.of_mem here) below
        refine ⟨Nat.succ_le_succ short, ?_⟩
        rcases place with ⟨q, inside, rfl⟩ | ⟨around, q, rfl, inside, rest⟩
        · exact .inl ⟨q, (at?_cons_of_find? found rest).trans inside, rfl⟩
        · exact .inr ⟨inner.name :: around, q, rfl,
            (at?_cons_of_find? found around).trans inside, rest⟩
      · cases below with
        | here =>
          exact ⟨Nat.succ_le_succ (Nat.zero_le _),
            .inr ⟨[], p, rfl, rfl, divided, some_own, rfl⟩⟩
        | inside deeper _ => exact absurd deeper List.not_mem_nil

/-! ## The order of parts -/

/-- What is the same of every box and its match is the same of all of them in turn. -/
theorem map_eq_of_forall₂ {β : Type} {f : Parcel → β} {parts parts' : List Parcel}
    (same : List.Forall₂ (fun p q => f p = f q) parts parts') : parts.map f = parts'.map f := by
  rwa [← List.forall₂_eq_eq_eq, List.forall₂_map_left_iff, List.forall₂_map_right_iff]

namespace Reordered

theorem name_eq (h : p.Reordered q) : p.name = q.name := by
  cases h
  rfl

theorem size_eq (h : p.Reordered q) : p.size = q.size := by
  cases h
  rfl

/-- The parts of reordered boxes match in another order. -/
theorem exists_between (h : p.Reordered q) :
    ∃ between, List.Forall₂ Reordered p.parts between ∧ between.Perm q.parts := by
  cases h with
  | mk inside order => exact ⟨_, inside, order⟩

theorem ownSize_eq (h : p.Reordered q) : p.ownSize = q.ownSize := by
  obtain ⟨between, inside, order⟩ := h.exists_between
  have sizes : p.parts.map size = between.map size :=
    map_eq_of_forall₂ (inside.imp fun _ _ => size_eq)
  rw [ownSize, ownSize, h.size_eq, Count.sum_eq, Count.sum_eq, sizes, (order.map size).sum_eq]

theorem parts_eq_nil_iff (h : p.Reordered q) : p.parts = [] ↔ q.parts = [] := by
  obtain ⟨between, inside, order⟩ := h.exists_between
  rw [← List.length_eq_zero_iff, ← List.length_eq_zero_iff, inside.length_eq, order.length_eq]

theorem ownBlocks_eq (h : p.Reordered q) : p.ownBlocks = q.ownBlocks := by
  simp only [ownBlocks, h.ownSize_eq, ne_eq, h.parts_eq_nil_iff]

end Reordered

/-- **The order of the parts of a box does not show in its drawing.**  The drawn parts have
distinct names, so among the boxes that may stand either way at most one is a part, and it
stands before the box for own bytes. -/
theorem toBlock_eq_of_reordered (h : p.WellFormed) (same : p.Reordered q) (depth : Nat) :
    p.toBlock depth = q.toBlock depth := by
  induction h generalizing q depth with
  | @mk name size parts nodup inside ih =>
    cases depth with
    | zero => rw [toBlock_zero, toBlock_zero, same.name_eq, same.size_eq]
    | succ depth =>
      obtain ⟨between, matched, order⟩ := same.exists_between
      have drawn : parts.map (toBlock depth) = between.map (toBlock depth) := by
        apply map_eq_of_forall₂
        refine ((List.forall₂_and_left parts between).2 ⟨ih, matched⟩).imp ?_
        intro r r' both
        exact both.1 both.2 depth
      have perm : (parts.map (toBlock depth)).Perm (q.parts.map (toBlock depth)) := by
        rw [drawn]
        exact order.map (toBlock depth)
      have names : ((parts.map (toBlock depth)).map Block.name).Nodup := by
        simpa [Function.comp_def] using nodup
      have sorted : (parts.map (toBlock depth) ++ q.ownBlocks).mergeSort Block.inOrder =
          (q.parts.map (toBlock depth) ++ q.ownBlocks).mergeSort Block.inOrder := by
        refine Sorting.mergeSort_congr Block.inOrder_trans Block.inOrder_total ?_
        intro c
        rw [List.filter_append, List.filter_append, Block.filter_tied_eq_of_perm perm names]
      have called : name = q.name := same.name_eq
      have large : size = q.size := same.size_eq
      have empty : parts = [] ↔ q.parts = [] := same.parts_eq_nil_iff
      rw [toBlock_succ, toBlock_succ, same.ownBlocks_eq, parts_mk, sorted, name_mk, size_mk, called,
        large]
      simp only [empty]

/-! ## Treemaps that additions make -/

/-- Additions that make a divided part with the name of a box for own bytes, as large as the
own bytes beside it. -/
def clashingShares : List (List String × Nat) := [([Block.ownName, "f"], 5), ([], 5), (["g"], 2)]

end Parcel

end SizeAtlas
