import SizeAtlas.Proofs.Treemap.Parcel
import SizeAtlas.Treemap.Block

/-!
# Sizes of drawn treemaps

A drawn box gets its size from the boxes that it is divided among.  Since the bytes
that lie in no inner box get a box of their own, this is the size of the box that
was drawn, at whatever depth the drawing stops, if the inner boxes fit into it.

## Main definitions

* `Parcel.ownBlocks` — the drawn box for the bytes that lie in no inner box.

## Main statements

* `Parcel.parts_toBlock_succ` — what a box is divided among when it is drawn.
* `Parcel.size_toBlock` — a drawn box has the size of what it stands for.
-/

namespace SizeAtlas

/-! ## Lists of boxes -/

theorem Block.sizeOfAll_eq (blocks : List Block) :
    sizeOfAll blocks = Count.sum (blocks.map size) := by
  induction blocks with
  | nil => rfl
  | cons b bs ih => rw [sizeOfAll, ih, List.map_cons, Count.sum_cons]

namespace Parcel

theorem toBlocks_eq_map (depth : Nat) (inner : List Parcel) :
    toBlocks depth inner = inner.map (toBlock depth) := by
  induction inner with
  | nil => rfl
  | cons p ps ih => rw [toBlocks, ih, List.map_cons]

/-! ## One box -/

/-- The drawn box for the bytes that lie in no inner box, if there are inner boxes
and such bytes. -/
def ownBlocks (p : Parcel) : List Block :=
  if p.parts ≠ [] ∧ 0 < p.ownSize then [.leaf Block.ownName p.ownSize] else []

@[simp] theorem name_toBlock (p : Parcel) (depth : Nat) : (p.toBlock depth).name = p.name := by
  obtain ⟨name, size, inner⟩ := p
  cases depth with
  | zero => rfl
  | succ depth =>
    rw [toBlock]
    split <;> rfl

theorem toBlock_zero (p : Parcel) : p.toBlock 0 = .leaf p.name p.size := by
  obtain ⟨name, size, inner⟩ := p
  rfl

/-- What a box is drawn as if there is a level left: undivided if it has no parts,
and otherwise divided among them and its own bytes. -/
theorem toBlock_succ (p : Parcel) (depth : Nat) :
    p.toBlock (depth + 1) =
      if p.parts = [] then .leaf p.name p.size
      else
        .group p.name ((p.parts.map (toBlock depth) ++ p.ownBlocks).mergeSort Block.inOrder) := by
  obtain ⟨name, size, inner⟩ := p
  rw [toBlock, toBlocks_eq_map]
  by_cases h : inner = []
  · simp [h]
  · simp [h, ownBlocks]

/-- A drawn box is divided among the drawn parts and the box for its own bytes. -/
theorem parts_toBlock_succ (p : Parcel) (depth : Nat) :
    (p.toBlock (depth + 1)).parts.Perm (p.parts.map (toBlock depth) ++ p.ownBlocks) := by
  rw [toBlock_succ]
  by_cases h : p.parts = []
  · simp [h, ownBlocks, Block.parts]
  · rw [if_neg h]
    exact List.mergeSort_perm ..

/-- What each of the boxes shows that a box is divided among, if of the drawn parts it shows
the same as of the parts. -/
theorem map_parts_toBlock {β : Type} {f : Block → β} {g : Parcel → β} {p : Parcel} (depth : Nat)
    (same : ∀ q ∈ p.parts, f (q.toBlock depth) = g q) :
    ((p.toBlock (depth + 1)).parts.map f).Perm (p.parts.map g ++ p.ownBlocks.map f) := by
  have inner : (p.parts.map (toBlock depth)).map f = p.parts.map g := by
    rw [List.map_map]
    exact List.map_congr_left same
  rw [← inner, ← List.map_append]
  exact (p.parts_toBlock_succ depth).map f

theorem map_ownBlocks {β : Type} {p : Parcel} (h : p.parts ≠ []) (f : Block → β) :
    p.ownBlocks.map f = if 0 < p.ownSize then [f (.leaf Block.ownName p.ownSize)] else [] := by
  by_cases some_own : 0 < p.ownSize
  · simp [ownBlocks, h, some_own]
  · simp [ownBlocks, some_own]

theorem sum_ownBlocks {p : Parcel} (h : p.parts ≠ []) :
    (p.ownBlocks.map Block.size).sum = p.ownSize := by
  rw [map_ownBlocks h]
  split
  case isTrue => simp [Block.size]
  case isFalse none => simp [Nat.eq_zero_of_not_pos none]

/-! ## The size of a drawn box -/

/-- The size of a divided box is that of the boxes that it is divided among. -/
theorem size_toBlock_succ {p : Parcel} (h : p.parts ≠ []) (depth : Nat) :
    (p.toBlock (depth + 1)).size = Count.sum ((p.toBlock (depth + 1)).parts.map Block.size) := by
  rw [toBlock_succ, if_neg h]
  exact Block.sizeOfAll_eq _

/-- **A drawn box has the size of what it stands for**, at any depth, if what is inside fits
into it: the bytes that no drawn part holds are in the box for the own bytes. -/
theorem size_toBlock {p : Parcel} (h : p.Fits) (depth : Nat) :
    (p.toBlock depth).size = p.size := by
  induction h generalizing depth with
  | @mk name size inner room small inside ih =>
    have whole : (Parcel.mk name size inner).Fits := .mk room small inside
    cases depth with
    | zero => simp [toBlock_zero, Block.size]
    | succ depth =>
      by_cases hp : inner = []
      · simp [toBlock_succ, hp, Block.size]
      · have drawn := (map_parts_toBlock (p := .mk name size inner) depth
          fun q hq => ih q hq depth).sum_eq
        rw [List.sum_append, sum_ownBlocks (p := .mk name size inner) hp,
          Nat.add_comm (List.sum _), whole.ownSize_add_sum] at drawn
        rw [size_toBlock_succ (p := .mk name size inner) hp,
          Count.sum_of_lt (drawn.trans_lt small), drawn]

end Parcel

end SizeAtlas
