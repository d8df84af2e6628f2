import SizeAtlas.Proofs.Treemap.Parcel

/-!
# What additions to an empty treemap make

The boxes are exactly those that some path goes through, and each has the bytes of all
paths that go through it, counted in a word.  So the order of the additions shows in nothing
but the order of the parts of a box, which means nothing: the parts of a box are known by
their names.  A box is made by what goes through it alone; if that fits into a word, then so
do its parts into the box, and what it has besides them is what ends at it.

## Main definitions

* `Parcel.through`, `Parcel.endingAt` — the bytes that go through a path, and that end at it.
* `Parcel.sharesBelow` — the additions inside the box at the end of a path.
* `Parcel.Reordered` — boxes that differ in the order of parts only.

## Main statements

* `Parcel.eq_addAll_of_at?` — a box is made by the additions inside it.
* `Parcel.WellFormed.reordered` — boxes with the same sizes at the same paths differ in
  order only.
* `Parcel.addAll_root` — what additions to an empty treemap make.
-/

namespace SizeAtlas.Parcel

variable {p q : Parcel} {shares : List (List String × Nat)} {path : List String}

/-! ## Additions inside a box -/

/-- The bytes of the additions that go through the end of a path. -/
def through (shares : List (List String × Nat)) (path : List String) : Nat :=
  ((shares.filter fun share => path <+: share.1).map Prod.snd).sum

/-- The bytes of the additions that end at the end of a path. -/
def endingAt (shares : List (List String × Nat)) (path : List String) : Nat :=
  ((shares.filter fun share => share.1 = path).map Prod.snd).sum

/-- The additions that go through the end of a path, seen from there. -/
def sharesBelow (path : List String) (shares : List (List String × Nat)) :
    List (List String × Nat) :=
  shares.filterMap fun share => (path.isPrefixOf? share.1).map (·, share.2)

theorem sharesBelow_nil (shares : List (List String × Nat)) : sharesBelow [] shares = shares :=
  List.filterMap_some

theorem sharesBelow_cons (x : String) (rest : List String) (shares : List (List String × Nat)) :
    sharesBelow rest (sharesBelow [x] shares) = sharesBelow (x :: rest) shares := by
  rw [sharesBelow, sharesBelow, List.filterMap_filterMap]
  apply List.filterMap_congr
  rintro ⟨path, bytes⟩ -
  cases path with
  | nil => rfl
  | cons y path =>
    by_cases same : x = y
    · simp [List.isPrefixOf?, same]
    · simp [List.isPrefixOf?, same]

/-- The bytes of those additions inside the end of a path for which `holds` is true of the rest
of theirs, in terms of all additions. -/
theorem sum_filter_sharesBelow {holds holdsHere : List String → Prop} [DecidablePred holds]
    [DecidablePred holdsHere] {path : List String}
    (same : ∀ whole, holds whole ↔ ∃ rest, path ++ rest = whole ∧ holdsHere rest)
    (shares : List (List String × Nat)) :
    (((sharesBelow path shares).filter fun share => holdsHere share.1).map Prod.snd).sum =
      ((shares.filter fun share => holds share.1).map Prod.snd).sum := by
  induction shares with
  | nil => rfl
  | cons share shares ih =>
    rw [sharesBelow] at ih ⊢
    cases found : path.isPrefixOf? share.1 with
    | none =>
      have other : ¬holds share.1 := by
        rw [same]
        rintro ⟨rest, eq, -⟩
        rw [List.isPrefixOf?_eq_some_iff_append_eq.2 eq] at found
        cases found
      simp [found, other, ih]
    | some rest =>
      have here : holds share.1 ↔ holdsHere rest := by
        rw [same, ← List.isPrefixOf?_eq_some_iff_append_eq.1 found]
        simp
      by_cases counts : holdsHere rest
      · simp [found, here.2 counts, counts, ih]
      · simp [found, mt here.1 counts, counts, ih]

/-- What goes through a path is all that there is inside its end. -/
theorem sum_sharesBelow (path : List String) (shares : List (List String × Nat)) :
    ((sharesBelow path shares).map Prod.snd).sum = through shares path := by
  have inside : ∀ whole, path <+: whole ↔ ∃ rest, path ++ rest = whole ∧ True := by
    simp [List.IsPrefix]
  have all := sum_filter_sharesBelow inside shares
  rwa [List.filter_eq_self.2 (by simp)] at all

/-- What ends at a path is what ends at once inside its end. -/
theorem endingAt_sharesBelow (path : List String) (shares : List (List String × Nat)) :
    endingAt (sharesBelow path shares) [] = endingAt shares path := by
  have ends : ∀ whole, whole = path ↔ ∃ rest, path ++ rest = whole ∧ rest = [] := by
    simp [eq_comm]
  exact sum_filter_sharesBelow ends shares

/-- Each part is made by the additions inside it. -/
theorem part_addAll (p : Parcel) (shares : List (List String × Nat)) (x : String) :
    (p.addAll shares).part x = (p.part x).addAll (sharesBelow [x] shares) := by
  induction shares generalizing p with
  | nil => rfl
  | cons share shares ih =>
    obtain ⟨path, bytes⟩ := share
    rw [addAll_cons, ih, Parcel.add, sharesBelow, sharesBelow]
    cases path with
    | nil => rw [part_addAlong_nil, List.filterMap_cons_none rfl]
    | cons y path =>
      rw [part_addAlong_cons]
      by_cases same : y = x
      · subst same
        rw [if_pos rfl, List.filterMap_cons_some (b := (path, bytes)) (by simp [List.isPrefixOf?]),
          addAll_cons, Parcel.add]
      · rw [if_neg same, List.filterMap_cons_none (by simp [List.isPrefixOf?, Ne.symm same])]

theorem part_of_find? {name : String} {inner : Parcel}
    (found : p.parts.find? (·.name = name) = some inner) : p.part name = inner := by
  rw [part, found, Option.getD_some]

/-- **A box is made by the additions inside it alone.** -/
theorem eq_addAll_of_at? {name : String}
    (found : ((mk name 0 []).addAll shares).at? path = some q) :
    q = (mk q.name 0 []).addAll (sharesBelow path shares) := by
  induction path generalizing name shares with
  | nil =>
    obtain rfl := Option.some.inj found
    rw [name_addAll, sharesBelow_nil]
    rfl
  | cons x path ih =>
    obtain ⟨inner, here, inside⟩ := Option.bind_eq_some_iff.1 found
    have made : inner = (mk x 0 []).addAll (sharesBelow [x] shares) := by
      rw [← part_of_find? here, part_addAll]
      rfl
    rw [made] at inside
    rw [← sharesBelow_cons]
    exact ih inside

/-! ## Boxes inside a well-formed one -/

/-- The box at the end of a path inside a well-formed box is well formed. -/
theorem WellFormed.of_at? (h : p.WellFormed) (found : p.at? path = some q) : q.WellFormed := by
  induction path generalizing p with
  | nil => exact Option.some.inj found ▸ h
  | cons first rest ih =>
    obtain ⟨inner, here, inside⟩ := Option.bind_eq_some_iff.1 found
    exact ih (h.of_mem (List.mem_of_find?_eq_some here)) inside

/-- The bytes of a box are those that go through it, counted in a word. -/
theorem sizeAt_addAll_root (shares : List (List String × Nat)) (path : List String) :
    (root.addAll shares).sizeAt path = through shares path % UInt64.size := by
  rw [sizeAt_addAll, root, sizeAt_empty, ← Nat.zero_add (through shares path)]
  exact Count.foldl_add 0 _

/-- If the bytes that go through the end of a path fit into a word, then the box there has room
for all inside it, and its own bytes are those that end at it. -/
theorem fits_of_at? (found : (root.addAll shares).at? path = some q)
    (enough : through shares path < UInt64.size) : q.Fits ∧ q.ownSize = endingAt shares path := by
  rw [← sum_sharesBelow, ← Nat.zero_add (List.sum _)] at enough
  obtain ⟨fits, own⟩ := (Fits.empty q.name).addAll enough
  rw [← eq_addAll_of_at? found, ← endingAt, endingAt_sharesBelow] at own
  rw [← eq_addAll_of_at? found] at fits
  exact ⟨fits, own.trans (Nat.zero_add _)⟩

/-! ## The order of parts -/

/-- Boxes that differ in nothing but the order of the parts of a box, at any depth. -/
inductive Reordered : Parcel → Parcel → Prop
  | mk {name : String} {size : Nat} {parts between parts' : List Parcel}
    (inside : List.Forall₂ Reordered parts between) (order : between.Perm parts') :
    Reordered (.mk name size parts) (.mk name size parts')

theorem at?_cons_of_find? {name : String} {inner : Parcel}
    (found : p.parts.find? (·.name = name) = some inner) (path : List String) :
    p.at? (name :: path) = inner.at? path := by
  rw [at?, found, Option.bind_some]

/-- If two boxes have the same sizes at the same paths, then every part of the one has its
match in the other. -/
theorem WellFormed.exists_match (h : p.WellFormed)
    (same : ∀ path, (p.at? path).map size = (q.at? path).map size) {r : Parcel}
    (mem : r ∈ p.parts) :
    ∃ r', q.parts.find? (·.name = r.name) = some r' ∧ r'.name = r.name ∧
      ∀ path, (r.at? path).map size = (r'.at? path).map size := by
  have here := h.find?_eq mem
  cases found : q.parts.find? (·.name = r.name) with
  | none =>
    have missing : q.at? [r.name] = none := by rw [at?, found, Option.bind_none]
    have size_eq := same [r.name]
    rw [at?_cons_of_find? here, missing] at size_eq
    exact absurd size_eq (Option.some_ne_none _)
  | some r' =>
    refine ⟨r', rfl, by simpa using List.find?_some found, ?_⟩
    intro path
    have size_eq := same (r.name :: path)
    rwa [at?_cons_of_find? here, at?_cons_of_find? found] at size_eq

/-- Boxes with distinct names inside that have the same sizes at the same paths differ in
order only.  The parts are matched by their names. -/
theorem WellFormed.reordered (hp : p.WellFormed) (hq : q.WellFormed) (called : p.name = q.name)
    (same : ∀ path, (p.at? path).map size = (q.at? path).map size) : Reordered p q := by
  induction hp generalizing q with
  | @mk name size parts nodup inside ih =>
    obtain ⟨name', size', parts'⟩ := q
    have whole : (Parcel.mk name size parts).WellFormed := .mk nodup inside
    have sizes : size = size' := Option.some.inj (same [])
    have names : name = name' := called
    subst sizes names
    let partner : Parcel → Parcel := fun r => (Parcel.mk name size parts').part r.name
    have partner_eq : ∀ r ∈ parts, partner r ∈ parts' ∧ (partner r).name = r.name ∧
        ∀ path, (r.at? path).map Parcel.size = ((partner r).at? path).map Parcel.size := by
      intro r hr
      obtain ⟨r', found, called, same_inside⟩ := whole.exists_match same hr
      rw [show partner r = r' from part_of_find? found]
      exact ⟨List.mem_of_find?_eq_some found, called, same_inside⟩
    have names : (parts.map partner).map Parcel.name = parts.map Parcel.name := by
      rw [List.map_map]
      exact List.map_congr_left fun r hr => (partner_eq r hr).2.1
    have matched : List.Forall₂ Reordered parts (parts.map partner) := by
      rw [List.forall₂_map_right_iff, List.forall₂_same]
      intro r hr
      obtain ⟨mem, called, same_inside⟩ := partner_eq r hr
      exact ih r hr (hq.of_mem mem) called.symm same_inside
    have nodup_partners : (parts.map partner).Nodup := List.Nodup.of_map Parcel.name (names ▸ nodup)
    refine .mk matched ((List.perm_ext_iff_of_nodup nodup_partners (.of_map _ hq.nodup)).2 ?_)
    intro r'
    constructor
    · intro mem
      obtain ⟨r, hr, rfl⟩ := List.mem_map.1 mem
      exact (partner_eq r hr).1
    · intro mem
      -- a part of the other box is the partner of the part with its name
      obtain ⟨r, found, called, -⟩ := hq.exists_match (fun path => (same path).symm) mem
      refine List.mem_map.2 ⟨r, List.mem_of_find?_eq_some found, ?_⟩
      have here := hq.find?_eq mem
      rw [← called] at here
      exact part_of_find? here

/-! ## Additions to an empty treemap -/

theorem map_size_at?_congr {path : List String} (boxes : (p.at? path).isSome ↔ (q.at? path).isSome)
    (sizes : p.sizeAt path = q.sizeAt path) : (p.at? path).map size = (q.at? path).map size := by
  rw [sizeAt, sizeAt] at sizes
  cases here : p.at? path with
  | none =>
    rw [here, Option.isSome_none] at boxes
    cases there : q.at? path with
    | none => rfl
    | some inner => simp [there] at boxes
  | some inner =>
    rw [here, Option.isSome_some] at boxes
    obtain ⟨inner', there⟩ := Option.isSome_iff_exists.1 (boxes.1 rfl)
    rw [here, there] at sizes
    rw [there]
    exact congrArg some sizes

/-- Another order of the additions makes the same boxes. -/
theorem reordered_addAll {shares shares' : List (List String × Nat)} (perm : shares.Perm shares') :
    Reordered (root.addAll shares) (root.addAll shares') := by
  refine (WellFormed.root.addAll shares).reordered (WellFormed.root.addAll shares') ?_ ?_
  · rw [name_addAll, name_addAll]
  · intro path
    refine map_size_at?_congr ?_ ?_
    · rw [isSome_at?_addAll, isSome_at?_addAll]
      simp only [perm.mem_iff]
    · rw [sizeAt_addAll_root, sizeAt_addAll_root, through, ((perm.filter _).map Prod.snd).sum_eq,
        ← through]

/-- Additions of which one ends at the outermost box, one at `f` and two inside `f`. -/
def nestedShares : List (List String × Nat) :=
  [(["f", "g"], 2), (["f"], 1), ([], 4), (["f", "g"], 3)]

/-- Additions of one byte more than a word holds. -/
def overflowingShares : List (List String × Nat) := [(["f"], UInt64.size - 1), ([], 1)]

end SizeAtlas.Parcel
