import SizeAtlas.Proofs.Roster
import SizeAtlas.Treemap.Parcel

/-!
# What additions build

Adding bytes along a path adds them to every box that the path goes through and
makes the boxes that are missing.  So what a box holds after many additions is
the sum of those whose path goes through it, in whatever order they were made, and
modulo the size of a word.  As long as the whole sum fits into a word, the parts of
a box fit into it too.

## Main definitions

* `Parcel.at?` — the box at the end of a path.
* `Parcel.sizeAt` — its bytes.
* `Parcel.addAll` — several additions, one after the other.
* `Parcel.WellFormed` — names that differ.
* `Parcel.Fits` — room for all inner boxes.

## Main statements

* `Parcel.sizeAt_addAll` — the bytes of every box.
* `Parcel.isSome_at?_addAll` — which boxes there are.
* `Parcel.WellFormed.addAll` — additions keep a box well formed.
* `Parcel.Fits.addAll` — additions that fit into a word keep room for all inner boxes.
-/

namespace SizeAtlas

/-! ## Counting in words -/

namespace Count

/-- What was added up is held modulo the size of a word. -/
theorem sum_eq (ns : List Nat) : sum ns = ns.sum % UInt64.size := by
  induction ns with
  | nil => rfl
  | cons n ns ih => rw [sum_cons, ih, add, List.sum_cons, Nat.add_mod_mod]

theorem sum_of_lt {ns : List Nat} (small : ns.sum < UInt64.size) : sum ns = ns.sum := by
  rw [sum_eq, Nat.mod_eq_of_lt small]

/-- Adding one after the other to a counter comes to the same. -/
theorem foldl_add (m : Nat) (ns : List Nat) :
    ns.foldl add (m % UInt64.size) = (m + ns.sum) % UInt64.size := by
  induction ns generalizing m with
  | nil => rfl
  | cons n ns ih => rw [List.foldl_cons, add, Nat.mod_add_mod, ih, List.sum_cons, Nat.add_assoc]

end Count

namespace Parcel

/-! ## Paths -/

/-- The box at the end of a path inside a box. -/
def at? : Parcel → List String → Option Parcel
  | p, [] => some p
  | p, first :: rest => (p.parts.find? (·.name = first)).bind (·.at? rest)

/-- The bytes of the box at the end of a path, which are none if there is no
such box. -/
def sizeAt (p : Parcel) (path : List String) : Nat := ((p.at? path).map size).getD 0

/-- The part called `name`, or an empty box of that name. -/
def part (p : Parcel) (name : String) : Parcel :=
  (p.parts.find? (·.name = name)).getD (mk name 0 [])

@[simp] theorem name_mk (name : String) (size : Nat) (parts : List Parcel) :
    (mk name size parts).name = name := rfl

@[simp] theorem size_mk (name : String) (size : Nat) (parts : List Parcel) :
    (mk name size parts).size = size := rfl

@[simp] theorem parts_mk (name : String) (size : Nat) (parts : List Parcel) :
    (mk name size parts).parts = parts := rfl

@[simp] theorem sizeAt_nil (p : Parcel) : p.sizeAt [] = p.size := rfl

@[simp] theorem sizeAt_empty (name : String) (path : List String) :
    (mk name 0 []).sizeAt path = 0 := by
  cases path <;> rfl

theorem sizeAt_cons (p : Parcel) (name : String) (path : List String) :
    p.sizeAt (name :: path) = (p.part name).sizeAt path := by
  unfold part
  cases found : p.parts.find? (·.name = name) with
  | none =>
    rw [Option.getD_none, sizeAt_empty]
    simp [sizeAt, at?, found]
  | some inner => simp [sizeAt, at?, found]

theorem isSome_at?_cons (p : Parcel) (name : String) (path : List String) :
    (p.at? (name :: path)).isSome ↔
      name ∈ p.parts.map Parcel.name ∧ ((p.part name).at? path).isSome := by
  have named : name ∈ p.parts.map Parcel.name ↔
      (p.parts.find? (·.name = name)).isSome := by simp
  rw [named]
  unfold part
  cases found : p.parts.find? (·.name = name) with
  | none => simp [at?, found]
  | some inner => simp [at?, found]

theorem at?_append (p : Parcel) (path rest : List String) :
    p.at? (path ++ rest) = (p.at? path).bind (·.at? rest) := by
  induction path generalizing p with
  | nil => rfl
  | cons first path ih =>
    simp only [List.cons_append, at?, ih, Option.bind_assoc]

theorem part_of_notMem {p : Parcel} {name : String} (h : name ∉ p.parts.map Parcel.name) :
    p.part name = mk name 0 [] := by
  have none : p.parts.find? (·.name = name) = none := by simpa using h
  rw [part, none, Option.getD_none]

theorem isSome_at?_empty (name : String) (path : List String) :
    ((mk name 0 []).at? path).isSome ↔ path = [] := by
  cases path with
  | nil => simp [at?]
  | cons first rest => simp [at?]

/-! ## One part -/

section atPart

variable {f : Parcel → Parcel} (same : ∀ p, (f p).name = p.name)
include same

theorem find?_atPart (x y : String) (inner : List Parcel) :
    (atPart x f inner).find? (·.name = y) =
      if x = y then some (f ((inner.find? (·.name = x)).getD (mk x 0 [])))
      else inner.find? (·.name = y) := by
  induction inner with
  | nil => by_cases h : x = y <;> simp [atPart, h, same (mk _ 0 [])]
  | cons p ps ih =>
    by_cases hx : p.name = x
    · subst hx
      by_cases h : p.name = y <;> simp [atPart, h, same p]
    · rw [atPart, if_neg hx, List.find?_cons, List.find?_cons, List.find?_cons, ih,
        decide_eq_false hx]
      by_cases hy : p.name = y
      · simp [hy, Ne.symm (hy ▸ hx)]
      · simp [hy]

theorem names_atPart (x : String) (inner : List Parcel) :
    (atPart x f inner).map name =
      if x ∈ inner.map name then inner.map name else inner.map name ++ [x] := by
  induction inner with
  | nil => simp [atPart, same (mk x 0 [])]
  | cons p ps ih =>
    by_cases h : p.name = x
    · simp [atPart, h, same p]
    · simp only [atPart, if_neg h, List.map_cons, ih, List.mem_cons, Ne.symm h, false_or]
      split <;> rfl

omit same in
theorem sum_atPart {bytes : Nat} {x : String} {inner : List Parcel}
    (more : ∀ p ∈ mk x 0 [] :: inner, (f p).size = p.size + bytes) :
    ((atPart x f inner).map size).sum = (inner.map size).sum + bytes := by
  induction inner with
  | nil => simp [atPart, more (mk x 0 []) List.mem_cons_self]
  | cons p ps ih =>
    rw [List.forall_mem_cons, List.forall_mem_cons] at more
    obtain ⟨fresh, here, rest⟩ := more
    by_cases h : p.name = x
    · simp only [atPart, if_pos h, List.map_cons, List.sum_cons, here]
      omega
    · simp only [atPart, if_neg h, List.map_cons, List.sum_cons,
        ih (List.forall_mem_cons.2 ⟨fresh, rest⟩)]
      omega

omit same in
theorem mem_atPart {x : String} {inner : List Parcel} {q : Parcel} (h : q ∈ atPart x f inner) :
    q ∈ inner ∨ (∃ p ∈ inner, q = f p) ∨ q = f (mk x 0 []) := by
  induction inner with
  | nil => exact .inr (.inr (by simpa [atPart] using h))
  | cons p ps ih =>
    by_cases hx : p.name = x
    · rw [atPart, if_pos hx, List.mem_cons] at h
      obtain rfl | h := h
      · exact .inr (.inl ⟨p, List.mem_cons_self, rfl⟩)
      · exact .inl (List.mem_cons_of_mem _ h)
    · rw [atPart, if_neg hx, List.mem_cons] at h
      obtain rfl | h := h
      · exact .inl List.mem_cons_self
      · obtain h | ⟨r, hr, rfl⟩ | h := ih h
        · exact .inl (List.mem_cons_of_mem _ h)
        · exact .inr (.inl ⟨r, List.mem_cons_of_mem _ hr, rfl⟩)
        · exact .inr (.inr h)

end atPart

/-! ## One addition -/

@[simp] theorem name_addAlong (bytes : Nat) (path : List String) (p : Parcel) :
    (addAlong bytes path p).name = p.name := by
  cases path <;> rfl

@[simp] theorem size_addAlong (bytes : Nat) (path : List String) (p : Parcel) :
    (addAlong bytes path p).size = Count.add p.size bytes := by
  cases path <;> rfl

theorem part_addAlong_nil (bytes : Nat) (p : Parcel) (x : String) :
    (addAlong bytes [] p).part x = p.part x := rfl

theorem part_addAlong_cons (bytes : Nat) (p : Parcel) (x y : String) (path : List String) :
    (addAlong bytes (x :: path) p).part y =
      if x = y then addAlong bytes path (p.part x) else p.part y := by
  simp only [part, addAlong, parts, find?_atPart (name_addAlong bytes path)]
  split <;> rfl

theorem names_addAlong_cons (bytes : Nat) (p : Parcel) (x : String) (path : List String) :
    (addAlong bytes (x :: path) p).parts.map name =
      if x ∈ p.parts.map name then p.parts.map name else p.parts.map name ++ [x] :=
  names_atPart (name_addAlong bytes path) x p.parts

/-- An addition reaches the boxes that its path goes through, and no others. -/
theorem sizeAt_add (p : Parcel) (path : List String) (bytes : Nat) (q : List String) :
    (p.add path bytes).sizeAt q =
      if q <+: path then Count.add (p.sizeAt q) bytes else p.sizeAt q := by
  unfold add
  induction path generalizing p q with
  | nil =>
    cases q with
    | nil => simp
    | cons y q => simp [sizeAt_cons, part_addAlong_nil]
  | cons x path ih =>
    cases q with
    | nil => simp
    | cons y q =>
      rw [sizeAt_cons, sizeAt_cons, part_addAlong_cons]
      by_cases h : x = y
      · subst h
        simp [ih]
      · simp [h, Ne.symm h]

/-- An addition makes the boxes that its path goes through, and no others. -/
theorem isSome_at?_add (p : Parcel) (path : List String) (bytes : Nat) (q : List String) :
    ((p.add path bytes).at? q).isSome ↔ (p.at? q).isSome ∨ q <+: path := by
  unfold add
  induction path generalizing p q with
  | nil =>
    cases q with
    | nil => simp [at?]
    | cons y q =>
      rw [isSome_at?_cons, isSome_at?_cons, part_addAlong_nil]
      simp [addAlong, parts]
  | cons x path ih =>
    cases q with
    | nil => simp [at?]
    | cons y q =>
      rw [isSome_at?_cons, isSome_at?_cons, part_addAlong_cons, names_addAlong_cons,
        List.cons_prefix_cons]
      by_cases h : x = y
      · subst h
        by_cases old : x ∈ p.parts.map name
        · simp [old, ih]
        · -- the part is made for this addition, so nothing was inside it before
          have start : q = [] ∨ q <+: path ↔ q <+: path := by
            apply or_iff_right_of_imp
            rintro rfl
            exact List.nil_prefix
          simp [old, ih, part_of_notMem old, isSome_at?_empty, start]
      · simp only [h, if_false, Ne.symm h, false_and, or_false]
        split <;> simp [Ne.symm h]

/-! ## Well-formed boxes -/

/-- Boxes whose parts have different names, at every depth. -/
inductive WellFormed : Parcel → Prop
  | mk {name : String} {size : Nat} {parts : List Parcel}
    (nodup : (parts.map Parcel.name).Nodup)
    (inside : ∀ p ∈ parts, WellFormed p) : WellFormed (.mk name size parts)

namespace WellFormed

variable {p : Parcel}

theorem nodup (h : p.WellFormed) : (p.parts.map Parcel.name).Nodup := by
  cases h with
  | mk nodup _ => exact nodup

theorem of_mem (h : p.WellFormed) {q : Parcel} (hq : q ∈ p.parts) : q.WellFormed := by
  cases h with
  | mk _ inside => exact inside q hq

theorem empty (name : String) : (Parcel.mk name 0 []).WellFormed := .mk List.nodup_nil (by simp)

theorem root : Parcel.root.WellFormed := empty _

/-- An addition keeps a box well formed: what it makes has a new name. -/
theorem add (h : p.WellFormed) (path : List String) (bytes : Nat) :
    (p.add path bytes).WellFormed := by
  unfold Parcel.add
  induction path generalizing p with
  | nil => exact .mk h.nodup fun _ => h.of_mem
  | cons x path ih =>
    refine .mk ?_ ?_
    · rw [names_atPart (name_addAlong bytes path)]
      split
      case isTrue => exact h.nodup
      case isFalse fresh =>
        exact List.nodup_append.2 ⟨h.nodup, List.nodup_singleton x, by
          rintro a ha b hb rfl
          exact fresh (List.mem_singleton.1 hb ▸ ha)⟩
    · intro q hq
      obtain hq | ⟨r, hr, rfl⟩ | rfl := mem_atPart hq
      · exact h.of_mem hq
      · exact ih (h.of_mem hr)
      · exact ih (empty x)

end WellFormed

/-! ## Boxes with room -/

/-- Boxes whose parts fit into them, and which fit into a word, at every depth. -/
inductive Fits : Parcel → Prop
  | mk {name : String} {size : Nat} {parts : List Parcel}
    (room : (parts.map Parcel.size).sum ≤ size) (small : size < UInt64.size)
    (inside : ∀ p ∈ parts, Fits p) : Fits (.mk name size parts)

namespace Fits

variable {p : Parcel} {bytes : Nat}

theorem room (h : p.Fits) : (p.parts.map Parcel.size).sum ≤ p.size := by
  cases h with
  | mk room _ _ => exact room

theorem small (h : p.Fits) : p.size < UInt64.size := by
  cases h with
  | mk _ small _ => exact small

theorem of_mem (h : p.Fits) {q : Parcel} (hq : q ∈ p.parts) : q.Fits := by
  cases h with
  | mk _ _ inside => exact inside q hq

theorem size_le_of_mem (h : p.Fits) {q : Parcel} (hq : q ∈ p.parts) : q.size ≤ p.size :=
  (List.le_sum_of_mem (List.mem_map_of_mem hq)).trans h.room

theorem ownSize_add_sum (h : p.Fits) : p.ownSize + (p.parts.map Parcel.size).sum = p.size := by
  have room := h.room
  rw [ownSize, Count.sum_of_lt (room.trans_lt h.small)]
  omega

theorem empty (name : String) : (Parcel.mk name 0 []).Fits :=
  .mk (Nat.le_refl 0) (by decide) (by simp)

/-- Each of the boxes that an addition may change inside a box has room for it too. -/
theorem size_addAlong_of_mem (h : p.Fits) (enough : p.size + bytes < UInt64.size)
    (path : List String) (x : String) :
    ∀ q ∈ Parcel.mk x 0 [] :: p.parts, (addAlong bytes path q).size = q.size + bytes := by
  intro q hq
  rw [size_addAlong]
  refine Count.add_of_lt ?_
  rcases List.mem_cons.1 hq with rfl | hq
  · rw [size_mk]
    omega
  · have := h.size_le_of_mem hq
    omega

/-- An addition for which there is room in the word keeps room for all inner boxes: what it
adds to a part it adds to the box around it. -/
theorem add (h : p.Fits) (path : List String) (enough : p.size + bytes < UInt64.size) :
    (p.add path bytes).Fits := by
  unfold Parcel.add
  induction path generalizing p with
  | nil =>
    rw [addAlong, Count.add_of_lt enough]
    exact .mk (by have := h.room; omega) enough fun _ => h.of_mem
  | cons x path ih =>
    rw [addAlong, Count.add_of_lt enough]
    refine .mk ?_ enough ?_
    · rw [sum_atPart (h.size_addAlong_of_mem enough path x)]
      have := h.room
      omega
    · intro q hq
      obtain hq | ⟨r, hr, rfl⟩ | rfl := mem_atPart hq
      · exact h.of_mem hq
      · have := h.size_le_of_mem hr
        exact ih (h.of_mem hr) (by omega)
      · exact ih (empty x) (by rw [size_mk]; omega)

/-- Only an addition that ends at a box adds to its own bytes. -/
theorem ownSize_add (h : p.Fits) (path : List String) (enough : p.size + bytes < UInt64.size) :
    (p.add path bytes).ownSize = p.ownSize + if path = [] then bytes else 0 := by
  have before := h.ownSize_add_sum
  have after := (h.add path enough).ownSize_add_sum
  rw [Parcel.add, size_addAlong, Count.add_of_lt enough] at after
  cases path with
  | nil =>
    simp only [Parcel.add, addAlong, parts_mk, if_true] at after ⊢
    omega
  | cons x path =>
    simp only [Parcel.add, addAlong, parts_mk, sum_atPart (h.size_addAlong_of_mem enough path x),
      reduceCtorEq, if_false] at after ⊢
    omega

end Fits

/-! ## Many additions -/

/-- Several additions, each of some bytes at the end of a path. -/
def addAll (p : Parcel) (shares : List (List String × Nat)) : Parcel :=
  shares.foldl (fun p share => p.add share.1 share.2) p

section

variable {p : Parcel} {shares : List (List String × Nat)}

theorem addAll_cons (p : Parcel) (share : List String × Nat) (shares : List (List String × Nat)) :
    p.addAll (share :: shares) = (p.add share.1 share.2).addAll shares := rfl

@[simp] theorem name_addAll (p : Parcel) (shares : List (List String × Nat)) :
    (p.addAll shares).name = p.name := by
  induction shares generalizing p with
  | nil => rfl
  | cons share shares ih => rw [addAll_cons, ih, Parcel.add, name_addAlong]

/-- **The bytes of every box after several additions**: the bytes of those whose path goes
through it are added to what it had. -/
theorem sizeAt_addAll (p : Parcel) (shares : List (List String × Nat)) (q : List String) :
    (p.addAll shares).sizeAt q =
      ((shares.filter fun share => q <+: share.1).map Prod.snd).foldl Count.add (p.sizeAt q) := by
  induction shares generalizing p with
  | nil => rfl
  | cons share shares ih =>
    rw [addAll_cons, ih, sizeAt_add]
    by_cases h : q <+: share.1
    · simp [h]
    · simp [h]

/-- **The boxes after several additions** are those that there were and those
that the path of an addition goes through. -/
theorem isSome_at?_addAll (p : Parcel) (shares : List (List String × Nat)) (q : List String) :
    ((p.addAll shares).at? q).isSome ↔
      (p.at? q).isSome ∨ ∃ share ∈ shares, q <+: share.1 := by
  induction shares generalizing p with
  | nil => simp [addAll]
  | cons share shares ih =>
    rw [addAll_cons, ih, isSome_at?_add]
    simp [or_assoc]

theorem WellFormed.addAll (h : p.WellFormed) (shares : List (List String × Nat)) :
    (p.addAll shares).WellFormed := by
  induction shares generalizing p with
  | nil => exact h
  | cons share shares ih => exact ih (h.add share.1 share.2)

/-- After additions that all fit into a word together there is room for all inner boxes, and
the own bytes of the box are those that it had and those of the additions that end at it. -/
theorem Fits.addAll (h : p.Fits) (enough : p.size + (shares.map Prod.snd).sum < UInt64.size) :
    (p.addAll shares).Fits ∧ (p.addAll shares).ownSize =
      p.ownSize + ((shares.filter fun share => share.1 = []).map Prod.snd).sum := by
  induction shares generalizing p with
  | nil => exact ⟨h, rfl⟩
  | cons share shares ih =>
    rw [List.map_cons, List.sum_cons] at enough
    have here : p.size + share.2 < UInt64.size := by omega
    have rest : (p.add share.1 share.2).size + (shares.map Prod.snd).sum < UInt64.size := by
      rw [Parcel.add, size_addAlong, Count.add_of_lt here]
      omega
    obtain ⟨fits, own⟩ := ih (h.add share.1 here) rest
    refine ⟨fits, ?_⟩
    rw [addAll_cons, own, h.ownSize_add share.1 here]
    by_cases ends : share.1 = []
    · simp [ends, Nat.add_assoc]
    · simp [ends]

end

/-! ## The parts of a well-formed box -/

/-- A part of a well-formed box is found under its name. -/
theorem WellFormed.find?_eq {p q : Parcel} (h : p.WellFormed) (hq : q ∈ p.parts) :
    p.parts.find? (·.name = q.name) = some q :=
  (Roster.find?_eq_some_iff (r := ⟨p.parts, h.nodup⟩)).2 ⟨hq, rfl⟩

/-- No other part of a well-formed box has the name of a part. -/
theorem WellFormed.filter_name_eq {p q : Parcel} (h : p.WellFormed) (hq : q ∈ p.parts) :
    p.parts.filter (·.name == q.name) = [q] := by
  have distinct : (p.parts.filter (·.name == q.name)).Nodup := (h.nodup.of_map name).filter _
  refine List.perm_singleton.1 ((List.perm_ext_iff_of_nodup distinct
    (List.nodup_singleton q)).2 fun x => ?_)
  rw [List.mem_filter, List.mem_singleton, beq_iff_eq]
  constructor
  · rintro ⟨hx, same⟩
    exact List.inj_on_of_nodup_map h.nodup hx hq same
  · rintro rfl
    exact ⟨hq, rfl⟩

/-- The parts of a well-formed box by name and size, in terms of its paths. -/
theorem WellFormed.mem_parts_iff {p : Parcel} (h : p.WellFormed) (x : String) (n : Nat) :
    (x, n) ∈ p.parts.map (fun q => (q.name, q.size)) ↔
      (p.at? [x]).isSome ∧ p.sizeAt [x] = n := by
  constructor
  · intro hm
    obtain ⟨q, hq, e⟩ := List.mem_map.1 hm
    obtain ⟨rfl, rfl⟩ := Prod.mk.inj e
    simp [sizeAt, at?, h.find?_eq hq]
  · rintro ⟨exists_, rfl⟩
    simp only [at?, sizeAt] at exists_ ⊢
    cases found : p.parts.find? (·.name = x) with
    | none => simp [found] at exists_
    | some q =>
      refine List.mem_map.2 ⟨q, List.mem_of_find?_eq_some found, ?_⟩
      simpa using List.find?_some found

end Parcel

end SizeAtlas
