import SizeAtlas.Proofs.Roster

/-!
# Merging several rosters

Of the entries that several rosters have under one key, merging keeps the one of the
last roster.  So the entries of all rosters fall into those that are kept and those
that a later roster replaces.

## Main definitions

* `lastFind?` — the entry that the last roster with a key has under it.
* `kept`, `replaced` — what becomes of the entries of several rosters.

## Main statements

* `find?_mergeAll` — reading after merging finds what the last roster has.
* `perm_mergeAll` — merging keeps exactly the entries that no later roster replaces.
* `perm_kept_append_replaced` — each entry is either kept or replaced.
-/

namespace SizeAtlas.Roster

universe u v

variable {α : Type u} {κ : Type v} [DecidableEq κ] {key : α → κ}

/-- The roster that results from merging `rs` in turn. -/
def mergeAll (rs : List (Roster key)) : Roster key := rs.foldl extend ∅

/-- The entry under `k` of the last of the rosters that have one. -/
def lastFind? (k : κ) : List (Roster key) → Option α
  | [] => none
  | r :: later => (lastFind? k later).or (r.find? k)

/-- Which entries no later roster replaces. -/
def kept : List (Roster key) → List α
  | [] => []
  | r :: later => r.entries.filter (fun x => (lastFind? (key x) later).isNone) ++ kept later

/-- Which entries a later roster replaces. -/
def replaced : List (Roster key) → List α
  | [] => []
  | r :: later => r.entries.filter (fun x => (lastFind? (key x) later).isSome) ++ replaced later

/-! ## Reading after merging -/

theorem find?_extend (r s : Roster key) (k : κ) :
    (r.extend s).find? k = (s.find? k).or (r.find? k) := by
  have same : ∀ x, key ((s.find? (key x)).getD x) = key x := by
    intro x
    cases h : s.find? (key x) with
    | none => rfl
    | some y => exact key_of_find? h
  have old : (r.entries.map fun x => (s.find? (key x)).getD x).find? (fun x => key x = k) =
      (r.find? k).map fun x => (s.find? k).getD x := by
    rw [List.find?_map, find?]
    simp only [Function.comp_def, same]
    refine Option.map_congr fun x hx => ?_
    have : key x = k := by simpa using List.find?_some hx
    rw [this]
    rfl
  rw [find?, extend, List.find?_append, old]
  cases found : r.find? k with
  | some x => cases s.find? k <;> simp
  | none =>
    have : k ∉ r.keys := find?_eq_none_iff.1 found
    rw [Option.map_none, Option.none_or, Option.or_none, List.find?_filter, find?]
    congr 1
    funext x
    by_cases h : key x = k <;> simp [h, this]

theorem find?_foldl_extend (rs : List (Roster key)) (r : Roster key) (k : κ) :
    (rs.foldl extend r).find? k = (lastFind? k rs).or (r.find? k) := by
  induction rs generalizing r with
  | nil => rfl
  | cons s rs ih => rw [List.foldl_cons, ih, find?_extend, lastFind?, Option.or_assoc]

theorem find?_mergeAll (rs : List (Roster key)) (k : κ) :
    (mergeAll rs).find? k = lastFind? k rs := by
  have nothing : (∅ : Roster key).find? k = none := rfl
  rw [mergeAll, find?_foldl_extend, nothing, Option.or_none]

theorem lastFind?_eq_none_iff {rs : List (Roster key)} {k : κ} :
    lastFind? k rs = none ↔ ∀ r ∈ rs, k ∉ r.keys := by
  induction rs with
  | nil => simp [lastFind?]
  | cons r rs ih => simp [lastFind?, ih, find?_eq_none_iff, and_comm]

/-! ## What is taken from each roster -/

omit [DecidableEq κ] in
/-- Membership in what is taken from each roster by a look at the later ones. -/
theorem mem_iff_of_step {f : List (Roster key) → List α} {p : List (Roster key) → α → Bool}
    (nil : f [] = []) (cons : ∀ r later, f (r :: later) = r.entries.filter (p later) ++ f later)
    {rs : List (Roster key)} {x : α} :
    x ∈ f rs ↔ ∃ before r later, rs = before ++ r :: later ∧ x ∈ r.entries ∧ p later x = true := by
  induction rs with
  | nil => simp [nil]
  | cons r rs ih =>
    rw [cons, List.mem_append, List.mem_filter, ih]
    constructor
    · rintro (⟨hx, here⟩ | ⟨before, s, later, rfl, rest⟩)
      · exact ⟨[], r, rs, rfl, hx, here⟩
      · exact ⟨r :: before, s, later, rfl, rest⟩
    · rintro ⟨before, s, later, split, hx, rest⟩
      cases before with
      | nil =>
        obtain ⟨rfl, rfl⟩ := List.cons.inj split
        exact Or.inl ⟨hx, rest⟩
      | cons b before =>
        obtain ⟨rfl, rfl⟩ := List.cons.inj split
        exact Or.inr ⟨before, s, later, rfl, hx, rest⟩

/-! ## What is kept -/

theorem mem_kept_iff {rs : List (Roster key)} {x : α} :
    x ∈ kept rs ↔ lastFind? (key x) rs = some x := by
  induction rs with
  | nil => simp [kept, lastFind?]
  | cons r rs ih =>
    rw [kept, List.mem_append, List.mem_filter, ih, lastFind?]
    cases lastFind? (key x) rs with
    | none => simp [find?_eq_some_iff]
    | some y => simp

/-- An entry is kept if no roster after its own has one of the same key. -/
theorem mem_kept_iff_last {rs : List (Roster key)} {x : α} :
    x ∈ kept rs ↔ ∃ before r later, rs = before ++ r :: later ∧ x ∈ r.entries ∧
      ∀ s ∈ later, key x ∉ s.keys := by
  rw [mem_iff_of_step (p := fun later x => (lastFind? (key x) later).isNone) rfl fun _ _ => rfl]
  simp only [Option.isNone_iff_eq_none, lastFind?_eq_none_iff]

theorem nodup_map_kept (rs : List (Roster key)) : ((kept rs).map key).Nodup := by
  induction rs with
  | nil => exact List.nodup_nil
  | cons r rs ih =>
    rw [kept, List.map_append, List.nodup_append]
    refine ⟨r.nodup.sublist (List.filter_sublist.map key), ih, ?_⟩
    rintro k here k' later rfl
    obtain ⟨x, hx, rfl⟩ := List.mem_map.1 here
    obtain ⟨y, hy, same⟩ := List.mem_map.1 later
    -- What a later roster keeps is found there, and `x` has no such successor.
    have none : lastFind? (key x) rs = none := by simpa using (List.mem_filter.1 hx).2
    have some : lastFind? (key y) rs = some y := mem_kept_iff.1 hy
    rw [same, none] at some
    exact absurd some (by simp)

/-- Merging keeps exactly the entries that no later roster replaces. -/
theorem perm_mergeAll (rs : List (Roster key)) : (mergeAll rs).entries.Perm (kept rs) := by
  have left : (mergeAll rs).entries.Nodup := List.Nodup.of_map key (mergeAll rs).nodup
  have right : (kept rs).Nodup := List.Nodup.of_map key (nodup_map_kept rs)
  rw [List.perm_ext_iff_of_nodup left right]
  intro x
  rw [mem_kept_iff, ← find?_mergeAll, find?_eq_some_iff]
  exact (and_iff_left rfl).symm

/-! ## What is replaced -/

/-- An entry is replaced if a roster after its own has one of the same key. -/
theorem mem_replaced_iff {rs : List (Roster key)} {x : α} :
    x ∈ replaced rs ↔ ∃ before r later, rs = before ++ r :: later ∧ x ∈ r.entries ∧
      ∃ s ∈ later, key x ∈ s.keys := by
  rw [mem_iff_of_step (p := fun later x => (lastFind? (key x) later).isSome) rfl fun _ _ => rfl]
  simp only [Option.isSome_iff_ne_none, Ne, lastFind?_eq_none_iff, not_forall, not_not, exists_prop]

/-- Each entry is either kept or replaced. -/
theorem perm_kept_append_replaced (rs : List (Roster key)) :
    (kept rs ++ replaced rs).Perm (rs.flatMap Roster.entries) := by
  induction rs with
  | nil => exact .refl _
  | cons r rs ih =>
    have parts : (r.entries.filter (fun x => (lastFind? (key x) rs).isNone) ++
        r.entries.filter fun x => (lastFind? (key x) rs).isSome).Perm r.entries := by
      simpa using List.filter_append_perm (fun x => (lastFind? (key x) rs).isNone) r.entries
    have swapped := (List.perm_append_comm_assoc (kept rs)
      (r.entries.filter fun x => (lastFind? (key x) rs).isSome) (replaced rs)).append_left
        (r.entries.filter fun x => (lastFind? (key x) rs).isNone)
    rw [kept, replaced, List.append_assoc, List.flatMap_cons]
    refine swapped.trans ?_
    rw [← List.append_assoc]
    exact parts.append ih

/-- A sum over all entries is that over the kept and the replaced ones. -/
theorem sum_kept_add (f : α → Nat) (rs : List (Roster key)) :
    ((kept rs).map f).sum + ((replaced rs).map f).sum =
      (rs.map fun r => (r.entries.map f).sum).sum := by
  have sums := ((perm_kept_append_replaced rs).map f).sum_eq
  rw [List.map_append, List.sum_append, List.map_flatMap, List.flatMap_def, List.sum_flatten,
    List.map_map] at sums
  exact sums

end SizeAtlas.Roster
