import Mathlib
import SizeAtlas.Roster

/-!
# Rosters under each operation

What entering, merging and changing do to the keys of a roster, to its entries,
and to a sum over them.  Entering replaces at most one entry, so a sum changes by
the new summand less the one that it replaces; merging is entering one by one.

## Main statements

* `find?_eq_some_iff` — reading finds exactly the entries.
* `sameEntries_iff` — two rosters hold the same entries if they differ in order only.
* `entries_insert_of_notMem` — a new key goes to the end.
* `sum_insert` — the exact change of a sum.
* `extend_eq_insertAll` — merging enters the entries in turn.
* `sum_extend_le` — merging never makes more than both sums.
-/

namespace SizeAtlas.Roster

universe u v

variable {α : Type u} {κ : Type v} {key : α → κ}

/-! ## Keys -/

theorem mem_keys {r : Roster key} {k : κ} : k ∈ r.keys ↔ ∃ x ∈ r.entries, key x = k := by
  simp [keys]

theorem key_mem_keys {r : Roster key} {x : α} (h : x ∈ r.entries) : key x ∈ r.keys :=
  List.mem_map_of_mem h

@[simp] theorem keys_empty : (∅ : Roster key).keys = [] := rfl

/-- Two entries with one key are one entry. -/
theorem eq_of_key_eq {r : Roster key} {x y : α} (hx : x ∈ r.entries) (hy : y ∈ r.entries)
    (h : key x = key y) : x = y :=
  List.inj_on_of_nodup_map r.nodup hx hy h

variable [DecidableEq κ]

/-! ## Reading -/

theorem find?_eq_some_iff {r : Roster key} {k : κ} {x : α} :
    r.find? k = some x ↔ x ∈ r.entries ∧ key x = k := by
  constructor
  · intro h
    exact ⟨List.mem_of_find?_eq_some h, key_of_find? h⟩
  · rintro ⟨hx, rfl⟩
    cases h : r.find? (key x) with
    | none => exact absurd (List.find?_eq_none.1 h x hx) (by simp)
    | some y =>
      rw [eq_of_key_eq (List.mem_of_find?_eq_some h) hx (key_of_find? h)]

theorem find?_eq_none_iff {r : Roster key} {k : κ} : r.find? k = none ↔ k ∉ r.keys := by
  simp [find?, keys]

theorem contains_iff {r : Roster key} {k : κ} : r.contains k = true ↔ k ∈ r.keys := by
  simp [contains]

/-- What is read does not depend on the order of the entries. -/
theorem find?_of_perm {r s : Roster key} (perm : r.entries.Perm s.entries) (k : κ) :
    r.find? k = s.find? k := by
  ext x
  rw [find?_eq_some_iff, find?_eq_some_iff, perm.mem_iff]

/-- Two rosters hold the same entries exactly if the entries of the one are those of the other
in some order. -/
theorem sameEntries_iff [DecidableEq α] {r s : Roster key} :
    r.sameEntries s = true ↔ r.entries.Perm s.entries := by
  have found : (r.entries.all fun x => s.find? (key x) == some x) = true ↔
      r.entries ⊆ s.entries := by
    simp [find?_eq_some_iff, List.subset_def]
  rw [sameEntries, Bool.and_eq_true, beq_iff_eq, found]
  constructor
  · rintro ⟨as_many, sub⟩
    exact (List.subperm_of_subset (.of_map key r.nodup) sub).perm_of_length_le as_many.ge
  · intro perm
    exact ⟨perm.length_eq, perm.subset⟩

/-! ## Entering -/

theorem place_of_notMem {x : α} {l : List α} (h : key x ∉ l.map key) :
    place key x l = l ++ [x] := by
  induction l with
  | nil => rfl
  | cons y ys ih =>
    simp only [List.map_cons, List.mem_cons, not_or] at h
    have hy : key y ≠ key x := fun e => h.1 e.symm
    simp [place, hy, ih h.2]

/-- Changing what lies under an absent key changes nothing. -/
theorem map_ite_of_notMem {k : κ} {l : List α} (f : α → α) (h : k ∉ l.map key) :
    (l.map fun x => if key x = k then f x else x) = l := by
  rw [List.map_congr_left (g := id) ?_, List.map_id]
  intro x hx
  have : key x ≠ k := fun e => h (e ▸ List.mem_map_of_mem hx)
  simp [this]

theorem place_of_mem {x : α} {l : List α} (nodup : (l.map key).Nodup) (h : key x ∈ l.map key) :
    place key x l = l.map fun y => if key y = key x then x else y := by
  induction l with
  | nil => simp at h
  | cons y ys ih =>
    rw [List.map_cons, List.nodup_cons] at nodup
    by_cases hy : key y = key x
    · simp [place, hy, map_ite_of_notMem (fun _ => x) (hy ▸ nodup.1)]
    · have hx : key x ∈ ys.map key := by
        simpa [show key x ≠ key y from fun e => hy e.symm] using h
      simp [place, hy, ih nodup.2 hx]

/-- Placing adds the new summand and takes the replaced one away. -/
theorem sum_place (f : α → Nat) (x : α) (l : List α) :
    ((place key x l).map f).sum + ((l.find? fun y => key y = key x).map f).getD 0 =
      (l.map f).sum + f x := by
  induction l with
  | nil => simp [place]
  | cons y ys ih =>
    by_cases h : key y = key x
    · simp [place, h]
      omega
    · simp [place, h] at ih ⊢
      omega

theorem entries_insert_of_notMem {r : Roster key} {x : α} (h : key x ∉ r.keys) :
    (r.insert x).entries = r.entries ++ [x] :=
  place_of_notMem h

theorem keys_insert_of_notMem {r : Roster key} {x : α} (h : key x ∉ r.keys) :
    (r.insert x).keys = r.keys ++ [key x] := by
  rw [keys_insert, if_neg h]

theorem entries_insert_of_mem {r : Roster key} {x : α} (h : key x ∈ r.keys) :
    (r.insert x).entries = r.entries.map fun y => if key y = key x then x else y :=
  place_of_mem r.nodup h

@[simp] theorem mem_keys_insert {r : Roster key} {x : α} {k : κ} :
    k ∈ (r.insert x).keys ↔ k ∈ r.keys ∨ k = key x := by
  rw [keys_insert]
  split
  · rename_i h
    exact ⟨Or.inl, fun hk => hk.elim id fun e => e ▸ h⟩
  · simp

/-- What is there after entering `x` is `x` or was there before. -/
theorem mem_of_mem_insert {r : Roster key} {x y : α} (h : y ∈ (r.insert x).entries) :
    y = x ∨ y ∈ r.entries := by
  by_cases hx : key x ∈ r.keys
  · rw [entries_insert_of_mem hx, List.mem_map] at h
    obtain ⟨z, hz, rfl⟩ := h
    by_cases e : key z = key x
    · exact Or.inl (if_pos e)
    · rw [if_neg e]
      exact Or.inr hz
  · rw [entries_insert_of_notMem hx, List.mem_append, List.mem_singleton] at h
    exact h.symm

@[simp] theorem find?_insert_self (r : Roster key) (x : α) :
    (r.insert x).find? (key x) = some x := by
  rw [find?_eq_some_iff]
  refine ⟨?_, rfl⟩
  by_cases h : key x ∈ r.keys
  · obtain ⟨y, hy, e⟩ := mem_keys.1 h
    rw [entries_insert_of_mem h]
    exact List.mem_map.2 ⟨y, hy, if_pos e⟩
  · simp [entries_insert_of_notMem h]

theorem find?_insert_of_ne (r : Roster key) {x : α} {k : κ} (h : k ≠ key x) :
    (r.insert x).find? k = r.find? k := by
  ext y
  rw [find?_eq_some_iff, find?_eq_some_iff]
  by_cases hx : key x ∈ r.keys
  · simp only [entries_insert_of_mem hx, List.mem_map]
    constructor
    · rintro ⟨⟨z, hz, rfl⟩, rfl⟩
      by_cases e : key z = key x
      · simp [e] at h
      · simpa [e] using hz
    · rintro ⟨hy, rfl⟩
      exact ⟨⟨y, hy, if_neg h⟩, rfl⟩
  · simp only [entries_insert_of_notMem hx, List.mem_append, List.mem_singleton]
    constructor
    · rintro ⟨hy | rfl, rfl⟩
      · exact ⟨hy, rfl⟩
      · exact absurd rfl h
    · rintro ⟨hy, e⟩
      exact ⟨Or.inl hy, e⟩

/-- Entering `x` changes a sum over the entries by the summand of `x` less that
of the entry it replaces. -/
theorem sum_insert (f : α → Nat) (r : Roster key) (x : α) :
    ((r.insert x).entries.map f).sum + ((r.find? (key x)).map f).getD 0 =
      (r.entries.map f).sum + f x :=
  sum_place f x r.entries

theorem sum_insert_le (f : α → Nat) (r : Roster key) (x : α) :
    ((r.insert x).entries.map f).sum ≤ (r.entries.map f).sum + f x := by
  have := sum_insert f r x
  omega

@[simp] theorem mem_keys_insertAll {xs : List α} {r : Roster key} {k : κ} :
    k ∈ (r.insertAll xs).keys ↔ k ∈ r.keys ∨ k ∈ xs.map key := by
  induction xs generalizing r with
  | nil => simp [insertAll]
  | cons x xs ih =>
    rw [insertAll, List.foldl_cons, ← insertAll, ih, mem_keys_insert, List.map_cons,
      List.mem_cons, or_assoc]

/-- What is there after entering a list is in the list or was there before. -/
theorem mem_of_mem_insertAll {xs : List α} {r : Roster key} {y : α}
    (h : y ∈ (r.insertAll xs).entries) : y ∈ r.entries ∨ y ∈ xs := by
  induction xs generalizing r with
  | nil => exact Or.inl h
  | cons x xs ih =>
    rcases ih h with first | rest
    · rcases mem_of_mem_insert first with rfl | old
      · exact Or.inr List.mem_cons_self
      · exact Or.inl old
    · exact Or.inr (List.mem_cons_of_mem x rest)

theorem sum_insertAll_le (f : α → Nat) (r : Roster key) (xs : List α) :
    ((r.insertAll xs).entries.map f).sum ≤ (r.entries.map f).sum + (xs.map f).sum := by
  induction xs generalizing r with
  | nil => simp [insertAll]
  | cons x xs ih =>
    have first := sum_insert_le f r x
    have rest := ih (r.insert x)
    rw [insertAll, List.foldl_cons, ← insertAll, List.map_cons, List.sum_cons]
    omega

/-! ## Merging -/

/-- The entry that comes last under the key of `x`, if `xs` has none of that key
`x` itself. -/
def latest (key : α → κ) (xs : List α) (x : α) : α :=
  (xs.find? fun y => key y = key x).getD x

theorem latest_cons_of_eq {x y : α} {ys : List α} (h : key y = key x) :
    latest key (y :: ys) x = y := by
  simp [latest, h]

theorem latest_cons_of_ne {x y : α} {ys : List α} (h : key y ≠ key x) :
    latest key (y :: ys) x = latest key ys x := by
  simp [latest, h]

theorem latest_of_notMem {x : α} {xs : List α} (h : key x ∉ xs.map key) :
    latest key xs x = x := by
  have : xs.find? (fun y => key y = key x) = none := by
    simpa [List.find?_eq_none] using h
  simp [latest, this]

/-- Entering a list without repeated keys: what is there is replaced in its place,
and what is new comes after. -/
theorem entries_insertAll {xs : List α} (nodup : (xs.map key).Nodup) (r : Roster key) :
    (r.insertAll xs).entries =
      r.entries.map (latest key xs) ++ xs.filter fun x => key x ∉ r.keys := by
  induction xs generalizing r with
  | nil =>
    have same : latest key ([] : List α) = id := rfl
    simp [insertAll, same]
  | cons y ys ih =>
    rw [List.map_cons, List.nodup_cons] at nodup
    rw [insertAll, List.foldl_cons, ← insertAll, ih nodup.2]
    have last : latest key ys y = y := latest_of_notMem nodup.1
    by_cases h : key y ∈ r.keys
    · have same : (r.insert y).keys = r.keys := by rw [keys_insert, if_pos h]
      rw [same, entries_insert_of_mem h, List.map_map, List.filter_cons_of_neg (by simp [h])]
      congr 1
      refine List.map_congr_left fun x _ => ?_
      by_cases hx : key x = key y
      · simp [hx, last, latest_cons_of_eq hx.symm]
      · simp [hx, latest_cons_of_ne fun e => hx e.symm]
    · have others : r.entries.map (latest key (y :: ys)) = r.entries.map (latest key ys) := by
        refine List.map_congr_left fun x hx => latest_cons_of_ne fun e => h ?_
        exact e ▸ key_mem_keys hx
      have fresh : (ys.filter fun x => key x ∉ (r.insert y).keys) =
          ys.filter fun x => key x ∉ r.keys := by
        refine List.filter_congr fun x hx => ?_
        have : key x ≠ key y := fun e => nodup.1 (e ▸ List.mem_map_of_mem hx)
        simp [this]
      rw [entries_insert_of_notMem h, fresh, others, List.filter_cons_of_pos (by simp [h])]
      simp [last]

/-- Entering the entries of a roster one by one gives the roster back. -/
theorem ofList_entries (r : Roster key) : ofList r.entries = r := by
  apply ext
  rw [ofList, entries_insertAll r.nodup]
  simp

/-- Merging enters the entries of the second roster in turn. -/
theorem extend_eq_insertAll (r s : Roster key) : r.extend s = r.insertAll s.entries := by
  apply ext
  rw [entries_insertAll s.nodup]
  rfl

@[simp] theorem mem_keys_extend {r s : Roster key} {k : κ} :
    k ∈ (r.extend s).keys ↔ k ∈ r.keys ∨ k ∈ s.keys := by
  rw [extend_eq_insertAll, mem_keys_insertAll]
  rfl

/-- What is there after merging was in one of the rosters. -/
theorem mem_of_mem_extend {r s : Roster key} {x : α} (h : x ∈ (r.extend s).entries) :
    x ∈ r.entries ∨ x ∈ s.entries := by
  rw [extend_eq_insertAll] at h
  exact mem_of_mem_insertAll h

theorem sum_extend_le (f : α → Nat) (r s : Roster key) :
    ((r.extend s).entries.map f).sum ≤ (r.entries.map f).sum + (s.entries.map f).sum := by
  rw [extend_eq_insertAll]
  exact sum_insertAll_le f r s.entries

/-! ## Changing entries -/

theorem entries_modify (r : Roster key) (k : κ) (f : α → α) (hf : ∀ x, key (f x) = key x) :
    (r.modify k f hf).entries = r.entries.map fun x => if key x = k then f x else x :=
  rfl

omit [DecidableEq κ] in
@[simp] theorem keys_map (r : Roster key) (f : α → α) (hf : ∀ x, key (f x) = key x) :
    (r.map f hf).keys = r.keys :=
  map_map_key hf r.entries

theorem find?_modify (r : Roster key) (k k' : κ) (f : α → α) (hf : ∀ x, key (f x) = key x) :
    (r.modify k f hf).find? k' = (r.find? k').map fun x => if k' = k then f x else x := by
  have same : ∀ x, key (if key x = k then f x else x) = key x := by
    intro x
    split <;> simp [hf]
  rw [find?, entries_modify, List.find?_map, find?]
  simp only [Function.comp_def, same]
  refine Option.map_congr fun x hx => ?_
  have : key x = k' := by simpa using List.find?_some hx
  rw [this]

/-- Changing the summand under one key by `n` changes the sum by `n`. -/
theorem sum_map_ite {f : α → Nat} {g : α → α} {n : Nat} (hg : ∀ x, f (g x) = f x + n)
    {k : κ} {l : List α} (nodup : (l.map key).Nodup) (h : k ∈ l.map key) :
    ((l.map fun x => if key x = k then g x else x).map f).sum = (l.map f).sum + n := by
  induction l with
  | nil => simp at h
  | cons x l ih =>
    rw [List.map_cons, List.nodup_cons] at nodup
    by_cases hx : key x = k
    · rw [List.map_cons, map_ite_of_notMem g (hx ▸ nodup.1), if_pos hx]
      simp only [List.map_cons, List.sum_cons, hg]
      omega
    · have hl : k ∈ l.map key := by
        simpa [show k ≠ key x from fun e => hx e.symm] using h
      simp only [List.map_cons, if_neg hx, List.sum_cons, ih nodup.2 hl]
      omega

@[simp] theorem keys_modify (r : Roster key) (k : κ) (f : α → α) (hf : ∀ x, key (f x) = key x) :
    (r.modify k f hf).keys = r.keys :=
  keys_map r _ _

end SizeAtlas.Roster
