import SizeAtlas.Proofs.Merging

/-!
# What is left of the entries of a list

Of all entries of a list that have one key, only the last is left after they were entered
one after the other.  So nothing is lost exactly if no key repeats, and it makes no
difference whether some of the entries are first entered into a roster of their own that is
merged afterwards.

## Main statements

* `mem_ofList_iff` — what is left is last under its key.
* `filter_entries_ofList` — what nothing else has the key of is all left.
* `pairwise_keys_ofList` — the keys are in the order in which they first occur.
* `extend_ofList` — merging is entering what the merged roster was made of.
* `entries_insertAll_of_nodup` — nothing is lost if no key repeats.
* `size_ofList_eq_iff` — something is lost otherwise.
-/

namespace SizeAtlas.Roster

universe u v

variable {α : Type u} {κ : Type v} [DecidableEq κ] {key : α → κ}

theorem insertAll_append (r : Roster key) (xs ys : List α) :
    r.insertAll (xs ++ ys) = (r.insertAll xs).insertAll ys :=
  List.foldl_append

theorem ofList_concat (xs : List α) (x : α) :
    (ofList (xs ++ [x]) : Roster key) = (ofList xs).insert x :=
  insertAll_append ∅ xs [x]

/-! ## The last entry of a key -/

/-- An entry is what reading its key finds. -/
theorem mem_entries_iff {r : Roster key} {x : α} : x ∈ r.entries ↔ r.find? (key x) = some x := by
  rw [find?_eq_some_iff, and_iff_left rfl]

theorem mem_insert_iff {r : Roster key} {x y : α} :
    y ∈ (r.insert x).entries ↔ y = x ∨ y ∈ r.entries ∧ key y ≠ key x := by
  rw [mem_entries_iff]
  by_cases same : key y = key x
  · rw [same, find?_insert_self, Option.some.injEq]
    simp [eq_comm]
  · rw [find?_insert_of_ne r same, ← mem_entries_iff]
    have ne : y ≠ x := fun e => same (e ▸ rfl)
    simp [same, ne]

omit [DecidableEq κ] in
/-- Where an entry stands in a list with one more at its end. -/
theorem concat_eq_append_cons_iff {xs before after : List α} {last x : α} :
    xs ++ [last] = before ++ x :: after ↔
      xs = before ∧ last = x ∧ after = [] ∨
        ∃ after', xs = before ++ x :: after' ∧ after = after' ++ [last] := by
  constructor
  · intro split
    rcases List.eq_nil_or_concat after with rfl | ⟨after, last', rfl⟩
    · obtain ⟨same, lasts⟩ := List.append_inj' split rfl
      exact .inl ⟨same, List.singleton_inj.1 lasts, rfl⟩
    · rw [List.concat_eq_append, ← List.cons_append, ← List.append_assoc] at split
      obtain ⟨same, lasts⟩ := List.append_inj' split rfl
      obtain rfl := List.singleton_inj.1 lasts
      exact .inr ⟨after, same, List.concat_eq_append⟩
  · rintro (⟨rfl, rfl, rfl⟩ | ⟨after, rfl, rfl⟩)
    · rfl
    · rw [List.append_assoc, List.cons_append]

/-- What is left of a list is what no later entry of the list has the key of. -/
theorem mem_ofList_iff {xs : List α} {x : α} :
    x ∈ (ofList xs : Roster key).entries ↔
      ∃ before after, xs = before ++ x :: after ∧ key x ∉ after.map key := by
  induction xs using List.reverseRecOn with
  | nil =>
    constructor
    · intro mem
      exact absurd mem List.not_mem_nil
    · rintro ⟨before, after, split, -⟩
      simp at split
  | append_singleton xs last ih =>
    rw [ofList_concat, mem_insert_iff, ih]
    constructor
    · rintro (rfl | ⟨⟨before, after, rfl, later⟩, ne⟩)
      · exact ⟨xs, [], rfl, List.not_mem_nil⟩
      · refine ⟨before, after ++ [last], by simp, ?_⟩
        simp only [List.map_append, List.mem_append, not_or]
        exact ⟨later, by simpa using ne⟩
    · rintro ⟨before, after, split, later⟩
      rcases concat_eq_append_cons_iff.1 split with ⟨-, rfl, -⟩ | ⟨after, earlier, rfl⟩
      · exact .inl rfl
      · simp only [List.map_append, List.mem_append, not_or] at later
        exact .inr ⟨⟨before, after, earlier, later.1⟩, by simpa using later.2⟩

/-- Entries whose keys nothing else in a list has are all left, in their order. -/
theorem filter_entries_ofList {p : α → Bool} {xs : List α}
    (apart : xs.Pairwise fun x y => p x = true ∨ p y = true → key x ≠ key y) :
    (ofList xs : Roster key).entries.filter p = xs.filter p := by
  induction xs using List.reverseRecOn with
  | nil => rfl
  | append_singleton xs x ih =>
    obtain ⟨earlier, -, last⟩ := List.pairwise_append.1 apart
    have others : ∀ y ∈ (ofList xs : Roster key).entries, p y = true ∨ p x = true →
        key y ≠ key x := by
      intro y hy
      have mem : y ∈ xs := (mem_of_mem_insertAll hy).resolve_left List.not_mem_nil
      exact last y mem x (List.mem_singleton_self x)
    rw [ofList_concat, List.filter_append, ← ih earlier]
    by_cases known : key x ∈ (ofList xs : Roster key).keys
    · -- neither `x` nor what it replaces is one of these entries
      obtain ⟨old, hold, same⟩ := mem_keys.1 known
      have other : p x = false := Bool.eq_false_iff.2 fun here => others old hold (.inr here) same
      have kept : ∀ y ∈ (ofList xs : Roster key).entries, p y = true →
          (if key y = key x then x else y) = y :=
        fun y hy here => if_neg (others y hy (.inl here))
      have replaced : ∀ y ∈ (ofList xs : Roster key).entries,
          (p ∘ fun y => if key y = key x then x else y) y = p y := by
        intro y hy
        rw [Function.comp_apply]
        by_cases here : p y = true
        · rw [kept y hy here]
        · split
          · rw [other, Bool.eq_false_iff.2 here]
          · rfl
      rw [entries_insert_of_mem known, List.filter_map, List.filter_congr (q := p) replaced,
        List.filter_cons_of_neg (by simp [other]), List.filter_nil, List.append_nil,
        List.map_congr_left (g := id) fun y hy => ?_, List.map_id]
      exact kept y (List.mem_filter.1 hy).1 (List.mem_filter.1 hy).2
    · rw [entries_insert_of_notMem known, List.filter_append]

/-! ## The order of the keys -/

/-- The keys are in the order in which they first occur. -/
theorem pairwise_keys_ofList (xs : List α) :
    (ofList xs : Roster key).keys.Pairwise
      fun k l => (xs.map key).idxOf k < (xs.map key).idxOf l := by
  induction xs using List.reverseRecOn with
  | nil => exact List.Pairwise.nil
  | append_singleton xs x ih =>
    have mem : ∀ k, k ∈ (ofList xs : Roster key).keys ↔ k ∈ xs.map key := by
      intro k
      rw [ofList, mem_keys_insertAll]
      simp
    have old : (ofList xs : Roster key).keys.Pairwise
        fun k l => ((xs ++ [x]).map key).idxOf k < ((xs ++ [x]).map key).idxOf l := by
      refine ih.imp_of_mem fun {k l} hk hl lt => ?_
      rw [List.map_append, List.idxOf_append_of_mem ((mem k).1 hk),
        List.idxOf_append_of_mem ((mem l).1 hl)]
      exact lt
    rw [ofList_concat, keys_insert]
    split
    · exact old
    · rename_i fresh
      refine List.pairwise_append.2 ⟨old, List.pairwise_singleton _ _, ?_⟩
      intro k hk l hl
      rw [List.mem_singleton.1 hl, List.map_append, List.idxOf_append_of_mem ((mem k).1 hk),
        List.idxOf_append_of_notMem fun there => fresh ((mem _).2 there)]
      exact Nat.lt_of_lt_of_le (List.idxOf_lt_length_of_mem ((mem k).1 hk)) (Nat.le_add_right _ _)

/-! ## Rosters of their own -/

theorem entries_eq_filterMap (r : Roster key) :
    r.entries = r.keys.filterMap r.find? := by
  rw [keys, List.filterMap_map]
  have found : ∀ x ∈ r.entries, (r.find? ∘ key) x = some x := fun x hx => mem_entries_iff.1 hx
  rw [List.filterMap_congr found, List.filterMap_some]

/-- Rosters are the same if their keys are, and what lies under them. -/
theorem ext_find? {r s : Roster key} (keys : r.keys = s.keys)
    (same : ∀ k, r.find? k = s.find? k) : r = s := by
  apply ext
  rw [entries_eq_filterMap, entries_eq_filterMap, keys, funext same]

theorem keys_extend (r s : Roster key) :
    (r.extend s).keys = r.keys ++ s.keys.filter (· ∉ r.keys) := by
  have same : ∀ x, key ((s.find? (key x)).getD x) = key x := by
    intro x
    cases found : s.find? (key x) with
    | none => rfl
    | some y => exact key_of_find? found
  rw [keys, extend, List.map_append, map_map_key same, keys, keys, List.filter_map]
  rfl

/-- It makes no difference whether an entry is entered before merging or after it. -/
theorem extend_insert (r s : Roster key) (x : α) : r.extend (s.insert x) = (r.extend s).insert x := by
  apply ext_find?
  · rw [keys_extend, keys_insert, keys_insert, keys_extend]
    by_cases old : key x ∈ r.keys <;> by_cases mem : key x ∈ s.keys <;> simp [mem, old]
  · intro k
    by_cases same : k = key x
    · rw [same, find?_extend, find?_insert_self, find?_insert_self, Option.some_or]
    · rw [find?_extend, find?_insert_of_ne s same, find?_insert_of_ne _ same, find?_extend]

/-- Merging a roster enters all that it was made of. -/
theorem extend_ofList (r : Roster key) (xs : List α) : r.extend (ofList xs) = r.insertAll xs := by
  induction xs using List.reverseRecOn with
  | nil => exact extend_eq_insertAll r ∅
  | append_singleton xs x ih => rw [ofList_concat, extend_insert, ih, insertAll_append]; rfl

/-- Merging several rosters enters all their entries in turn. -/
theorem mergeAll_eq_ofList (rs : List (Roster key)) :
    mergeAll rs = ofList (rs.flatMap Roster.entries) := by
  have all : ∀ r : Roster key, rs.foldl extend r = r.insertAll (rs.flatMap Roster.entries) := by
    induction rs with
    | nil => exact fun r => rfl
    | cons s rs ih =>
      intro r
      rw [List.foldl_cons, ih, extend_eq_insertAll, List.flatMap_cons, insertAll_append]
  exact all ∅

/-! ## Nothing lost -/

/-- Nothing is lost if no key repeats. -/
theorem entries_insertAll_of_nodup {r : Roster key} {xs : List α}
    (nodup : (r.keys ++ xs.map key).Nodup) : (r.insertAll xs).entries = r.entries ++ xs := by
  rw [List.nodup_append] at nodup
  obtain ⟨-, nodup, apart⟩ := nodup
  rw [entries_insertAll nodup]
  congr 1
  · have last : ∀ x ∈ r.entries, latest key xs x = id x := fun x hx =>
      latest_of_notMem fun mem => apart _ (key_mem_keys hx) _ mem rfl
    rw [List.map_congr_left last, List.map_id]
  · rw [List.filter_eq_self]
    intro x hx
    have fresh : key x ∉ r.keys := fun mem => apart _ mem _ (List.mem_map_of_mem hx) rfl
    exact decide_eq_true fresh

theorem keys_insertAll_of_nodup {r : Roster key} {xs : List α}
    (nodup : (r.keys ++ xs.map key).Nodup) : (r.insertAll xs).keys = r.keys ++ xs.map key := by
  rw [keys, entries_insertAll_of_nodup nodup, List.map_append, keys]

theorem entries_ofList_of_nodup {xs : List α} (nodup : (xs.map key).Nodup) :
    (ofList xs : Roster key).entries = xs :=
  entries_insertAll_of_nodup nodup

/-- There is an entry left of each only if no key repeats. -/
theorem size_ofList_eq_iff {xs : List α} :
    (ofList xs : Roster key).size = xs.length ↔ (xs.map key).Nodup := by
  have keys : (ofList xs : Roster key).keys.toFinset = (xs.map key).toFinset := by
    ext k
    rw [List.mem_toFinset, List.mem_toFinset, ofList, mem_keys_insertAll]
    simp
  have nodup : (ofList xs : Roster key).keys.Nodup := (ofList xs).nodup
  have size : (ofList xs : Roster key).size = (xs.map key).toFinset.card := by
    rw [← keys, List.toFinset_card_of_nodup nodup, Roster.keys, List.length_map, Roster.size]
  rw [size, ← List.length_map key]
  exact Multiset.toFinset_card_eq_card_iff_nodup (m := ((xs.map key : List κ) : Multiset κ))

end SizeAtlas.Roster
