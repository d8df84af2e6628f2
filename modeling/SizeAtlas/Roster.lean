/-!
# Lists with one entry per key

A roster holds at most one entry per key, in the order in which the keys were
first entered.  Entering a key again replaces its entry and keeps its place.

## Main definitions

* `Roster key` — entries whose values under `key` are pairwise distinct.
* `Roster.insert`, `Roster.insertAll` — entering one entry, and many.
* `Roster.find?`, `Roster.keys` — reading.
* `Roster.extend` — merging two rosters.
* `Roster.map`, `Roster.modify` — changing what lies under a key, never the key.
-/

namespace SizeAtlas

universe u v

variable {α : Type u} {κ : Type v}

/-- Entries with pairwise distinct keys. -/
structure Roster (key : α → κ) where
  /-- The entries, in the order in which their keys were first entered. -/
  entries : List α
  /-- No key occurs twice. -/
  nodup : (entries.map key).Nodup

namespace Roster

variable {key : α → κ}

/-- The keys in their order. -/
def keys (r : Roster key) : List κ := r.entries.map key

/-- How many entries there are. -/
def size (r : Roster key) : Nat := r.entries.length

/-- The roster without entries. -/
def empty : Roster key := ⟨[], by simp⟩

instance : EmptyCollection (Roster key) := ⟨empty⟩

instance : Inhabited (Roster key) := ⟨empty⟩

@[ext] theorem ext {r s : Roster key} (h : r.entries = s.entries) : r = s := by
  cases r
  cases s
  simp_all

@[simp] theorem entries_empty : (∅ : Roster key).entries = [] := rfl

variable [DecidableEq κ]

/-! ## Entering -/

/-- Puts `x` where the entry of its key stands, or at the end if there is none. -/
def place (key : α → κ) (x : α) : List α → List α
  | [] => [x]
  | y :: ys => if key y = key x then x :: ys else y :: place key x ys

theorem map_place (x : α) (l : List α) :
    (place key x l).map key = if key x ∈ l.map key then l.map key else l.map key ++ [key x] := by
  induction l with
  | nil => simp [place]
  | cons y ys ih =>
    by_cases h : key y = key x
    · simp [place, h]
    · have h' : key x ≠ key y := fun e => h e.symm
      simp only [place, h, if_false, List.map_cons, ih, List.mem_cons, h', false_or]
      split <;> simp

/-- Enters `x`: in place of the entry of its key, or else at the end. -/
def insert (r : Roster key) (x : α) : Roster key where
  entries := place key x r.entries
  nodup := by
    rw [map_place]
    split
    · exact r.nodup
    · rename_i h
      rw [List.nodup_append]
      refine ⟨r.nodup, by simp, ?_⟩
      intro a ha b hb
      simp only [List.mem_singleton] at hb
      subst hb
      exact fun e => h (e ▸ ha)

theorem keys_insert (r : Roster key) (x : α) :
    (r.insert x).keys = if key x ∈ r.keys then r.keys else r.keys ++ [key x] :=
  map_place x r.entries

/-- Enters every entry of `xs` in turn. -/
def insertAll (r : Roster key) (xs : List α) : Roster key := xs.foldl insert r

/-- The roster that results from entering `xs` in turn. -/
def ofList (xs : List α) : Roster key := insertAll ∅ xs

/-! ## Reading -/

/-- The entry under `k`. -/
def find? (r : Roster key) (k : κ) : Option α := r.entries.find? fun x => key x = k

/-- Whether there is an entry under `k`. -/
def contains (r : Roster key) (k : κ) : Bool := k ∈ r.keys

/-- Whether two rosters hold the same entries, in whatever order. -/
def sameEntries [DecidableEq α] (r s : Roster key) : Bool :=
  r.size == s.size && r.entries.all fun x => s.find? (key x) == some x

/-! ## Merging -/

omit [DecidableEq κ] in
theorem map_map_key {f : α → α} (hf : ∀ x, key (f x) = key x) (l : List α) :
    (l.map f).map key = l.map key := by
  simp [List.map_map, Function.comp_def, hf]

theorem key_of_find? {r : Roster key} {k : κ} {x : α} (h : r.find? k = some x) : key x = k := by
  simpa using List.find?_some h

/-- Enters every entry of `s`: those whose keys `r` has take their places there,
the others come after in their order. -/
def extend (r s : Roster key) : Roster key where
  entries :=
    r.entries.map (fun x => (s.find? (key x)).getD x) ++
      s.entries.filter fun x => key x ∉ r.keys
  nodup := by
    have same : ∀ x, key ((s.find? (key x)).getD x) = key x := by
      intro x
      cases h : s.find? (key x) with
      | none => rfl
      | some y => exact key_of_find? h
    rw [List.map_append, map_map_key same, List.nodup_append]
    refine ⟨r.nodup, s.nodup.sublist (List.filter_sublist.map key), ?_⟩
    intro a ha b hb e
    simp only [List.mem_map, List.mem_filter] at hb
    obtain ⟨x, ⟨_, hx⟩, rfl⟩ := hb
    exact (by simpa using hx : key x ∉ r.keys) (e ▸ ha)

/-! ## Changing entries -/

/-- Changes every entry by `f`, which keeps the keys. -/
def map (r : Roster key) (f : α → α) (hf : ∀ x, key (f x) = key x) : Roster key where
  entries := r.entries.map f
  nodup := by rw [map_map_key hf]; exact r.nodup

/-- Changes the entry under `k` by `f`, which keeps the key. -/
def modify (r : Roster key) (k : κ) (f : α → α) (hf : ∀ x, key (f x) = key x) : Roster key :=
  r.map (fun x => if key x = k then f x else x) (by intro x; split <;> simp [hf])

end Roster

end SizeAtlas
