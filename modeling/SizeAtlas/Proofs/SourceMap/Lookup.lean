import Mathlib
import SizeAtlas.SourceMap.Basic

/-!
# What a look-up in a source map finds

The entries of a map are in the order of their offsets, so the search by halves finds the
place between those before an offset and the others.  The last of the former and the first
of the latter are the nearest to the offset, and one of them is what a look-up gives.

## Main definitions

* `entriesBefore`, `entriesFrom` — the entries before an offset, and the others.
* `Nearest` — an entry than which none is nearer.

## Main statements

* `nearest?_eq` — the look-up chooses between two entries.
* `nearest_of_nearest?`, `nearest?_eq_none_iff` — what it finds, and when it finds none.
* `nearest?_eq_some_iff` — between distinct offsets it finds exactly the nearest entry.
-/

namespace SizeAtlas.SourceMap

/-! ## The search by halves -/

/-- The search ends at the place from which on `before` fails. -/
theorem partitionPoint_eq {before : Nat → Bool} {low high place : Nat} (le : low ≤ place)
    (le' : place ≤ high) (holds : ∀ i < place, before i = true)
    (fails : ∀ i, place ≤ i → i < high → before i = false) :
    partitionPoint before low high = place := by
  fun_induction partitionPoint before low high with
  | case1 low high lt middle left ih =>
    have : middle < high := by omega
    have : ¬ place ≤ middle := fun le => by simp [fails middle le this] at left
    exact ih (by omega) le' fails
  | case2 low high lt middle right ih =>
    have : ¬ middle < place := fun lt => right (holds middle lt)
    exact ih le (by omega) fun i le lt => fails i le (by omega)
  | case3 low high ge =>
    omega

/-! ## The entries on either side of an offset -/

variable (m : SourceMap) (offset reach : Nat)

/-- The entries before `offset`, in their order. -/
def entriesBefore : List Entry := m.entries.toList.filter (·.offset < offset)

/-- The entries at `offset` and behind it, in their order. -/
def entriesFrom : List Entry := m.entries.toList.filter (offset ≤ ·.offset)

theorem sorted_toList : m.entries.toList.Pairwise fun a b => a.offset ≤ b.offset := by
  refine m.sorted.imp fun {a b} h => ?_
  simpa [Entry.inOrder] using h

/-- The entries before an offset come first. -/
theorem toList_entries : m.entries.toList = m.entriesBefore offset ++ m.entriesFrom offset := by
  have split : ∀ l : List Entry, l.Pairwise (fun a b => a.offset ≤ b.offset) →
      l = l.filter (·.offset < offset) ++ l.filter (offset ≤ ·.offset) := by
    intro l sorted
    induction l with
    | nil => rfl
    | cons a l ih =>
      obtain ⟨least, rest⟩ := List.pairwise_cons.1 sorted
      by_cases before : a.offset < offset
      · rw [List.filter_cons_of_pos (by simpa using before),
          List.filter_cons_of_neg (by simpa using before), List.cons_append, ← ih rest]
      · -- All others are behind `a`, so none of them is before the offset.
        have none : l.filter (·.offset < offset) = [] := by
          refine List.filter_eq_nil_iff.2 fun b hb => ?_
          have := least b hb
          simp only [decide_eq_true_eq]
          omega
        have all : l.filter (offset ≤ ·.offset) = l := by
          refine List.filter_eq_self.2 fun b hb => ?_
          have := least b hb
          simp only [decide_eq_true_eq]
          omega
        rw [List.filter_cons_of_neg (by simpa using before),
          List.filter_cons_of_pos (by simpa using before), none, all, List.nil_append]
  exact split _ m.sorted_toList

theorem getElem?_entries_of_lt {i : Nat} (lt : i < (m.entriesBefore offset).length) :
    m.entries[i]? = (m.entriesBefore offset)[i]? := by
  rw [← Array.getElem?_toList, m.toList_entries offset, List.getElem?_append_left lt]

theorem getElem?_entries_length_add (i : Nat) :
    m.entries[(m.entriesBefore offset).length + i]? = (m.entriesFrom offset)[i]? := by
  rw [← Array.getElem?_toList, m.toList_entries offset,
    List.getElem?_append_right (Nat.le_add_right _ _), Nat.add_sub_cancel_left]

/-- The search finds how many entries there are before an offset. -/
theorem splitAt_eq : m.splitAt offset = (m.entriesBefore offset).length := by
  have size : m.entries.size = (m.entriesBefore offset).length + (m.entriesFrom offset).length := by
    rw [← Array.length_toList, m.toList_entries offset, List.length_append]
  refine partitionPoint_eq (Nat.zero_le _) (by omega) (fun i lt => ?_) fun i le lt => ?_
  · rw [m.getElem?_entries_of_lt offset lt, List.getElem?_eq_getElem lt]
    have mem := List.getElem_mem lt
    simpa using (List.mem_filter.1 mem).2
  · obtain ⟨k, rfl⟩ := Nat.exists_eq_add_of_le le
    rw [m.getElem?_entries_length_add offset k]
    cases found : (m.entriesFrom offset)[k]? with
    | none => rfl
    | some e =>
      have mem := List.mem_of_getElem? found
      simpa using (List.mem_filter.1 mem).2

/-- The nearer of an entry before `offset` and one behind it, or the only one. -/
def nearer (offset : Nat) : Option Entry → Option Entry → Option Entry
  | some b, some a => if a.offset - offset < offset - b.offset then some a else some b
  | b, a => b.or a

theorem nearer_eq_some_iff {offset : Nat} {before behind : Option Entry} {e : Entry} :
    nearer offset before behind = some e ↔
      (before = some e ∧ ∀ a, behind = some a → offset - e.offset ≤ a.offset - offset) ∨
        (behind = some e ∧ ∀ b, before = some b → e.offset - offset < offset - b.offset) := by
  cases before with
  | none => simp [nearer]
  | some b =>
    cases behind with
    | none => simp [nearer]
    | some a =>
      by_cases closer : a.offset - offset < offset - b.offset
      · simp only [nearer, if_pos closer, Option.some.injEq]
        constructor
        · rintro rfl
          exact Or.inr ⟨rfl, fun _ same => same ▸ closer⟩
        · rintro (⟨rfl, le⟩ | ⟨rfl, _⟩)
          · exact absurd closer (Nat.not_lt.2 (le a rfl))
          · rfl
      · simp only [nearer, if_neg closer, Option.some.injEq]
        constructor
        · rintro rfl
          exact Or.inl ⟨rfl, fun _ same => same ▸ Nat.le_of_not_lt closer⟩
        · rintro (⟨rfl, _⟩ | ⟨rfl, lt⟩)
          · rfl
          · exact absurd (lt b rfl) closer

theorem nearer_eq_none_iff {offset : Nat} {before behind : Option Entry} :
    nearer offset before behind = none ↔ before = none ∧ behind = none := by
  cases before with
  | none => simp [nearer]
  | some b =>
    cases behind with
    | none => simp [nearer]
    | some a =>
      by_cases closer : a.offset - offset < offset - b.offset <;> simp [nearer, closer]

/-- The look-up chooses between the last entry before an offset and the first other one. -/
theorem nearest?_eq :
    m.nearest? offset reach =
      if (m.entriesFrom offset).head?.any (·.offset == offset) then (m.entriesFrom offset).head?
      else
        nearer offset ((m.entriesBefore offset).getLast?.filter (offset - ·.offset ≤ reach))
          ((m.entriesFrom offset).head?.filter (·.offset - offset ≤ reach)) := by
  have after : m.entries[m.splitAt offset]? = (m.entriesFrom offset).head? := by
    rw [m.splitAt_eq, ← Nat.add_zero (m.entriesBefore offset).length,
      m.getElem?_entries_length_add, List.head?_eq_getElem?]
  have before : (if m.splitAt offset = 0 then none else
      m.entries[m.splitAt offset - 1]?.filter (offset - ·.offset ≤ reach)) =
        (m.entriesBefore offset).getLast?.filter (offset - ·.offset ≤ reach) := by
    rw [m.splitAt_eq]
    by_cases empty : (m.entriesBefore offset).length = 0
    · rw [if_pos empty, List.length_eq_zero_iff.1 empty]
      rfl
    · rw [if_neg empty, m.getElem?_entries_of_lt offset (by omega), List.getLast?_eq_getElem?]
  rw [nearest?, after]
  simp only [before]
  rfl

/-! ## The nearest entry -/

/-- How far an entry is from an offset. -/
def Entry.distance (e : Entry) (offset : Nat) : Nat := e.offset - offset + (offset - e.offset)

variable {m offset reach} {e : Entry}

/-- No entry is nearer to `offset` than `e`, which is at most `reach` bytes away.  Of two
that are equally near the one before `offset` counts. -/
structure Nearest (m : SourceMap) (offset reach : Nat) (e : Entry) : Prop where
  mem : e ∈ m.entries
  within : e.distance offset ≤ reach
  least : ∀ e' ∈ m.entries, e.distance offset ≤ e'.distance offset
  tie : ∀ e' ∈ m.entries, e'.distance offset = e.distance offset → e'.offset ≤ offset →
    e.offset ≤ offset

theorem mem_entries_iff : e ∈ m.entries ↔ e ∈ m.entriesBefore offset ∨ e ∈ m.entriesFrom offset := by
  rw [← Array.mem_toList_iff, m.toList_entries offset, List.mem_append]

theorem lt_of_mem_entriesBefore (mem : e ∈ m.entriesBefore offset) : e.offset < offset := by
  simpa using (List.mem_filter.1 mem).2

theorem le_of_mem_entriesFrom (mem : e ∈ m.entriesFrom offset) : offset ≤ e.offset := by
  simpa using (List.mem_filter.1 mem).2

theorem le_of_getLast?_entriesBefore {b : Entry} (last : (m.entriesBefore offset).getLast? = some b)
    (mem : e ∈ m.entriesBefore offset) : e.offset ≤ b.offset := by
  have sorted := m.sorted_toList.sublist (List.filter_sublist (p := (·.offset < offset)))
  change (m.entriesBefore offset).Pairwise _ at sorted
  obtain ⟨front, split⟩ := List.getLast?_eq_some_iff.1 last
  rw [split] at mem sorted
  rcases List.mem_append.1 mem with early | late
  · exact (List.pairwise_append.1 sorted).2.2 e early b (List.mem_singleton.2 rfl)
  · exact Nat.le_of_eq (congrArg Entry.offset (List.mem_singleton.1 late))

theorem le_of_head?_entriesFrom {a : Entry} (first : (m.entriesFrom offset).head? = some a)
    (mem : e ∈ m.entriesFrom offset) : a.offset ≤ e.offset := by
  have sorted := m.sorted_toList.sublist (List.filter_sublist (p := (offset ≤ ·.offset)))
  change (m.entriesFrom offset).Pairwise _ at sorted
  obtain ⟨rest, split⟩ := List.head?_eq_some_iff.1 first
  rw [split] at mem sorted
  rcases List.mem_cons.1 mem with rfl | late
  · exact Nat.le_refl _
  · exact (List.pairwise_cons.1 sorted).1 e late

/-- There is a last entry before an offset if there is any, and it is the nearest of them. -/
theorem exists_getLast? (mem : e ∈ m.entriesBefore offset) :
    ∃ b, (m.entriesBefore offset).getLast? = some b ∧ e.offset ≤ b.offset := by
  obtain ⟨b, last⟩ := Option.isSome_iff_exists.1 (List.getLast?_isSome.2 (List.ne_nil_of_mem mem))
  exact ⟨b, last, le_of_getLast?_entriesBefore last mem⟩

theorem exists_head? (mem : e ∈ m.entriesFrom offset) :
    ∃ a, (m.entriesFrom offset).head? = some a ∧ a.offset ≤ e.offset := by
  obtain ⟨a, first⟩ := Option.isSome_iff_exists.1 (List.isSome_head?.2 (List.ne_nil_of_mem mem))
  exact ⟨a, first, le_of_head?_entriesFrom first mem⟩

/-- The last entry before an offset is the nearest, unless the first other one is nearer. -/
theorem nearest_of_getLast? {b : Entry} (last : (m.entriesBefore offset).getLast? = some b)
    (within : offset - b.offset ≤ reach)
    (nearer : ∀ a, (m.entriesFrom offset).head? = some a → offset - b.offset ≤ a.offset - offset) :
    Nearest m offset reach b := by
  have lt := lt_of_mem_entriesBefore (List.mem_of_getLast? last)
  have least : ∀ e ∈ m.entries, b.distance offset ≤ e.distance offset := by
    intro e mem
    unfold Entry.distance
    rcases mem_entries_iff.1 mem with before | behind
    · have := le_of_getLast?_entriesBefore last before
      omega
    · obtain ⟨a, first, le⟩ := exists_head? behind
      have := nearer a first
      omega
  refine ⟨mem_entries_iff.2 (Or.inl (List.mem_of_getLast? last)), ?_, least, fun _ _ _ _ => ?_⟩
  · unfold Entry.distance
    omega
  · exact Nat.le_of_lt lt

/-- The first entry that is not before an offset is the nearest, if the last one before is
farther away. -/
theorem nearest_of_head? {a : Entry} (first : (m.entriesFrom offset).head? = some a)
    (within : a.offset - offset ≤ reach)
    (nearer : ∀ b, (m.entriesBefore offset).getLast? = some b →
      a.offset - offset < offset - b.offset) :
    Nearest m offset reach a := by
  have le := le_of_mem_entriesFrom (List.mem_of_head? first)
  have before : ∀ e ∈ m.entriesBefore offset, a.distance offset < e.distance offset := by
    intro e mem
    obtain ⟨b, last, le⟩ := exists_getLast? mem
    have := nearer b last
    unfold Entry.distance
    omega
  have behind : ∀ e ∈ m.entriesFrom offset, a.distance offset ≤ e.distance offset := by
    intro e mem
    have := le_of_head?_entriesFrom first mem
    unfold Entry.distance
    omega
  refine ⟨mem_entries_iff.2 (Or.inr (List.mem_of_head? first)), ?_, ?_, ?_⟩
  · unfold Entry.distance
    omega
  · intro e mem
    exact (mem_entries_iff.1 mem).elim (fun mem => Nat.le_of_lt (before e mem)) (behind e)
  · intro e mem same at_or_before
    rcases mem_entries_iff.1 mem with mem | mem
    · exact absurd same (Nat.ne_of_gt (before e mem))
    · have := le_of_mem_entriesFrom mem
      unfold Entry.distance at same
      omega

/-- What a look-up finds is the nearest entry. -/
theorem nearest_of_nearest? (found : m.nearest? offset reach = some e) :
    Nearest m offset reach e := by
  rw [nearest?_eq] at found
  split at found
  · rename_i here
    rw [found, Option.any_some, beq_iff_eq] at here
    refine nearest_of_head? found (by omega) fun b last => ?_
    have := lt_of_mem_entriesBefore (List.mem_of_getLast? last)
    omega
  · simp only [nearer_eq_some_iff, Option.filter_eq_some_iff, decide_eq_true_eq] at found
    rcases found with ⟨⟨last, within⟩, nearer⟩ | ⟨⟨first, within⟩, nearer⟩
    · refine nearest_of_getLast? last within fun a first => ?_
      by_cases near : a.offset - offset ≤ reach
      · exact nearer a ⟨first, near⟩
      · omega
    · refine nearest_of_head? first within fun b last => ?_
      by_cases near : offset - b.offset ≤ reach
      · exact nearer b ⟨last, near⟩
      · omega

/-- A look-up finds nothing exactly if all entries are too far away. -/
theorem nearest?_eq_none_iff :
    m.nearest? offset reach = none ↔ ∀ e ∈ m.entries, reach < e.distance offset := by
  constructor
  · intro none e mem
    rw [nearest?_eq] at none
    split at none
    · rename_i here
      simp [none] at here
    · simp only [nearer_eq_none_iff, Option.filter_eq_none_iff, decide_eq_true_eq] at none
      unfold Entry.distance
      rcases mem_entries_iff.1 mem with before | behind
      · obtain ⟨b, last, le⟩ := exists_getLast? before
        have := none.1 b last
        omega
      · obtain ⟨a, first, le⟩ := exists_head? behind
        have := none.2 a first
        omega
  · intro far
    cases found : m.nearest? offset reach with
    | none => rfl
    | some e =>
      have nearest := nearest_of_nearest? found
      exact absurd nearest.within (Nat.not_le.2 (far e nearest.mem))

/-- Between distinct offsets there is at most one nearest entry. -/
theorem Nearest.eq {e' : Entry} (distinct : (m.entries.toList.map Entry.offset).Nodup)
    (h : Nearest m offset reach e) (h' : Nearest m offset reach e') : e = e' := by
  have same := Nat.le_antisymm (h.least e' h'.mem) (h'.least e h.mem)
  have tie := h.tie e' h'.mem same.symm
  have tie' := h'.tie e h.mem same
  have offsets : e.offset = e'.offset := by
    unfold Entry.distance at same
    omega
  exact List.inj_on_of_nodup_map distinct (Array.mem_toList_iff.2 h.mem)
    (Array.mem_toList_iff.2 h'.mem) offsets

/-- **Between distinct offsets a look-up finds exactly the nearest entry.** -/
theorem nearest?_eq_some_iff (distinct : (m.entries.toList.map Entry.offset).Nodup) :
    m.nearest? offset reach = some e ↔ Nearest m offset reach e := by
  constructor
  · exact nearest_of_nearest?
  · intro nearest
    cases found : m.nearest? offset reach with
    | none => exact absurd nearest.within (Nat.not_le.2 (nearest?_eq_none_iff.1 found e nearest.mem))
    | some e' => rw [(nearest_of_nearest? found).eq distinct nearest]

/-- Without any reach the nearest entry is one at the offset. -/
theorem nearest_zero_iff : Nearest m offset 0 e ↔ e ∈ m.entries ∧ e.offset = offset := by
  constructor
  · intro nearest
    have within := nearest.within
    unfold Entry.distance at within
    exact ⟨nearest.mem, by omega⟩
  · rintro ⟨mem, rfl⟩
    have here : e.distance e.offset = 0 := by simp [Entry.distance]
    exact ⟨mem, by omega, fun _ _ => by omega, fun _ _ _ _ => Nat.le_refl _⟩

end SizeAtlas.SourceMap
