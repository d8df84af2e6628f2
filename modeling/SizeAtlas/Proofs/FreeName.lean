import Mathlib
import SizeAtlas.SymbolTable

/-!
# Free names

The search for a free name tries the candidates in their order.  The series never
repeats, so among one candidate more than there are names taken one is free.

Where nothing bounds the search but a candidate that is free, and the candidates are numbered
with a counter of 32 bits, it ends there too if no more than `2 ^ 31` names are taken, for the
counter gets that far.  With more names taken it goes on from the smallest number until it is
through, and then the candidates come again; so the search ends unless all of them are taken.

## Main definitions

* `Search` — the search that goes on for as long as candidates are taken.
* `countedCandidate` — the candidates that it comes to.

## Main statements

* `nameCandidate_injective` — the series never repeats.
* `freeName_spec` — the search gives the first candidate that is free.
* `search_iff`, `exists_search_iff` — where the search without a bound ends, and when.
* `Search.tries_le` — after how many tries at most.
* `search_freeName` — after how many tries it ends, and with which name.
* `freeName_notMem` — the name that is chosen is free.
* `freeName_congr` — it depends only on which names are taken.
* `freeName_eq_iff` — when a name without a number sign is chosen.
-/

namespace SizeAtlas

/-! ## The series of candidates -/

/-- What a candidate adds to the name, where `number` writes the numbers. -/
def candidateEnding (number : Nat → String) (tag : String) : Nat → String
  | 0 => ""
  | 1 => "#" ++ tag
  | n + 2 => "#" ++ tag ++ "#" ++ number (n + 1)

theorem nameCandidate_eq (name tag : String) (i : Nat) :
    nameCandidate name tag i = name ++ candidateEnding toString tag i := by
  match i with
  | 0 => simp [nameCandidate, candidateEnding]
  | 1 => simp [nameCandidate, candidateEnding, String.append_assoc]
  | n + 2 => simp [nameCandidate, candidateEnding, String.append_assoc]

/-- Two candidates are the same only if they have the same number. -/
theorem eq_or_number_eq {number : Nat → String} {name tag : String} {i j : Nat}
    (same : name ++ candidateEnding number tag i = name ++ candidateEnding number tag j) :
    i = j ∨ ∃ m n, i = m + 2 ∧ j = n + 2 ∧ number (m + 1) = number (n + 1) := by
  have chars := congrArg String.toList same
  rw [String.toList_append, String.toList_append] at chars
  replace chars := List.append_cancel_left chars
  match i, j with
  | 0, 0 | 1, 1 => exact .inl rfl
  | 0, 1 | 1, 0 | 0, n + 2 | n + 2, 0 | 1, n + 2 | n + 2, 1 => simp [candidateEnding] at chars
  | m + 2, n + 2 =>
    simp only [candidateEnding, String.toList_append] at chars
    exact .inr ⟨m, n, rfl, rfl, String.toList_inj.1 (List.append_cancel_left chars)⟩

/-- The series of candidates never repeats. -/
theorem nameCandidate_injective (name tag : String) :
    Function.Injective (nameCandidate name tag) := by
  intro i j same
  rw [nameCandidate_eq, nameCandidate_eq] at same
  rcases eq_or_number_eq same with eq | ⟨m, n, rfl, rfl, number⟩
  · exact eq
  · have := Nat.repr_injective number
    omega

/-! ## The search -/

/-- The search ends at a candidate before which all are taken, and which is free
itself unless the tries are used up. -/
theorem firstFree_spec (taken : List String) (candidate : Nat → String) (tries i : Nat) :
    ∃ j, firstFree taken candidate tries i = candidate j ∧ j ≤ i + tries ∧
      (∀ k, i ≤ k → k < j → candidate k ∈ taken) ∧ (candidate j ∉ taken ∨ j = i + tries) := by
  induction tries generalizing i with
  | zero => exact ⟨i, rfl, Nat.le_refl i, fun k hik hki => by omega, Or.inr rfl⟩
  | succ tries ih =>
    by_cases h : candidate i ∈ taken
    · obtain ⟨j, hj, le, before, last⟩ := ih (i + 1)
      refine ⟨j, by rw [firstFree, if_pos h, hj], by omega, ?_, last.imp_right (by omega)⟩
      intro k hik hkj
      rcases Nat.eq_or_lt_of_le hik with rfl | hik
      · exact h
      · exact before k hik hkj
    · exact ⟨i, by rw [firstFree, if_neg h], by omega, fun k hik hki => by omega, Or.inl h⟩

/-- Distinct candidates that are all taken are no more than there are names taken. -/
theorem le_card_of_taken {candidate : Nat → String} {taken : List String} {n : Nat}
    (distinct : ∀ i < n, ∀ j < n, candidate i = candidate j → i = j)
    (all : ∀ i < n, candidate i ∈ taken) : n ≤ taken.toFinset.card := by
  have sub : (Finset.range n).image candidate ⊆ taken.toFinset := by
    intro s hs
    obtain ⟨i, hi, rfl⟩ := Finset.mem_image.1 hs
    exact List.mem_toFinset.2 (all i (Finset.mem_range.1 hi))
  have card := Finset.card_le_card sub
  rwa [Finset.card_image_of_injOn, Finset.card_range] at card
  intro i hi j hj
  exact distinct i (Finset.mem_range.1 hi) j (Finset.mem_range.1 hj)

/-- Distinct candidates cannot all be among fewer names. -/
theorem exists_candidate_notMem {candidate : Nat → String} (inj : Function.Injective candidate)
    (taken : List String) : ∃ i ≤ taken.toFinset.card, candidate i ∉ taken := by
  by_contra none
  push Not at none
  have many : taken.toFinset.card + 1 ≤ taken.toFinset.card :=
    le_card_of_taken (fun _ _ _ _ same => inj same) fun i hi => none i (Nat.le_of_lt_succ hi)
  omega

/-- The name that is chosen is the first of its series that is not taken. -/
theorem freeName_spec (name tag : String) (taken : List String) :
    ∃ j ≤ taken.toFinset.card, freeName name tag taken = nameCandidate name tag j ∧
      nameCandidate name tag j ∉ taken ∧ ∀ i < j, nameCandidate name tag i ∈ taken := by
  obtain ⟨j, hj, _, before, last⟩ := firstFree_spec taken (nameCandidate name tag) taken.length 0
  obtain ⟨i, hi, free⟩ := exists_candidate_notMem (nameCandidate_injective name tag) taken
  -- The search does not pass the free candidate that exists.
  have le : j ≤ i := Nat.le_of_not_lt fun lt => free (before i (Nat.zero_le i) lt)
  refine ⟨j, le.trans hi, hj, ?_, fun i hi => before i (Nat.zero_le i) hi⟩
  rcases last with free | rfl
  · exact free
  · have := List.toFinset_card_le taken
    rwa [show 0 + taken.length = i by omega]

theorem freeName_notMem (name tag : String) (taken : List String) :
    freeName name tag taken ∉ taken := by
  obtain ⟨j, _, hj, free, _⟩ := freeName_spec name tag taken
  rwa [hj]

/-- Two numbers that are both the first for which something fails are one. -/
theorem eq_of_fails_first {P : Nat → Prop} {i j : Nat} (failsAt : ¬P i) (before : ∀ k < i, P k)
    (failsAt' : ¬P j) (before' : ∀ k < j, P k) : i = j := by
  rcases Nat.lt_trichotomy i j with lt | eq | gt
  · exact absurd (before' i lt) failsAt
  · exact eq
  · exact absurd (before j gt) failsAt'

/-- The name that is chosen depends only on which names are taken. -/
theorem freeName_congr {name tag : String} {taken taken' : List String}
    (same : ∀ s, s ∈ taken ↔ s ∈ taken') : freeName name tag taken = freeName name tag taken' := by
  obtain ⟨j, _, hj, free, before⟩ := freeName_spec name tag taken
  obtain ⟨j', _, hj', free', before'⟩ := freeName_spec name tag taken'
  simp only [← same] at free' before'
  rw [hj, hj', eq_of_fails_first free before free' before']

/-- The name itself is chosen exactly if it is not taken. -/
theorem freeName_eq_self_iff {name tag : String} {taken : List String} :
    freeName name tag taken = name ↔ name ∉ taken := by
  constructor
  · intro itself
    rw [← itself]
    exact freeName_notMem name tag taken
  · intro notMem
    obtain ⟨j, _, hj, free, before⟩ := freeName_spec name tag taken
    have none : ∀ i < 0, nameCandidate name tag i ∈ taken := fun i lt =>
      absurd lt (Nat.not_lt_zero i)
    rw [hj, eq_of_fails_first free before (j := 0) notMem none]
    rfl

/-- Of the candidates only the first may have no number sign in it, so a name without one is
chosen only where it is free. -/
theorem freeName_eq_iff {name tag s : String} {taken : List String} (plain : '#' ∉ s.toList) :
    freeName name tag taken = s ↔ name = s ∧ s ∉ taken := by
  obtain ⟨j, _, hj, free, before⟩ := freeName_spec name tag taken
  rw [hj]
  match j with
  | 0 =>
    change name = s ↔ _
    refine ⟨fun e => ⟨e, e ▸ free⟩, And.left⟩
  | j + 1 =>
    have sign : '#' ∈ (nameCandidate name tag (j + 1)).toList := by
      cases j <;> simp [nameCandidate_eq, candidateEnding]
    constructor
    · rintro rfl
      exact absurd sign plain
    · rintro ⟨rfl, notMem⟩
      exact absurd (before 0 (Nat.succ_pos j)) notMem

/-! ## The search without a bound -/

/-- Trying `candidate`, and then what is tagged and numbered from `n` on, one after the other for
as long as they are taken, ends with `s` after `tries` of them. -/
inductive Loop (taken : List String) (tagged : String) :
    (candidate : String) → (n : Int32) → (tries : Nat) → (s : String) → Prop
  | free {candidate : String} {n : Int32} (free : candidate ∉ taken) :
    Loop taken tagged candidate n 1 candidate
  | next {candidate : String} {n : Int32} {tries : Nat} {s : String} (mem : candidate ∈ taken)
    (rest : Loop taken tagged (tagged ++ "#" ++ toString n) (n + 1) tries s) :
    Loop taken tagged candidate n (tries + 1) s

/-- The search for a free name ends with `s` after `tries` candidates: the name itself, or what
the loop comes to from the name with the tag on. -/
inductive Search (taken : List String) (name tag : String) : (tries : Nat) → (s : String) → Prop
  | itself (free : name ∉ taken) : Search taken name tag 1 name
  | tagged {tries : Nat} {s : String} (mem : name ∈ taken)
    (loop : Loop taken (name ++ "#" ++ tag) (name ++ "#" ++ tag) 1 tries s) :
    Search taken name tag (tries + 1) s

/-- The candidates of the search in their order.  Their numbers have 32 bits. -/
def countedCandidate (name tag : String) : Nat → String
  | 0 => name
  | 1 => name ++ "#" ++ tag
  | n + 2 => name ++ "#" ++ tag ++ "#" ++ toString (Int32.ofNat (n + 1))

section

variable {taken : List String} {name tag : String} {tries i j k : Nat} {s : String}

theorem countedCandidate_eq_append (name tag : String) (i : Nat) :
    countedCandidate name tag i =
      name ++ candidateEnding (fun n => toString (Int32.ofNat n)) tag i := by
  match i with
  | 0 => simp [countedCandidate, candidateEnding]
  | 1 => simp [countedCandidate, candidateEnding, String.append_assoc]
  | n + 2 => simp [countedCandidate, candidateEnding, String.append_assoc]

/-- A counter of 32 bits writes two numbers alike if they are the same modulo `2 ^ 32`. -/
theorem toString_ofNat_eq_iff {m n : Nat} :
    toString (Int32.ofNat m) = toString (Int32.ofNat n) ↔ m % 2 ^ 32 = n % 2 ^ 32 := by
  constructor
  · intro same
    have values : (Int32.ofNat m).toInt = (Int32.ofNat n).toInt := Int.repr_injective same
    rw [Int32.toInt_ofNat', Int32.toInt_ofNat'] at values
    have mods := congrArg (· % (Int32.size : Int)) values
    simp only [Int.bmod_emod, Int32.size] at mods
    omega
  · intro same
    have mods : (m : Int) % Int32.size = (n : Int) % Int32.size := by
      rw [Int32.size]
      omega
    have values : (Int32.ofNat m).toInt = (Int32.ofNat n).toInt := by
      rw [Int32.toInt_ofNat', Int32.toInt_ofNat', ← Int.emod_bmod, mods, Int.emod_bmod]
    rw [Int32.toInt_inj.1 values]

/-- Before the counter is through, no two candidates are the same. -/
theorem countedCandidate_inj (hi : i < 2 ^ 32 + 2) (hj : j < 2 ^ 32 + 2)
    (same : countedCandidate name tag i = countedCandidate name tag j) : i = j := by
  rw [countedCandidate_eq_append, countedCandidate_eq_append] at same
  rcases eq_or_number_eq same with eq | ⟨m, n, rfl, rfl, number⟩
  · exact eq
  · have := toString_ofNat_eq_iff.1 number
    omega

/-- When the counter is through, the candidates come again. -/
theorem countedCandidate_sub (through : 2 ^ 32 + 2 ≤ j) :
    countedCandidate name tag (j - 2 ^ 32) = countedCandidate name tag j := by
  obtain ⟨n, rfl⟩ := Nat.exists_eq_add_of_le through
  have back : 2 ^ 32 + 2 + n - 2 ^ 32 = n + 2 := by omega
  have here : 2 ^ 32 + 2 + n = 2 ^ 32 + n + 2 := by omega
  have number : toString (Int32.ofNat (n + 1)) = toString (Int32.ofNat (2 ^ 32 + n + 1)) :=
    toString_ofNat_eq_iff.2 (by omega)
  rw [back, here, countedCandidate, countedCandidate, number]

/-- The counter has the numbers of the series as long as these are less than `2 ^ 31`. -/
theorem countedCandidate_eq (small : i ≤ 2 ^ 31) :
    countedCandidate name tag i = nameCandidate name tag i := by
  match i with
  | 0 | 1 => rfl
  | n + 2 =>
    have number : toString (Int32.ofNat (n + 1)) = toString (n + 1) := by
      change toString (Int32.ofNat (n + 1)).toInt = _
      rw [Int32.toInt_ofNat_of_lt (by omega)]
      rfl
    rw [countedCandidate, number, nameCandidate]

/-- From the tag on, the loop ends at the first candidate that is free. -/
theorem loop_iff :
    Loop taken (name ++ "#" ++ tag) (countedCandidate name tag (k + 1)) (Int32.ofNat (k + 1))
        tries s ↔
      ∃ j, tries = j + 1 ∧ s = countedCandidate name tag (k + 1 + j) ∧ s ∉ taken ∧
        ∀ i < j, countedCandidate name tag (k + 1 + i) ∈ taken := by
  have counter : ∀ k, Int32.ofNat (k + 1) + 1 = Int32.ofNat (k + 1 + 1) := fun k =>
    (Int32.ofNat_add (k + 1) 1).symm
  constructor
  · intro loop
    generalize here : countedCandidate name tag (k + 1) = candidate at loop
    generalize count : Int32.ofNat (k + 1) = n at loop
    induction loop generalizing k with
    | free free =>
      subst here
      exact ⟨0, rfl, rfl, free, fun i lt => absurd lt (Nat.not_lt_zero i)⟩
    | next mem rest ih =>
      subst here count
      obtain ⟨j, rfl, rfl, free, before⟩ := @ih (k + 1) rfl (counter k).symm
      refine ⟨j + 1, rfl, by rw [Nat.add_right_comm (k + 1) 1 j, Nat.add_assoc], free, ?_⟩
      intro i lt
      cases i with
      | zero => exact mem
      | succ i =>
        rw [Nat.add_comm i 1, ← Nat.add_assoc]
        exact before i (Nat.lt_of_succ_lt_succ lt)
  · rintro ⟨j, rfl, rfl, free, before⟩
    induction j generalizing k with
    | zero => exact .free free
    | succ j ih =>
      have shift : k + 1 + (j + 1) = k + 1 + 1 + j := by omega
      rw [shift] at free ⊢
      refine .next (before 0 (Nat.succ_pos j)) ?_
      rw [counter]
      refine ih free fun i lt => ?_
      have step := before (i + 1) (Nat.succ_lt_succ lt)
      rwa [show k + 1 + (i + 1) = k + 1 + 1 + i by omega] at step

/-- **The search ends exactly at the first of its candidates that is free.** -/
theorem search_iff :
    Search taken name tag tries s ↔
      ∃ j, tries = j + 1 ∧ s = countedCandidate name tag j ∧ s ∉ taken ∧
        ∀ i < j, countedCandidate name tag i ∈ taken := by
  have shift : ∀ i, 0 + 1 + i = i + 1 := by omega
  constructor
  · intro search
    cases search with
    | itself free => exact ⟨0, rfl, rfl, free, fun i lt => absurd lt (Nat.not_lt_zero i)⟩
    | tagged mem loop =>
      obtain ⟨j, rfl, rfl, free, before⟩ := (loop_iff (k := 0)).1 loop
      rw [shift] at free ⊢
      refine ⟨j + 1, rfl, rfl, free, fun i lt => ?_⟩
      cases i with
      | zero => exact mem
      | succ i => exact shift i ▸ before i (Nat.lt_of_succ_lt_succ lt)
  · rintro ⟨j, rfl, rfl, free, before⟩
    cases j with
    | zero => exact .itself free
    | succ j =>
      refine .tagged (before 0 (Nat.succ_pos j)) ((loop_iff (k := 0)).2 ⟨j, rfl, ?_, free, ?_⟩)
      · rw [shift]
      · intro i lt
        rw [shift]
        exact before (i + 1) (Nat.succ_lt_succ lt)

/-- The first candidate that is free comes before the counter is through. -/
theorem lt_of_first (free : countedCandidate name tag j ∉ taken)
    (before : ∀ i < j, countedCandidate name tag i ∈ taken) : j < 2 ^ 32 + 2 := by
  by_contra late
  have through := Nat.le_of_not_lt late
  rw [← countedCandidate_sub through] at free
  exact free (before _ (by omega))

/-- The search ends after no more tries than there are names taken, and one. -/
theorem Search.tries_le (search : Search taken name tag tries s) :
    tries ≤ taken.toFinset.card + 1 := by
  obtain ⟨j, rfl, rfl, free, before⟩ := search_iff.1 search
  have early := lt_of_first free before
  refine Nat.succ_le_succ (le_card_of_taken (fun i hi k hk => ?_) before)
  exact countedCandidate_inj (hi.trans early) (hk.trans early)

/-- The search ends exactly if one of all its candidates is free. -/
theorem exists_search_iff :
    (∃ tries s, Search taken name tag tries s) ↔
      ∃ i < 2 ^ 32 + 2, countedCandidate name tag i ∉ taken := by
  constructor
  · rintro ⟨tries, s, search⟩
    obtain ⟨j, rfl, rfl, free, before⟩ := search_iff.1 search
    exact ⟨j, lt_of_first free before, free⟩
  · rintro ⟨i, -, free⟩
    have some_free : ∃ i, countedCandidate name tag i ∉ taken := ⟨i, free⟩
    refine ⟨_, _, search_iff.2 ⟨Nat.find some_free, rfl, rfl, Nat.find_spec some_free, ?_⟩⟩
    intro k lt
    exact Classical.not_not.1 (Nat.find_min some_free lt)

/-- The search ends with the name itself exactly if that is not taken. -/
theorem exists_search_itself_iff : (∃ tries, Search taken name tag tries name) ↔ name ∉ taken := by
  constructor
  · rintro ⟨tries, search⟩
    obtain ⟨_, -, -, free, -⟩ := search_iff.1 search
    exact free
  · intro free
    exact ⟨1, .itself free⟩

/-- If the counter has the numbers of the series up to the first candidate that is free, then
the search ends there and nowhere else. -/
theorem search_iff_of_le (small : j ≤ 2 ^ 31) (free : nameCandidate name tag j ∉ taken)
    (before : ∀ i < j, nameCandidate name tag i ∈ taken) :
    Search taken name tag tries s ↔ tries = j + 1 ∧ s = nameCandidate name tag j := by
  have same : ∀ i ≤ j, countedCandidate name tag i = nameCandidate name tag i := fun i le =>
    countedCandidate_eq (le.trans small)
  have last : countedCandidate name tag j ∉ taken := by
    rwa [same j (Nat.le_refl j)]
  have first : ∀ i < j, countedCandidate name tag i ∈ taken := by
    intro i lt
    rw [same i lt.le]
    exact before i lt
  rw [search_iff]
  constructor
  · rintro ⟨j', rfl, rfl, free', before'⟩
    obtain rfl := eq_of_fails_first last first free' before'
    exact ⟨rfl, same j (Nat.le_refl j)⟩
  · rintro ⟨rfl, rfl⟩
    exact ⟨j, rfl, (same j (Nat.le_refl j)).symm, free, first⟩

end

end SizeAtlas
