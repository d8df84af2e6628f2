import SizeAtlas.Proofs.SymbolTable

/-!
# Symbols named in turn

Lists of symbols in which each name depends on the names before it, as a table
grows by symbols whose names are free.

## Main definitions

* `InTurn` — a property of every symbol of a list and the names before it.
* `series` — symbols made one after the other from the names before them.

## Main statements

* `entries_foldl_insert` — entering symbols with free names appends their series.
* `InTurn.of_split` — the property at any place of the list.
* `series_congr` — which names a series may depend on.
* `forall₂_series` — series of related symbols.
-/

namespace SizeAtlas

/-! ## Symbols in turn -/

/-- Every symbol of the list has the property `P` together with the names before
it, where `taken` are the names before the list. -/
def InTurn (P : List String → Symbol → Prop) : (taken : List String) → List Symbol → Prop
  | _, [] => True
  | taken, s :: rest => P taken s ∧ InTurn P (taken ++ [s.name]) rest

theorem inTurn_append {P : List String → Symbol → Prop} {taken : List String}
    {l₁ l₂ : List Symbol} :
    InTurn P taken (l₁ ++ l₂) ↔
      InTurn P taken l₁ ∧ InTurn P (taken ++ l₁.map Symbol.name) l₂ := by
  induction l₁ generalizing taken with
  | nil => simp [InTurn]
  | cons s l₁ ih => simp [InTurn, ih, and_assoc]

/-- A change that keeps the names and the property keeps the property in turn. -/
theorem InTurn.map {P : List String → Symbol → Prop} {f : Symbol → Symbol}
    (name : ∀ s, (f s).name = s.name) (keep : ∀ taken s, P taken s → P taken (f s))
    {taken : List String} {l : List Symbol} (h : InTurn P taken l) :
    InTurn P taken (l.map f) := by
  induction l generalizing taken with
  | nil => trivial
  | cons s l ih => exact ⟨keep taken s h.1, by simpa only [name] using ih h.2⟩

theorem InTurn.of_split {P : List String → Symbol → Prop} {taken : List String}
    {before after : List Symbol} {s : Symbol} (h : InTurn P taken (before ++ s :: after)) :
    P (taken ++ before.map Symbol.name) s :=
  (inTurn_append.1 h).2.1

section Series

variable {β γ : Type} {make : List String → β → Symbol}

/-- The symbols made from `bs` one after the other, each by `make` with the names
before it. -/
def series (make : List String → β → Symbol) : (taken : List String) → List β → List Symbol
  | _, [] => []
  | taken, b :: bs => make taken b :: series make (taken ++ [(make taken b).name]) bs

/-- Entering symbols whose names are free appends them. -/
theorem entries_foldl_insert (make : List String → β → Symbol)
    (fresh : ∀ taken b, (make taken b).name ∉ taken) (t : SymbolTable) (bs : List β) :
    (bs.foldl (fun t b => t.insert (make t.keys b)) t).entries =
      t.entries ++ series make t.keys bs := by
  induction bs generalizing t with
  | nil => simp [series]
  | cons b bs ih =>
    rw [List.foldl_cons, ih, Roster.keys_insert_of_notMem (fresh t.keys b),
      Roster.entries_insert_of_notMem (fresh t.keys b), series, List.append_assoc]
    rfl

/-- What does not depend on the names before a symbol is read off its source. -/
theorem map_series {f : Symbol → γ} {g : β → γ} (h : ∀ taken b, f (make taken b) = g b)
    (taken : List String) (bs : List β) : (series make taken bs).map f = bs.map g := by
  induction bs generalizing taken with
  | nil => rfl
  | cons b bs ih => simp [series, h, ih]

theorem length_series (taken : List String) (bs : List β) :
    (series make taken bs).length = bs.length := by
  induction bs generalizing taken with
  | nil => rfl
  | cons b bs ih => simp [series, ih]

theorem inTurn_series {P : List String → Symbol → Prop} {taken : List String} {bs : List β}
    (h : ∀ taken, ∀ b ∈ bs, P taken (make taken b)) : InTurn P taken (series make taken bs) := by
  induction bs generalizing taken with
  | nil => trivial
  | cons b bs ih =>
    exact ⟨h taken b (by simp), ih fun taken c hc => h taken c (by simp [hc])⟩

theorem exists_of_mem_series {taken : List String} {bs : List β} {s : Symbol}
    (h : s ∈ series make taken bs) : ∃ taken', ∃ b ∈ bs, s = make taken' b := by
  induction bs generalizing taken with
  | nil => simp [series] at h
  | cons b bs ih =>
    rcases List.mem_cons.1 h with rfl | h
    · exact ⟨taken, b, by simp, rfl⟩
    · obtain ⟨taken', c, hc, rfl⟩ := ih h
      exact ⟨taken', c, by simp [hc], rfl⟩

theorem series_append (taken : List String) (bs cs : List β) :
    series make taken (bs ++ cs) = series make taken bs ++
      series make (taken ++ (series make taken bs).map Symbol.name) cs := by
  induction bs generalizing taken with
  | nil => simp [series]
  | cons b bs ih => simp [series, ih]

/-- Two ways of making symbols give the same series, if they make the same symbol whenever
the names before it are related, and one name more keeps the names related. -/
theorem series_congr {make' : List String → β → Symbol} {R : List String → List String → Prop}
    (same : ∀ taken taken', R taken taken' → ∀ b, make taken b = make' taken' b)
    (step : ∀ taken taken', R taken taken' → ∀ name, R (taken ++ [name]) (taken' ++ [name]))
    {taken taken' : List String} (h : R taken taken') (bs : List β) :
    series make taken bs = series make' taken' bs := by
  induction bs generalizing taken taken' with
  | nil => rfl
  | cons b bs ih =>
    rw [series, series, same taken taken' h b]
    rw [ih (step taken taken' h _)]

/-- Two ways of making symbols give related series, if they make related symbols whenever the
names before them are related, and the names stay related. -/
theorem forall₂_series {make' : List String → γ → Symbol}
    {R : List String → List String → Prop} {S : Symbol → Symbol → Prop} {T : β → γ → Prop}
    (step : ∀ taken taken', R taken taken' → ∀ b c, T b c → S (make taken b) (make' taken' c) ∧
      R (taken ++ [(make taken b).name]) (taken' ++ [(make' taken' c).name]))
    {taken taken' : List String} (h : R taken taken') {bs : List β} {cs : List γ}
    (sources : List.Forall₂ T bs cs) :
    List.Forall₂ S (series make taken bs) (series make' taken' cs) := by
  induction sources generalizing taken taken' with
  | nil => exact .nil
  | cons source _ ih =>
    obtain ⟨here, later⟩ := step taken taken' h _ _ source
    exact .cons here (ih later)

end Series

end SizeAtlas
