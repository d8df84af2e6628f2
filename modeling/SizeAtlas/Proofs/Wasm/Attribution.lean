import SizeAtlas.Proofs.FreeName
import SizeAtlas.Proofs.Series
import SizeAtlas.Wasm.Attribution

/-!
# The walk over the sections of a module

What the walk has entered after any number of sections: the function bodies seen
so far in their order, each under the first free name of its series, and one symbol
per section name with the bytes of all sections of that name.

## Main definitions

* `Labels.Named` — the name that a function or import gets.
* `functionRow`, `Labels.functionRows` — what is said of functions apart from names.
* `Labels.Attributed` — the invariant of the walk.

## Main statements

* `Section.name_ne_headerName` — no section is called like the header.
* `attributed_sections` — the invariant holds after any sections.
-/

namespace SizeAtlas.Wasm

/-! ## Names -/

theorem nameOfId_ne_headerName (id : Nat) : nameOfId id ≠ headerName := by
  intro h
  unfold nameOfId headerName at h
  split at h <;> simp [String.ext_iff, toString] at h

/-- No section is called like the header. -/
theorem Section.name_ne_headerName (s : Section) : s.name ≠ headerName := by
  intro h
  unfold Section.name at h
  split at h
  · simp [String.ext_iff, headerName] at h
  · exact nameOfId_ne_headerName _ h

theorem Section.name_mem_reserved {m : Module} {s : Section} (h : s ∈ m.sections) :
    s.name ∈ m.labels.reserved :=
  List.mem_append_left _ (List.mem_map_of_mem h)

namespace Labels

variable (l : Labels)

/-- The name that a function would like to have: what the module calls it, or else
its index. -/
def functionName (index : Nat) : String := (l.names.lookup index).getD (toString index)

theorem name_functionSymbol (taken : List String) (position bytes : Nat) :
    (l.functionSymbol taken position bytes).name =
      freeName (l.functionName (l.firstIndex + position)) (toString (l.firstIndex + position))
        (taken ++ l.reserved) := by
  simp [functionSymbol, Symbol.name, functionName]

theorem name_importSymbol (taken : List String) (index : Nat) (name : String) :
    (l.importSymbol taken index name).name =
      freeName name (toString index) (taken ++ l.reserved) := by
  simp [importSymbol, Symbol.name]

theorem name_functionSymbol_notMem (taken : List String) (position bytes : Nat) :
    (l.functionSymbol taken position bytes).name ∉ taken ++ l.reserved := by
  rw [name_functionSymbol]
  exact freeName_notMem _ _ _

theorem name_importSymbol_notMem (taken : List String) (index : Nat) (name : String) :
    (l.importSymbol taken index name).name ∉ taken ++ l.reserved := by
  rw [name_importSymbol]
  exact freeName_notMem _ _ _

/-- A function or import has the first name of its series that neither a symbol
before it has nor a section or the header. -/
def Named (imports taken : List String) (s : Symbol) : Prop :=
  ∀ index, s.ordinal = some index → ∃ wish,
    (if s.kind = .imported then imports[index]? else some (l.functionName index)) = some wish ∧
    s.name = freeName wish (toString index) (taken ++ l.reserved)

end Labels

/-! ## Functions and imports of a table -/

/-- Whether a symbol stands for a function that has a body. -/
def isFunction (s : Symbol) : Bool := s.kind = .function || s.kind = .exported

/-- Whether a symbol stands for an imported function. -/
def isImport (s : Symbol) : Bool := s.kind = .imported

/-- What is said of a function apart from its name: its index, the index as text,
its bytes and its kind. -/
def functionRow (s : Symbol) : Option Nat × String × Nat × Symbol.Kind :=
  (s.ordinal, s.minifiedName, s.size, s.kind)

/-- What is to be said of the functions of one code section. -/
def Labels.functionRows (l : Labels) (bodies : List Nat) :
    List (Option Nat × String × Nat × Symbol.Kind) :=
  bodies.zipIdx.map fun (bytes, i) =>
    (some (l.firstIndex + i), toString (l.firstIndex + i), bytes,
      if l.firstIndex + i ∈ l.exported then .exported else .function)

theorem isFunction_functionSymbol (l : Labels) (taken : List String) (position bytes : Nat) :
    isFunction (l.functionSymbol taken position bytes) = true := by
  unfold isFunction Labels.functionSymbol
  simp only
  split <;> rfl

/-- The symbol of a body given with its place. -/
def Labels.functionAt (l : Labels) (taken : List String) (body : Nat × Nat) : Symbol :=
  l.functionSymbol taken body.2 body.1

/-- The symbol of an import given with its place. -/
def Labels.importAt (l : Labels) (taken : List String) (function : String × Nat) : Symbol :=
  l.importSymbol taken function.2 function.1

theorem entries_addBodies (l : Labels) (t : SymbolTable) (bodies : List Nat) :
    (addBodies l t bodies).entries = t.entries ++ series l.functionAt t.keys bodies.zipIdx :=
  entries_foldl_insert l.functionAt (fun taken b h =>
    l.name_functionSymbol_notMem taken b.2 b.1 (List.mem_append_left _ h)) t bodies.zipIdx

theorem entries_addImports (l : Labels) (t : SymbolTable) (imports : List String) :
    (addImports l t imports).entries = t.entries ++ series l.importAt t.keys imports.zipIdx :=
  entries_foldl_insert l.importAt (fun taken b h =>
    l.name_importSymbol_notMem taken b.2 b.1 (List.mem_append_left _ h)) t imports.zipIdx

theorem isFunction_of_mem_series {l : Labels} {taken : List String} {bodies : List (Nat × Nat)}
    {s : Symbol} (h : s ∈ series l.functionAt taken bodies) : isFunction s = true := by
  obtain ⟨taken', body, _, rfl⟩ := exists_of_mem_series h
  exact isFunction_functionSymbol l taken' body.2 body.1

/-! ## The walk over the sections -/

/-- What the walk has entered into `t` when it has gone over `sections` and then
over `bodies`. -/
structure Labels.Attributed (l : Labels) (imports : List String) (sections : List Section)
    (bodies : List Nat) (t : SymbolTable) : Prop where
  total : t.total = (sections.map fun s => s.size + s.bodies.sum).sum + bodies.sum
  functions : (t.entries.filter isFunction).map functionRow =
    (sections.flatMap fun s => l.functionRows s.bodies) ++ l.functionRows bodies
  /-- Only sections have the names of sections. -/
  owner : ∀ s ∈ t.entries,
    (s.kind = .moduleSection ∧ s.name ∈ sections.map Section.name) ∨
      (isFunction s = true ∧ s.name ∉ l.reserved)
  named : InTurn (l.Named imports) [] t.entries
  /-- A section name has the bytes of all sections of that name. -/
  bytes : ∀ name ∈ sections.map Section.name, ∃ s, t.find? name = some s ∧
    s.kind = .moduleSection ∧
    s.size = ((sections.filter (·.name = name)).map Section.size).sum

variable {l : Labels} {imports : List String} {sections : List Section} {t : SymbolTable}

theorem attributed_empty : l.Attributed imports [] [] ∅ where
  total := rfl
  functions := rfl
  owner := by simp
  named := trivial
  bytes := by simp

theorem functionRow_functionAt (taken : List String) (body : Nat × Nat) :
    functionRow (l.functionAt taken body) =
      (some (l.firstIndex + body.2), toString (l.firstIndex + body.2), body.1,
        if l.firstIndex + body.2 ∈ l.exported then .exported else .function) :=
  rfl

theorem named_functionAt (taken : List String) (body : Nat × Nat) :
    l.Named imports taken (l.functionAt taken body) := by
  rintro index h
  obtain rfl : l.firstIndex + body.2 = index := by
    simpa [Labels.functionAt, Labels.functionSymbol] using h
  refine ⟨l.functionName (l.firstIndex + body.2), ?_, l.name_functionSymbol taken body.2 body.1⟩
  rw [if_neg]
  intro kind
  have := isFunction_functionSymbol l taken body.2 body.1
  simp [isFunction, Labels.functionAt] at this kind
  simp [kind] at this

/-- Going over the bodies of a section. -/
theorem Labels.Attributed.addBodies (h : l.Attributed imports sections [] t) (bodies : List Nat) :
    l.Attributed imports sections bodies (addBodies l t bodies) := by
  have entries := entries_addBodies l t bodies
  have new : ∀ s ∈ series l.functionAt t.keys bodies.zipIdx,
      isFunction s = true ∧ s.name ∉ l.reserved := by
    intro s hs
    obtain ⟨taken, b, _, rfl⟩ := exists_of_mem_series hs
    exact ⟨isFunction_functionSymbol l taken b.2 b.1, fun mem =>
      l.name_functionSymbol_notMem taken b.2 b.1 (List.mem_append_right _ mem)⟩
  constructor
  case total =>
    have sizes := map_series (f := Symbol.size) (g := Prod.fst)
      (fun taken b => rfl : ∀ taken b, (l.functionAt taken b).size = b.1) t.keys bodies.zipIdx
    have before := h.total
    rw [SymbolTable.total_eq] at before ⊢
    rw [entries, List.map_append, List.sum_append, sizes, before]
    simp
  case functions =>
    have all : (series l.functionAt t.keys bodies.zipIdx).filter isFunction = _ :=
      List.filter_eq_self.2 fun s hs => (new s hs).1
    rw [entries, List.filter_append, all, List.map_append, h.functions,
      map_series functionRow_functionAt]
    simp [Labels.functionRows]
  case owner =>
    intro s hs
    rw [entries, List.mem_append] at hs
    exact hs.elim (h.owner s) fun hs => Or.inr (new s hs)
  case named =>
    rw [entries, inTurn_append]
    exact ⟨h.named, inTurn_series fun taken b _ => named_functionAt taken b⟩
  case bytes =>
    intro name hname
    obtain ⟨s, found, rest⟩ := h.bytes name hname
    have hs := Roster.find?_eq_some_iff.1 found
    refine ⟨s, Roster.find?_eq_some_iff.2 ⟨?_, hs.2⟩, rest⟩
    rw [entries]
    exact List.mem_append_left _ hs.1

/-- The name of a section is in the table exactly if there was a section of that
name. -/
theorem Labels.Attributed.mem_keys_iff {bodies : List Nat}
    (h : l.Attributed imports sections bodies t) {name : String} (reserved : name ∈ l.reserved) :
    name ∈ t.keys ↔ name ∈ sections.map Section.name := by
  constructor
  · intro mem
    obtain ⟨s, hs, rfl⟩ := Roster.mem_keys.1 mem
    exact (h.owner s hs).elim And.right fun free => absurd reserved free.2
  · intro mem
    obtain ⟨s, found, _⟩ := h.bytes name mem
    obtain ⟨hs, rfl⟩ := Roster.find?_eq_some_iff.1 found
    exact Roster.key_mem_keys hs

/-- The bytes of all sections of a name, with one section more. -/
theorem sum_size_append (sections : List Section) (s : Section) (name : String) :
    (((sections ++ [s]).filter (·.name = name)).map Section.size).sum =
      ((sections.filter (·.name = name)).map Section.size).sum +
        if name = s.name then s.size else 0 := by
  by_cases h : name = s.name
  · simp [List.filter_append, h]
  · have : s.name ≠ name := fun e => h e.symm
    simp [List.filter_append, h, this]

/-- The symbol that takes the bytes of a section is none of a function. -/
theorem Labels.Attributed.filter_addSize {bodies : List Nat} {s : Section}
    (h : l.Attributed imports sections bodies t) (reserved : s.name ∈ l.reserved) :
    (t.addSize s.name s.size).entries.filter isFunction = t.entries.filter isFunction := by
  have row : ∀ x ∈ t.entries, isFunction x = true → x.name ≠ s.name := fun x hx fn e =>
    (h.owner x hx).elim (fun sec => by simp [isFunction, sec.1] at fn) fun free => free.2 (e ▸ reserved)
  have kind : ∀ x : Symbol, isFunction (if x.name = s.name then x.grow s.size else x) =
      isFunction x := by
    intro x
    split <;> rfl
  have same : (t.entries.filter isFunction).map
      (fun x => if x.name = s.name then x.grow s.size else x) = t.entries.filter isFunction := by
    rw [List.map_congr_left (g := id) ?_, List.map_id]
    intro x hx
    obtain ⟨hx, fn⟩ := List.mem_filter.1 hx
    exact if_neg (row x hx fn)
  rw [SymbolTable.entries_addSize, List.filter_map]
  simp only [Function.comp_def, kind]
  exact same

/-- Entering a new symbol that is none of a function. -/
theorem filter_insert {x : Symbol} (fresh : x.name ∉ t.keys) (other : isFunction x = false) :
    (t.insert x).entries.filter isFunction = t.entries.filter isFunction := by
  rw [Roster.entries_insert_of_notMem fresh, List.filter_append,
    List.filter_cons_of_neg (by simp [other]), List.filter_nil, List.append_nil]

/-- Adding a section whose name has a symbol already. -/
theorem Labels.Attributed.addSize {s : Section} (h : l.Attributed imports sections s.bodies t)
    (reserved : s.name ∈ l.reserved) (mem : s.name ∈ t.keys) :
    l.Attributed imports (sections ++ [s]) [] (t.addSize s.name s.size) := by
  have entries := SymbolTable.entries_addSize t s.name s.size
  constructor
  case total =>
    have before := h.total
    rw [SymbolTable.total_addSize s.size mem, before]
    simp
    omega
  case functions =>
    rw [h.filter_addSize reserved, h.functions]
    simp [Labels.functionRows]
  case owner =>
    intro x hx
    rw [entries, List.mem_map] at hx
    obtain ⟨y, hy, rfl⟩ := hx
    have := h.owner y hy
    split
    · refine this.imp (fun sec => ⟨sec.1, ?_⟩) id
      simp [Symbol.name_grow, sec.2]
    · exact this.imp (fun sec => ⟨sec.1, by simp [sec.2]⟩) id
  case named =>
    rw [entries]
    refine h.named.map (fun x => ?_) fun taken x hx => ?_
    · split <;> rfl
    · split
      · exact hx
      · exact hx
  case bytes =>
    intro name hname
    have old : name ∈ sections.map Section.name := by
      have := (h.mem_keys_iff reserved).1 mem
      simp only [List.map_append, List.map_cons, List.map_nil, List.mem_append,
        List.mem_singleton] at hname
      exact hname.elim id fun e => e ▸ this
    obtain ⟨x, found, kind, size⟩ := h.bytes name old
    rw [SymbolTable.find?_addSize, found, sum_size_append, ← size]
    refine ⟨_, rfl, ?_⟩
    by_cases e : name = s.name
    · simp [e, Symbol.grow, kind]
    · simp [e, kind]

/-- Adding the first section of its name. -/
theorem Labels.Attributed.insert {s : Section} (h : l.Attributed imports sections s.bodies t)
    (reserved : s.name ∈ l.reserved) (fresh : s.name ∉ t.keys) :
    l.Attributed imports (sections ++ [s]) []
      (t.insert { scope := "", selfName := s.name, kind := .moduleSection, size := s.size }) := by
  generalize hx :
    ({ scope := "", selfName := s.name, kind := .moduleSection, size := s.size } : Symbol) = x
  have name : x.name = s.name := by simp [← hx, Symbol.name]
  have entries := Roster.entries_insert_of_notMem (name ▸ fresh : x.name ∉ t.keys)
  constructor
  case total =>
    have before := h.total
    rw [SymbolTable.total_insert_of_notMem (name ▸ fresh), before]
    simp [← hx]
    omega
  case functions =>
    rw [filter_insert (name ▸ fresh) (by simp [← hx, isFunction]), h.functions]
    simp [Labels.functionRows]
  case owner =>
    intro y hy
    rw [entries, List.mem_append, List.mem_singleton] at hy
    rcases hy with hy | rfl
    · exact (h.owner y hy).imp (fun sec => ⟨sec.1, by simp [sec.2]⟩) id
    · exact Or.inl ⟨by simp [← hx], by simp [name]⟩
  case named =>
    rw [entries, inTurn_append]
    refine ⟨h.named, ?_, trivial⟩
    intro index hindex
    simp [← hx] at hindex
  case bytes =>
    intro name' hname
    rw [sum_size_append]
    by_cases e : name' = s.name
    · have none : sections.filter (·.name = s.name) = [] := by
        have := mt (h.mem_keys_iff reserved).2 fresh
        simpa [List.filter_eq_nil_iff] using this
      refine ⟨x, ?_, by simp [← hx], by simp [← hx, e, none]⟩
      rw [e, ← name]
      exact Roster.find?_insert_self t x
    · have old : name' ∈ sections.map Section.name := by simpa [e] using hname
      obtain ⟨y, found, rest⟩ := h.bytes name' old
      refine ⟨y, ?_, by simpa [e] using rest⟩
      rw [Roster.find?_insert_of_ne t (name ▸ e), found]

theorem Labels.Attributed.addSection {s : Section} (h : l.Attributed imports sections s.bodies t)
    (reserved : s.name ∈ l.reserved) :
    l.Attributed imports (sections ++ [s]) [] (addSection t s.name s.size) := by
  rw [Wasm.addSection]
  by_cases mem : s.name ∈ t.keys
  · rw [if_pos (Roster.contains_iff.2 mem)]
    exact h.addSize reserved mem
  · rw [if_neg (mt Roster.contains_iff.1 mem)]
    exact h.insert reserved mem

/-- The invariant holds after any sections, if their names are reserved. -/
theorem attributed_sections {rest : List Section} (h : l.Attributed imports sections [] t)
    (reserved : ∀ s ∈ rest, s.name ∈ l.reserved) :
    l.Attributed imports (sections ++ rest) []
      (rest.foldl (fun t s => addSection (addBodies l t s.bodies) s.name s.size) t) := by
  induction rest generalizing sections t with
  | nil => simpa using h
  | cons s rest ih =>
    rw [List.foldl_cons, List.append_cons]
    exact ih ((h.addBodies s.bodies).addSection (reserved s (by simp)))
      fun x hx => reserved x (by simp [hx])

end SizeAtlas.Wasm
