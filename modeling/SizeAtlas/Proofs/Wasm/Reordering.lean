import SizeAtlas.Proofs.Wasm.Placement
import SizeAtlas.Proofs.Wasm.Symbols

/-!
# The order of the sections of a module does not matter

What names and marks the functions is collected from all sections before the first symbol
is entered, and a function may have no name of a section, wherever that section stands.  So
the names that are free for a function do not depend on which sections came before it, and
a module with its sections in another order has the same symbols.

## Main definitions

* `Labels.Entered` — the symbols that the walk over the sections enters, one by one.
* `Rearranged` — modules that differ in the order of their sections.

## Main statements

* `mem_sectionSymbols` — the symbols of the sections and of what they hold.
* `symbols_perm` — modules that differ in the order of their sections have the same symbols.
* `symbolsOf_fileOf_perm` — so do files that are put together from the same sections.
-/

namespace SizeAtlas.Wasm

/-! ## Names that are taken -/

namespace Labels

/-- Labels that name and mark functions alike. -/
structure Alike (l l' : Labels) : Prop where
  firstIndex : l.firstIndex = l'.firstIndex
  exported : ∀ index, index ∈ l.exported ↔ index ∈ l'.exported
  names : l.names = l'.names

/-- The same names are not free, whether they are taken or reserved. -/
def SameTaken (l l' : Labels) (taken taken' : List String) : Prop :=
  ∀ name, name ∈ taken ++ l.reserved ↔ name ∈ taken' ++ l'.reserved

variable {l l' : Labels} {taken taken' : List String}

theorem Alike.refl (l : Labels) : l.Alike l := ⟨rfl, fun _ => Iff.rfl, rfl⟩

theorem SameTaken.append (same : l.SameTaken l' taken taken') (name : String) :
    l.SameTaken l' (taken ++ [name]) (taken' ++ [name]) := by
  intro x
  have := same x
  simp only [List.mem_append, List.mem_singleton] at this ⊢
  tauto

/-- A function has the same symbol whenever the same names are not free. -/
theorem functionAt_congr (alike : l.Alike l') (same : l.SameTaken l' taken taken')
    (body : Nat × Nat) : l.functionAt taken body = l'.functionAt taken' body := by
  unfold functionAt functionSymbol
  simp only [alike.firstIndex, alike.names, alike.exported, freeName_congr same]

/-- An import has the same symbol whenever the same names are not free. -/
theorem importAt_congr (same : l.SameTaken l' taken taken') (function : String × Nat) :
    l.importAt taken function = l'.importAt taken' function := by
  unfold importAt importSymbol
  rw [freeName_congr same]

end Labels

/-! ## The walk over the sections -/

/-- The symbol of the sections called `name`, which have `bytes` bytes together. -/
def sectionSymbol (name : String) (bytes : Nat) : Symbol :=
  { scope := "", selfName := name, kind := .moduleSection, size := bytes }

/-- What the walk has entered when it has gone over `sections`: the functions in their
order, each named with only the functions before it in view, and symbols of sections. -/
structure Labels.Entered (l : Labels) (imports : List String) (sections : List Section)
    (t : SymbolTable) : Prop extends l.Attributed imports sections [] t where
  inOrder : t.entries.filter isFunction =
    series l.functionAt [] (sections.flatMap fun s => s.bodies.zipIdx)
  shape : ∀ s ∈ t.entries, isFunction s = false → s = sectionSymbol s.name s.size

variable {l : Labels} {imports : List String} {sections : List Section} {t : SymbolTable}

theorem entered_empty : l.Entered imports [] ∅ where
  toAttributed := attributed_empty
  inOrder := rfl
  shape := by simp

/-- Of the names in the table those of functions are the ones that are not reserved. -/
theorem Labels.Attributed.sameTaken (h : l.Attributed imports sections [] t)
    (reserved : ∀ s ∈ sections, s.name ∈ l.reserved) :
    l.SameTaken l t.keys ((t.entries.filter isFunction).map Symbol.name) := by
  intro name
  simp only [List.mem_append]
  constructor
  · rintro (mem | mem)
    · obtain ⟨s, hs, rfl⟩ := Roster.mem_keys.1 mem
      rcases h.owner s hs with ⟨_, sec⟩ | ⟨fn, _⟩
      · obtain ⟨x, hx, e⟩ := List.mem_map.1 sec
        exact Or.inr (e ▸ reserved x hx)
      · exact Or.inl (List.mem_map_of_mem (List.mem_filter.2 ⟨hs, fn⟩))
    · exact Or.inr mem
  · rintro (mem | mem)
    · obtain ⟨s, hs, rfl⟩ := List.mem_map.1 mem
      exact Or.inl (Roster.key_mem_keys (List.mem_filter.1 hs).1)
    · exact Or.inr mem

/-- Going over the bodies of a section enters the next functions. -/
theorem Labels.Entered.filter_addBodies (h : l.Entered imports sections t)
    (reserved : ∀ s ∈ sections, s.name ∈ l.reserved) (bodies : List Nat) :
    (addBodies l t bodies).entries.filter isFunction =
      series l.functionAt [] ((sections.flatMap fun s => s.bodies.zipIdx) ++ bodies.zipIdx) := by
  have all : (series l.functionAt t.keys bodies.zipIdx).filter isFunction =
      series l.functionAt t.keys bodies.zipIdx :=
    List.filter_eq_self.2 fun s hs => isFunction_of_mem_series hs
  rw [entries_addBodies, List.filter_append, all, series_append, ← h.inOrder, List.nil_append]
  congr 1
  exact series_congr (R := l.SameTaken l)
    (fun _ _ same b => Labels.functionAt_congr (.refl l) same b)
    (fun _ _ same name => same.append name) (h.sameTaken reserved) bodies.zipIdx

/-- Adding the bytes of a section enters no function. -/
theorem Labels.Attributed.filter_addSection {bodies : List Nat} {s : Section}
    (h : l.Attributed imports sections bodies t) (reserved : s.name ∈ l.reserved) :
    (Wasm.addSection t s.name s.size).entries.filter isFunction =
      t.entries.filter isFunction := by
  rw [Wasm.addSection]
  by_cases mem : s.name ∈ t.keys
  · rw [if_pos (Roster.contains_iff.2 mem)]
    exact h.filter_addSize reserved
  · rw [if_neg (mt Roster.contains_iff.1 mem)]
    exact filter_insert (by simpa [Symbol.name] using mem) rfl

/-- A symbol in the table after adding the bytes of a section was there before, perhaps with
fewer bytes, or is the one of the section. -/
theorem mem_addSection {name : String} {bytes : Nat} {x : Symbol}
    (h : x ∈ (addSection t name bytes).entries) :
    x ∈ t.entries ∨ (∃ y ∈ t.entries, x = y.grow bytes) ∨ x = sectionSymbol name bytes := by
  rw [Wasm.addSection] at h
  split at h
  · rw [SymbolTable.entries_addSize, List.mem_map] at h
    obtain ⟨y, hy, rfl⟩ := h
    split
    · exact Or.inr (Or.inl ⟨y, hy, rfl⟩)
    · exact Or.inl hy
  · exact (Roster.mem_of_mem_insert h).elim (fun e => Or.inr (Or.inr e)) Or.inl

/-- Going over one section more. -/
theorem Labels.Entered.step {s : Section} (h : l.Entered imports sections t)
    (reserved : ∀ x ∈ sections ++ [s], x.name ∈ l.reserved) :
    l.Entered imports (sections ++ [s]) (addSection (addBodies l t s.bodies) s.name s.size) := by
  have here : s.name ∈ l.reserved := reserved s (by simp)
  have before : ∀ x ∈ sections, x.name ∈ l.reserved := fun x hx => reserved x (by simp [hx])
  have bodies := h.addBodies s.bodies
  have shape : ∀ x ∈ (addBodies l t s.bodies).entries, isFunction x = false →
      x = sectionSymbol x.name x.size := by
    intro x hx other
    rw [entries_addBodies, List.mem_append] at hx
    rcases hx with hx | hx
    · exact h.shape x hx other
    · exact absurd (isFunction_of_mem_series hx) (Bool.eq_false_iff.1 other)
  refine ⟨bodies.addSection here, ?_, fun x hx other => ?_⟩
  · rw [bodies.filter_addSection here, h.filter_addBodies before]
    simp
  · rcases mem_addSection hx with hx | ⟨y, hy, rfl⟩ | rfl
    · exact shape x hx other
    · have := shape y hy other
      rw [this]
      rfl
    · rfl

theorem entered_sections {rest : List Section} (h : l.Entered imports sections t)
    (reserved : ∀ s ∈ sections ++ rest, s.name ∈ l.reserved) :
    l.Entered imports (sections ++ rest)
      (rest.foldl (fun t s => addSection (addBodies l t s.bodies) s.name s.size) t) := by
  induction rest generalizing sections t with
  | nil => simpa using h
  | cons s rest ih =>
    rw [List.append_cons] at reserved ⊢
    exact ih (h.step fun x hx => reserved x (List.mem_append_left _ hx)) reserved

/-! ## The symbols of a module -/

namespace Module

variable (m : Module)

/-- The bytes of the sections called `name` that belong to no function. -/
def bytesOf (name : String) : Nat :=
  ((m.sections.filter (·.name = name)).map Section.size).sum

/-- The symbols of the functions that have a body. -/
def functionSymbols : List Symbol :=
  series m.labels.functionAt [] (m.sections.flatMap fun s => s.bodies.zipIdx)

theorem entered_sectionSymbols : m.labels.Entered m.functionImports m.sections m.sectionSymbols := by
  have empty : m.labels.Entered m.functionImports [] ∅ := entered_empty
  have := entered_sections empty fun s (hs : s ∈ [] ++ m.sections) => Section.name_mem_reserved hs
  simpa [sectionSymbols] using this

/-- **The symbols of the sections and of what they hold**: those of the functions, and one
for each name of a section. -/
theorem mem_sectionSymbols {s : Symbol} :
    s ∈ m.sectionSymbols.entries ↔
      s ∈ m.functionSymbols ∨
        ∃ name ∈ m.sections.map Section.name, s = sectionSymbol name (m.bytesOf name) := by
  have entered := m.entered_sectionSymbols
  constructor
  · intro mem
    by_cases fn : isFunction s = true
    · left
      rw [functionSymbols, ← entered.inOrder]
      exact List.mem_filter.2 ⟨mem, fn⟩
    · right
      obtain ⟨_, sec⟩ := (entered.owner s mem).resolve_right fun free => fn free.1
      obtain ⟨x, found, _, size⟩ := entered.bytes s.name sec
      obtain ⟨hx, name⟩ := Roster.find?_eq_some_iff.1 found
      obtain rfl := Roster.eq_of_key_eq hx mem name
      refine ⟨x.name, sec, ?_⟩
      rw [bytesOf, ← size]
      exact entered.shape x mem (by simpa using fn)
  · rintro (mem | ⟨name, sec, rfl⟩)
    · rw [functionSymbols, ← entered.inOrder] at mem
      exact (List.mem_filter.1 mem).1
    · obtain ⟨x, found, kind, size⟩ := entered.bytes name sec
      obtain ⟨hx, rfl⟩ := Roster.find?_eq_some_iff.1 found
      rw [bytesOf, ← size, ← entered.shape x hx (by simp [isFunction, kind])]
      exact hx

end Module

/-! ## Modules that differ in the order of their sections -/

/-- Modules with the same sections in another order, of which at most one has function
bodies, at most one imports functions and at most one names functions. -/
structure Rearranged (m m' : Module) : Prop where
  sections : (m.sections.map fun s => (s.name, s.size)).Perm
    (m'.sections.map fun s => (s.name, s.size))
  bodies : (m.sections.flatMap fun s => s.bodies.zipIdx) =
    m'.sections.flatMap fun s => s.bodies.zipIdx
  functionImports : m.functionImports = m'.functionImports
  functionExports : ∀ index, index ∈ m.functionExports ↔ index ∈ m'.functionExports
  functionNames : m.functionNames = m'.functionNames

namespace Rearranged

variable {m m' : Module}

theorem alike (h : Rearranged m m') : m.labels.Alike m'.labels where
  firstIndex := congrArg List.length h.functionImports
  exported := h.functionExports
  names := h.functionNames

theorem names (h : Rearranged m m') : (m.sections.map Section.name).Perm
    (m'.sections.map Section.name) := by
  have := h.sections.map Prod.fst
  simpa [List.map_map, Function.comp_def] using this

theorem bytesOf_eq (h : Rearranged m m') (name : String) : m.bytesOf name = m'.bytesOf name := by
  have := ((h.sections.filter (·.1 = name)).map Prod.snd).sum_nat
  simpa [Module.bytesOf, List.filter_map, List.map_map, Function.comp_def] using this

/-- The same names are not free, if the names that are taken are the same. -/
theorem sameTaken (h : Rearranged m m') {taken taken' : List String}
    (same : ∀ name, name ∈ taken ↔ name ∈ taken') :
    m.labels.SameTaken m'.labels taken taken' := by
  intro name
  have names : name ∈ m.sections.map Section.name ↔ name ∈ m'.sections.map Section.name :=
    h.names.mem_iff
  simp only [Module.labels, List.mem_append]
  rw [same, names]

theorem functionSymbols_eq (h : Rearranged m m') : m.functionSymbols = m'.functionSymbols := by
  rw [Module.functionSymbols, h.bodies]
  exact series_congr (R := m.labels.SameTaken m'.labels)
    (fun _ _ same b => Labels.functionAt_congr h.alike same b)
    (fun _ _ same name => same.append name) (h.sameTaken fun _ => Iff.rfl) _

theorem sectionSymbols_perm (h : Rearranged m m') :
    m.sectionSymbols.entries.Perm m'.sectionSymbols.entries := by
  have nodup : ∀ t : SymbolTable, t.entries.Nodup := fun t => t.nodup.of_map
  rw [List.perm_ext_iff_of_nodup (nodup _) (nodup _)]
  intro s
  have names : ∀ name, name ∈ m.sections.map Section.name ↔ name ∈ m'.sections.map Section.name :=
    fun _ => h.names.mem_iff
  simp only [Module.mem_sectionSymbols, h.functionSymbols_eq, h.bytesOf_eq, names]

theorem importSymbols_eq (h : Rearranged m m') : m.importSymbols = m'.importSymbols := by
  have keys : ∀ name, name ∈ m.sectionSymbols.keys ↔ name ∈ m'.sectionSymbols.keys :=
    fun _ => (h.sectionSymbols_perm.map Symbol.name).mem_iff
  rw [Module.importSymbols, h.functionImports]
  exact series_congr (R := m.labels.SameTaken m'.labels)
    (fun _ _ same b => Labels.importAt_congr same b)
    (fun _ _ same name => same.append name) (h.sameTaken keys) _

end Rearranged

/-- Modules that differ in the order of their sections have the same symbols. -/
theorem symbols_perm {m m' : Module} (h : Rearranged m m')
    (rest : m.attributed.total + 8 = m.fileSize) (rest' : m'.attributed.total + 8 = m'.fileSize) :
    m.symbols.entries.Perm m'.symbols.entries := by
  rw [entries_symbols rest, entries_symbols rest', m.entries_attributed, m'.entries_attributed,
    h.importSymbols_eq]
  exact (h.sectionSymbols_perm.append_right _).append_right _

/-! ## Files with their sections in another order -/

theorem eq_of_perm_of_length_le_one {α : Type} {xs ys : List α} (perm : xs.Perm ys)
    (one : xs.length ≤ 1) : xs = ys := by
  match xs, one with
  | [], _ => exact perm.nil_eq
  | [x], _ => exact perm.singleton_eq

/-- What is collected from at most one element does not depend on the order. -/
theorem flatMap_eq_of_perm {α β : Type} {f : α → List β} {p : α → Bool} {xs ys : List α}
    (none : ∀ x, p x = false → f x = []) (perm : xs.Perm ys) (one : (xs.filter p).length ≤ 1) :
    xs.flatMap f = ys.flatMap f := by
  have only : ∀ zs : List α, zs.flatMap f = (zs.filter p).flatMap f := by
    intro zs
    induction zs with
    | nil => rfl
    | cons z zs ih =>
      cases h : p z with
      | false => rw [List.flatMap_cons, none z h, List.filter_cons_of_neg (by simp [h]), ih,
          List.nil_append]
      | true => rw [List.flatMap_cons, List.filter_cons_of_pos h, List.flatMap_cons, ih]
  rw [only xs, only ys, eq_of_perm_of_length_le_one (perm.filter p) one]

variable {decoding : Bytes.NameDecoding} {l₁ l₂ : List (SelfContained decoding)}

theorem flatMap_placed {α : Type} {f : Section → List α} (h : ∀ shift s, f (s.moved shift) = f s)
    (cursor : Nat) (sections : List (SelfContained decoding)) :
    (placed cursor sections).flatMap f = sections.flatMap fun s => f s.parsed := by
  rw [List.flatMap_def, map_placed h, ← List.flatMap_def]

theorem filterMap_placed {α : Type} {f : Section → Option α}
    (h : ∀ shift s, f (s.moved shift) = f s) (cursor : Nat)
    (sections : List (SelfContained decoding)) :
    (placed cursor sections).filterMap f = sections.filterMap fun s => f s.parsed := by
  have options := congrArg (List.filterMap id) (map_placed h cursor sections)
  rwa [List.filterMap_map, List.filterMap_map] at options

/-- Files that are put together from the same sections in another order. -/
theorem rearranged_placed (perm : l₁.Perm l₂)
    (imports : (l₁.filter fun s => s.parsed.id = 2).length ≤ 1)
    (code : (l₁.filter fun s => s.parsed.id = 10).length ≤ 1)
    (names : (l₁.filter fun s => s.parsed.functionNames?.isSome).length ≤ 1)
    (cursor size : Nat) :
    Rearranged ⟨placed cursor l₁, size⟩ ⟨placed cursor l₂, size⟩ where
  sections := by
    rw [map_placed (fun _ s => by rw [name_moved, size_moved]),
      map_placed (fun _ s => by rw [name_moved, size_moved])]
    exact perm.map _
  bodies := by
    rw [flatMap_placed (fun _ s => by rw [bodies_moved]),
      flatMap_placed (fun _ s => by rw [bodies_moved])]
    refine flatMap_eq_of_perm (fun s other => ?_) perm code
    rw [s.bodies_eq_nil (by simpa using other), List.zipIdx_nil]
  functionImports := by
    rw [Module.functionImports, Module.functionImports, flatMap_placed functionImports_moved,
      flatMap_placed functionImports_moved]
    exact flatMap_eq_of_perm (fun s other => s.functionImports_eq_nil (by simpa using other)) perm
      imports
  functionExports := by
    intro index
    rw [Module.functionExports, Module.functionExports, flatMap_placed functionExports_moved,
      flatMap_placed functionExports_moved]
    exact (perm.flatMap_right _).mem_iff
  functionNames := by
    rw [Module.functionNames, Module.functionNames, filterMap_placed functionNames?_moved,
      filterMap_placed functionNames?_moved]
    have one : (l₁.filterMap fun s => s.parsed.functionNames?).length ≤ 1 := by
      rwa [List.length_filterMap_eq_countP, List.countP_eq_length_filter]
    rw [eq_of_perm_of_length_le_one (perm.filterMap _) one]

/-- **The order of the sections does not matter.**  Files that are put together from the same
sections in different orders are accepted, and the same symbols are listed for them, if at
most one section holds imports, at most one function bodies, and at most one is the name
section. -/
theorem symbolsOf_fileOf_perm (perm : l₁.Perm l₂)
    (imports : (l₁.filter fun s => s.parsed.id = 2).length ≤ 1)
    (code : (l₁.filter fun s => s.parsed.id = 10).length ≤ 1)
    (names : (l₁.filter fun s => s.parsed.functionNames?.isSome).length ≤ 1) :
    ∃ t₁ t₂, symbolsOf decoding (fileOf l₁) = .ok t₁ ∧ symbolsOf decoding (fileOf l₂) = .ok t₂ ∧
      t₁.entries.Perm t₂.entries := by
  have size : (fileOf l₂).size = (fileOf l₁).size := by
    rw [size_fileOf, size_fileOf, (perm.flatMap_right _).length_eq]
  have read₁ := read_fileOf l₁
  have read₂ := read_fileOf l₂
  have rest₁ := total_add_of_tiles (tiles_of_read read₁).2
  have rest₂ := total_add_of_tiles (tiles_of_read read₂).2
  rw [size] at read₂ rest₂
  refine ⟨_, _, bind_eq_ok.2 ⟨_, read₁, rfl⟩, bind_eq_ok.2 ⟨_, read₂, rfl⟩, ?_⟩
  exact symbols_perm (rearranged_placed perm imports code names 8 (fileOf l₁).size) rest₁ rest₂

/-- An import section with the function `f`. -/
def oneImport : SelfContained .utf8 where
  bytes := [2, 6, 1, 0, 1, 0x66, 0, 0]
  parsed := ⟨2, 0, 8, .imports ["f"]⟩
  reads := by decide +kernel
  whole := rfl

/-- A code section with one function body. -/
def oneBody : SelfContained .utf8 where
  bytes := [10, 4, 1, 2, 0, 0x0b]
  parsed := ⟨10, 0, 6, .code [3]⟩
  reads := by decide +kernel
  whole := rfl

/-- A name section that calls the function with index one like the code section. -/
def oneName : SelfContained .utf8 where
  bytes := [0, 14, 4, 0x6e, 0x61, 0x6d, 0x65, 1, 7, 1, 1, 4, 0x43, 0x4f, 0x44, 0x45]
  parsed := ⟨0, 0, 16, .custom "name" (some [(1, "CODE")])⟩
  reads := by decide +kernel
  whole := rfl

/-- The names may come before the function that they name, and that before the imports by
which it is counted. -/
theorem symbolsOf_fileOf_perm_reversed :
    ∃ t₁ t₂, symbolsOf .utf8 (fileOf [oneImport, oneBody, oneName]) = .ok t₁ ∧
      symbolsOf .utf8 (fileOf [oneName, oneBody, oneImport]) = .ok t₂ ∧
      t₁.entries.Perm t₂.entries := by
  have perm : List.Perm [oneImport, oneBody, oneName] [oneName, oneBody, oneImport] :=
    (List.reverse_perm [oneImport, oneBody, oneName]).symm
  exact symbolsOf_fileOf_perm perm (by decide) (by decide) (by decide)

end SizeAtlas.Wasm
