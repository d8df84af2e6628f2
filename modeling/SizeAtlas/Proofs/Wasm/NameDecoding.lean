import SizeAtlas.Proofs.Wasm.Conservation
import SizeAtlas.Proofs.Wasm.IndexSpace
import SizeAtlas.Proofs.Wasm.Reordering
import SizeAtlas.Proofs.Wasm.Rereading

/-!
# The decoding of names does not change what is measured

A file that is read under two decodings has functions and imports whose names differ where
they are no ASCII texts, and so may the names that are left free for others.  What is counted
does not depend on them: the walks over both readings enter the same functions and imports,
each with a plain name in one of them exactly if it has it in the other, and a plain name has
the same bytes in both.

## Main definitions

* `IsPlain` — an ASCII text without a number sign, as the names of section numbers are.
* `rowOf` — what is said of a function or import apart from its name.
* `Akin` — symbols that differ at most in a name that is not plain.

## Main statements

* `functionSymbols_akin`, `importSymbols_akin` — both readings have the same functions.
* `exists_mem_of_plain` — what has a plain name in one reading has it in the other.
* `symbolsOf_decoding` — a file is measured alike under two decodings.
-/

namespace SizeAtlas.Wasm

open Bytes

variable {d d' : NameDecoding}

/-! ## Plain names -/

/-- An ASCII text without a number sign. -/
def IsPlain (s : String) : Prop := ∀ c ∈ s.toList, c.toNat < 0x80 ∧ c ≠ '#'

theorem IsPlain.isAscii {s : String} (h : IsPlain s) : Text.IsAscii s := fun c mem => (h c mem).1

theorem IsPlain.notMem {s : String} (h : IsPlain s) : '#' ∉ s.toList := fun mem => (h _ mem).2 rfl

theorem IsPlain.append {s t : String} (hs : IsPlain s) (ht : IsPlain t) : IsPlain (s ++ t) := by
  intro c mem
  rw [String.toList_append, List.mem_append] at mem
  exact mem.elim (hs c) (ht c)

theorem isPlain_toString (n : Nat) : IsPlain (toString n) := by
  intro c mem
  rw [Nat.toString_eq_repr, Nat.toList_repr] at mem
  have digit := Nat.isDigit_of_mem_toDigits (b := 10) (by decide) (by decide) mem
  refine ⟨?_, ?_⟩
  · simp only [Char.isDigit, Bool.and_eq_true, decide_eq_true_eq] at digit
    exact lt_of_le_of_lt (UInt32.le_iff_toNat_le.1 digit.2) (by decide)
  · rintro rfl
    exact absurd digit (by decide)

/-- The names of section numbers are plain. -/
theorem isPlain_nameOfId (id : Nat) : IsPlain (nameOfId id) := by
  have before : IsPlain "UNKNOWN(" := by simp [IsPlain]
  have behind : IsPlain ")" := by simp [IsPlain]
  have unknown := (before.append (isPlain_toString id)).append behind
  unfold nameOfId
  split
  case h_15 => exact unknown
  all_goals simp [IsPlain]

/-- Texts one of which is a certain ASCII text only if both are. -/
def AsciiAlike (text text' : String) : Prop := ∀ s, Text.IsAscii s → (text = s ↔ text' = s)

theorem SameBytes.asciiAlike {text text' : String} (h : SameBytes d d' text text') :
    AsciiAlike text text' :=
  fun _ ascii => h.eq_iff ascii

/-! ## Lists of related elements -/

section Related

variable {α β γ : Type} {R : α → β → Prop} {xs : List α} {ys : List β}

/-- What is the same of related elements is the same of related lists. -/
theorem map_eq_of_forall₂ {f : α → γ} {g : β → γ} (related : List.Forall₂ R xs ys)
    (same : ∀ x y, R x y → f x = g y) : xs.map f = ys.map g := by
  induction related with
  | nil => rfl
  | cons here _ ih => rw [List.map_cons, List.map_cons, same _ _ here, ih]

theorem mem_map_iff_of_forall₂ {f : α → γ} {g : β → γ} {c : γ} (related : List.Forall₂ R xs ys)
    (same : ∀ x y, R x y → (f x = c ↔ g y = c)) : c ∈ xs.map f ↔ c ∈ ys.map g := by
  induction related with
  | nil => exact Iff.rfl
  | cons here _ ih =>
    rw [List.map_cons, List.map_cons, List.mem_cons, List.mem_cons, ih, eq_comm, same _ _ here,
      eq_comm]

theorem exists_of_forall₂ (related : List.Forall₂ R xs ys) {x : α} (mem : x ∈ xs) :
    ∃ y ∈ ys, R x y := by
  induction related with
  | nil => exact absurd mem List.not_mem_nil
  | cons here _ ih =>
    rcases List.mem_cons.1 mem with rfl | later
    · exact ⟨_, List.mem_cons_self, here⟩
    · obtain ⟨y, hy, found⟩ := ih later
      exact ⟨y, List.mem_cons_of_mem _ hy, found⟩

theorem getLast?_rel (related : List.Forall₂ R xs ys) : Option.Rel R xs.getLast? ys.getLast? := by
  rw [List.getLast?_eq_head?_reverse, List.getLast?_eq_head?_reverse]
  have reversed := List.rel_reverse related
  generalize xs.reverse = as at reversed
  generalize ys.reverse = bs at reversed
  cases reversed with
  | nil => exact .none
  | cons here _ => exact .some here

theorem zipIdx_rel (related : List.Forall₂ R xs ys) (n : Nat) :
    List.Forall₂ (fun p q => R p.1 q.1 ∧ p.2 = q.2) (xs.zipIdx n) (ys.zipIdx n) := by
  induction related generalizing n with
  | nil => exact .nil
  | cons here _ ih => exact .cons ⟨here, rfl⟩ (ih (n + 1))

end Related

/-- A name that is looked up comes from the same bytes. -/
theorem lookup_rel {names names' : FunctionNames} (same : SameNames d d' names names')
    (index : Nat) : Option.Rel (SameBytes d d') (names.lookup index) (names'.lookup index) := by
  induction same with
  | nil => exact .none
  | @cons p q _ _ here _ ih =>
    obtain ⟨i, text⟩ := p
    obtain ⟨j, text'⟩ := q
    obtain ⟨rfl, title⟩ : i = j ∧ SameBytes d d' text text' := here
    rw [List.lookup_cons, List.lookup_cons]
    cases index == i with
    | true => exact .some title
    | false => exact ih

/-! ## Sections that are read twice -/

namespace Section.Reread

variable {s s' : Section} (h : s.Reread d d' s')
include h

theorem bodies : s.bodies = s'.bodies := by
  obtain ⟨_, _, _, same⟩ := h
  cases same <;> rfl

theorem size : s.size = s'.size := by
  rw [Section.size_eq, Section.size_eq, h.bodies]
  obtain ⟨_, _, _, _⟩ := h
  rfl

theorem functionExports : s.functionExports = s'.functionExports := by
  obtain ⟨_, _, _, same⟩ := h
  cases same <;> rfl

theorem functionImports :
    List.Forall₂ (SameBytes d d') s.functionImports s'.functionImports := by
  obtain ⟨_, _, _, same⟩ := h
  cases same with
  | imports same => exact same
  | _ => exact .nil

theorem functionNames? :
    Option.Rel (SameNames d d') s.functionNames? s'.functionNames? := by
  obtain ⟨_, _, _, same⟩ := h
  cases same with
  | custom title named => exact named
  | _ => exact .none

/-- A section that has an ASCII name in one reading has it in the other. -/
theorem asciiAlike_name : AsciiAlike s.name s'.name := by
  obtain ⟨_, _, _, same⟩ := h
  intro n ascii
  cases same with
  | @custom text text' _ _ title _ =>
    change "CUSTOM/\"" ++ text ++ "\"" = n ↔ "CUSTOM/\"" ++ text' ++ "\"" = n
    constructor
    · rintro rfl
      rw [(title.eq_iff ascii.of_append).1 rfl]
    · rintro rfl
      rw [(title.eq_iff ascii.of_append).2 rfl]
  | _ => exact Iff.rfl

end Section.Reread

/-! ## Files that are read twice -/

namespace Module.Reread

variable {m m' : Module} (h : m.Reread d d' m')
include h

theorem functionExports : m.functionExports = m'.functionExports := by
  rw [Module.functionExports, Module.functionExports, List.flatMap_def, List.flatMap_def,
    map_eq_of_forall₂ h.sections fun _ _ same => same.functionExports]

theorem bodies : (m.sections.flatMap fun s => s.bodies.zipIdx) =
    m'.sections.flatMap fun s => s.bodies.zipIdx := by
  rw [List.flatMap_def, List.flatMap_def,
    map_eq_of_forall₂ h.sections fun _ _ same => congrArg List.zipIdx same.bodies]

theorem functionImports :
    List.Forall₂ (SameBytes d d') m.functionImports m'.functionImports :=
  List.rel_flatMap h.sections fun _ _ same => same.functionImports

theorem functionNames : SameNames d d' m.functionNames m'.functionNames := by
  have lists : List.Forall₂ (SameNames d d') (m.sections.filterMap Section.functionNames?)
      (m'.sections.filterMap Section.functionNames?) :=
    List.rel_filterMap (fun _ _ same => same.functionNames?) h.sections
  have last := getLast?_rel lists
  rw [Module.functionNames, Module.functionNames]
  generalize (m.sections.filterMap Section.functionNames?).getLast? = names at last
  generalize (m'.sections.filterMap Section.functionNames?).getLast? = names' at last
  cases last with
  | some same => exact same
  | none => exact .nil

/-- A section name that is an ASCII text is there in both readings. -/
theorem mem_names_iff {n : String} (ascii : Text.IsAscii n) :
    n ∈ m.sections.map Section.name ↔ n ∈ m'.sections.map Section.name :=
  mem_map_iff_of_forall₂ h.sections fun _ _ same => same.asciiAlike_name n ascii

/-- The sections of an ASCII name have the same bytes. -/
theorem bytesOf_eq {n : String} (ascii : Text.IsAscii n) : m.bytesOf n = m'.bytesOf n := by
  have named : List.Forall₂ (Section.Reread d d') (m.sections.filter (·.name = n))
      (m'.sections.filter (·.name = n)) :=
    List.rel_filter (fun _ _ same => by simpa using same.asciiAlike_name n ascii) h.sections
  rw [Module.bytesOf, Module.bytesOf, map_eq_of_forall₂ named fun _ _ same => same.size]

theorem asciiAlike_functionName (index : Nat) :
    AsciiAlike (m.labels.functionName index) (m'.labels.functionName index) := by
  have found := lookup_rel h.functionNames index
  change AsciiAlike ((m.functionNames.lookup index).getD _) ((m'.functionNames.lookup index).getD _)
  generalize m.functionNames.lookup index = name at found
  generalize m'.functionNames.lookup index = name' at found
  cases found with
  | some title => exact title.asciiAlike
  | none => exact fun _ _ => Iff.rfl

end Module.Reread

/-! ## Symbols with the same rows -/

/-- What is said of a function or import apart from its name.  Only functions have their
index as a text. -/
def rowOf (s : Symbol) : Symbol.Kind × Nat × Option Nat × Option String :=
  (s.kind, s.size, s.ordinal, if isImport s then none else some s.minifiedName)

/-- Symbols that differ at most in a name that is not plain. -/
structure Akin (s s' : Symbol) : Prop where
  row : rowOf s = rowOf s'
  name : ∀ n, IsPlain n → (s.name = n ↔ s'.name = n)

namespace Labels

/-- The same plain names are not free, whether they are taken or reserved. -/
def SamePlain (l l' : Labels) (taken taken' : List String) : Prop :=
  ∀ n, IsPlain n → (n ∈ taken ++ l.reserved ↔ n ∈ taken' ++ l'.reserved)

variable {l l' : Labels} {taken taken' : List String}

theorem SamePlain.append {name name' : String} (same : l.SamePlain l' taken taken')
    (alike : ∀ n, IsPlain n → (name = n ↔ name' = n)) :
    l.SamePlain l' (taken ++ [name]) (taken' ++ [name']) := by
  intro n plain
  have before := same n plain
  have here := alike n plain
  simp only [List.mem_append, List.mem_singleton, eq_comm (a := n)] at before ⊢
  tauto

/-- A plain name is chosen in both walks or in none. -/
theorem SamePlain.freeName_eq_iff {wish wish' tag n : String}
    (same : l.SamePlain l' taken taken') (alike : AsciiAlike wish wish') (plain : IsPlain n) :
    freeName wish tag (taken ++ l.reserved) = n ↔
      freeName wish' tag (taken' ++ l'.reserved) = n := by
  rw [SizeAtlas.freeName_eq_iff plain.notMem, SizeAtlas.freeName_eq_iff plain.notMem,
    alike n plain.isAscii, same n plain]

theorem rowOf_functionAt (taken : List String) (body : Nat × Nat) :
    rowOf (l.functionAt taken body) =
      (if l.firstIndex + body.2 ∈ l.exported then .exported else .function, body.1,
        some (l.firstIndex + body.2), some (toString (l.firstIndex + body.2))) := by
  by_cases mem : l.firstIndex + body.2 ∈ l.exported <;>
    simp [rowOf, isImport, functionAt, functionSymbol, mem]

theorem functionAt_akin (firstIndex : l.firstIndex = l'.firstIndex)
    (exported : l.exported = l'.exported)
    (wish : ∀ index, AsciiAlike (l.functionName index) (l'.functionName index))
    (same : l.SamePlain l' taken taken') (body : Nat × Nat) :
    Akin (l.functionAt taken body) (l'.functionAt taken' body) where
  row := by rw [rowOf_functionAt, rowOf_functionAt, firstIndex, exported]
  name n plain := by
    rw [functionAt, functionAt, name_functionSymbol, name_functionSymbol, firstIndex]
    exact same.freeName_eq_iff (wish _) plain

theorem importAt_akin {function function' : String × Nat}
    (title : SameBytes d d' function.1 function'.1) (index : function.2 = function'.2)
    (same : l.SamePlain l' taken taken') :
    Akin (l.importAt taken function) (l'.importAt taken' function') where
  row := by
    simp only [rowOf, isImport, importAt, importSymbol, index, decide_true, if_true]
  name n plain := by
    rw [importAt, importAt, name_importSymbol, name_importSymbol, index]
    exact same.freeName_eq_iff title.asciiAlike plain

end Labels

/-! ## The walks over both readings -/

namespace Module.Reread

variable {m m' : Module} (h : m.Reread d d' m')
include h

theorem mem_reserved_iff {n : String} (plain : IsPlain n) :
    n ∈ m.labels.reserved ↔ n ∈ m'.labels.reserved := by
  simp only [Module.labels, List.mem_append, h.mem_names_iff plain.isAscii]

/-- **Both walks enter the same functions**, the next one with the next, but for names that
are not plain. -/
theorem functionSymbols_akin : List.Forall₂ Akin m.functionSymbols m'.functionSymbols := by
  have firstIndex : m.labels.firstIndex = m'.labels.firstIndex := h.functionImports.length_eq
  have empty : m.labels.SamePlain m'.labels [] [] := fun n plain => h.mem_reserved_iff plain
  rw [Module.functionSymbols, Module.functionSymbols, h.bodies]
  refine forall₂_series (T := Eq) ?_ empty (List.forall₂_same.2 fun _ _ => rfl)
  rintro taken taken' same body _ rfl
  have akin := Labels.functionAt_akin firstIndex h.functionExports h.asciiAlike_functionName same
    body
  exact ⟨akin, same.append akin.name⟩

/-- A plain name is taken by the sections and functions in both walks or in none. -/
theorem samePlain_keys :
    m.labels.SamePlain m'.labels m.sectionSymbols.keys m'.sectionSymbols.keys := by
  have keys : ∀ (m : Module) (n : String), n ∈ m.sectionSymbols.keys ↔
      n ∈ m.functionSymbols.map Symbol.name ∨ n ∈ m.sections.map Section.name := by
    intro m n
    have name : ∀ n, (sectionSymbol n (m.bytesOf n)).name = n := fun n => by
      simp [sectionSymbol, Symbol.name]
    simp only [Roster.mem_keys, Module.mem_sectionSymbols, List.mem_map, or_and_right, exists_or]
    refine or_congr_right ⟨?_, ?_⟩
    · rintro ⟨_, ⟨_, sec, rfl⟩, rfl⟩
      rwa [name]
    · exact fun sec => ⟨_, ⟨n, sec, rfl⟩, name n⟩
  intro n plain
  have functions : n ∈ m.functionSymbols.map Symbol.name ↔ n ∈ m'.functionSymbols.map Symbol.name :=
    mem_map_iff_of_forall₂ h.functionSymbols_akin fun _ _ akin => akin.name n plain
  rw [List.mem_append, List.mem_append, keys, keys, functions, h.mem_names_iff plain.isAscii,
    h.mem_reserved_iff plain]

/-- **Both walks enter the same imports**, but for names that are not plain. -/
theorem importSymbols_akin : List.Forall₂ Akin m.importSymbols m'.importSymbols := by
  refine forall₂_series ?_ h.samePlain_keys (zipIdx_rel h.functionImports 0)
  rintro taken taken' same function function' ⟨title, index⟩
  have akin : Akin (m.labels.importAt taken function) (m'.labels.importAt taken' function') :=
    Labels.importAt_akin title index same
  exact ⟨akin, same.append akin.name⟩

/-- A symbol of one reading whose name is plain has a counterpart of that name in the other. -/
theorem exists_mem_of_plain (rest : m.attributed.total + 8 = m.fileSize)
    (rest' : m'.attributed.total + 8 = m'.fileSize) {s : Symbol} (mem : s ∈ m.symbols.entries)
    (plain : IsPlain s.name) :
    ∃ s' ∈ m'.symbols.entries, s'.name = s.name ∧ s'.kind = s.kind ∧ s'.size = s.size := by
  have of_akin : ∀ s', Akin s s' → s'.name = s.name ∧ s'.kind = s.kind ∧ s'.size = s.size := by
    intro s' akin
    have row := akin.row
    simp only [rowOf, Prod.mk.injEq] at row
    exact ⟨(akin.name _ plain).1 rfl, row.1.symm, row.2.1.symm⟩
  simp only [entries_symbols rest, entries_symbols rest', Module.entries_attributed,
    List.mem_append, List.mem_singleton] at mem ⊢
  rcases mem with (mem | imp) | rfl
  · rcases m.mem_sectionSymbols.1 mem with fn | ⟨name, sec, rfl⟩
    · obtain ⟨s', mem', akin⟩ := exists_of_forall₂ h.functionSymbols_akin fn
      exact ⟨s', Or.inl (Or.inl (m'.mem_sectionSymbols.2 (Or.inl mem'))), of_akin s' akin⟩
    · have ascii : Text.IsAscii name := by simpa [sectionSymbol, Symbol.name] using plain.isAscii
      have sec' := (h.mem_names_iff ascii).1 sec
      refine ⟨sectionSymbol name (m'.bytesOf name), ?_, rfl, rfl, (h.bytesOf_eq ascii).symm⟩
      exact Or.inl (Or.inl (m'.mem_sectionSymbols.2 (Or.inr ⟨name, sec', rfl⟩)))
  · obtain ⟨s', mem', akin⟩ := exists_of_forall₂ h.importSymbols_akin imp
    exact ⟨s', Or.inl (Or.inr mem'), of_akin s' akin⟩
  · exact ⟨Module.headerSymbol, Or.inr rfl, rfl, rfl, rfl⟩

end Module.Reread

/-- The functions and imports of a module in their order. -/
theorem filter_symbols {m : Module} (rest : m.attributed.total + 8 = m.fileSize) :
    (m.symbols.entries.filter fun s => isFunction s || isImport s) =
      m.functionSymbols ++ m.importSymbols := by
  have sections : (m.sectionSymbols.entries.filter fun s => isFunction s || isImport s) =
      m.functionSymbols := by
    rw [Module.functionSymbols, ← m.entered_sectionSymbols.inOrder]
    exact List.filter_congr fun s hs => by rw [isImport_sectionSymbols hs, Bool.or_false]
  have imports : (m.importSymbols.filter fun s => isFunction s || isImport s) =
      m.importSymbols :=
    List.filter_eq_self.2 fun s hs => by simp [isFunction_importSymbols hs]
  have header : ([Module.headerSymbol].filter fun s => isFunction s || isImport s) = [] := rfl
  rw [entries_symbols rest, m.entries_attributed, List.filter_append, List.filter_append, sections,
    imports, header, List.append_nil]

/-! ## Files -/

theorem reread_of_read {bytes : ByteArray} {m m' : Module} (read : Module.read d bytes = .ok m)
    (read' : Module.read d' bytes = .ok m') : m.Reread d d' m' := by
  have agree := read_agree d d' bytes
  rw [read, read'] at agree
  cases agree with
  | ok same => exact same

/-- What a plain name stands for is of one kind and has the same bytes in both readings. -/
theorem find?_plain {m m' : Module} (h : m.Reread d d' m') (h' : m'.Reread d' d m)
    (rest : m.attributed.total + 8 = m.fileSize) (rest' : m'.attributed.total + 8 = m'.fileSize)
    {n : String} (plain : IsPlain n) :
    (m.symbols.find? n).map (fun s => (s.kind, s.size)) =
      (m'.symbols.find? n).map fun s => (s.kind, s.size) := by
  cases found : m.symbols.find? n with
  | some s =>
    obtain ⟨mem, rfl⟩ := Roster.find?_eq_some_iff.1 found
    obtain ⟨s', mem', name, kind, size⟩ := h.exists_mem_of_plain rest rest' mem plain
    rw [Roster.find?_eq_some_iff.2 ⟨mem', name⟩, Option.map_some, Option.map_some, kind, size]
  | none =>
    cases found' : m'.symbols.find? n with
    | none => rfl
    | some s' =>
      obtain ⟨mem', rfl⟩ := Roster.find?_eq_some_iff.1 found'
      obtain ⟨s, mem, name, _⟩ := h'.exists_mem_of_plain rest' rest mem' plain
      rw [Roster.find?_eq_some_iff.2 ⟨mem, name⟩] at found
      exact absurd found (by simp)

/-- **A file is measured alike under two decodings of names.**  Either it is refused under
both for the same cause, or its symbols have the same total, the same header, the same bytes
under each name of a section number, and the same functions and imports in the same order but
for their names. -/
theorem symbolsOf_decoding (d d' : NameDecoding) (bytes : ByteArray) :
    (∃ fault, symbolsOf d bytes = .error fault ∧ symbolsOf d' bytes = .error fault) ∨
    ∃ t t', symbolsOf d bytes = .ok t ∧ symbolsOf d' bytes = .ok t' ∧
      t.total = t'.total ∧
      (∃ header, t.find? headerName = some header ∧ t'.find? headerName = some header) ∧
      (∀ id, (t.find? (nameOfId id)).map (fun s => (s.kind, s.size)) =
        (t'.find? (nameOfId id)).map fun s => (s.kind, s.size)) ∧
      (t.entries.filter fun s => isFunction s || isImport s).map rowOf =
        (t'.entries.filter fun s => isFunction s || isImport s).map rowOf := by
  have agree := read_agree d d' bytes
  generalize read : Module.read d bytes = result at agree
  generalize read' : Module.read d' bytes = result' at agree
  cases agree with
  | error fault =>
    exact Or.inl ⟨fault, by rw [symbolsOf, read]; rfl, by rw [symbolsOf, read']; rfl⟩
  | @ok m m' h =>
    have h' := reread_of_read read' read
    have rest := total_add_of_read read
    have rest' := total_add_of_read read'
    refine Or.inr ⟨_, _, bind_eq_ok.2 ⟨m, read, rfl⟩, bind_eq_ok.2 ⟨m', read', rfl⟩, ?_,
      ⟨_, find?_headerName rest, find?_headerName rest'⟩,
      fun id => find?_plain h h' rest rest' (isPlain_nameOfId id), ?_⟩
    · rw [total_symbols rest, total_symbols rest', h.fileSize]
    · rw [filter_symbols rest, filter_symbols rest', List.map_append, List.map_append,
        map_eq_of_forall₂ h.functionSymbols_akin fun _ _ akin => akin.row,
        map_eq_of_forall₂ h.importSymbols_akin fun _ _ akin => akin.row]

end SizeAtlas.Wasm
