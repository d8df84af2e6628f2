import SizeAtlas.Proofs.Text.Ascii
import SizeAtlas.Proofs.Wasm.RoundTrip

/-!
# A file that is read twice

A file read under two decodings of names, step by step.  Both readings look at the same
places, since how a name is decoded decides neither where it ends nor, as far as the reader
looks at it, what it says: `name` is called so under every decoding.  So they fail for the
same cause, or give the same sections but for the texts in them, which come from the same
bytes.

## Main definitions

* `Agree` — two computations with one outcome.
* `SameBytes` — texts that come from the same bytes.
* `Contents.Reread`, `Section.Reread`, `Module.Reread` — what two readings give.

## Main statements

* `Agree.bind` — computations agree if their steps do.
* `readContents_agree` — the step: one section is read alike.
* `read_agree` — the run: a file is read alike.
-/

namespace SizeAtlas

/-! ## Two computations with one outcome -/

section Agree

variable {ε α β γ δ : Type} {R : α → β → Prop} {S : γ → δ → Prop}

/-- Both fail for the same cause, or both succeed and the results are related by `R`. -/
inductive Agree (R : α → β → Prop) : Except ε α → Except ε β → Prop
  | error (e : ε) : Agree R (.error e) (.error e)
  | ok {a : α} {b : β} (related : R a b) : Agree R (.ok a) (.ok b)

/-- Computations agree if their first steps do and what is made of their results does. -/
theorem Agree.bind {x : Except ε α} {y : Except ε β} {f : α → Except ε γ} {g : β → Except ε δ}
    (first : Agree R x y) (rest : ∀ a b, x = .ok a → R a b → Agree S (f a) (g b)) :
    Agree S (x >>= f) (y >>= g) := by
  cases first with
  | error e => exact .error e
  | ok related => exact rest _ _ rfl related

/-- A step that both computations share. -/
theorem Agree.bind_same (x : Except ε α) {f : α → Except ε γ} {g : α → Except ε δ}
    (rest : ∀ a, x = .ok a → Agree S (f a) (g a)) : Agree S (x >>= f) (x >>= g) := by
  cases x with
  | error e => exact .error e
  | ok a => exact rest a rfl

end Agree

namespace Wasm

open Bytes

variable {d d' : NameDecoding} {bytes : ByteArray} {cursor stop : Nat}

/-! ## Texts -/

variable (d d') in
/-- The texts of the same bytes, the first under `d` and the second under `d'`. -/
def SameBytes (text text' : String) : Prop := ∃ raw, text = d.decode raw ∧ text' = d'.decode raw

theorem SameBytes.symm {text text' : String} (h : SameBytes d d' text text') :
    SameBytes d' d text' text := by
  obtain ⟨raw, left, right⟩ := h
  exact ⟨raw, right, left⟩

/-- Where one of the texts is ASCII, the other is the same. -/
theorem SameBytes.eq_iff {text text' s : String} (h : SameBytes d d' text text')
    (ascii : Text.IsAscii s) : text = s ↔ text' = s := by
  obtain ⟨raw, rfl, rfl⟩ := h
  rw [Text.decode_eq_iff_of_ascii ascii, Text.decode_eq_iff_of_ascii ascii]

theorem name_agree :
    Agree (fun r r' => SameBytes d d' r.1 r'.1 ∧ r.2 = r'.2) (name d bytes cursor)
      (name d' bytes cursor) := by
  refine .bind_same _ ?_
  rintro ⟨length, first⟩ _
  by_cases inside : first + length ≤ bytes.size
  · simp only [if_pos inside]
    exact .ok ⟨⟨_, rfl, rfl⟩, rfl⟩
  · simp only [if_neg inside]
    exact .error _

/-! ## Names of functions -/

variable (d d') in
/-- Names of functions under the same indices, each from the same bytes. -/
abbrev SameNames (names names' : FunctionNames) : Prop :=
  List.Forall₂ (fun p q => p.1 = q.1 ∧ SameBytes d d' p.2 q.2) names names'

theorem readNameMap_succ (count : Nat) (seen : FunctionNames) :
    readNameMap d bytes (count + 1) cursor seen = (do
      let (index, first) ← varint bytes cursor
      let (text, next) ← name d bytes first
      readNameMap d bytes count next ((index, text) :: seen)) := by
  rw [readNameMap]
  cases varint bytes cursor with
  | error e => rfl
  | ok r =>
    obtain ⟨index, first⟩ := r
    cases title : name d bytes first <;> simp [title, bind, Except.bind]

theorem readNameMap_agree {count : Nat} {seen seen' : FunctionNames}
    (same : SameNames d d' seen seen') :
    Agree (fun r r' => SameNames d d' r.1 r'.1 ∧ r.2 = r'.2)
      (readNameMap d bytes count cursor seen) (readNameMap d' bytes count cursor seen') := by
  induction count generalizing cursor seen seen' with
  | zero => exact .ok ⟨same, rfl⟩
  | succ count ih =>
    rw [readNameMap_succ, readNameMap_succ]
    refine .bind_same _ ?_
    rintro ⟨index, first⟩ _
    refine name_agree.bind ?_
    rintro ⟨text, next⟩ ⟨text', next'⟩ _ ⟨title, eq⟩
    obtain rfl : next = next' := eq
    exact ih (.cons ⟨rfl, title⟩ same)

/-- The names in a name section.  The induction is over the parts that are read. -/
theorem readNames_agree {seen seen' : FunctionNames} (same : SameNames d d' seen seen') :
    Agree (SameNames d d') (readNames d bytes stop cursor seen)
      (readNames d' bytes stop cursor seen') := by
  induction remaining : stop - cursor using Nat.strong_induction_on
    generalizing cursor seen seen' with
  | _ _ ih =>
    subst remaining
    by_cases lt : cursor < stop
    · rw [readNames_eq lt, readNames_eq lt]
      refine .bind_same _ ?_
      rintro ⟨id, after⟩ number
      refine .bind_same _ ?_
      rintro ⟨length, first⟩ field
      have pos := byteAt_next number
      have pos' := lt_of_varint field
      by_cases other : id ≠ functionNamesId
      · simp only [if_pos other]
        exact ih _ (by omega) same rfl
      · simp only [if_neg other]
        refine .bind_same _ ?_
        rintro ⟨count, start⟩ counted
        have pos'' := lt_of_varint counted
        refine (readNameMap_agree same).bind ?_
        rintro ⟨names, next⟩ ⟨names', next'⟩ map ⟨same', eq⟩
        obtain rfl : next = next' := eq
        have behind := le_of_readNameMap map
        exact ih _ (by omega) same' rfl
    · rw [readNames, if_neg lt, readNames, if_neg lt]
      by_cases ends : cursor = stop
      · simp only [if_pos ends]
        exact .ok same
      · simp only [if_neg ends]
        exact .error _

/-! ## Imports and exports -/

theorem readImportsFrom_agree {count : Nat} {seen seen' : List String}
    (same : List.Forall₂ (SameBytes d d') seen seen') :
    Agree (List.Forall₂ (SameBytes d d')) (readImportsFrom d bytes count cursor seen)
      (readImportsFrom d' bytes count cursor seen') := by
  induction count generalizing cursor seen seen' with
  | zero => exact .ok (List.rel_reverse same)
  | succ count ih =>
    rw [readImportsFrom, readImportsFrom]
    refine name_agree.bind ?_
    rintro ⟨_, first⟩ ⟨_, first'⟩ _ ⟨_, eq⟩
    obtain rfl : first = first' := eq
    refine name_agree.bind ?_
    rintro ⟨text, second⟩ ⟨text', second'⟩ _ ⟨title, eq⟩
    obtain rfl : second = second' := eq
    refine .bind_same _ ?_
    rintro ⟨kind, third⟩ _
    refine .bind_same _ fun after _ => ?_
    cases after with
    | none => exact .ok (List.rel_reverse same)
    | some next =>
      refine ih ?_
      by_cases function : kind = 0
      · simp only [if_pos function]
        exact .cons title same
      · simp only [if_neg function]
        exact same

theorem readImports_agree :
    Agree (List.Forall₂ (SameBytes d d')) (readImports d bytes cursor)
      (readImports d' bytes cursor) :=
  .bind_same _ fun _ _ => readImportsFrom_agree .nil

theorem readExportsFrom_agree {count : Nat} {seen : List Nat} :
    Agree Eq (readExportsFrom d bytes count cursor seen)
      (readExportsFrom d' bytes count cursor seen) := by
  induction count generalizing cursor seen with
  | zero => exact .ok rfl
  | succ count ih =>
    rw [readExportsFrom, readExportsFrom]
    have title : Agree _ (name d bytes cursor) (name d' bytes cursor) := name_agree
    refine title.bind ?_
    rintro ⟨_, first⟩ ⟨_, first'⟩ _ ⟨_, eq⟩
    obtain rfl : first = first' := eq
    exact .bind_same _ fun _ _ => .bind_same _ fun _ _ => ih

theorem readExports_agree :
    Agree Eq (readExports d bytes cursor) (readExports d' bytes cursor) :=
  .bind_same _ fun _ _ => readExportsFrom_agree

/-! ## Sections -/

variable (d d') in
/-- What two readings of a section give: the same, but for texts that come from the same
bytes. -/
inductive Contents.Reread : Contents → Contents → Prop
  | custom {text text' : String} {names names' : Option FunctionNames}
      (title : SameBytes d d' text text') (named : Option.Rel (SameNames d d') names names') :
      Reread (.custom text names) (.custom text' names')
  | imports {functions functions' : List String}
      (same : List.Forall₂ (SameBytes d d') functions functions') :
      Reread (.imports functions) (.imports functions')
  | exports (functions : List Nat) : Reread (.exports functions) (.exports functions)
  | code (bodies : List Nat) : Reread (.code bodies) (.code bodies)
  | uninterpreted : Reread .uninterpreted .uninterpreted

variable (d d') in
/-- Two readings of one section, which lies at one place. -/
inductive Section.Reread : Section → Section → Prop
  | mk (id : UInt8) (start stop : Nat) {contents contents' : Contents}
      (same : contents.Reread d d' contents') :
      Reread ⟨id, start, stop, contents⟩ ⟨id, start, stop, contents'⟩

variable (d d') in
/-- Two readings of one file. -/
structure Module.Reread (m m' : Module) : Prop where
  sections : List.Forall₂ (Section.Reread d d') m.sections m'.sections
  fileSize : m.fileSize = m'.fileSize

/-- **What a section holds is read alike.**  Both readings take the same section for the
name section. -/
theorem readContents_agree {id : UInt8} :
    Agree (Contents.Reread d d') (readContents d bytes id cursor stop)
      (readContents d' bytes id cursor stop) := by
  have name_ascii : Text.IsAscii "name" := by simp [Text.IsAscii]
  unfold readContents
  split
  · refine name_agree.bind ?_
    rintro ⟨text, next⟩ ⟨text', next'⟩ _ ⟨title, eq⟩
    obtain rfl : next = next' := eq
    have title : SameBytes d d' text text' := title
    by_cases named : text = "name"
    · simp only [if_pos named, if_pos ((title.eq_iff name_ascii).1 named)]
      exact (readNames_agree .nil).bind fun _ _ _ same => .ok (.custom title (.some same))
    · simp only [if_neg named, if_neg (mt (title.eq_iff name_ascii).2 named)]
      exact .ok (.custom title .none)
  · exact readImports_agree.bind fun _ _ _ same => .ok (.imports same)
  · have exports : Agree Eq (readExports d bytes cursor) (readExports d' bytes cursor) :=
      readExports_agree
    refine exports.bind fun functions _ _ same => ?_
    subst same
    exact .ok (.exports functions)
  · exact .bind_same _ fun bodies _ => .ok (.code bodies)
  · exact .ok .uninterpreted

theorem readSection_eq : readSection d bytes cursor = (do
    let (id, next) ← byteAt bytes cursor
    let (length, first) ← varint bytes next
    if bytes.size < first + length then
      .error (.sectionOverrun cursor (first + length) bytes.size)
    else do
      let contents ← readContents d bytes id first (first + length)
      .ok ⟨id, cursor, first + length, contents⟩) := by
  rw [readSection]
  cases byteAt bytes cursor with
  | error e => rfl
  | ok r =>
    obtain ⟨id, next⟩ := r
    cases field : varint bytes next with
    | error e => simp [field, bind, Except.bind]
    | ok r =>
      obtain ⟨length, first⟩ := r
      by_cases beyond : bytes.size < first + length
      · simp [field, bind, Except.bind, beyond]
      · simp only [field, bind, Except.bind, beyond, if_false]
        cases readContents d bytes id first (first + length) <;> rfl

theorem readSection_agree :
    Agree (Section.Reread d d') (readSection d bytes cursor) (readSection d' bytes cursor) := by
  rw [readSection_eq, readSection_eq]
  refine .bind_same _ ?_
  rintro ⟨id, next⟩ _
  refine .bind_same _ ?_
  rintro ⟨length, first⟩ _
  by_cases beyond : bytes.size < first + length
  · simp only [if_pos beyond]
    exact .error _
  · simp only [if_neg beyond]
    exact readContents_agree.bind fun _ _ _ same => .ok (.mk _ _ _ same)

/-! ## Files -/

theorem readSections_eq (lt : cursor < bytes.size) (seen : List Section) :
    readSections d bytes cursor seen =
      readSection d bytes cursor >>= fun s => readSections d bytes s.stop (s :: seen) := by
  rw [readSections, if_pos lt]
  split <;> rename_i read <;> rw [read] <;> rfl

/-- The sections of a file.  The induction is over what is left of the file. -/
theorem readSections_agree {seen seen' : List Section}
    (same : List.Forall₂ (Section.Reread d d') seen seen') :
    Agree (List.Forall₂ (Section.Reread d d')) (readSections d bytes cursor seen)
      (readSections d' bytes cursor seen') := by
  induction remaining : bytes.size - cursor using Nat.strong_induction_on
    generalizing cursor seen seen' with
  | _ _ ih =>
    subst remaining
    by_cases lt : cursor < bytes.size
    · rw [readSections_eq lt, readSections_eq lt]
      refine readSection_agree.bind fun s s' read here => ?_
      have pos := lt_of_readSection read
      cases here with
      | mk id start stop held => exact ih _ (by omega) (.cons (.mk id start stop held) same) rfl
    · rw [readSections, if_neg lt, readSections, if_neg lt]
      exact .ok (List.rel_reverse same)

/-- **A file is read alike under two decodings**: both readings fail for the same cause, or
they give the same sections but for texts that come from the same bytes. -/
theorem read_agree (d d' : NameDecoding) (bytes : ByteArray) :
    Agree (Module.Reread d d') (Module.read d bytes) (Module.read d' bytes) := by
  rw [Module.read, Module.read]
  refine .bind_same _ ?_
  rintro ⟨found, next⟩ _
  by_cases other : found ≠ magic
  · simp only [if_pos other]
    exact .error _
  · simp only [if_neg other]
    refine .bind_same _ ?_
    rintro ⟨found, next⟩ _
    by_cases other : found ≠ version
    · simp only [if_pos other]
      exact .error _
    · simp only [if_neg other]
      exact (readSections_agree .nil).bind fun _ _ _ same => .ok ⟨same, rfl⟩

end Wasm

end SizeAtlas
