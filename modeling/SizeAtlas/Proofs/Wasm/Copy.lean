import SizeAtlas.Proofs.Bytes.Copy
import SizeAtlas.Proofs.Wasm.RoundTrip

/-!
# Reading a copy of a section

The readers of a module give the same for bytes that are copied to another file, at the
same place or at another one.  Those that know where their section ends keep to its
bytes; the others keep to the bytes of their file, so for them the whole file has to be
copied.

## Main definitions

* `Section.moved` — a section that lies further behind.

## Main statements

* `readBodies_of_copied`, `readNames_of_copied` — readers that know the end.
* `readSection_of_copied` — a section is read alike in a copy of its whole file.
-/

namespace SizeAtlas.Wasm

open Bytes

variable {decoding : NameDecoding} {part whole : ByteArray} {shift limit cursor next stop : Nat}

/-! ## Readers that know the end of their section -/

section Limit

variable (h : Copied part whole shift limit)
include h

theorem readBodies_of_copied {count : Nat} {seen found : List Nat} (le : stop ≤ limit)
    (read : readBodies part stop count cursor seen = .ok found) :
    readBodies whole (shift + stop) count (shift + cursor) seen = .ok found := by
  induction count generalizing cursor seen with
  | zero => exact read
  | succ count ih =>
    rw [readBodies, bind_eq_ok] at read ⊢
    obtain ⟨⟨length, first⟩, field, rest⟩ := read
    by_cases beyond : stop < first + length
    · simp [beyond] at rest
    · simp only [beyond, if_false] at rest
      refine ⟨(length, shift + first), varint_of_copied h field (by omega), ?_⟩
      have inside : ¬ shift + stop < shift + (first + length) := by omega
      have size := Nat.add_sub_add_left shift (first + length) cursor
      simp only [Nat.add_assoc, inside, if_false, size]
      exact ih rest

/-- The bodies of a code section, if their number is among the bytes that are copied. -/
theorem readCode_of_copied {found : List Nat} (le : stop ≤ limit)
    (counted : ∀ count first, varint part cursor = .ok (count, first) → first ≤ limit)
    (read : readCode part cursor stop = .ok found) :
    readCode whole (shift + cursor) (shift + stop) = .ok found := by
  rw [readCode, bind_eq_ok] at read ⊢
  obtain ⟨⟨count, first⟩, field, bodies⟩ := read
  exact ⟨(count, shift + first), varint_of_copied h field (counted count first field),
    readBodies_of_copied h le bodies⟩

theorem readNameMap_of_copied {count : Nat} {seen names : FunctionNames}
    (read : readNameMap decoding part count cursor seen = .ok (names, next)) (le : next ≤ limit) :
    readNameMap decoding whole count (shift + cursor) seen = .ok (names, shift + next) := by
  induction count generalizing cursor seen with
  | zero =>
    simp only [readNameMap, Except.ok.injEq, Prod.mk.injEq] at read ⊢
    obtain ⟨rfl, rfl⟩ := read
    exact ⟨rfl, rfl⟩
  | succ count ih =>
    rw [readNameMap] at read
    cases index : varint part cursor with
    | error e => simp [index] at read
    | ok r =>
      obtain ⟨i, first⟩ := r
      cases title : name decoding part first with
      | error e => simp [index, title] at read
      | ok r =>
        obtain ⟨text, after⟩ := r
        simp only [index, title] at read
        have behind := le_of_readNameMap read
        have length := lt_of_name title
        rw [readNameMap, varint_of_copied h index (by omega)]
        simp only [name_of_copied h title (by omega)]
        exact ih read

end Limit

/-- The parts of a name section end where the section ends. -/
theorem le_of_readNames {seen names : FunctionNames}
    (read : readNames decoding part stop cursor seen = .ok names) : cursor ≤ stop := by
  by_cases lt : cursor < stop
  · exact Nat.le_of_lt lt
  · rw [readNames, if_neg lt] at read
    by_cases eq : cursor = stop
    · exact Nat.le_of_eq eq
    · simp [eq] at read

/-- The names in a name section.  The induction is over the parts that are read. -/
theorem readNames_of_copied {seen names : FunctionNames} (h : Copied part whole shift limit)
    (le : stop ≤ limit) (read : readNames decoding part stop cursor seen = .ok names) :
    readNames decoding whole (shift + stop) (shift + cursor) seen = .ok names := by
  induction remaining : stop - cursor using Nat.strong_induction_on generalizing cursor seen with
  | _ _ ih =>
    subst remaining
    by_cases lt : cursor < stop
    · rw [readNames_eq lt, bind_eq_ok] at read
      rw [readNames_eq (Nat.add_lt_add_left lt shift), bind_eq_ok]
      obtain ⟨⟨id, after⟩, first, read⟩ := read
      obtain ⟨⟨length, start⟩, field, read⟩ := bind_eq_ok.1 read
      have pos := byteAt_next first
      have pos' := lt_of_varint field
      by_cases other : id ≠ functionNamesId
      · simp only [if_pos other] at read
        have within := le_of_readNames read
        refine ⟨(id, shift + after), byteAt_of_copied h first (by omega), ?_⟩
        refine bind_eq_ok.2 ⟨(length, shift + start), varint_of_copied h field (by omega), ?_⟩
        simp only [if_pos other, Nat.add_assoc]
        exact ih _ (by omega) read rfl
      · simp only [if_neg other] at read
        obtain ⟨⟨count, begins⟩, counted, read⟩ := bind_eq_ok.1 read
        obtain ⟨⟨seen', ends⟩, map, read⟩ := bind_eq_ok.1 read
        have within := le_of_readNames read
        have pos'' := lt_of_varint counted
        have behind := le_of_readNameMap map
        refine ⟨(id, shift + after), byteAt_of_copied h first (by omega), ?_⟩
        refine bind_eq_ok.2 ⟨(length, shift + start), varint_of_copied h field (by omega), ?_⟩
        simp only [if_neg other]
        refine bind_eq_ok.2 ⟨(count, shift + begins), varint_of_copied h counted (by omega), ?_⟩
        refine bind_eq_ok.2 ⟨(seen', shift + ends), readNameMap_of_copied h map (by omega), ?_⟩
        exact ih _ (by omega) read rfl
    · have ends : cursor = stop := Nat.le_antisymm (le_of_readNames read) (Nat.le_of_not_lt lt)
      subst ends
      rw [readNames, if_neg (Nat.lt_irrefl _)] at read ⊢
      simpa using read

/-! ## Readers that do not -/

section Whole

variable (h : Copied part whole shift part.size)
include h

theorem skipBounds_of_copied (read : skipBounds part cursor = .ok next) :
    skipBounds whole (shift + cursor) = .ok (shift + next) := by
  rw [skipBounds, bind_eq_ok] at read ⊢
  obtain ⟨⟨flag, first⟩, kind, read⟩ := read
  obtain ⟨⟨least, after⟩, bound, read⟩ := bind_eq_ok.1 read
  refine ⟨(flag, shift + first), byteAt_of_copied h kind (byteAt_le kind), ?_⟩
  refine bind_eq_ok.2 ⟨(least, shift + after), varint_of_copied h bound (varint_le bound), ?_⟩
  have more : ∀ stops : Nat × Nat → Except Fault Nat, (∀ r, stops r = .ok r.2) →
      (varint part after >>= stops) = .ok next →
      (varint whole (shift + after) >>= stops) = .ok (shift + next) := by
    intro stops ends read
    obtain ⟨⟨most, stop⟩, bound, read⟩ := bind_eq_ok.1 read
    obtain rfl : stop = next := Except.ok.inj ((ends _).symm.trans read)
    exact bind_eq_ok.2 ⟨(most, shift + stop), varint_of_copied h bound (varint_le bound), ends _⟩
  dsimp only at read ⊢
  split at read
  · cases read
    rfl
  · exact more _ (fun _ => rfl) read
  · exact more _ (fun _ => rfl) read
  · simp at read

theorem skipDescription_of_copied {kind : UInt8} {after : Option Nat}
    (read : skipDescription part kind cursor = .ok after) :
    skipDescription whole kind (shift + cursor) = .ok (after.map (shift + ·)) := by
  unfold skipDescription at read ⊢
  split at read
  · obtain ⟨⟨type, stop⟩, index, read⟩ := bind_eq_ok.1 read
    cases read
    exact bind_eq_ok.2 ⟨(type, shift + stop), varint_of_copied h index (varint_le index), rfl⟩
  · obtain ⟨⟨element, first⟩, byte, read⟩ := bind_eq_ok.1 read
    by_cases other : element ≠ functionReference
    · simp [other] at read
    · simp only [if_neg other] at read
      obtain ⟨stop, bounds, read⟩ := bind_eq_ok.1 read
      cases read
      refine bind_eq_ok.2 ⟨(element, shift + first), byteAt_of_copied h byte (byteAt_le byte), ?_⟩
      simp only [if_neg other]
      exact bind_eq_ok.2 ⟨shift + stop, skipBounds_of_copied h bounds, rfl⟩
  · obtain ⟨stop, bounds, read⟩ := bind_eq_ok.1 read
    cases read
    exact bind_eq_ok.2 ⟨shift + stop, skipBounds_of_copied h bounds, rfl⟩
  · cases read
    rfl
  · obtain ⟨⟨type, stop⟩, index, read⟩ := bind_eq_ok.1 read
    cases read
    exact bind_eq_ok.2 ⟨(type, shift + stop), varint_of_copied h index (varint_le index), rfl⟩
  · cases read
    rfl

theorem readImportsFrom_of_copied {count : Nat} {seen found : List String}
    (read : readImportsFrom decoding part count cursor seen = .ok found) :
    readImportsFrom decoding whole count (shift + cursor) seen = .ok found := by
  induction count generalizing cursor seen with
  | zero => exact read
  | succ count ih =>
    rw [readImportsFrom, bind_eq_ok] at read ⊢
    obtain ⟨⟨origin, first⟩, module, read⟩ := read
    obtain ⟨⟨text, second⟩, title, read⟩ := bind_eq_ok.1 read
    obtain ⟨⟨kind, third⟩, byte, read⟩ := bind_eq_ok.1 read
    obtain ⟨after, described, read⟩ := bind_eq_ok.1 read
    refine ⟨(origin, shift + first), name_of_copied h module (name_le module), ?_⟩
    refine bind_eq_ok.2 ⟨(text, shift + second), name_of_copied h title (name_le title), ?_⟩
    refine bind_eq_ok.2 ⟨(kind, shift + third), byteAt_of_copied h byte (byteAt_le byte), ?_⟩
    refine bind_eq_ok.2 ⟨_, skipDescription_of_copied h described, ?_⟩
    cases after with
    | none => exact read
    | some stop => exact ih read

theorem readImports_of_copied {found : List String}
    (read : readImports decoding part cursor = .ok found) :
    readImports decoding whole (shift + cursor) = .ok found := by
  rw [readImports, bind_eq_ok] at read ⊢
  obtain ⟨⟨count, first⟩, field, read⟩ := read
  exact ⟨(count, shift + first), varint_of_copied h field (varint_le field),
    readImportsFrom_of_copied h read⟩

theorem readExportsFrom_of_copied {count : Nat} {seen found : List Nat}
    (read : readExportsFrom decoding part count cursor seen = .ok found) :
    readExportsFrom decoding whole count (shift + cursor) seen = .ok found := by
  induction count generalizing cursor seen with
  | zero => exact read
  | succ count ih =>
    rw [readExportsFrom, bind_eq_ok] at read ⊢
    obtain ⟨⟨text, first⟩, title, read⟩ := read
    obtain ⟨⟨kind, second⟩, byte, read⟩ := bind_eq_ok.1 read
    obtain ⟨⟨index, third⟩, field, read⟩ := bind_eq_ok.1 read
    refine ⟨(text, shift + first), name_of_copied h title (name_le title), ?_⟩
    refine bind_eq_ok.2 ⟨(kind, shift + second), byteAt_of_copied h byte (byteAt_le byte), ?_⟩
    refine bind_eq_ok.2 ⟨(index, shift + third), varint_of_copied h field (varint_le field), ?_⟩
    exact ih read

theorem readExports_of_copied {found : List Nat}
    (read : readExports decoding part cursor = .ok found) :
    readExports decoding whole (shift + cursor) = .ok found := by
  rw [readExports, bind_eq_ok] at read ⊢
  obtain ⟨⟨count, first⟩, field, read⟩ := read
  exact ⟨(count, shift + first), varint_of_copied h field (varint_le field),
    readExportsFrom_of_copied h read⟩

/-- What a section holds is read alike in a copy of its whole file. -/
theorem readContents_of_copied {id : UInt8} {contents : Contents} (le : stop ≤ part.size)
    (read : readContents decoding part id cursor stop = .ok contents) :
    readContents decoding whole id (shift + cursor) (shift + stop) = .ok contents := by
  unfold readContents at read ⊢
  split at read
  · obtain ⟨⟨text, first⟩, title, read⟩ := bind_eq_ok.1 read
    refine bind_eq_ok.2 ⟨(text, shift + first), name_of_copied h title (name_le title), ?_⟩
    by_cases named : text = "name"
    · simp only [if_pos named] at read ⊢
      obtain ⟨names, found, read⟩ := bind_eq_ok.1 read
      cases read
      exact bind_eq_ok.2 ⟨names, readNames_of_copied h le found, rfl⟩
    · simp only [if_neg named] at read ⊢
      exact read
  · obtain ⟨functions, found, read⟩ := bind_eq_ok.1 read
    cases read
    exact bind_eq_ok.2 ⟨functions, readImports_of_copied h found, rfl⟩
  · obtain ⟨functions, found, read⟩ := bind_eq_ok.1 read
    cases read
    exact bind_eq_ok.2 ⟨functions, readExports_of_copied h found, rfl⟩
  · obtain ⟨bodies, found, read⟩ := bind_eq_ok.1 read
    cases read
    exact bind_eq_ok.2
      ⟨bodies, readCode_of_copied h le (fun _ _ field => varint_le field) found, rfl⟩
  · exact read

end Whole

/-! ## Sections -/

/-- A section that lies `shift` bytes further behind. -/
def Section.moved (shift : Nat) (s : Section) : Section :=
  { s with start := shift + s.start, stop := shift + s.stop }

theorem moved_zero (s : Section) : s.moved 0 = s := by
  simp [Section.moved]

theorem readSection_eq_ok_iff {bytes : ByteArray} {s : Section} :
    readSection decoding bytes cursor = .ok s ↔
      ∃ next length first, byteAt bytes cursor = .ok (s.id, next) ∧
        varint bytes next = .ok (length, first) ∧ s.start = cursor ∧ s.stop = first + length ∧
        s.stop ≤ bytes.size ∧ readContents decoding bytes s.id first s.stop = .ok s.contents := by
  unfold readSection
  constructor
  · intro read
    cases number : byteAt bytes cursor with
    | error e => simp [number] at read
    | ok r =>
      obtain ⟨id, next⟩ := r
      cases field : varint bytes next with
      | error e => simp [number, field] at read
      | ok r =>
        obtain ⟨length, first⟩ := r
        by_cases beyond : bytes.size < first + length
        · simp [number, field, beyond] at read
        · cases found : readContents decoding bytes id first (first + length) with
          | error e => simp [number, field, beyond, found] at read
          | ok contents =>
            simp only [number, field, beyond, found, if_false, Except.ok.injEq] at read
            subst read
            exact ⟨next, length, first, rfl, field, rfl, rfl, Nat.le_of_not_lt beyond, found⟩
  · rintro ⟨next, length, first, number, field, start, stop, le, found⟩
    obtain ⟨id, start', stop', contents⟩ := s
    obtain rfl : start' = cursor := start
    obtain rfl : stop' = first + length := stop
    simp only at number le found
    simp [number, field, Nat.not_lt.2 le, found]

/-- **A section is read alike in a copy of its whole file.**  It is the same section, as
far behind as the copy. -/
theorem readSection_of_copied {s : Section} (h : Copied part whole shift part.size)
    (read : readSection decoding part cursor = .ok s) :
    readSection decoding whole (shift + cursor) = .ok (s.moved shift) := by
  obtain ⟨next, length, first, number, field, start, stop, le, found⟩ :=
    readSection_eq_ok_iff.1 read
  have within := byteAt_le number
  have pos := byteAt_next number
  have size := h.le_size (by omega)
  refine readSection_eq_ok_iff.2 ⟨shift + next, length, shift + first,
    byteAt_of_copied h number within, varint_of_copied h field (varint_le field), ?_, ?_, ?_, ?_⟩
  · rw [Section.moved, start]
  · rw [Section.moved, stop, Nat.add_assoc]
  · change shift + s.stop ≤ whole.size
    omega
  · exact readContents_of_copied h le found

end SizeAtlas.Wasm
