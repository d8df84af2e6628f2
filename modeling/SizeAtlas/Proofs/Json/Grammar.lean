import Mathlib.Data.Nat.Digits.Defs
import SizeAtlas.Json.Value
import SizeAtlas.Proofs.Json.RoundTrip

/-!
# The grammar of JSON

The texts of a JSON value, as a relation that does not know how values are written
here: blanks may stand around every part, a character of a text may be an escape, and
a number may have a point and an exponent.  What is written on one line and what is
written over several lines are both texts of the value in this sense.

## Main definitions

* `Spells` — a text is one of a value.
* `Separated` — texts of several parts with a comma between two of them.
* `Written` — a value whose two written forms are texts of it.

## Main statements

* `written_text`, `written_ofNat`, `written_list`, `written_object` — values made of
  texts and natural numbers are written as the grammar has it.
-/

namespace SizeAtlas.Json

/-! ## The relation -/

/-- Blanks and nothing else. -/
def Blanks (cs : List Char) : Prop := ∀ c ∈ cs, isBlank c = true

/-- Digits and at least one of them. -/
def Digits (cs : List Char) : Prop := cs ≠ [] ∧ ∀ c ∈ cs, c.isDigit = true

/-- Digits without a superfluous zero in front. -/
def WholeDigits (cs : List Char) : Prop := Digits cs ∧ (cs.head? = some '0' → cs = ['0'])

/-- The texts of a power of ten behind a number. -/
inductive SpellsExponent : Int → List Char → Prop
  | up {mark : Char} {sign digits : List Char} (mark_eq : mark = 'e' ∨ mark = 'E')
    (sign_eq : sign = [] ∨ sign = ['+']) (h : Digits digits) :
    SpellsExponent (Nat.ofDigitChars 10 digits 0) (mark :: sign ++ digits)
  | down {mark : Char} {digits : List Char} (mark_eq : mark = 'e' ∨ mark = 'E')
    (h : Digits digits) :
    SpellsExponent (-Nat.ofDigitChars 10 digits 0) (mark :: '-' :: digits)

/-- The texts of a number. -/
inductive SpellsNumber : Number → List Char → Prop
  | integer {whole : List Char} (h : WholeDigits whole) :
    SpellsNumber ⟨false, Nat.ofDigitChars 10 whole 0, 0, true⟩ whole
  | point {whole fraction : List Char} (h : WholeDigits whole) (hf : Digits fraction) :
    SpellsNumber ⟨false, Nat.ofDigitChars 10 (whole ++ fraction) 0, -fraction.length, false⟩
      (whole ++ '.' :: fraction)
  | exponent {n : Number} {cs power : List Char} {e : Int} (h : SpellsNumber n cs)
    (once : 'e' ∉ cs ∧ 'E' ∉ cs) (he : SpellsExponent e power) :
    SpellsNumber { n with exponent := n.exponent + e, integral := false } (cs ++ power)
  | minus {n : Number} {cs : List Char} (h : SpellsNumber n cs) (once : '-' ∉ cs.head?) :
    SpellsNumber { n with negative := true } ('-' :: cs)

/-- The texts of a character inside a text: itself, unless it ends the text or is a
control character, or an escape. -/
inductive SpellsChar : Char → List Char → Prop
  | plain {c : Char} (mark : c ≠ '\"') (backslash : c ≠ '\\') (printed : ¬c.toNat < 0x20) :
    SpellsChar c [c]
  | escape {c : Char} {cs : List Char} (h : readEscape .full cs = some (c, [])) :
    SpellsChar c ('\\' :: cs)

/-- The texts of several characters inside a text. -/
inductive SpellsChars : List Char → List Char → Prop
  | nil : SpellsChars [] []
  | cons {c : Char} {cs this rest : List Char} (h : SpellsChar c this)
    (more : SpellsChars cs rest) : SpellsChars (c :: cs) (this ++ rest)

/-- The texts of a text. -/
inductive SpellsText : String → List Char → Prop
  | mk {s : String} {cs : List Char} (h : SpellsChars s.toList cs) :
    SpellsText s ('\"' :: cs ++ ['\"'])

/-- The texts of several parts, with a comma between two of them and blanks around
each. -/
inductive Separated {α : Type} (spells : α → List Char → Prop) : List α → List Char → Prop
  | last {x : α} {before this after : List Char} (hb : Blanks before) (h : spells x this)
    (ha : Blanks after) : Separated spells [x] (before ++ this ++ after)
  | next {x : α} {xs : List α} {before this after rest : List Char} (hb : Blanks before)
    (h : spells x this) (ha : Blanks after) (more : Separated spells xs rest) :
    Separated spells (x :: xs) (before ++ this ++ after ++ ',' :: rest)

mutual

/-- The texts of a value. -/
inductive Spells : Value → List Char → Prop
  | null : Spells .null "null".toList
  | true : Spells (.bool true) "true".toList
  | false : Spells (.bool false) "false".toList
  | number {n : Number} {cs : List Char} (h : SpellsNumber n cs) : Spells (.number n) cs
  | text {s : String} {cs : List Char} (h : SpellsText s cs) : Spells (.text s) cs
  | emptyList {blanks : List Char} (h : Blanks blanks) :
    Spells (.list []) ('[' :: blanks ++ [']'])
  | list {items : List Value} {cs : List Char} (h : Separated Spells items cs) :
    Spells (.list items) ('[' :: cs ++ [']'])
  | emptyObject {blanks : List Char} (h : Blanks blanks) :
    Spells (.object []) ('\x7b' :: blanks ++ ['\x7d'])
  | object {members : List (String × Value)} {cs : List Char}
    (h : Separated SpellsMember members cs) : Spells (.object members) ('\x7b' :: cs ++ ['\x7d'])

/-- The texts of a member of an object. -/
inductive SpellsMember : String × Value → List Char → Prop
  | mk {name : String} {v : Value} {key before after cs : List Char} (hk : SpellsText name key)
    (hb : Blanks before) (ha : Blanks after) (hv : Spells v cs) :
    SpellsMember (name, v) (key ++ before ++ ':' :: after ++ cs)

end

/-! ## Texts and numbers -/

theorem spellsChar_quoteChar (c : Char) : SpellsChar c (quoteChar c) := by
  rcases quoteChar_cases c with ⟨written, mark, backslash, printed⟩ | ⟨escape, written, read⟩
  · rw [written]
    exact .plain mark backslash printed
  · rw [written]
    exact .escape (by simpa using read .full [])

theorem spellsText_quote (s : String) : SpellsText s (quote s).toList := by
  have chars : ∀ cs : List Char, SpellsChars cs (cs.flatMap quoteChar) := by
    intro cs
    induction cs with
    | nil => exact .nil
    | cons c cs ih => exact .cons (spellsChar_quoteChar c) ih
  rw [toList_quote, ← List.cons_append]
  exact .mk (chars s.toList)

theorem wholeDigits_toDigits (n : Nat) : WholeDigits (Nat.toDigits 10 n) := by
  refine ⟨⟨Nat.toDigits_ne_nil, fun c => Nat.isDigit_of_mem_toDigits (by decide) (by decide)⟩, ?_⟩
  induction n using Nat.strongRecOn with
  | ind n ih =>
    intro zero
    by_cases small : n < 10
    · rw [Nat.toDigits_of_lt_base small] at zero ⊢
      simpa using zero
    · -- the first digit is that of the number without its last digit, which is not zero
      rw [Nat.toDigits_of_base_le (by decide) (by omega),
        List.head?_append_of_ne_nil _ Nat.toDigits_ne_nil] at zero
      have value := congrArg (Nat.ofDigitChars 10 · 0) (ih (n / 10) (by omega) zero)
      simp only [Nat.ofDigitChars_toDigits (show 1 < 10 by decide) (Nat.le_refl 10)] at value
      have : n / 10 = 0 := value
      omega

theorem spellsNumber_toString (n : Nat) : SpellsNumber ⟨false, n, 0, true⟩ (toString n).toList := by
  have spelled := SpellsNumber.integer (wholeDigits_toDigits n)
  rwa [Nat.ofDigitChars_toDigits (by decide) (by decide), ← Nat.toList_repr,
    ← Nat.toString_eq_repr] at spelled

/-! ## Parts -/

theorem blanks_nil : Blanks [] := by simp [Blanks]

theorem blanks_lineStart (level : Nat) : Blanks (lineStart level).toList := by
  intro c hc
  simp only [lineStart, String.toList_append, String.toList_ofList, List.mem_append] at hc
  obtain hc | hc := hc
  · obtain rfl : c = '\n' := by simpa using hc
    rfl
  · obtain ⟨-, rfl⟩ := List.mem_replicate.1 hc
    rfl

/-- Parts that are written with the same blanks before each are texts of parts. -/
theorem separated_joined {α : Type} {spells : α → List Char → Prop} {written : α → List Char}
    {before after : List Char} (hb : Blanks before) (ha : Blanks after) {x : α} {xs : List α}
    (h : ∀ y ∈ x :: xs, spells y (written y)) :
    Separated spells (x :: xs) (joined (fun y => before ++ written y) (x :: xs) ++ after) := by
  induction xs generalizing x with
  | nil =>
    rw [joined_singleton]
    exact .last hb (h x List.mem_cons_self) ha
  | cons y ys ih =>
    have more := ih fun z hz => h z (List.mem_cons_of_mem _ hz)
    have all := Separated.next hb (h x List.mem_cons_self) blanks_nil more
    rw [joined_cons_cons]
    simpa using all

/-! ## Values -/

/-- Both written forms of a value are texts of it. -/
structure Written (v : Value) : Prop where
  /-- The form on one line. -/
  compact : Spells v (valueText v)
  /-- The form over several lines, at every level. -/
  pretty : ∀ level, Spells v (v.prettyAt level).toList

theorem written_text (s : String) : Written (.text s) where
  compact := .text (spellsText_quote s)
  pretty _ := .text (spellsText_quote s)

theorem written_ofNat (n : Nat) : Written (.ofNat n) := by
  have rendered : (Number.render ⟨false, n, 0, true⟩).toList = (toString n).toList := by
    simp [Number.render]
  have spelled : Spells (.ofNat n) (Number.render ⟨false, n, 0, true⟩).toList :=
    rendered ▸ .number (spellsNumber_toString n)
  exact ⟨spelled, fun _ => spelled⟩

/-! ## Lists and objects -/

theorem prettyItems_eq (level : Nat) (items : List Value) :
    prettyItems level items = items.map (Value.prettyAt level) := by
  induction items with
  | nil => rfl
  | cons v items ih => rw [prettyItems, ih, List.map_cons]

theorem prettyMembers_eq (level : Nat) (members : List (String × Value)) :
    prettyMembers level members =
      members.map fun m => quote m.1 ++ ": " ++ m.2.prettyAt level := by
  induction members with
  | nil => rfl
  | cons m members ih => rw [prettyMembers, ih, List.map_cons]

/-- Brackets around the texts of some parts, each on a line of its own. -/
theorem toList_bracketed_map {α : Type} (opening closing : String) (level : Nat)
    (written : α → String) (x : α) (xs : List α) :
    (bracketed opening closing level ((x :: xs).map written)).toList =
      opening.toList ++ (joined (fun y => (lineStart (level + 1)).toList ++ (written y).toList)
        (x :: xs) ++ (lineStart level).toList) ++ closing.toList := by
  have texts : (x :: xs).map (fun y => (lineStart (level + 1)).toList ++ (written y).toList) =
      (((x :: xs).map written).map (lineStart (level + 1) ++ ·)).map String.toList := by
    simp [List.map_map, Function.comp_def]
  have comma : ",".toList = [','] := rfl
  rw [joined, texts, bracketed, if_neg (by simp)]
  simp only [String.toList_append, String.toList_intercalate, comma, List.append_assoc]

theorem written_list {items : List Value} (h : ∀ v ∈ items, Written v) :
    Written (.list items) := by
  cases items with
  | nil =>
    have empty : Spells (.list []) "[]".toList := .emptyList blanks_nil
    exact ⟨empty, fun _ => empty⟩
  | cons v items =>
    refine ⟨?_, fun level => ?_⟩
    · have parts := separated_joined blanks_nil blanks_nil fun w hw => (h w hw).compact
      rw [valueText_list, ← List.cons_append]
      exact .list (by simpa using parts)
    · have parts := separated_joined (blanks_lineStart (level + 1)) (blanks_lineStart level)
        fun w hw => (h w hw).pretty (level + 1)
      rw [Value.prettyAt, prettyItems_eq, toList_bracketed_map]
      exact .list parts

/-- The text of a member with some blanks before its value. -/
theorem spellsMember_quote (name : String) {v : Value} {blanks cs : List Char} (hb : Blanks blanks)
    (hv : Spells v cs) : SpellsMember (name, v) ((quote name).toList ++ ':' :: blanks ++ cs) := by
  simpa using SpellsMember.mk (spellsText_quote name) blanks_nil hb hv

theorem written_object {members : List (String × Value)} (h : ∀ m ∈ members, Written m.2) :
    Written (.object members) := by
  cases members with
  | nil =>
    have empty : Spells (.object []) "\x7b\x7d".toList := .emptyObject blanks_nil
    exact ⟨empty, fun _ => empty⟩
  | cons m members =>
    refine ⟨?_, fun level => ?_⟩
    · have texts : ∀ n ∈ m :: members, SpellsMember n (memberText n) := fun n hn => by
        simpa [memberText] using spellsMember_quote n.1 blanks_nil (h n hn).compact
      have parts := separated_joined blanks_nil blanks_nil texts
      rw [valueText_object, ← List.cons_append]
      exact .object (by simpa using parts)
    · have space : Blanks [' '] := by simp [Blanks, isBlank]
      have texts : ∀ n ∈ m :: members,
          SpellsMember n (quote n.1 ++ ": " ++ n.2.prettyAt (level + 1)).toList := fun n hn => by
        simpa using spellsMember_quote n.1 space ((h n hn).pretty (level + 1))
      have parts := separated_joined (blanks_lineStart (level + 1)) (blanks_lineStart level) texts
      rw [Value.prettyAt, prettyMembers_eq, toList_bracketed_map]
      exact .object parts

end SizeAtlas.Json
