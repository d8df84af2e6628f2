import SizeAtlas.Json.Reader
import SizeAtlas.Proofs.Text.Hex

/-!
# Reading back what is written

Texts, lists and the members of an object are read back from their text on one line.  A
reader with as many steps as the text has characters does not run out of them, since
every item is longer than the number of steps that lead to it.

Numbers are left out: what follows a number decides where it ends, and whether it is
read at all depends on doubles.

## Main definitions

* `Reads` — a value that is read back inside a given number of brackets.
* `joined`, `memberText` — the parts of a list or object as they are written.

## Main statements

* `readText_quote` — a text is read back from between its quotation marks.
* `reads_text`, `reads_list` — texts and lists are read back.
* `readRecord?_object` — an object is read back.
-/

namespace SizeAtlas.Json

/-! ## Texts -/

/-- The four digits of the code of a byte are read back. -/
theorem hex4?_hex {n : Nat} (byte : n < 256) (rest : List Char) :
    hex4? ((Text.hex 4 n).toList ++ rest) = some (n, rest) := by
  have written : (Text.hex 4 n).toList =
      ['0', '0', Nat.digitChar (n / 16), Nat.digitChar (n % 16)] :=
    Text.toList_hex (by omega) byte
  have zero : Text.hexValue? 48 = some 0 := rfl
  have high : Text.hexValue? (Nat.digitChar (n / 16)).toNat = some (n / 16) :=
    Text.hexValue?_digitChar (by omega)
  have low : Text.hexValue? (Nat.digitChar (n % 16)).toNat = some (n % 16) :=
    Text.hexValue?_digitChar (by omega)
  have value : ((0 * 16 + 0) * 16 + n / 16) * 16 + n % 16 = n := by omega
  rw [written]
  simp only [List.cons_append, List.nil_append, hex4?, Char.reduceToNat, zero, high, low, value]

/-- A character is written as it is, or as an escape that is read as the character. -/
theorem quoteChar_cases (c : Char) :
    (quoteChar c = [c] ∧ c ≠ '\"' ∧ c ≠ '\\' ∧ ¬c.toNat < 0x20) ∨
      ∃ escape, quoteChar c = '\\' :: escape ∧
        ∀ care rest, readEscape care (escape ++ rest) = some (c, rest) := by
  have back : Char.ofNat c.toNat = c := Char.ofNat_toNat c
  unfold quoteChar
  split
  case h_8 mark backslash _ _ _ _ _ =>
    split_ifs with control
    · refine Or.inr ⟨_, rfl, fun care rest => ?_⟩
      rw [List.cons_append, readEscape, hex4?_hex (by omega)]
      simp only [pairedUnit, if_pos (Or.inl (show c.toNat < 0xd800 by omega)), back]
    · exact Or.inl ⟨rfl, fun e => mark (e ▸ rfl), fun e => backslash (e ▸ rfl), control⟩
  all_goals
    rename_i code
    exact Or.inr ⟨_, rfl, fun _ _ => by rw [← back, code]; rfl⟩

/-- A character is read from its written form. -/
theorem readText_quoteChar (c : Char) (care : Care) (fuel : Nat) (seen rest : List Char) :
    readText care (fuel + 1) seen (quoteChar c ++ rest) = readText care fuel (c :: seen) rest := by
  rcases quoteChar_cases c with ⟨written, mark, backslash, plain⟩ | ⟨escape, written, read⟩
  · rw [written, List.singleton_append, readText, if_neg mark, if_neg backslash, if_neg plain]
  · rw [written, List.cons_append, readText, if_neg (by decide), if_pos rfl, read]

/-- A text is read up to its closing quotation mark. -/
theorem readText_flatMap {cs : List Char} {care : Care} {fuel : Nat} {seen rest : List Char}
    (enough : cs.length < fuel) :
    readText care fuel seen (cs.flatMap quoteChar ++ '\"' :: rest) =
      some (String.ofList (seen.reverse ++ cs), rest) := by
  induction cs generalizing fuel seen with
  | nil =>
    obtain ⟨fuel, rfl⟩ : ∃ f, fuel = f + 1 := ⟨fuel - 1, by omega⟩
    rw [List.flatMap_nil, List.nil_append, readText, if_pos rfl, List.append_nil]
  | cons c cs ih =>
    obtain ⟨fuel, rfl⟩ : ∃ f, fuel = f + 1 := ⟨fuel - 1, by omega⟩
    rw [List.length_cons] at enough
    rw [List.flatMap_cons, List.append_assoc, readText_quoteChar, ih (by omega)]
    simp

theorem toList_quote (s : String) :
    (quote s).toList = '\"' :: (s.toList.flatMap quoteChar ++ ['\"']) := by
  rw [quote, String.toList_ofList, List.cons_append]

theorem length_le_flatMap_quoteChar (cs : List Char) :
    cs.length ≤ (cs.flatMap quoteChar).length := by
  induction cs with
  | nil => exact Nat.zero_le _
  | cons c cs ih =>
    have pos : 1 ≤ (quoteChar c).length := by
      rcases quoteChar_cases c with ⟨written, _⟩ | ⟨escape, written, _⟩ <;> simp [written]
    rw [List.flatMap_cons, List.length_append, List.length_cons]
    omega

/-- A text is read back from between its quotation marks. -/
theorem readText_quote {s : String} {care : Care} {fuel : Nat} {rest : List Char}
    (enough : (quote s).toList.length ≤ fuel + 1) :
    readText care fuel [] (s.toList.flatMap quoteChar ++ ['\"'] ++ rest) = some (s, rest) := by
  have := length_le_flatMap_quoteChar s.toList
  simp only [toList_quote, List.length_cons, List.length_append, List.length_nil] at enough
  rw [List.append_assoc, List.singleton_append, readText_flatMap (by omega)]
  simp

/-! ## Values -/

/-- The text of a value on one line. -/
def valueText (v : Value) : List Char := v.compact.toList

/-- The value `v` is read back from its text on one line wherever more than `depth` lists
and objects may still be entered. -/
structure Reads (depth : Nat) (v : Value) : Prop where
  /-- The text starts like a value. -/
  head : ∃ c cs, valueText v = c :: cs ∧ isBlank c = false ∧ c ≠ ']'
  /-- The text is read as the value, whatever follows it. -/
  read : ∀ {care fuel d} rest, (valueText v).length ≤ fuel → depth < d →
    readValue care fuel d (valueText v ++ rest) = some (v, rest)

theorem skipBlanks_cons {c : Char} (h : isBlank c = false) (cs : List Char) :
    skipBlanks (c :: cs) = c :: cs := by
  rw [skipBlanks, List.dropWhile_cons_of_neg (by simp [h])]

theorem reads_text (depth : Nat) (s : String) : Reads depth (.text s) where
  head := ⟨_, _, toList_quote s, by decide, by decide⟩
  read {care fuel d} rest enough _ := by
    rw [valueText, Value.compact] at enough ⊢
    obtain ⟨fuel, rfl⟩ : ∃ f, fuel = f + 1 :=
      Nat.exists_eq_add_one.2 (Nat.lt_of_lt_of_le (by simp [toList_quote]) enough)
    rw [toList_quote, List.cons_append, readValue, skipBlanks_cons (by decide)]
    simp only [readText_quote enough]

/-! ## Lists -/

/-- Parts of a value with a comma between two of them. -/
def joined {α : Type} (written : α → List Char) (parts : List α) : List Char :=
  [','].intercalate (parts.map written)

theorem joined_singleton {α : Type} (written : α → List Char) (a : α) :
    joined written [a] = written a := by
  simp [joined]

theorem joined_cons_cons {α : Type} (written : α → List Char) (a b : α) (parts : List α) :
    joined written (a :: b :: parts) = written a ++ ',' :: joined written (b :: parts) := by
  simp [joined]

/-- The first part gives the first character. -/
theorem exists_joined_eq_cons {α : Type} {written : α → List Char} {a : α} {c : Char}
    {cs : List Char} (head : written a = c :: cs) (parts : List α) :
    ∃ cs', joined written (a :: parts) = c :: cs' := by
  cases parts with
  | nil => exact ⟨cs, by rw [joined_singleton, head]⟩
  | cons b parts => exact ⟨_, by rw [joined_cons_cons, head, List.cons_append]⟩

theorem compactItems_eq (items : List Value) : compactItems items = items.map Value.compact := by
  induction items with
  | nil => rfl
  | cons v items ih => rw [compactItems, ih, List.map_cons]

theorem valueText_list (items : List Value) :
    valueText (.list items) = '[' :: (joined valueText items ++ [']']) := by
  have texts : items.map valueText = (items.map Value.compact).map String.toList := by
    rw [List.map_map]
    rfl
  rw [joined, texts, valueText, Value.compact, compactItems_eq]
  simp [String.toList_intercalate]

/-- The items of a list are read up to its closing bracket. -/
theorem readItems_joined {depth : Nat} {v : Value} {items : List Value}
    (readable : ∀ w ∈ v :: items, Reads depth w) {care : Care} {fuel d : Nat} {seen : List Value}
    {rest : List Char} (deep : depth < d)
    (enough : (joined valueText (v :: items)).length < fuel) :
    readItems care fuel d seen (joined valueText (v :: items) ++ ']' :: rest) =
      some (.list (seen.reverse ++ v :: items), rest) := by
  obtain ⟨fuel, rfl⟩ : ∃ f, fuel = f + 1 := ⟨fuel - 1, by omega⟩
  induction items generalizing v fuel seen with
  | nil =>
    rw [joined_singleton] at enough ⊢
    rw [readItems, (readable v List.mem_cons_self).read _ (by omega) deep]
    simp only [skipBlanks_cons (show isBlank ']' = false by decide), List.reverse_cons]
  | cons w items ih =>
    rw [joined_cons_cons, List.length_append, List.length_cons] at enough
    obtain ⟨fuel, rfl⟩ : ∃ f, fuel = f + 1 := ⟨fuel - 1, by omega⟩
    rw [joined_cons_cons, List.append_assoc, List.cons_append, readItems,
      (readable v List.mem_cons_self).read _ (by omega) deep]
    simp only [skipBlanks_cons (show isBlank ',' = false by decide)]
    rw [ih (fun x hx => readable x (List.mem_cons_of_mem _ hx)) fuel (by omega)]
    simp

/-- Inside a pair of brackets one level less remains, or as many as before. -/
theorem enter?_of_lt {care : Care} {depth d : Nat} (h : depth + 1 < d) :
    ∃ d', enter? care d = some d' ∧ depth < d' := by
  cases care with
  | skim => exact ⟨d, rfl, by omega⟩
  | full => exact ⟨d - 1, if_neg (by omega), by omega⟩

/-- A list of values that are read back is read back itself. -/
theorem reads_list {depth : Nat} {items : List Value} (readable : ∀ v ∈ items, Reads depth v) :
    Reads (depth + 1) (.list items) where
  head := ⟨_, _, valueText_list items, by decide, by decide⟩
  read {care fuel d} rest enough deep := by
    obtain ⟨d', entered, deep'⟩ : ∃ d', enter? care d = some d' ∧ depth < d' := enter?_of_lt deep
    rw [valueText_list] at enough ⊢
    obtain ⟨fuel, rfl⟩ : ∃ f, fuel = f + 1 :=
      Nat.exists_eq_add_one.2 (Nat.lt_of_lt_of_le (Nat.succ_pos _) enough)
    rw [List.cons_append, readValue, skipBlanks_cons (by decide)]
    simp only [entered]
    cases items with
    | nil => rfl
    | cons v items =>
      simp only [List.length_cons, List.length_append, List.length_nil] at enough
      have read : readItems care fuel d' [] (joined valueText (v :: items) ++ ']' :: rest) =
          some (.list (v :: items), rest) :=
        readItems_joined readable deep' (by omega)
      -- Only an empty list is closed at once.
      obtain ⟨c, _, head, blank, bracket⟩ := (readable v List.mem_cons_self).head
      obtain ⟨cs, first⟩ := exists_joined_eq_cons head items
      rw [List.append_assoc, List.singleton_append]
      rw [first, List.cons_append] at read ⊢
      simp only [skipBlanks_cons blank]
      split
      · contradiction
      · next rest' closed => exact absurd (List.cons.inj closed).1 bracket
      · next same _ => exact Option.some.inj same ▸ read

/-! ## Members -/

/-- A member with its name. -/
def memberText (member : String × Value) : List Char :=
  (quote member.1).toList ++ ':' :: valueText member.2

theorem compactMembers_eq (members : List (String × Value)) :
    (compactMembers members).map String.toList = members.map memberText := by
  induction members with
  | nil => rfl
  | cons member members ih =>
    obtain ⟨name, v⟩ := member
    simp [compactMembers, ih, memberText, valueText]

theorem valueText_object (members : List (String × Value)) :
    valueText (.object members) = '\x7b' :: (joined memberText members ++ ['\x7d']) := by
  simp [valueText, Value.compact, String.toList_intercalate, compactMembers_eq, joined]

/-- A member is read, and a comma or the closing bracket decides what comes next. -/
theorem readMembers_memberText {depth : Nat} {member : String × Value}
    (readable : Reads depth member.2) {care : Care} {careFor : String → Care} {fuel d : Nat}
    {seen : List (String × Value)} (deep : depth < d) (enough : (memberText member).length ≤ fuel) :
    (∀ rest, readMembers care careFor (fuel + 1) d seen (memberText member ++ ',' :: rest) =
      readMembers care careFor fuel d (member :: seen) rest) ∧
    ∀ rest, readMembers care careFor (fuel + 1) d seen (memberText member ++ '\x7d' :: rest) =
      some (.object (member :: seen).reverse, rest) := by
  obtain ⟨name, v⟩ := member
  simp only [memberText, List.length_append, List.length_cons] at enough
  have text : ∀ rest, memberText (name, v) ++ rest =
      '\"' :: (name.toList.flatMap quoteChar ++ ['\"'] ++ ':' :: (valueText v ++ rest)) := by
    intro rest
    rw [memberText, toList_quote, List.append_assoc, List.cons_append, List.cons_append]
  have key : ∀ rest, readText care fuel [] (name.toList.flatMap quoteChar ++ ['\"'] ++ rest) =
      some (name, rest) := fun rest => readText_quote (by omega)
  have value : ∀ rest, readValue (careFor name) fuel d (valueText v ++ rest) = some (v, rest) :=
    fun rest => readable.read rest (show (valueText v).length ≤ fuel by omega) deep
  have colon := skipBlanks_cons (show isBlank ':' = false by decide)
  constructor
  · intro rest
    rw [text, readMembers, skipBlanks_cons (by decide)]
    simp only [key, colon, value, skipBlanks_cons (show isBlank ',' = false by decide)]
  · intro rest
    rw [text, readMembers, skipBlanks_cons (by decide)]
    simp only [key, colon, value, skipBlanks_cons (show isBlank '\x7d' = false by decide)]

/-- The members of an object are read up to its closing bracket. -/
theorem readMembers_joined {depth : Nat} {member : String × Value}
    {members : List (String × Value)} (readable : ∀ m ∈ member :: members, Reads depth m.2)
    {care : Care} {careFor : String → Care} {fuel d : Nat} {seen : List (String × Value)}
    {rest : List Char} (deep : depth < d)
    (enough : (joined memberText (member :: members)).length < fuel) :
    readMembers care careFor fuel d seen (joined memberText (member :: members) ++ '\x7d' :: rest) =
      some (.object (seen.reverse ++ member :: members), rest) := by
  obtain ⟨fuel, rfl⟩ : ∃ f, fuel = f + 1 := ⟨fuel - 1, by omega⟩
  induction members generalizing member fuel seen with
  | nil =>
    rw [joined_singleton] at enough ⊢
    obtain ⟨_, close⟩ :=
      readMembers_memberText (readable member List.mem_cons_self) deep (Nat.le_of_lt_succ enough)
    rw [close, List.reverse_cons]
  | cons m members ih =>
    rw [joined_cons_cons, List.length_append, List.length_cons] at enough
    obtain ⟨fuel, rfl⟩ : ∃ f, fuel = f + 1 := ⟨fuel - 1, by omega⟩
    obtain ⟨next, _⟩ := readMembers_memberText (readable member List.mem_cons_self) deep
      (show (memberText member).length ≤ fuel + 1 by omega)
    rw [joined_cons_cons, List.append_assoc, List.cons_append, next,
      ih (fun x hx => readable x (List.mem_cons_of_mem _ hx)) fuel (by omega), List.reverse_cons,
      List.append_assoc, List.singleton_append]

/-- **An object whose members are read back is read back**, whichever of its members are
looked at. -/
theorem readRecord?_object {depth : Nat} {members : List (String × Value)}
    (readable : ∀ m ∈ members, Reads depth m.2) (known : List String)
    (deep : depth < depthLimit) :
    readRecord? known (Value.object members).compact = some (.object members) := by
  have text : (Value.object members).compact.toList =
      '\x7b' :: (joined memberText members ++ ['\x7d']) := valueText_object members
  rw [readRecord?, text, skipBlanks_cons (by decide)]
  cases members with
  | nil => rfl
  | cons member members =>
    obtain ⟨_, head⟩ : ∃ cs, memberText member = '\"' :: cs :=
      ⟨_, by rw [memberText, toList_quote, List.cons_append]⟩
    obtain ⟨cs, first⟩ := exists_joined_eq_cons head members
    have read : ∀ care careFor, readMembers care careFor
        (fuelFor ('\x7b' :: (joined memberText (member :: members) ++ ['\x7d']))) depthLimit []
        (joined memberText (member :: members) ++ ['\x7d']) =
          some (.object (member :: members), []) := fun _ _ =>
      readMembers_joined readable deep (by simp [fuelFor]; omega)
    rw [first, List.cons_append] at read ⊢
    -- The first character is neither a blank nor the closing bracket.
    change whole? (readMembers _ _ _ _ _ ('\"' :: (cs ++ ['\x7d']))) = _
    rw [read]
    rfl

end SizeAtlas.Json
