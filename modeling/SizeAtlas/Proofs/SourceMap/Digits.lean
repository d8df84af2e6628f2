import SizeAtlas.Proofs.Fallible
import SizeAtlas.Proofs.SourceMap.Vlq

/-!
# Which texts spell numbers in base 64

A text is refused at its first character that is no digit or that would be the thirteenth
digit of a number, and every other text is read.  Behind a number that is complete the
reader starts anew, so that texts of complete numbers can be put together.

## Main definitions

* `continues` — whether a digit says that another follows.
* `pending` — how many digits of an incomplete number a text ends with.
* `Refused`, `Accepted` — a character that is refused, and a text without one.

## Main statements

* `decodeFrom_append_of_accepted` — what the reader does behind a text without a fault.
* `accepted_iff` — which texts are without a fault.
* `decode_texts` — what is read, what is refused and why.
-/

namespace SizeAtlas.SourceMap.Vlq

variable {c : Char} {cs : List Char} {count bits : Nat} {fault : Fault}

/-! ## Digits -/

/-- Whether `c` is a digit that says that another one follows. -/
def continues (c : Char) : Bool := (digit c).toOption.any fun value => value / 32 % 2 = 1

theorem exists_digit (mem : c ∈ alphabet) : ∃ value, digit c = .ok value := by
  have found : (alphabet.findIdx? (· == c)).isSome := by
    simpa [List.findIdx?_isSome] using mem
  obtain ⟨value, here⟩ := Option.isSome_iff_exists.1 found
  exact ⟨value, by rw [digit, here]⟩

theorem digit_of_notMem (notMem : c ∉ alphabet) : digit c = .error (.invalidVlq c) := by
  have none : alphabet.findIdx? (· == c) = none := by
    rw [List.findIdx?_eq_none_iff]
    intro d hd
    simpa using fun same : d = c => notMem (same ▸ hd)
  rw [digit, none]

theorem decodeFrom_cons_of_refused (h : c ∉ alphabet ∨ maxDigits ≤ count) :
    decodeFrom count bits (c :: cs) = .error (.invalidVlq c) := by
  rw [decodeFrom]
  by_cases mem : c ∈ alphabet
  · obtain ⟨value, read⟩ := exists_digit mem
    simp only [read, bind, Except.bind, if_pos (h.resolve_left (not_not.2 mem))]
  · rw [digit_of_notMem mem]
    rfl

theorem decodeFrom_cons_of_continues (bits : Nat) (mem : c ∈ alphabet)
    (room : count < maxDigits) (more : continues c = true) :
    ∃ bits', ∀ cs, decodeFrom count bits (c :: cs) = decodeFrom (count + 1) bits' cs := by
  obtain ⟨value, read⟩ := exists_digit mem
  have marked : value / 32 % 2 = 1 := by simpa [continues, read, Except.toOption] using more
  refine ⟨bits + (value % 32) <<< (5 * count), fun cs => ?_⟩
  rw [decodeFrom, read]
  simp only [bind, Except.bind, if_neg (Nat.not_le.2 room), if_pos marked]

theorem decodeFrom_cons_of_not_continues (bits : Nat) (mem : c ∈ alphabet)
    (room : count < maxDigits) (last : continues c = false) :
    ∃ i, ∀ cs, decodeFrom count bits (c :: cs) = (decodeFrom 0 0 cs).map (i :: ·) := by
  obtain ⟨value, read⟩ := exists_digit mem
  have unmarked : ¬value / 32 % 2 = 1 := by simpa [continues, read, Except.toOption] using last
  refine ⟨signed (bits + (value % 32) <<< (5 * count)), fun cs => ?_⟩
  rw [decodeFrom, read]
  simp only [bind, Except.bind, if_neg (Nat.not_le.2 room), if_neg unmarked]
  cases decodeFrom 0 0 cs <;> rfl

/-! ## Texts without a fault -/

/-- How many digits the number has so far that is incomplete at the end of `cs`. -/
def pending (cs : List Char) : Nat := (cs.rtakeWhile continues).length

/-- Behind `before` the reader refuses `c`: it is no digit, or the number that is incomplete
there has as many digits as a number may have. -/
def Refused (before : List Char) (c : Char) : Prop := c ∉ alphabet ∨ pending before = maxDigits

/-- No character is refused. -/
def Accepted (cs : List Char) : Prop := ∀ before c, before ++ [c] <+: cs → ¬Refused before c

@[simp] theorem pending_nil : pending [] = 0 := rfl

theorem pending_concat_of_continues (more : continues c = true) :
    pending (cs ++ [c]) = pending cs + 1 := by
  rw [pending, List.rtakeWhile_concat_pos _ _ _ more, List.length_append]
  rfl

theorem pending_concat_of_not_continues (last : continues c = false) : pending (cs ++ [c]) = 0 := by
  rw [pending, List.rtakeWhile_concat_neg _ _ _ (by simp [last]), List.length_nil]

/-- Behind a digit that is the last of its number, and at the start, nothing is incomplete. -/
theorem pending_eq_zero (last : ∀ c ∈ cs.getLast?, continues c = false) : pending cs = 0 := by
  rw [pending, List.length_eq_zero_iff, List.rtakeWhile_eq_nil_iff]
  intro ne
  simp [last _ (List.getLast_mem_getLast? ne)]

theorem length_le_pending (front : List Char) (together : ∀ d ∈ cs, continues d = true) :
    cs.length ≤ pending (front ++ cs) := by
  induction cs using List.reverseRecOn with
  | nil => exact Nat.zero_le _
  | append_singleton cs c ih =>
    have before := ih fun d hd => together d (by simp [hd])
    rw [← List.append_assoc, pending_concat_of_continues (together c (by simp)),
      List.length_append, List.length_singleton]
    omega

theorem accepted_nil : Accepted [] := by
  intro before c le
  simp at le

theorem Accepted.of_prefix {front : List Char} (h : Accepted cs) (le : front <+: cs) :
    Accepted front :=
  fun before c inside => h before c (inside.trans le)

theorem accepted_concat_iff : Accepted (cs ++ [c]) ↔ Accepted cs ∧ ¬Refused cs c := by
  constructor
  · intro h
    exact ⟨h.of_prefix (List.prefix_append ..), h cs c (List.prefix_refl _)⟩
  · rintro ⟨h, last⟩ before d le
    rcases List.prefix_concat_iff.1 le with whole | le
    · obtain ⟨rfl, single⟩ := List.append_inj' whole rfl
      rwa [List.singleton_inj.1 single]
    · exact h before d le

theorem pending_le_of_accepted (h : Accepted cs) : pending cs ≤ maxDigits := by
  induction cs using List.reverseRecOn with
  | nil => simp
  | append_singleton cs c ih =>
    obtain ⟨accepted, kept⟩ := accepted_concat_iff.1 h
    have le := ih accepted
    have ne : pending cs ≠ maxDigits := fun full => kept (Or.inr full)
    cases more : continues c with
    | true =>
      rw [pending_concat_of_continues more]
      omega
    | false => simp [pending_concat_of_not_continues more]

theorem mem_alphabet_of_not_refused (kept : ¬Refused cs c) : c ∈ alphabet :=
  not_not.1 fun notMem => kept (Or.inl notMem)

theorem pending_lt_of_not_refused (h : Accepted cs) (kept : ¬Refused cs c) :
    pending cs < maxDigits :=
  lt_of_le_of_ne (pending_le_of_accepted h) fun full => kept (Or.inr full)

/-- A text without a fault, or what is in front of the first fault. -/
theorem accepted_or_refused (cs : List Char) :
    Accepted cs ∨ ∃ before c after, cs = before ++ c :: after ∧ Accepted before ∧
      Refused before c := by
  induction cs using List.reverseRecOn with
  | nil => exact Or.inl accepted_nil
  | append_singleton cs c ih =>
    rcases ih with accepted | ⟨before, d, after, rfl, accepted, refused⟩
    · by_cases refused : Refused cs c
      · exact Or.inr ⟨cs, c, [], rfl, accepted, refused⟩
      · exact Or.inl (accepted_concat_iff.2 ⟨accepted, refused⟩)
    · exact Or.inr ⟨before, d, after ++ [c], by simp, accepted, refused⟩

/-- A text is without a fault exactly if it consists of digits and no more than twelve of
them belong to one number.  Characters in a row belong to one number if each of them but
the last says that another follows. -/
theorem accepted_iff :
    Accepted cs ↔ (∀ c ∈ cs, c ∈ alphabet) ∧
      ∀ run, run <:+: cs → (∀ c ∈ run.dropLast, continues c = true) → run.length ≤ maxDigits := by
  constructor
  · intro h
    refine ⟨fun c mem => ?_, fun run inside together => ?_⟩
    · obtain ⟨before, after, rfl⟩ := List.append_of_mem mem
      exact mem_alphabet_of_not_refused (h before c ⟨after, by simp⟩)
    · rcases List.eq_nil_or_concat' run with rfl | ⟨init, last, rfl⟩
      · exact Nat.zero_le _
      · obtain ⟨front, after, rfl⟩ := inside
        rw [List.dropLast_concat] at together
        have split : front ++ init ++ [last] <+: front ++ (init ++ [last]) ++ after :=
          ⟨after, by simp⟩
        have room := pending_lt_of_not_refused
          (h.of_prefix ((List.prefix_append ..).trans split)) (h _ _ split)
        have := length_le_pending front together
        rw [List.length_append, List.length_singleton]
        omega
  · rintro ⟨digits, short⟩ before c ⟨after, rfl⟩ (notMem | full)
    · exact notMem (digits c (by simp))
    · have together : ∀ d ∈ before.rtakeWhile continues, continues d = true :=
        fun d hd => List.mem_rtakeWhile_imp hd
      obtain ⟨front, split⟩ := List.rtakeWhile_suffix continues before
      have le := short (before.rtakeWhile continues ++ [c])
        ⟨front, after, by rw [← List.append_assoc, split]⟩ (by simpa using together)
      rw [List.length_append, ← pending, full, List.length_singleton] at le
      omega

/-! ## What is read and what is refused -/

/-- Behind a text without a fault the reader has the numbers of that text, and goes on with
the digits of the one that is incomplete, if there is one. -/
theorem decodeFrom_append_of_accepted (h : Accepted cs) :
    ∃ is bits, (pending cs = 0 → bits = 0) ∧
      ∀ rest, decodeFrom 0 0 (cs ++ rest) = (decodeFrom (pending cs) bits rest).map (is ++ ·) := by
  induction cs using List.reverseRecOn with
  | nil =>
    refine ⟨[], 0, fun _ => rfl, fun rest => ?_⟩
    rw [pending_nil, List.nil_append]
    cases decodeFrom 0 0 rest <;> rfl
  | append_singleton cs c ih =>
    obtain ⟨accepted, kept⟩ := accepted_concat_iff.1 h
    obtain ⟨is, bits, fresh, reads⟩ := ih accepted
    have mem := mem_alphabet_of_not_refused kept
    have room := pending_lt_of_not_refused accepted kept
    -- Only a digit that ends its number leaves nothing behind for the next one.
    cases more : continues c with
    | true =>
      obtain ⟨bits', step⟩ := decodeFrom_cons_of_continues bits mem room more
      rw [pending_concat_of_continues more]
      refine ⟨is, bits', by simp, fun rest => ?_⟩
      rw [List.append_assoc, reads, List.singleton_append, step]
    | false =>
      obtain ⟨i, step⟩ := decodeFrom_cons_of_not_continues bits mem room more
      rw [pending_concat_of_not_continues more]
      refine ⟨is ++ [i], 0, fun _ => rfl, fun rest => ?_⟩
      rw [List.append_assoc, reads, List.singleton_append, step]
      cases decodeFrom 0 0 rest <;> simp [Except.map]

theorem exists_decodeFrom_of_accepted (h : Accepted cs) : ∃ is, decodeFrom 0 0 cs = .ok is := by
  obtain ⟨is, bits, -, reads⟩ := decodeFrom_append_of_accepted h
  have whole := reads []
  rw [List.append_nil, decodeFrom] at whole
  exact ⟨_, whole⟩

theorem decodeFrom_of_refused {after : List Char} (h : Accepted cs) (refused : Refused cs c) :
    decodeFrom 0 0 (cs ++ c :: after) = .error (.invalidVlq c) := by
  obtain ⟨is, bits, -, reads⟩ := decodeFrom_append_of_accepted h
  rw [reads, decodeFrom_cons_of_refused (refused.imp_right fun full => full.ge)]
  rfl

theorem exists_decodeFrom_iff : (∃ is, decodeFrom 0 0 cs = .ok is) ↔ Accepted cs := by
  refine ⟨fun ⟨is, read⟩ => ?_, exists_decodeFrom_of_accepted⟩
  rcases accepted_or_refused cs with accepted | ⟨before, c, after, rfl, accepted, refused⟩
  · exact accepted
  · rw [decodeFrom_of_refused accepted refused] at read
    cases read

theorem decodeFrom_eq_error_iff :
    decodeFrom 0 0 cs = .error fault ↔ ∃ before c after, cs = before ++ c :: after ∧
      Accepted before ∧ Refused before c ∧ fault = .invalidVlq c := by
  constructor
  · intro failed
    rcases accepted_or_refused cs with accepted | ⟨before, c, after, rfl, accepted, refused⟩
    · obtain ⟨is, read⟩ := exists_decodeFrom_of_accepted accepted
      rw [failed] at read
      cases read
    · rw [decodeFrom_of_refused accepted refused] at failed
      cases failed
      exact ⟨before, c, after, rfl, accepted, refused, rfl⟩
  · rintro ⟨before, c, after, rfl, accepted, refused, rfl⟩
    exact decodeFrom_of_refused accepted refused

/-- Behind complete numbers the reader starts anew. -/
theorem decodeFrom_append {is : List Int} (complete : pending cs = 0)
    (read : decodeFrom 0 0 cs = .ok is) (rest : List Char) :
    decodeFrom 0 0 (cs ++ rest) = (decodeFrom 0 0 rest).map (is ++ ·) := by
  obtain ⟨is', bits, fresh, reads⟩ :=
    decodeFrom_append_of_accepted (exists_decodeFrom_iff.1 ⟨is, read⟩)
  rw [complete, fresh complete] at reads
  have whole := reads []
  rw [List.append_nil, read, decodeFrom] at whole
  cases whole
  simp only [reads, List.append_nil]

/-- **Which texts are numbers in base 64.**  The written forms of numbers of magnitude below
`2 ^ 59`, one after the other, are read back.  A text is read exactly if all its characters
are digits and no number takes more than twelve; otherwise it is refused for the first
character that is no digit or the thirteenth of its number.  Behind a text of complete
numbers another one is read as by itself. -/
theorem decode_texts :
    (∀ is : List Int, (∀ i ∈ is, i.natAbs < 2 ^ 59) →
      decode (String.ofList (is.flatMap encode)) = .ok is) ∧
    (∀ text, (∃ is, decode text = .ok is) ↔ (∀ c ∈ text.toList, c ∈ alphabet) ∧
      ∀ run, run <:+: text.toList → (∀ c ∈ run.dropLast, continues c = true) →
        run.length ≤ 12) ∧
    (∀ text fault, decode text = .error fault ↔
      ∃ before c after, text.toList = before ++ c :: after ∧ Accepted before ∧
        Refused before c ∧ fault = .invalidVlq c) ∧
    ∀ (s t : String) (is js : List Int), (∀ c ∈ s.toList.getLast?, continues c = false) →
      decode s = .ok is → decode t = .ok js → decode (s ++ t) = .ok (is ++ js) := by
  refine ⟨fun is small => ?_, fun text => ?_, fun text fault => ?_, fun s t is js last hs ht => ?_⟩
  · rw [decode, String.toList_ofList, decodeFrom_flatMap_encode small]
  · exact exists_decodeFrom_iff.trans accepted_iff
  · exact decodeFrom_eq_error_iff
  · rw [decode] at hs ht ⊢
    rw [String.toList_append, decodeFrom_append (pending_eq_zero last) hs, ht]
    rfl

example : decode "DgggggggggggggB" = .error (.invalidVlq 'g') := by decide +kernel

end SizeAtlas.SourceMap.Vlq
