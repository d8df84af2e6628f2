import SizeAtlas.Proofs.Fallible
import SizeAtlas.Proofs.SourceMap.Lookup
import SizeAtlas.Proofs.SourceMap.RoundTrip

/-!
# A look-up finds what a scan of all entries finds

The search by halves looks at no more than the last entry before an offset and the first
other one.  Going through all entries one by one gives the same answer: the first entry at
the offset, or else the nearest within reach, of which those before the offset come first.
The scan itself does not need them in order, so that a look-up answers as if it read
the mappings themselves.

## Main definitions

* `scan?` — the answer of going through all entries.

## Main statements

* `nearest?_eq_scan?` — the search by halves gives it.
* `scan?_congr` — it depends on the order of entries at one offset only.
* `lookup_of_decode` — what look-ups in a decoded source map answer.
-/

namespace SizeAtlas.SourceMap

/-! ## Going through all entries -/

/-- The first entry at `offset`.  Without one, the entries count that are at most `reach`
bytes away, and of those the nearest: the last one before `offset`, or else the first one
behind it. -/
def scan? (entries : List Entry) (offset reach : Nat) : Option Entry :=
  (entries.find? fun e => e.offset = offset).or <|
    ((entries.map (·.distance offset)).filter (· ≤ reach)).min?.bind fun least =>
      (entries.filter fun e => e.offset + least = offset).getLast?.or
        (entries.find? fun e => e.offset = offset + least)

variable {m : SourceMap} {entries : List Entry} {offset reach least : Nat} {e : Entry}

/-- An entry at the offset ends the scan. -/
theorem scan?_of_find? (here : entries.find? (fun e => e.offset = offset) = some e) :
    scan? entries offset reach = some e := by
  rw [scan?, here, Option.some_or]

/-- Without any entry at the offset only those at the least distance count. -/
theorem scan?_of_min? (none_here : entries.find? (fun e => e.offset = offset) = none)
    (nearest : ((entries.map (·.distance offset)).filter (· ≤ reach)).min? = some least) :
    scan? entries offset reach =
      (entries.filter fun e => e.offset + least = offset).getLast?.or
        (entries.find? fun e => e.offset = offset + least) := by
  rw [scan?, none_here, Option.none_or, nearest, Option.bind_some]

/-- The scan finds nothing if all entries are too far away. -/
theorem scan?_eq_none (far : ∀ e ∈ entries, reach < e.distance offset) :
    scan? entries offset reach = none := by
  have here : entries.find? (fun e => e.offset = offset) = none := by
    rw [List.find?_eq_none]
    intro e he at_offset
    have away := far e he
    simp only [Entry.distance, of_decide_eq_true at_offset] at away
    omega
  have nothing : (entries.map (·.distance offset)).filter (· ≤ reach) = [] := by
    rw [List.filter_eq_nil_iff]
    intro d hd
    obtain ⟨e, he, rfl⟩ := List.mem_map.1 hd
    simpa using far e he
  rw [scan?, here, nothing]
  rfl

/-! ## The search by halves -/

/-- The distance of the nearest entry is the least within reach. -/
theorem Nearest.min?_eq (h : Nearest m offset reach e) :
    ((m.entries.toList.map (·.distance offset)).filter (· ≤ reach)).min? =
      some (e.distance offset) := by
  rw [List.min?_eq_some_iff]
  refine ⟨?_, ?_⟩
  · rw [List.mem_filter, decide_eq_true_eq]
    exact ⟨List.mem_map_of_mem (Array.mem_toList_iff.2 h.mem), h.within⟩
  · intro d hd
    obtain ⟨e', he', rfl⟩ := List.mem_map.1 (List.mem_filter.1 hd).1
    exact h.least e' (Array.mem_toList_iff.1 he')

/-- Entries at a place behind an offset are found among those from the offset on. -/
theorem find?_entries_of_le {place : Nat} (le : offset ≤ place) :
    m.entries.toList.find? (fun e => e.offset = place) =
      (m.entriesFrom offset).find? fun e => e.offset = place := by
  have early : (m.entriesBefore offset).find? (fun e => e.offset = place) = none := by
    rw [List.find?_eq_none]
    intro e he at_place
    have lt := lt_of_mem_entriesBefore he
    have same := of_decide_eq_true at_place
    omega
  rw [m.toList_entries offset, List.find?_append, early, Option.none_or]

/-- The first of the entries from an offset on is the first one at its place. -/
theorem find?_entries_of_head? (first : (m.entriesFrom offset).head? = some e) :
    m.entries.toList.find? (fun e' => e'.offset = e.offset) = some e := by
  obtain ⟨rest, split⟩ := List.head?_eq_some_iff.1 first
  rw [find?_entries_of_le (le_of_mem_entriesFrom (List.mem_of_head? first)), split]
  exact List.find?_cons_of_pos (decide_eq_true rfl)

/-- The last of the entries before an offset is the last one at its place. -/
theorem getLast?_filter_entries (last : (m.entriesBefore offset).getLast? = some e) :
    (m.entries.toList.filter fun e' => e'.offset = e.offset).getLast? = some e := by
  obtain ⟨front, split⟩ := List.getLast?_eq_some_iff.1 last
  have before := lt_of_mem_entriesBefore (List.mem_of_getLast? last)
  have none_behind : (m.entriesFrom offset).filter (fun e' => e'.offset = e.offset) = [] := by
    rw [List.filter_eq_nil_iff]
    intro e' he' same
    have le := le_of_mem_entriesFrom he'
    have := of_decide_eq_true same
    omega
  rw [m.toList_entries offset, List.filter_append, none_behind, List.append_nil, split,
    List.filter_append, List.filter_singleton, decide_eq_true rfl]
  exact List.getLast?_concat

/-- Without an entry at the offset the last one before it is found, if it is nearest. -/
theorem scan?_of_getLast? (none_here : m.entries.toList.find? (fun e => e.offset = offset) = none)
    (nearest : Nearest m offset reach e) (last : (m.entriesBefore offset).getLast? = some e) :
    scan? m.entries.toList offset reach = some e := by
  have before := lt_of_mem_entriesBefore (List.mem_of_getLast? last)
  have place : (fun e' : Entry => decide (e'.offset + e.distance offset = offset)) =
      fun e' => decide (e'.offset = e.offset) := by
    funext e'
    rw [decide_eq_decide, Entry.distance]
    omega
  rw [scan?_of_min? none_here nearest.min?_eq, place, getLast?_filter_entries last, Option.some_or]

/-- Without an entry at the offset the first one behind it is found, if it is nearest. -/
theorem scan?_of_head? (none_here : m.entries.toList.find? (fun e => e.offset = offset) = none)
    (nearest : Nearest m offset reach e) (first : (m.entriesFrom offset).head? = some e) :
    scan? m.entries.toList offset reach = some e := by
  have here := find?_entries_of_head? first
  have le := le_of_mem_entriesFrom (List.mem_of_head? first)
  have ne : e.offset ≠ offset := by
    intro same
    rw [same, none_here] at here
    exact Option.some_ne_none e here.symm
  -- one that is as far before the offset would win the tie
  have before : m.entries.toList.filter (fun e' => e'.offset + e.distance offset = offset) = [] := by
    rw [List.filter_eq_nil_iff]
    intro e' he' as_far
    have as_far := of_decide_eq_true as_far
    have same : e'.distance offset = e.distance offset := by
      unfold Entry.distance at *
      omega
    have tie := nearest.tie e' (Array.mem_toList_iff.1 he') same (by omega)
    omega
  have place : (fun e' : Entry => decide (e'.offset = offset + e.distance offset)) =
      fun e' => decide (e'.offset = e.offset) := by
    funext e'
    rw [decide_eq_decide, Entry.distance]
    omega
  rw [scan?_of_min? none_here nearest.min?_eq, before, List.getLast?_nil, Option.none_or, place,
    here]

/-- There is no entry at the offset if the first one from it on is not there. -/
theorem find?_entries_at (apart : (m.entriesFrom offset).head?.any (·.offset == offset) = false) :
    m.entries.toList.find? (fun e => e.offset = offset) = none := by
  rw [find?_entries_of_le (Nat.le_refl _), List.find?_eq_none]
  intro e he at_offset
  obtain ⟨a, first, le⟩ := exists_head? he
  have from_offset := le_of_mem_entriesFrom (List.mem_of_head? first)
  have same := of_decide_eq_true at_offset
  rw [first, Option.any_some, beq_eq_false_iff_ne] at apart
  omega

/-- **The search by halves finds what a scan of all entries finds.** -/
theorem nearest?_eq_scan? (m : SourceMap) (offset reach : Nat) :
    m.nearest? offset reach = scan? m.entries.toList offset reach := by
  cases found : m.nearest? offset reach with
  | none =>
    have far := nearest?_eq_none_iff.1 found
    exact (scan?_eq_none fun e he => far e (Array.mem_toList_iff.1 he)).symm
  | some e =>
    have nearest := nearest_of_nearest? found
    rw [nearest?_eq] at found
    cases here : (m.entriesFrom offset).head?.any (·.offset == offset) with
    | true =>
      rw [if_pos here] at found
      rw [found, Option.any_some, beq_iff_eq] at here
      have first := find?_entries_of_head? found
      rw [here] at first
      exact (scan?_of_find? first).symm
    | false =>
      rw [if_neg (Bool.not_eq_true _ ▸ here)] at found
      have none_here := find?_entries_at here
      simp only [nearer_eq_some_iff, Option.filter_eq_some_iff] at found
      rcases found with ⟨⟨last, -⟩, -⟩ | ⟨⟨first, -⟩, -⟩
      · exact (scan?_of_getLast? none_here nearest last).symm
      · exact (scan?_of_head? none_here nearest first).symm

/-- The entries next to the place that the search finds are on either side of the offset. -/
theorem sides_of_splitAt (m : SourceMap) (offset : Nat) :
    (∀ e, m.splitAt offset ≠ 0 → m.entries[m.splitAt offset - 1]? = some e → e.offset < offset) ∧
      ∀ e, m.entries[m.splitAt offset]? = some e → offset ≤ e.offset := by
  rw [m.splitAt_eq]
  refine ⟨?_, ?_⟩
  · intro e some_before found
    rw [m.getElem?_entries_of_lt offset (by omega)] at found
    exact lt_of_mem_entriesBefore (List.mem_of_getElem? found)
  · intro e found
    rw [← Nat.add_zero (m.entriesBefore offset).length, m.getElem?_entries_length_add] at found
    exact le_of_mem_entriesFrom (List.mem_of_getElem? found)

/-! ## Decoded source maps -/

/-- What a scan finds depends only on which entries there are at each offset, and in which
order. -/
theorem scan?_congr {entries' : List Entry}
    (same : ∀ place, entries.filter (·.offset = place) = entries'.filter (·.offset = place)) :
    scan? entries offset reach = scan? entries' offset reach := by
  have first : ∀ place, entries.find? (·.offset = place) = entries'.find? (·.offset = place) := by
    intro place
    rw [← List.head?_filter, ← List.head?_filter, same]
  have mem : ∀ e, e ∈ entries ↔ e ∈ entries' := by
    intro e
    have at_place := congrArg (e ∈ ·) (same e.offset)
    simpa using at_place
  have distances : ((entries.map (·.distance offset)).filter (· ≤ reach)).min? =
      ((entries'.map (·.distance offset)).filter (· ≤ reach)).min? := by
    apply Option.ext
    intro d
    simp only [List.min?_eq_some_iff, List.mem_filter, List.mem_map, mem]
  have last : ∀ least, entries.filter (fun e => e.offset + least = offset) =
      entries'.filter fun e => e.offset + least = offset := by
    intro least
    by_cases le : least ≤ offset
    · have place : (fun e : Entry => decide (e.offset + least = offset)) =
          fun e => decide (e.offset = offset - least) := by
        funext e
        rw [decide_eq_decide]
        omega
      rw [place, same]
    · have nowhere : (fun e : Entry => decide (e.offset + least = offset)) = fun _ => false := by
        funext e
        rw [decide_eq_false_iff_not]
        omega
      rw [nowhere, List.filter_false, List.filter_false]
  simp only [scan?, first, distances, last]

/-- **Look-ups in a decoded source map find what a scan of its entries finds.**  The
entries that the mappings give are put in the order of their offsets, so the search by
halves has all entries before an offset on one side, where no difference is taken the wrong
way round, and all others on the other side.  The scan gives the same answer on the entries
as the mappings give them. -/
theorem lookup_of_decode {text : String} {generated : ByteArray}
    (decoded : decode text generated = .ok m) :
    (∃ d found, Document.read text = .ok d ∧
      decodeEntries d (LineStarts.ofBytes generated) = .ok found ∧
      m.entries.toList.Perm found ∧ m.entries.toList.Pairwise (·.offset ≤ ·.offset) ∧
      ∀ offset reach, scan? m.entries.toList offset reach = scan? found offset reach) ∧
    ∀ offset reach,
      m.lookup offset reach = (scan? m.entries.toList offset reach).map Entry.name ∧
      (∀ e, m.splitAt offset ≠ 0 → m.entries[m.splitAt offset - 1]? = some e → e.offset < offset) ∧
      ∀ e, m.entries[m.splitAt offset]? = some e → offset ≤ e.offset := by
  refine ⟨?_, ?_⟩
  · rw [decode] at decoded
    obtain ⟨d, read, decoded⟩ := bind_eq_ok.1 decoded
    obtain ⟨found, entries, decoded⟩ := bind_eq_ok.1 decoded
    obtain rfl := Except.ok.inj decoded
    exact ⟨d, found, read, entries, List.mergeSort_perm found Entry.inOrder,
      sorted_toList _, fun offset reach => scan?_congr (filter_ofEntries found)⟩
  · intro offset reach
    rw [lookup, nearest?_eq_scan?]
    exact ⟨rfl, m.sides_of_splitAt offset⟩

/-- A document with two names at offset 2 and two at offset 6. -/
def twoPlaces : String :=
  "\x7b\"names\":[\"a\",\"b\",\"c\",\"d\"],\"mappings\":\"EAAAA,AAAAC,IAAAC,AAAAC\"\x7d"

/-- Halfway between the two places the last name of the first one is found, nearer to the
second one its first name. -/
theorem lookup_of_decode_twoPlaces :
    ∃ m, decode twoPlaces "var a=1;".toUTF8 = .ok m ∧
      m.entries.toList.map Entry.offset = [2, 2, 6, 6] ∧
      m.lookup 4 2 = some "b" ∧ m.lookup 5 2 = some "c" ∧ m.lookup 2 0 = some "a" ∧
      m.lookup 9 2 = none := by
  have found : (decode twoPlaces "var a=1;".toUTF8).toOption.map (·.entries.toList) =
      some [⟨2, none, 0, 0, "a"⟩, ⟨2, none, 0, 0, "b"⟩, ⟨6, none, 0, 0, "c"⟩,
        ⟨6, none, 0, 0, "d"⟩] := by
    cbv
  cases decoded : decode twoPlaces "var a=1;".toUTF8 with
  | error e =>
    rw [decoded] at found
    exact absurd found (by simp [Except.toOption])
  | ok m =>
    rw [decoded] at found
    have entries : m.entries.toList = _ := Option.some.inj found
    have lookups := (lookup_of_decode decoded).2
    refine ⟨m, rfl, by rw [entries]; rfl, ?_, ?_, ?_, ?_⟩
    · rw [(lookups 4 2).1, entries]
      decide +kernel
    · rw [(lookups 5 2).1, entries]
      decide +kernel
    · rw [(lookups 2 0).1, entries]
      decide +kernel
    · rw [(lookups 9 2).1, entries]
      decide +kernel

end SizeAtlas.SourceMap
