import SizeAtlas.Proofs.Script.Clashes

/-!
# Numbered blocks of code

Code at the top level that has no name of its own is listed as a block with a number.  Where
no identifier has a number sign in it, no other symbol can be called like a block.  So a block
takes the place of no other symbol and keeps its own, and the blocks stand in the table in the
order of their numbers, without a gap.

## Main definitions

* `Symbol.TopLevelCode` — code stands at the top level, and so do blocks, which are code.
* `Symbol.KeepsClear` — a symbol with a name of its own is not called like a block.
* `Sizing.InRange` — a block with a number between two others, or a symbol that keeps clear.

## Main statements

* `Sizing.NumbersFrom.pairwise` — no symbol that is made has the name of a block but the block.
* `Sizing.Puts.apart` — blocks are not put in the place of others, nor others in theirs.
* `Sizing.anonymous_of_numberSignFree` — the blocks of a script.
-/

namespace SizeAtlas

/-! ## Blocks and other symbols -/

namespace Symbol

/-- Code stands at the top level.  A block without a name of its own is code. -/
structure TopLevelCode (s : Symbol) : Prop where
  scope_eq : s.kind = .code → s.scope = ""
  kind_eq : s.description.isSome = true → s.kind = .code

/-- A symbol with a name of its own is not called like a numbered block. -/
def KeepsClear (s : Symbol) : Prop :=
  s.description = none → ∀ i, s.name ≠ Script.Sizing.blockName i

end Symbol

namespace Script.Sizing

variable {z : Sizing} {scope : String} {level : List (Node × Nat)} {n : Node} {share : Nat}
  {f g inner : Found} {s t : Symbol} {body : List Node} {xs : List Symbol}

theorem topLevelCode_of_kept? (kept : z.kept? scope n share inner = some s) :
    s.TopLevelCode := by
  unfold kept? symbol? at kept
  split at kept
  · simp at kept
  · split at kept <;> split at kept <;> simp at kept
    · rename_i shown
      subst kept
      refine ⟨fun code => ?_, fun described => by simp at described⟩
      exact String.isEmpty_iff.1 (shown.resolve_left (not_not_intro code))
    · rename_i shown
      subst kept
      exact ⟨fun _ => String.isEmpty_iff.1 shown.2, fun _ => shown.1⟩

/-- Where no identifier has a number sign in it, the walk makes no other symbol that is called
like a block. -/
theorem makesOnly_keepsClear (free : NumberSignFree body) :
    z.MakesOnly Symbol.KeepsClear "" (topLevel body) := by
  intro scope n share inner s reached kept plain
  rcases z.kept?_cases scope n share inner with
    ⟨x, kept', _, listed⟩ | ⟨x, kept', described, _⟩ | ⟨kept', _⟩
  · obtain rfl := Option.some.inj (kept.symm.trans kept')
    exact ne_blockName free reached listed
  · obtain rfl := Option.some.inj (kept.symm.trans kept')
    simp [plain] at described
  · rw [kept'] at kept
    simp at kept

namespace MakesOnly

variable {P : Symbol → Prop}

theorem forall_mem_madeList_of_each (makes : z.MakesOnly P scope level)
    (each : ∀ m ∈ level, z.MakesOnly P scope [m] → ∀ blocks,
      ∀ x ∈ z.made bytesEntered scope m.1 m.2 blocks, P x) (blocks : Nat) :
    ∀ x ∈ z.madeList bytesEntered scope level blocks, P x := by
  induction level generalizing blocks with
  | nil => simp
  | cons m level ih =>
    rw [madeList_cons, List.forall_mem_append]
    exact ⟨each m (by simp) makes.head blocks,
      ih makes.tail (fun x hx => each x (by simp [hx])) _⟩

/-- What holds of every symbol that the walk makes holds of those that are made for a node and
all inside it.  The induction is along the walk. -/
theorem forall_mem_made (n : Node) (scope : String) (share : Nat)
    (makes : z.MakesOnly P scope [(n, share)]) (blocks : Nat) :
    ∀ x ∈ z.made bytesEntered scope n share blocks, P x := by
  induction n using Node.induction_inside generalizing scope share blocks with
  | step n ih =>
    rw [made_eq, List.forall_mem_append]
    constructor
    · by_cases expands : z.expands n = true
      · rw [z.madeInside_of_expands _ _ expands]
        exact forall_mem_madeList_of_each (makes.inside expands)
          (fun m hm each => ih m hm _ m.2 each) blocks
      · simp [z.madeInside_of_not_expands _ _ expands]
    · intro x hx
      -- what is kept beside the symbols inside is kept beside a table of them
      exact makes.own ⟨Roster.ofList (z.madeInside bytesEntered scope n blocks), _, []⟩
        (Option.mem_toList.1 hx)

theorem forall_mem_madeList (makes : z.MakesOnly P scope level) (blocks : Nat) :
    ∀ x ∈ z.madeList bytesEntered scope level blocks, P x :=
  forall_mem_madeList_of_each makes (fun m _ each => forall_mem_made m.1 scope m.2 each) blocks

theorem forall_mem_madeInside (makes : z.MakesOnly P scope ((n, share) :: level))
    (blocks : Nat) : ∀ x ∈ z.madeInside bytesEntered scope n blocks, P x := by
  by_cases expands : z.expands n = true
  · rw [z.madeInside_of_expands _ _ expands]
    exact (makes.inside expands).forall_mem_madeList blocks
  · simp [z.madeInside_of_not_expands _ _ expands]

end MakesOnly

/-! ## Numbers in turn -/

/-- A block with a number from `first` to below `last`, or a symbol that keeps clear of the
names of blocks. -/
def InRange (first last : Nat) (s : Symbol) : Prop :=
  s.KeepsClear ∧ (s.description.isSome = true → NumberedFrom first last s.name)

namespace InRange

variable {first middle last : Nat}

theorem mono (h : InRange first last s) {first' last' : Nat} (le : first' ≤ first)
    (le' : last ≤ last') : InRange first' last' s := by
  refine ⟨h.1, fun described => ?_⟩
  obtain ⟨i, low, high, name⟩ := h.2 described
  exact ⟨i, le.trans low, Nat.lt_of_lt_of_le high le', name⟩

/-- A block has its name from none with an earlier number and from no other symbol. -/
theorem apart (h : InRange first middle s) (h' : InRange middle last t)
    (same : s.name = t.name) : s.description = none ∧ t.description = none := by
  cases block : s.description with
  | none =>
    cases block' : t.description with
    | none => exact ⟨rfl, rfl⟩
    | some _ =>
      obtain ⟨i, _, _, name⟩ := h'.2 (by simp [block'])
      exact absurd (same.trans name) (h.1 block i)
  | some _ =>
    obtain ⟨i, _, high, name⟩ := h.2 (by simp [block])
    cases block' : t.description with
    | none => exact absurd (same.symm.trans name) (h'.1 block' i)
    | some _ =>
      obtain ⟨j, low, _, name'⟩ := h'.2 (by simp [block'])
      obtain rfl : i = j := blockName_injective (name.symm.trans (same.trans name'))
      omega

end InRange

/-- The blocks among symbols that are numbered in turn have the numbers from the first on. -/
theorem NumbersFrom.inRange {blocks : Nat} (numbers : NumbersFrom blocks xs)
    (clear : ∀ x ∈ xs, x.KeepsClear) : ∀ x ∈ xs, InRange blocks (blocks + numbered xs) x := by
  intro x hx
  refine ⟨clear x hx, fun described => ?_⟩
  have mem : x.name ∈ (List.range' blocks (numbered xs)).map blockName :=
    numbers ▸ List.mem_map_of_mem (List.mem_filter.2 ⟨hx, described⟩)
  obtain ⟨i, hi, name⟩ := List.mem_map.1 mem
  obtain ⟨low, high⟩ := List.mem_range'_1.1 hi
  exact ⟨i, low, high, name.symm⟩

/-- Of symbols that are numbered in turn no two have one name if one of them is a block. -/
theorem NumbersFrom.pairwise {blocks : Nat} (numbers : NumbersFrom blocks xs)
    (clear : ∀ x ∈ xs, x.KeepsClear) :
    xs.Pairwise fun x y =>
      x.description.isSome = true ∨ y.description.isSome = true → x.name ≠ y.name := by
  have distinct : ((xs.filter (·.description.isSome)).map Symbol.name).Nodup := by
    rw [numbers]
    exact (List.nodup_map_iff blockName_injective).2 List.nodup_range'
  have described := numbers.inRange clear
  rw [List.Nodup, List.pairwise_map, List.pairwise_filter] at distinct
  refine distinct.imp_of_mem fun {x y} hx hy ne block => ?_
  cases left : x.description with
  | none =>
    obtain ⟨i, _, _, name⟩ := (described y hy).2 (by simpa [left] using block)
    exact fun same => (clear x hx) left i (same.trans name)
  | some _ =>
    obtain ⟨i, _, _, name⟩ := (described x hx).2 (by simp [left])
    cases right : y.description with
    | none => exact fun same => (clear y hy) right i (same.symm.trans name)
    | some _ => exact ne (by simp [left]) (by simp [right])

/-- What the walk enters is in range, from where its numbers start. -/
theorem Makes.inRange (makes : Makes xs f g) (numbers : NumbersFrom f.blocks xs)
    (clear : ∀ x ∈ xs, x.KeepsClear) {first : Nat} (le : first ≤ f.blocks)
    (before : ∀ s ∈ f.table.entries, InRange first f.blocks s) :
    ∀ s ∈ g.table.entries, InRange first g.blocks s := by
  intro s mem
  rw [makes.table] at mem
  rw [makes.blocks]
  rcases Roster.mem_of_mem_insertAll mem with old | new
  · exact (before s old).mono (Nat.le_refl _) (Nat.le_add_right _ _)
  · exact (numbers.inRange clear s new).mono le (Nat.le_refl _)

theorem numbersFrom_madeInside (z : Sizing) (scope : String) (n : Node) (blocks : Nat) :
    NumbersFrom blocks (z.madeInside bytesEntered scope n blocks) := by
  by_cases expands : z.expands n = true
  · rw [z.madeInside_of_expands _ _ expands]
    exact numbersFrom_madeList (fun m _ => numbersFrom_made bytesEntered m.1 _ m.2) blocks
  · rw [z.madeInside_of_not_expands _ _ expands]
    rfl

/-- What is found inside a node is numbered from where the node starts. -/
theorem inRange_inside (clear : z.MakesOnly Symbol.KeepsClear scope ((n, share) :: level))
    (f : Found) :
    ∀ s ∈ (z.inside scope n f).table.entries,
      InRange f.blocks (z.inside scope n f).blocks s := by
  refine (makes_inside (z := z) n scope f).inRange (numbersFrom_madeInside z scope n f.blocks)
    (clear.forall_mem_madeInside f.blocks) (Nat.le_refl _) ?_
  simp

/-- **Blocks are not put in the place of others, nor others in theirs.**  The induction is
along the walk; it keeps that all blocks found so far have smaller numbers. -/
theorem Puts.apart {table : SymbolTable} {symbols : List Symbol}
    (puts : z.Puts scope level f table symbols)
    (clear : z.MakesOnly Symbol.KeepsClear scope level)
    (before : ∀ s ∈ f.table.entries, InRange 0 f.blocks s) :
    ∀ s ∈ symbols, ∀ t ∈ table.entries, s.name = t.name →
      s.description = none ∧ t.description = none := by
  induction puts with
  | @merge scope n share level f =>
    intro s hs t ht same
    exact ((before t ht).apart (inRange_inside clear f s hs) same.symm).symm
  | @enter scope n share level f x kept =>
    intro s hs t ht same
    obtain rfl := List.mem_singleton.1 hs
    have blocks := (makes_inside (z := z) n scope f).blocks
    have next : InRange (z.inside scope n f).blocks ((z.inside scope n f).blocks + 1) s := by
      refine ⟨clear.own _ kept, fun described => ?_⟩
      rcases z.kept?_cases scope n share (z.inside scope n f) with
        ⟨x, kept', plain, _⟩ | ⟨x, kept', _, name, _⟩ | ⟨kept', _⟩
      · obtain rfl := Option.some.inj (kept.symm.trans kept')
        simp [plain] at described
      · obtain rfl := Option.some.inj (kept.symm.trans kept')
        exact ⟨_, Nat.le_refl _, Nat.lt_succ_self _, name⟩
      · rw [kept'] at kept
        simp at kept
    have earlier : InRange 0 (z.inside scope n f).blocks t := by
      rcases Roster.mem_of_mem_extend ht with old | within
      · exact (before t old).mono (Nat.le_refl _) (blocks ▸ Nat.le_add_right _ _)
      · exact (inRange_inside clear f t within).mono (Nat.zero_le _) (Nat.le_refl _)
    exact (earlier.apart next same.symm).symm
  | inside expands _ ih => exact ih (clear.inside expands) (by simp)
  | @later scope n share level f _ _ _ ih =>
    exact ih clear.tail ((makes_visit n scope share f).inRange
      (numbersFrom_made bytesEntered n scope share f.blocks)
      (clear.head.forall_mem_made n scope share f.blocks) (Nat.zero_le _) before)

/-! ## Whole scripts -/

theorem numbersFrom_madeAll (z : Sizing) (body : List Node) :
    NumbersFrom 0 (z.madeAll bytesEntered body) :=
  numbersFrom_madeList (fun m _ => numbersFrom_made bytesEntered m.1 "" m.2) 0

/-- The blocks that are listed are those that are made, in their order. -/
theorem anonymous_run_eq (free : NumberSignFree body) :
    anonymous (z.run body).1 =
      (z.madeAll bytesEntered body).filter (·.description.isSome) := by
  have clear := (makesOnly_keepsClear (z := z) free).forall_mem_madeList 0
  rw [anonymous_run, anonymous, (makes_visitAll z body).table]
  exact Roster.filter_entries_ofList ((numbersFrom_madeAll z body).pairwise clear)

/-- **The blocks of a script.**  If no identifier has a number sign in it, then the symbols
without a name of their own are called like blocks with the numbers from zero on, in this
order and without a gap, as many as the walk counts and just those that it makes.  They are
code, and all code stands at the top level.  No block is put in the place of another symbol or
another symbol in its place, nor is the leftover. -/
theorem anonymous_of_numberSignFree (free : NumberSignFree body) :
    (anonymous (z.run body).1).map Symbol.name =
      (List.range (z.visitAll body).blocks).map blockName ∧
    anonymous (z.run body).1 =
      (z.madeAll bytesEntered body).filter (·.description.isSome) ∧
    (∀ s ∈ anonymous (z.run body).1, s.kind = .code ∧ s.scope = "") ∧
    (∀ s ∈ (z.run body).1.entries, s.kind = .code → s.scope = "") ∧
    (∀ table symbols, z.Puts "" (topLevel body) ⟨∅, 0, []⟩ table symbols →
      ∀ s ∈ symbols, ∀ t ∈ table.entries, s.name = t.name →
        s.description = none ∧ t.description = none) ∧
    (z.leftover (z.visitAll body).table).name ∉ (z.visitAll body).table.keys := by
  have code : ∀ s ∈ (z.run body).1.entries, s.TopLevelCode := by
    intro s mem
    rcases mem_entries_run mem with visited | rfl
    · exact forall_mem_visitAll
        (fun _ _ _ _ _ _ kept => topLevelCode_of_kept? kept) s visited
    · exact ⟨fun other => rfl, fun described => by simp [leftover] at described⟩
  have listed := anonymous_run_eq (z := z) free
  refine ⟨?_, listed, ?_, fun s mem => (code s mem).scope_eq, ?_, leftover_notMem z _⟩
  · have count : (z.visitAll body).blocks = numbered (z.madeAll bytesEntered body) := by
      rw [(makes_visitAll z body).blocks, Nat.zero_add]
    rw [listed, numbersFrom_madeAll z body, count, List.range_eq_range']
  · intro s mem
    obtain ⟨here, described⟩ := List.mem_filter.1 mem
    have kind := (code s here).kind_eq described
    exact ⟨kind, (code s here).scope_eq kind⟩
  · intro table symbols puts
    exact puts.apart (makesOnly_keepsClear free) (by simp)

/-- Of two functions one variable replaces the other, but no block does. -/
theorem anonymous_calledFunctions :
    ∃ z : Sizing, NumberSignFree [calledFunction 0, calledFunction 24] ∧
      (z.run [calledFunction 0, calledFunction 24]).1.size = 6 ∧
      (anonymous (z.run [calledFunction 0, calledFunction 24]).1).map Symbol.name =
        ["code#0", "code#1", "code#2", "code#3"] := by
  let z : Sizing :=
    ⟨"(function(){var a=1})();(function(){var a=2})();".toUTF8, fun n => 0 < n, []⟩
  have free : NumberSignFree [calledFunction 0, calledFunction 24] := by
    simp [NumberSignFree, calledFunction, Node.Spells.mk_iff, Node.spelling, Node.form, Form.parts]
  have blocks : (z.visitAll [calledFunction 0, calledFunction 24]).blocks = 4 := by cbv
  have names := (anonymous_of_numberSignFree (z := z) free).1
  rw [blocks] at names
  exact ⟨z, free, by cbv, names.trans (by decide)⟩

end Script.Sizing

end SizeAtlas
