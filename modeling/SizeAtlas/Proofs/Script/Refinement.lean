import SizeAtlas.Measurement
import SizeAtlas.Proofs.Script.Listing
import SizeAtlas.Proofs.Script.Spelling

/-!
# Splitting more nodes only refines a script

Which name a node has, and so in which scope the nodes inside it stand, does not depend
on how many bytes are enough to split a node.  A walk that splits more nodes comes to
all nodes that the other walk comes to, in the same scopes, and lists them under the
same names; and it finds no fewer blocks of code.

## Main definitions

* `Sizing.Finer` — one walk splits all nodes that another one splits.
* `anonymous` — the numbered blocks of code among the symbols of a script.

## Main statements

* `Sizing.Reaches.of_finer` — the finer walk comes to all nodes of the coarser one.
* `Sizing.blocks_visit_le` — it finds no fewer blocks of code.
* `Sizing.length_anonymous_run` — how many numbered blocks are listed.
* `Sizing.run_refines` — the finer walk has all names of the coarser one.
-/

namespace SizeAtlas.Script

/-! ## What does not depend on sizes -/

namespace Node

variable (n : Node) (splits splits' : Nat → Bool)

theorem name_treatment_congr : (n.treatment splits).name = (n.treatment splits').name := by
  unfold treatment
  by_cases container : n.isContainer = true
  · simp [container]
  · simp only [container, if_false, Bool.false_eq_true]
    cases n.ownName? with
    | some place => rfl
    | none => cases soleName .collapsed (n.children .collapsed) <;> rfl

theorem kind_treatment_congr : (n.treatment splits).kind = (n.treatment splits').kind := by
  unfold treatment
  by_cases container : n.isContainer = true
  · simp only [container, if_true]
    cases n.ownName? with
    | some place => rfl
    | none => cases soleName .collapsed (n.children .collapsed) <;> rfl
  · simp only [container, if_false, Bool.false_eq_true]
    cases n.ownName? with
    | some place => rfl
    | none => cases soleName .collapsed (n.children .collapsed) <;> rfl

variable {n splits splits'}

/-- A node that is split remains split when its bytes are still enough. -/
theorem expand_treatment_of_imp (expand : (n.treatment splits).expand = true)
    (large : splits (n.childrenLength .collapsed) = true →
      splits' (n.childrenLength .collapsed) = true) :
    (n.treatment splits').expand = true := by
  unfold treatment at expand ⊢
  by_cases container : n.isContainer = true
  · simp [container]
  · simp only [container, if_false, Bool.false_eq_true] at expand ⊢
    cases own : n.ownName? with
    | some place =>
      simp only [own, Bool.and_eq_true] at expand ⊢
      exact ⟨large expand.1, expand.2⟩
    | none =>
      cases sole : soleName .collapsed (n.children .collapsed) with
      | named name kind => simp [own, sole] at expand
      | anonymous => simp [own, sole] at expand
      | ambiguous =>
        simp only [own, sole, Bool.and_eq_true] at expand ⊢
        exact ⟨large expand.1, expand.2⟩

end Node

namespace Sizing

section Congruence

variable (z z' : Sizing) (scope : String) (n : Node)

theorem innerScope_congr : z.innerScope scope n = z'.innerScope scope n := by
  rw [innerScope, innerScope, n.name_treatment_congr z.splits z'.splits]

theorem listedName?_congr : z.listedName? scope n = z'.listedName? scope n := by
  rw [listedName?, listedName?, n.name_treatment_congr z.splits z'.splits,
    n.kind_treatment_congr z.splits z'.splits]

end Congruence

/-! ## The finer walk -/

variable {fine coarse : Sizing} {scope scope' name : String} {level : List (Node × Nat)}
  {n : Node} {share : Nat}

/-- Of the nodes that the coarse walk over `level` in `scope` comes to, all that are
large enough to split for it are so for the fine one. -/
def Finer (fine coarse : Sizing) (scope : String) (level : List (Node × Nat)) : Prop :=
  ∀ scope' n share, coarse.Reaches scope level scope' n share →
    coarse.splits (n.childrenLength .collapsed) = true →
      fine.splits (n.childrenLength .collapsed) = true

theorem Finer.expands (h : Finer fine coarse scope level) (mem : (n, share) ∈ level)
    (expands : coarse.expands n = true) : fine.expands n = true :=
  Node.expand_treatment_of_imp expands (h scope n share (.here mem))

theorem Finer.inside (h : Finer fine coarse scope level) (mem : (n, share) ∈ level)
    (expands : coarse.expands n = true) :
    Finer fine coarse (coarse.innerScope scope n) (n.shares .collapsed) :=
  fun scope' m share' below => h scope' m share' (.inside mem expands below)

theorem Finer.mono {level' : List (Node × Nat)} (h : Finer fine coarse scope level)
    (sub : level' ⊆ level) : Finer fine coarse scope level' :=
  fun scope' n share reached => h scope' n share (reached.mono sub)

/-- The fine walk comes to all nodes that the coarse one comes to, in the same scopes. -/
theorem Reaches.of_finer (reached : coarse.Reaches scope level scope' n share)
    (h : Finer fine coarse scope level) : fine.Reaches scope level scope' n share := by
  induction reached with
  | here mem => exact .here mem
  | @inside scope scope' level m n whole share mem expands below ih =>
    refine .inside mem (h.expands mem expands) ?_
    rw [innerScope_congr fine coarse]
    exact ih (h.inside mem expands)

/-- Whatever the coarse walk lists by a name the fine walk lists by the same name. -/
theorem Named.of_finer (named : coarse.Named scope level name)
    (h : Finer fine coarse scope level) : fine.Named scope level name := by
  obtain ⟨scope', n, share, reached, listed⟩ := named
  exact ⟨scope', n, share, reached.of_finer h, by rw [listedName?_congr fine coarse, listed]⟩

/-! ## Blocks of code -/

/-- Whether `n`, which stands in `scope`, is listed as a numbered block of code. -/
def isBlock (z : Sizing) (scope : String) (n : Node) : Bool :=
  !n.isTransparent && (n.treatment z.splits).name.isNone &&
    (n.treatment z.splits).kind == .code && scope.isEmpty

theorem isBlock_congr (z z' : Sizing) (scope : String) (n : Node) :
    z.isBlock scope n = z'.isBlock scope n := by
  rw [isBlock, isBlock, n.name_treatment_congr z.splits z'.splits,
    n.kind_treatment_congr z.splits z'.splits]

theorem description_kept? (z : Sizing) (scope : String) (n : Node) (share : Nat)
    (inner : Found) :
    (z.kept? scope n share inner).any (·.description.isSome) = z.isBlock scope n := by
  unfold kept? symbol? isBlock
  by_cases transparent : n.isTransparent = true
  · simp [transparent]
  · cases (n.treatment z.splits).name with
    | some name =>
      by_cases shown : (n.treatment z.splits).kind ≠ .code ∨ scope.isEmpty
      · simp only [if_pos shown]
        simp [transparent]
      · simp only [if_neg shown]
        simp [transparent]
    | none =>
      by_cases shown : (n.treatment z.splits).kind = .code ∧ scope.isEmpty
      · simp [transparent, shown]
      · simp only [transparent, if_neg shown]
        simpa using shown

/-- Settling a node counts it if it is a block of code. -/
theorem blocks_settle (z : Sizing) (scope : String) (n : Node) (share : Nat) (f inner : Found) :
    (z.settle scope n share f inner).blocks =
      inner.blocks + if z.isBlock scope n then 1 else 0 := by
  rw [← z.description_kept? scope n share inner, settle]
  cases z.kept? scope n share inner with
  | none => rfl
  | some s =>
    by_cases described : s.description.isSome = true
    · simp [enter, described]
    · simp [enter, described]

theorem blocks_visitList_mono (z : Sizing) (scope : String) (level : List (Node × Nat))
    (f : Found) : f.blocks ≤ (z.visitList scope level f).blocks :=
  (adds_visitList (fun s _ g => adds_visit s.1 scope s.2 g) f).blocks_le

/-- Of two walks over the same nodes one finds no fewer blocks, if it does so at each. -/
theorem blocks_visitList_le
    (each : ∀ s ∈ level, ∀ f g, (coarse.visit scope s.1 s.2 g).blocks + f.blocks ≤
      (fine.visit scope s.1 s.2 f).blocks + g.blocks) (f g : Found) :
    (coarse.visitList scope level g).blocks + f.blocks ≤
      (fine.visitList scope level f).blocks + g.blocks := by
  induction level generalizing f g with
  | nil => simp [Nat.add_comm]
  | cons s level ih =>
    have first := each s (by simp) f g
    have rest := ih (fun x hx => each x (by simp [hx])) (fine.visit scope s.1 s.2 f)
      (coarse.visit scope s.1 s.2 g)
    rw [visitList_cons, visitList_cons]
    omega

/-- The fine walk finds no fewer blocks of code at a node and inside it.  The induction is
along the walks, which part only at nodes that the fine one alone goes into. -/
theorem blocks_visit_le (n : Node) (scope : String) (share : Nat)
    (h : Finer fine coarse scope [(n, share)]) (f g : Found) :
    (coarse.visit scope n share g).blocks + f.blocks ≤
      (fine.visit scope n share f).blocks + g.blocks := by
  induction n using Node.induction_inside generalizing scope share f g with
  | step n ih =>
    have mem : (n, share) ∈ [(n, share)] := List.mem_singleton_self _
    have inner : (coarse.inside scope n g).blocks + f.blocks ≤
        (fine.inside scope n f).blocks + g.blocks := by
      unfold inside
      by_cases split : coarse.expands n = true
      · rw [if_pos split, if_pos (h.expands mem split), innerScope_congr fine coarse]
        refine blocks_visitList_le (fun s hs f g => ?_) { f with table := ∅ } { g with table := ∅ }
        have only : [(s.1, s.2)] ⊆ n.shares .collapsed := by simpa using hs
        exact ih s hs _ s.2 ((h.inside mem split).mono only) f g
      · rw [if_neg split]
        by_cases finer : fine.expands n = true
        · have more := blocks_visitList_mono fine (fine.innerScope scope n)
            (n.shares .collapsed) { f with table := ∅ }
          rw [if_pos finer]
          simp only at more ⊢
          omega
        · rw [if_neg finer]
          exact Nat.le_of_eq (Nat.add_comm _ _)
    rw [visit_eq, visit_eq, blocks_settle, blocks_settle, isBlock_congr fine coarse]
    omega

end Sizing

/-! ## Numbered blocks among the symbols -/

/-- The symbols of code without a name. -/
def anonymous (t : SymbolTable) : List Symbol := t.entries.filter (·.description.isSome)

/-- Whether a name is one of the kind that blocks of code are numbered with. -/
def isBlockName (name : String) : Bool := "code#".toList.isPrefixOf name.toList

/-- No identifier of a script has the sign that numbers of blocks stand behind. -/
def NumberSignFree (body : List Node) : Prop :=
  ∀ n ∈ body, n.Spells fun name => '#' ∉ name.toList

namespace Sizing

variable {z fine coarse : Sizing} {scope : String} {n : Node} {share : Nat} {body : List Node}

theorem toList_blockName (i : Nat) :
    (blockName i).toList = "code#".toList ++ (toString i).toList :=
  String.toList_append

theorem blockName_injective : Function.Injective blockName := by
  intro i j h
  have chars := congrArg String.toList h
  rw [toList_blockName, toList_blockName] at chars
  exact Nat.repr_injective (String.toList_inj.1 (List.append_cancel_left chars))

/-- The names that nodes of such a script are listed under are not those of blocks. -/
theorem ne_blockName (free : NumberSignFree body) {name : String}
    (reached : z.Reaches "" (topLevel body) scope n share)
    (listed : z.listedName? scope n = some name) (i : Nat) : name ≠ blockName i := by
  have spells : ∀ s ∈ topLevel body, s.1.Spells fun name => '#' ∉ name.toList := by
    intro s hs
    obtain ⟨m, hm, rfl⟩ := List.mem_map.1 hs
    exact free m hm
  obtain ⟨outer, here⟩ := reached.scope_of_spells (Q := fun scope => '#' ∉ scope.toList)
    (fun scope name delimiter hscope hname either => by
      rcases either with rfl | rfl <;> simp [hscope, hname]) spells (by simp)
  have plain : '#' ∉ name.toList := by
    unfold listedName? at listed
    split at listed
    · simp at listed
    · split at listed
      · rename_i own treated
        split at listed
        · obtain rfl := Option.some.inj listed
          simp [outer, here.treatment treated]
        · simp at listed
      · simp at listed
  intro same
  rw [same, toList_blockName] at plain
  simp at plain

/-- In such a script the symbols without a name of their own are exactly those that are
called like a block. -/
theorem description_visitAll (free : NumberSignFree body) :
    ∀ s ∈ (z.visitAll body).table.entries,
      s.description.isSome = true ↔ ∃ i, s.name = blockName i := by
  refine forall_mem_visitAll fun scope n share inner s reached kept => ?_
  rcases z.kept?_cases scope n share inner with
    ⟨x, kept', plain, listed⟩ | ⟨x, kept', described, name, _⟩ | ⟨kept', _⟩
  · obtain rfl := Option.some.inj (kept.symm.trans kept')
    simp only [plain, Option.isSome_none, Bool.false_eq_true, false_iff, not_exists]
    exact ne_blockName free reached listed
  · obtain rfl := Option.some.inj (kept.symm.trans kept')
    simp only [described, true_iff]
    exact ⟨_, name⟩
  · rw [kept'] at kept
    simp at kept

theorem anonymous_run (z : Sizing) (body : List Node) :
    anonymous (z.run body).1 = anonymous (z.visitAll body).table := by
  have table : (z.run body).1 = z.addRest (z.visitAll body).table := rfl
  rw [table, addRest_eq]
  by_cases rest : 0 < z.source.size - (z.visitAll body).table.total
  · rw [if_pos rest, anonymous, Roster.entries_insert_of_notMem (leftover_notMem z _),
      List.filter_append]
    simp [anonymous, leftover]
  · rw [if_neg rest]

/-- In such a script there are as many symbols without a name as blocks were counted. -/
theorem length_anonymous_run (z : Sizing) (free : NumberSignFree body) :
    (anonymous (z.run body).1).length = (z.visitAll body).blocks := by
  have described := description_visitAll (z := z) free
  have nodup : ((anonymous (z.visitAll body).table).map Symbol.name).Nodup :=
    (z.visitAll body).table.nodup.sublist (List.filter_sublist.map Symbol.name)
  have same : ((anonymous (z.visitAll body).table).map Symbol.name).toFinset =
      (Finset.range (z.visitAll body).blocks).image blockName := by
    ext name
    simp only [List.mem_toFinset, List.mem_map, anonymous, List.mem_filter, Finset.mem_image,
      Finset.mem_range]
    constructor
    · rintro ⟨s, ⟨hs, isSome⟩, rfl⟩
      obtain ⟨i, name⟩ := (described s hs).1 isSome
      rcases mem_keys_visitAll.1 (Roster.key_mem_keys hs) with named | ⟨j, _, lt, number⟩
      · obtain ⟨scope, n, share, reached, listed⟩ := named
        exact absurd name (ne_blockName free reached listed i)
      · exact ⟨j, lt, number.symm⟩
    · rintro ⟨i, lt, rfl⟩
      have mem : blockName i ∈ (z.visitAll body).table.keys :=
        mem_keys_visitAll.2 (Or.inr ⟨i, Nat.zero_le i, lt, rfl⟩)
      obtain ⟨s, hs, name⟩ := Roster.mem_keys.1 mem
      exact ⟨s, ⟨hs, (described s hs).2 ⟨i, name⟩⟩, name⟩
  have card := congrArg Finset.card same
  rw [List.toFinset_card_of_nodup nodup, Finset.card_image_of_injective _ blockName_injective,
    Finset.card_range, List.length_map] at card
  rw [anonymous_run, card]

/-! ## Whole scripts -/

theorem blocks_visitAll_le (h : Finer fine coarse "" (topLevel body)) :
    (coarse.visitAll body).blocks ≤ (fine.visitAll body).blocks := by
  rw [visitAll_eq, visitAll_eq]
  refine blocks_visitList_le (fun s hs f g => ?_) ⟨∅, 0, []⟩ ⟨∅, 0, []⟩
  exact blocks_visit_le s.1 "" s.2 (h.mono (by simpa using hs)) f g

theorem keys_visitAll_subset (h : Finer fine coarse "" (topLevel body)) :
    (coarse.visitAll body).table.keys ⊆ (fine.visitAll body).table.keys := by
  intro name mem
  rcases mem_keys_visitAll.1 mem with named | ⟨i, _, lt, number⟩
  · exact mem_keys_visitAll.2 (Or.inl (named.of_finer h))
  · have more := blocks_visitAll_le h
    exact mem_keys_visitAll.2 (Or.inr ⟨i, Nat.zero_le i, Nat.lt_of_lt_of_le lt more, number⟩)

/-- The symbols of a script are those of its nodes and the leftover. -/
theorem mem_entries_run {s : Symbol} (h : s ∈ (z.run body).1.entries) :
    s ∈ (z.visitAll body).table.entries ∨ s = z.leftover (z.visitAll body).table := by
  have table : (z.run body).1 = z.addRest (z.visitAll body).table := rfl
  rw [table, addRest_eq] at h
  by_cases rest : 0 < z.source.size - (z.visitAll body).table.total
  · rw [if_pos rest] at h
    exact (Roster.mem_of_mem_insert h).symm
  · rw [if_neg rest] at h
    exact Or.inl h

theorem keys_visitAll_subset_run (z : Sizing) (body : List Node) :
    (z.visitAll body).table.keys ⊆ (z.run body).1.keys := by
  intro name mem
  rw [mem_keys_run]
  exact (mem_keys_visitAll.1 mem).imp id Or.inl

theorem isBlockName_leftover (z : Sizing) (t : SymbolTable) :
    isBlockName (z.leftover t).name = false := by
  obtain ⟨j, _, name, _⟩ := freeName_spec "unclassified" Symbol.Kind.other.label t.keys
  have chosen : (z.leftover t).name = "unclassified" ++
      candidateEnding toString Symbol.Kind.other.label j := by
    rw [← nameCandidate_eq, ← name]
    simp [leftover, Symbol.name]
  rw [isBlockName, chosen, String.toList_append]
  rfl

/-- **Splitting more nodes only refines a script.**  If every node that the coarse walk
comes to and finds large enough to split is large enough for the fine one, then all
names of symbols remain, apart from that of the leftover, and there are at least as many
numbered blocks of code: as many by their names in any case, and as many symbols that
have no other name, since no identifier can be taken for the name of a block. -/
theorem run_refines (fine coarse : Sizing) (body : List Node)
    (finer : Finer fine coarse "" (topLevel body)) :
    (∀ s ∈ (coarse.run body).1.entries, s.kind ≠ .other → s.name ∈ (fine.run body).1.keys) ∧
    ((coarse.run body).1.keys.filter isBlockName).length ≤
      ((fine.run body).1.keys.filter isBlockName).length ∧
    (NumberSignFree body →
      (anonymous (coarse.run body).1).length ≤ (anonymous (fine.run body).1).length) := by
  have remain : (coarse.visitAll body).table.keys ⊆ (fine.run body).1.keys :=
    List.Subset.trans (keys_visitAll_subset finer) (keys_visitAll_subset_run fine body)
  refine ⟨fun s hs ne => ?_, ?_, fun free => ?_⟩
  · rcases mem_entries_run hs with hs | rfl
    · exact remain (Roster.key_mem_keys hs)
    · exact absurd rfl ne
  · have nodup : ((coarse.run body).1.keys.filter isBlockName).Nodup :=
      (coarse.run body).1.nodup.filter _
    refine (List.subperm_of_subset nodup fun name mem => ?_).length_le
    obtain ⟨mem, block⟩ := List.mem_filter.1 mem
    obtain ⟨s, hs, rfl⟩ := Roster.mem_keys.1 mem
    rcases mem_entries_run hs with hs | rfl
    · exact List.mem_filter.2 ⟨remain (Roster.key_mem_keys hs), block⟩
    · simp [isBlockName_leftover] at block
  · rw [length_anonymous_run coarse free, length_anonymous_run fine free]
    exact blocks_visitAll_le finer

/-- The tree of `function f(){var a=1}`. -/
def variableInFunction : Node :=
  .mk 0 21 (.functionDeclaration (some ⟨"f", 9, 10⟩) (.mk 12 21 (.blockStatement
    [.mk 13 20 (.variableDeclaration [.mk 17 20 (.variableDeclarator (some ⟨"a", 17, 18⟩)
      (some (.mk 19 20 .literal)))])])))

/-- The variable has a symbol only in the finer walk, the function in both. -/
theorem run_refines_variableInFunction :
    ∃ fine coarse : Sizing, Finer fine coarse "" (topLevel [variableInFunction]) ∧
      (fine.run [variableInFunction]).1.keys = ["f/a", "f"] ∧
      (coarse.run [variableInFunction]).1.keys = ["f"] ∧
      ∀ s ∈ (coarse.run [variableInFunction]).1.entries, s.kind ≠ .other →
        s.name ∈ (fine.run [variableInFunction]).1.keys := by
  let fine : Sizing := ⟨"function f(){var a=1}".toUTF8, fun n => 0 < n, []⟩
  let coarse : Sizing := ⟨"function f(){var a=1}".toUTF8, fun n => 1000 < n, []⟩
  have finer : Finer fine coarse "" (topLevel [variableInFunction]) := by
    intro scope n share reached large
    have more : 1000 < n.childrenLength .collapsed := of_decide_eq_true large
    exact decide_eq_true (Nat.zero_lt_of_lt more)
  exact ⟨fine, coarse, finer, by cbv, by cbv, (run_refines fine coarse _ finer).1⟩

/-- With settings that ask for fewer bytes to split a node, a script that is read from a
text has all names that it has with the others, apart from that of the leftover. -/
theorem names_measureScript_subset {fewer more : Settings} {source : String}
    {found found' : Measurement}
    (large : ∀ bytes, more.splits source.utf8ByteSize bytes = true →
      fewer.splits source.utf8ByteSize bytes = true)
    (h : measureScript fewer source = .ok found) (h' : measureScript more source = .ok found') :
    ∀ s ∈ found'.table.entries, s.kind ≠ .other → s.name ∈ found.table.keys := by
  unfold measureScript at h h'
  cases parsed : parse source with
  | error e =>
    rw [parsed] at h
    simp [bind, Except.bind] at h
  | ok body =>
    rw [parsed] at h h'
    injection h with h
    injection h' with h'
    intro s hs ne
    rw [← h'] at hs
    rw [← h]
    rcases mem_entries_run hs with hs | rfl
    · refine keys_visitAll_subset_run _ body (keys_visitAll_subset ?_ (Roster.key_mem_keys hs))
      exact fun scope n share _ => large _
    · exact absurd rfl ne

end Sizing

end SizeAtlas.Script
