import SizeAtlas.Proofs.Entering
import SizeAtlas.Proofs.Script.Lineage
import SizeAtlas.Proofs.Script.Refinement
import SizeAtlas.Proofs.Text.Segments

/-!
# Which node a symbol is of

Every symbol of a script is the symbol of a node, but for the leftover.  The walk came to
that node through others, all of which it splits, and the scope of the symbol is made of the
names of these.  It can be taken apart again: its segments are the names of the nodes above,
outermost first.

## Main definitions

* `IsScope` — a text that can stand before a name.
* `Sizing.Produces` — the walk makes a symbol for a node below others.

## Main statements

* `Sizing.exists_produces_of_mem_visitAll` — every symbol is made for a node.
* `Sizing.Produces.scope_eq` — its scope is made of the names of the nodes above.
* `Sizing.segments_scope_of_mem_run` — the segments of a scope are these names.
-/

namespace SizeAtlas.Script

/-! ## Nodes above -/

namespace Lineage

variable {visit : Visit} {level above : List Node} {n : Node} {P : String → Prop}

/-- What is spelled in nodes and in those below them. -/
theorem spells (h : Lineage visit level above n) (all : ∀ m ∈ level, m.Spells P) :
    (∀ a ∈ above, a.Spells P) ∧ n.Spells P := by
  induction h with
  | here mem => exact ⟨by simp, all _ mem⟩
  | inside mem below ih =>
    obtain ⟨rest, last⟩ := ih (all _ mem).of_mem_children
    exact ⟨List.forall_mem_cons.2 ⟨all _ mem, rest⟩, last⟩

end Lineage

/-- A text is empty or ends with a delimiter. -/
def IsScope (scope : String) : Prop :=
  scope = "" ∨ ∃ front, scope = front ++ "." ∨ scope = front ++ "/"

section

variable {visit : Visit} {name? : Node → Option String} {above : List Node}

theorem isScope_scopeAlong {scope : String} (outer : IsScope scope) :
    IsScope (scopeAlong visit name? scope above) := by
  induction above generalizing scope with
  | nil => exact outer
  | cons a above ih =>
    rw [scopeAlong_cons]
    refine ih ?_
    unfold Node.childScope
    cases name? a with
    | none => exact outer
    | some name =>
      refine Or.inr ⟨scope ++ name, (a.delimiter_eq_or (a.children visit)).imp ?_ ?_⟩
      · exact congrArg (scope ++ name ++ ·)
      · exact congrArg (scope ++ name ++ ·)

/-- A scope that is made of names without delimiters has just these as its segments. -/
theorem segments_scopeAlong (plain : ∀ a ∈ above, ∀ name, name? a = some name →
      Text.IsSegment Text.isDelimiter name) :
    Text.segments Text.isDelimiter (scopeAlong visit name? "" above) =
      above.filterMap name? := by
  rw [scopeAlong_eq, String.empty_append]
  induction above with
  | nil => simp
  | cons a above ih =>
    obtain ⟨here, rest⟩ := List.forall_mem_cons.1 plain
    rw [List.filterMap_cons, List.filterMap_cons]
    cases called : name? a with
    | none => simpa [qualifier, called] using ih rest
    | some name =>
      obtain ⟨c, single, cut⟩ : ∃ c, (a.delimiter (a.children visit)).toList = [c] ∧
          Text.isDelimiter c = true := by
        rcases a.delimiter_eq_or (a.children visit) with delimiter | delimiter
        · exact ⟨'.', by simp [delimiter], rfl⟩
        · exact ⟨'/', by simp [delimiter], rfl⟩
      have first : qualifier visit name? a = some (name ++ a.delimiter (a.children visit)) := by
        rw [qualifier, called, Option.map_some]
      rw [first]
      dsimp only
      rw [String.join_cons, Text.segments_append (here name called) single cut, ih rest]

end

namespace Sizing

/-- The walk over `level` in `scope`, which has found `f` before, makes the symbol `s` for
the node `n`, and comes to `n` through the nodes `above`. -/
inductive Produces (z : Sizing) :
    (scope : String) → (level : List (Node × Nat)) → (f : Found) →
      (above : List Node) → Node → (s : Symbol) → Prop
  | own {scope : String} {level : List (Node × Nat)} {f : Found} {n : Node} {share : Nat}
      {s : Symbol} (kept : z.kept? scope n share (z.inside scope n f) = some s) :
      Produces z scope ((n, share) :: level) f [] n s
  | inside {scope : String} {level : List (Node × Nat)} {f : Found} {above : List Node}
      {a n : Node} {share : Nat} {s : Symbol} (expands : z.expands a = true)
      (below : Produces z (z.innerScope scope a) (a.shares .collapsed) { f with table := ∅ }
        above n s) :
      Produces z scope ((a, share) :: level) f (a :: above) n s
  | later {scope : String} {level : List (Node × Nat)} {f : Found} {above : List Node}
      {m n : Node} {share : Nat} {s : Symbol}
      (rest : Produces z scope level (z.visit scope m share f) above n s) :
      Produces z scope ((m, share) :: level) f above n s

variable {z : Sizing} {scope : String} {level : List (Node × Nat)} {f : Found}
  {above : List Node} {n : Node} {share : Nat} {s : Symbol}

/-! ## Every symbol is made for a node -/

/-- What is made for the first nodes is made for all of them. -/
theorem Produces.append (h : z.Produces scope level f above n s) (more : List (Node × Nat)) :
    z.Produces scope (level ++ more) f above n s := by
  induction h with
  | own kept => exact .own kept
  | inside expands below _ => exact .inside expands below
  | later _ ih => exact .later ih

theorem exists_produces_of_mem_visitList
    (each : ∀ m ∈ level, ∀ f, s ∈ (z.visit scope m.1 m.2 f).table.entries →
      s ∈ f.table.entries ∨ ∃ above n, z.Produces scope [m] f above n s)
    (f : Found) (mem : s ∈ (z.visitList scope level f).table.entries) :
    s ∈ f.table.entries ∨ ∃ above n, z.Produces scope level f above n s := by
  induction level generalizing f with
  | nil => exact Or.inl mem
  | cons m level ih =>
    obtain ⟨first, others⟩ := List.forall_mem_cons.1 each
    rcases ih others _ mem with before | ⟨above, n, produces⟩
    · refine (first f before).imp id ?_
      rintro ⟨above, n, produces⟩
      exact ⟨above, n, produces.append level⟩
    · exact Or.inr ⟨above, n, .later produces⟩

/-- A symbol that is found after a visit was found before, or the visit makes it.  The
induction is along the walk. -/
theorem exists_produces_of_mem_visit (n : Node) (scope : String) (share : Nat) (f : Found)
    (mem : s ∈ (z.visit scope n share f).table.entries) :
    s ∈ f.table.entries ∨ ∃ above m, z.Produces scope [(n, share)] f above m s := by
  induction n using Node.induction_inside generalizing scope share f s with
  | step n ih =>
    rw [visit_eq] at mem
    refine forall_mem_settle (P := fun s => s ∈ f.table.entries ∨
        ∃ above m, z.Produces scope [(n, share)] f above m s)
      (fun _ before => Or.inl before) ?_ (fun _ kept => Or.inr ⟨[], n, .own kept⟩) s mem
    intro s within
    unfold Sizing.inside at within
    by_cases expands : z.expands n = true
    · rw [if_pos expands] at within
      rcases exists_produces_of_mem_visitList
        (fun c hc f => ih c hc (z.innerScope scope n) c.2 f) _ within with before | produced
      · simp at before
      · obtain ⟨above, m, produces⟩ := produced
        exact Or.inr ⟨n :: above, m, .inside expands produces⟩
    · rw [if_neg expands] at within
      simp at within

/-- Every symbol in the table of a script is made for a node. -/
theorem exists_produces_of_mem_visitAll {body : List Node}
    (mem : s ∈ (z.visitAll body).table.entries) :
    ∃ above n, z.Produces "" (topLevel body) ⟨∅, 0, []⟩ above n s := by
  rw [visitAll_eq] at mem
  rcases exists_produces_of_mem_visitList
    (fun m _ f => exists_produces_of_mem_visit m.1 "" m.2 f) _ mem with before | produces
  · simp at before
  · exact produces

/-! ## The nodes above a symbol -/

namespace Produces

/-- The walk comes to the node of a symbol from its first nodes down. -/
theorem lineage (h : z.Produces scope level f above n s) :
    Lineage .collapsed (level.map Prod.fst) above n := by
  induction h with
  | own _ => exact .here List.mem_cons_self
  | inside _ _ ih =>
    rw [Node.map_fst_shares] at ih
    exact .inside List.mem_cons_self ih
  | later _ ih => exact ih.mono (List.subset_cons_self _ _)

/-- All nodes above that of a symbol are split. -/
theorem expands (h : z.Produces scope level f above n s) : ∀ a ∈ above, z.expands a = true := by
  induction h with
  | own _ => simp
  | inside expands _ ih => exact List.forall_mem_cons.2 ⟨expands, ih⟩
  | later _ ih => exact ih

/-- The scope of a symbol is that of its first nodes with the names of the nodes above it. -/
theorem scope_eq (h : z.Produces scope level f above n s) :
    s.scope = scopeAlong .collapsed (fun a => (a.treatment z.splits).name) scope above := by
  induction h with
  | own kept => exact (scope_and_size_of_kept? kept).1
  | inside _ _ ih => exact ih
  | later _ ih => exact ih

end Produces

/-! ## Taking scopes apart -/

theorem name_treatment_of_isContainer {splits : Nat → Bool} (container : n.isContainer = true) :
    (n.treatment splits).name = none := by
  simp [Node.treatment, container]

/-- **Scopes are taken apart again.**  Let no identifier of a script be empty or have a
delimiter in it.  Each symbol that is listed is found under the name that its scope and its
own name make; the scope is empty or ends with a delimiter.  Unless it is the leftover, the
walk made the symbol for a node, which it came to through nodes that are all split, and the
segments of the scope are the names that those of them have that are not mere containers,
outermost first. -/
theorem segments_scope_of_mem_run {body : List Node}
    (plain : ∀ n ∈ body, n.Spells (Text.IsSegment Text.isDelimiter)) :
    ∀ s ∈ (z.run body).1.entries,
      s.name = s.scope ++ s.selfName ∧ (z.run body).1.find? s.name = some s ∧
      IsScope s.scope ∧
      ((∃ above n, z.Produces "" (topLevel body) ⟨∅, 0, []⟩ above n s) ∨
        s = z.leftover (z.visitAll body).table ∧ s.scope = "") ∧
      ∀ above n, z.Produces "" (topLevel body) ⟨∅, 0, []⟩ above n s →
        Lineage .collapsed body above n ∧ (∀ a ∈ above, z.expands a = true) ∧
        Text.segments Text.isDelimiter s.scope =
          (above.filter (!·.isContainer)).filterMap fun a => (a.treatment z.splits).name := by
  intro s mem
  have produced : (∃ above n, z.Produces "" (topLevel body) ⟨∅, 0, []⟩ above n s) ∨
      s = z.leftover (z.visitAll body).table ∧ s.scope = "" :=
    (mem_entries_run mem).imp exists_produces_of_mem_visitAll (by rintro rfl; exact ⟨rfl, rfl⟩)
  refine ⟨rfl, Roster.mem_entries_iff.1 mem, ?_, produced, ?_⟩
  · rcases produced with ⟨above, n, produces⟩ | ⟨-, empty⟩
    · rw [produces.scope_eq]
      exact isScope_scopeAlong (Or.inl rfl)
    · exact Or.inl empty
  · intro above n produces
    have lineage : Lineage .collapsed body above n := by
      simpa [topLevel, Function.comp_def] using produces.lineage
    refine ⟨lineage, produces.expands, ?_⟩
    rw [produces.scope_eq, segments_scopeAlong, List.filterMap_filter]
    · refine List.filterMap_congr fun a _ => ?_
      cases container : a.isContainer with
      | false => rfl
      | true => exact name_treatment_of_isContainer container
    · exact fun a ha name called => ((lineage.spells plain).1 a ha).treatment called

/-- The tree of `var o={p:function(){var v=1}};`. -/
def variableInMethod : Node :=
  .mk 0 30 (.variableDeclaration [.mk 4 29 (.variableDeclarator (some ⟨"o", 4, 5⟩)
    (some (.mk 6 29 (.objectExpression [.mk 7 28 (.property
      (some (.mk 7 8 (.identifier "p")))
      (.mk 9 28 (.functionExpression none (.mk 19 28 (.blockStatement
        [.mk 20 27 (.variableDeclaration [.mk 24 27 (.variableDeclarator (some ⟨"v", 24, 25⟩)
          (some (.mk 26 27 .literal)))])])))))]))))])

/-- The scope of the variable is made of the names of the object and of its property; the
literal, the function and the block between have none. -/
theorem segments_scope_variableInMethod :
    ∃ (z : Sizing) (s : Symbol) (above : List Node) (n : Node),
      (∀ n ∈ [variableInMethod], n.Spells (Text.IsSegment Text.isDelimiter)) ∧
      s ∈ (z.run [variableInMethod]).1.entries ∧ s.name = "o.p/v" ∧
      z.Produces "" (topLevel [variableInMethod]) ⟨∅, 0, []⟩ above n s ∧
      (above.filter (!·.isContainer)).filterMap (fun a => (a.treatment z.splits).name) =
        ["o", "p"] := by
  let z : Sizing := ⟨"var o={p:function(){var v=1}};".toUTF8, fun n => 0 < n, []⟩
  have plain : ∀ n ∈ [variableInMethod], n.Spells (Text.IsSegment Text.isDelimiter) := by
    simp [variableInMethod, Node.Spells.mk_iff, Node.spelling, Node.form, Form.parts,
      Text.IsSegment, Text.isDelimiter]
  have listed : (z.run [variableInMethod]).1.entries.map (fun s => (s.name, s.scope)) =
      [("o.p/v", "o.p/"), ("o.p", "o."), ("o", "")] := by
    cbv
  obtain ⟨s, mem, called⟩ : ∃ s ∈ (z.run [variableInMethod]).1.entries,
      (s.name, s.scope) = ("o.p/v", "o.p/") :=
    List.mem_map.1 (listed ▸ List.mem_cons_self)
  obtain ⟨name, scope⟩ := Prod.mk.inj called
  obtain ⟨-, -, -, produced, names⟩ := segments_scope_of_mem_run (z := z) plain s mem
  rcases produced with ⟨above, n, produces⟩ | ⟨-, empty⟩
  · refine ⟨z, s, above, n, plain, mem, name, produces, ?_⟩
    rw [← (names above n produces).2.2, scope]
    decide
  · rw [scope] at empty
    exact absurd empty (by decide)

end Sizing

end SizeAtlas.Script
