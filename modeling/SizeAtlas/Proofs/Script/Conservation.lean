import SizeAtlas.Measurement
import SizeAtlas.Proofs.Script.Nesting
import SizeAtlas.Proofs.Script.Walk

/-!
# Every byte of a script is counted once

In a well-nested script no node lists more bytes, with all that is inside it, than it
may give away.  So nothing is ever taken away from too little, and the leftover
fills the symbols up to the whole source.

## Main statements

* `Sizing.total_inside_le` — what is listed inside a node fits into it.
* `Sizing.total_visit_le` — a visit adds no more than the share of the node.
* `Sizing.total_run` — the symbols have as many bytes as the source.
* `Sizing.total_measureScript` — so have those of a script that is read from a text.
-/

namespace SizeAtlas.Script.Sizing

variable {z : Sizing} {body : List Node}

/-! ## Single steps -/

/-- Settling a node adds no more than its share, if what is inside it fits. -/
theorem total_settle_le {scope : String} {n : Node} {share : Nat} {f inner : Found}
    (fits : inner.table.total ≤ share) :
    (z.settle scope n share f inner).table.total ≤ f.table.total + share := by
  have merged := SymbolTable.total_extend_le f.table inner.table
  cases h : z.kept? scope n share inner with
  | some s =>
    have size := (scope_and_size_of_kept? h).2
    have entered := SymbolTable.total_insert_le (f.table.extend inner.table) s
    rw [settle_of_some z h, enter]
    simp only
    omega
  | none =>
    rw [settle_of_none z h]
    simp only
    omega

/-- A walk over nodes adds no more than they give away, if each visit does so. -/
theorem total_visitList_le {scope : String} {nodes : List (Node × Nat)}
    (each : ∀ s ∈ nodes, ∀ f, (z.visit scope s.1 s.2 f).table.total ≤ f.table.total + s.2)
    (f : Found) :
    (z.visitList scope nodes f).table.total ≤ f.table.total + (nodes.map Prod.snd).sum := by
  induction nodes generalizing f with
  | nil => simp
  | cons s nodes ih =>
    have first := each s (by simp) f
    have rest := ih (fun x hx => each x (by simp [hx])) (z.visit scope s.1 s.2 f)
    rw [visitList_cons, List.map_cons, List.sum_cons]
    omega

/-! ## Whole nodes -/

/-- What is listed inside a well-nested node fits into it.  The induction is along
the walk; each child lists at most its share, and the shares fit into the node. -/
theorem total_inside_le {n : Node} (h : n.WellNested) (scope : String) (f : Found) :
    (z.inside scope n f).table.total ≤ n.length := by
  induction n using Node.induction_inside generalizing scope f with
  | step n ih =>
    unfold inside
    split
    · have each : ∀ s ∈ n.shares .collapsed, ∀ g,
          (z.visit (z.innerScope scope n) s.1 s.2 g).table.total ≤ g.table.total + s.2 := by
        intro s hs g
        have nested := h.of_mem_children s.1 (Node.mem_children_of_mem_shares hs)
        rw [visit_eq]
        exact total_settle_le (Nat.le_trans (ih s hs nested _ g) (h.length_le_of_mem_shares hs))
      have all := total_visitList_le each { f with table := ∅ }
      have fits : ((n.shares .collapsed).map Prod.snd).sum ≤ n.length := h.sum_shares_le
      simp only [SymbolTable.total_empty] at all
      omega
    · simp

/-- A visit of a well-nested node adds no more than the share of the node. -/
theorem total_visit_le {n : Node} (h : n.WellNested) {share : Nat} (le : n.length ≤ share)
    (scope : String) (f : Found) :
    (z.visit scope n share f).table.total ≤ f.table.total + share := by
  rw [visit_eq]
  exact total_settle_le (Nat.le_trans (total_inside_le h scope f) le)

/-- Wherever the walk comes to from well-nested nodes, the node is well nested and
gives away no less than its own bytes. -/
theorem Reaches.wellNested {scope scope' : String} {level : List (Node × Nat)} {n : Node}
    {share : Nat} (h : z.Reaches scope level scope' n share)
    (nested : ∀ s ∈ level, s.1.WellNested ∧ s.1.length ≤ s.2) :
    n.WellNested ∧ n.length ≤ share := by
  induction h with
  | here mem => exact nested _ mem
  | @inside scope scope' level m n whole share mem expands below ih =>
    have outer := (nested _ mem).1
    exact ih fun s hs =>
      ⟨outer.of_mem_children s.1 (Node.mem_children_of_mem_shares hs),
        outer.length_le_of_mem_shares hs⟩

theorem topLevel_wellNested {size : Nat} (h : NestedIn size body) :
    ∀ s ∈ topLevel body, s.1.WellNested ∧ s.1.length ≤ s.2 := by
  intro s hs
  obtain ⟨n, hn, rfl⟩ := List.mem_map.1 hs
  exact ⟨h.nested n hn, Nat.le_refl _⟩

/-! ## Whole scripts -/

/-- The symbols before the leftover have no more bytes than the source. -/
theorem total_visitAll_le {size : Nat} (h : NestedIn size body) :
    (z.visitAll body).table.total ≤ size := by
  have each : ∀ s ∈ topLevel body, ∀ f,
      (z.visit "" s.1 s.2 f).table.total ≤ f.table.total + s.2 := by
    intro s hs f
    obtain ⟨nested, le⟩ := topLevel_wellNested h s hs
    exact total_visit_le nested le "" f
  have all := total_visitList_le each ⟨∅, 0, []⟩
  have lengths : (topLevel body).map Prod.snd = body.map Node.length := by
    rw [topLevel, List.map_map]
    rfl
  have fits := sum_length_le h.inside h.apart
  rw [visitAll_eq]
  rw [lengths, SymbolTable.total_empty] at all
  omega

/-- The leftover is listed under a name of its own and fills up the source. -/
theorem addRest_spec {t : SymbolTable} (le : t.total ≤ z.source.size) :
    (z.addRest t).total = z.source.size ∧ t.entries <+: (z.addRest t).entries := by
  rw [addRest_eq]
  split
  · refine ⟨?_, ?_⟩
    · rw [SymbolTable.total_insert_of_notMem (leftover_notMem z t), leftover]
      simp only
      omega
    · rw [Roster.entries_insert_of_notMem (leftover_notMem z t)]
      exact List.prefix_append _ _
  · exact ⟨by omega, List.prefix_rfl⟩

/-- **Every byte of a script is counted once.**  In a well-nested script, wherever
the walk comes to, what is listed inside a node is no more than the node may give
away, nor is it together with the node; no more is listed than the source has, and
the leftover replaces no symbol. -/
theorem total_run (z : Sizing) (nested : NestedIn z.source.size body) :
    (z.run body).1.total = z.source.size ∧
    (∀ scope n share, z.Reaches "" (topLevel body) scope n share → ∀ f,
      (z.inside scope n f).table.total ≤ share ∧
      (z.visit scope n share { f with table := ∅ }).table.total ≤ share) ∧
    (z.visitAll body).table.total ≤ z.source.size ∧
    (z.visitAll body).table.entries <+: (z.run body).1.entries := by
  have le := total_visitAll_le (z := z) nested
  obtain ⟨total, kept⟩ := addRest_spec le
  refine ⟨total, fun scope n share reached f => ?_, le, kept⟩
  obtain ⟨wellNested, enough⟩ := reached.wellNested (topLevel_wellNested nested)
  have visited := total_visit_le (z := z) wellNested enough scope { f with table := ∅ }
  refine ⟨Nat.le_trans (total_inside_le wellNested scope f) enough, ?_⟩
  simpa using visited

/-- The tree of `var a=1,b=2;`. -/
def twoDeclarators : Node :=
  .mk 0 12 (.variableDeclaration
    [.mk 4 7 (.variableDeclarator (some ⟨"a", 4, 5⟩) (some (.mk 6 7 .literal))),
     .mk 8 11 (.variableDeclarator (some ⟨"b", 8, 9⟩) (some (.mk 10 11 .literal)))])

theorem nestedIn_twoDeclarators : NestedIn 12 [twoDeclarators] := by
  have literal : ∀ start, (Node.mk start (start + 1) .literal).WellNested := by
    intro start
    refine .intro (Nat.le_succ start) ?_ .nil ?_ ?_ <;> simp [Node.form, Form.parts]
  have declarator : ∀ name start, (Node.mk start (start + 3) (.variableDeclarator
      (some ⟨name, start, start + 1⟩)
      (some (.mk (start + 2) (start + 3) .literal)))).WellNested := by
    intro name start
    refine .intro (Nat.le_add_right start 3) ?_ (List.pairwise_singleton _ _) ?_ ?_
    · simp [Node.form, Form.parts, Node.Inside, Node.start, Node.stop]
    · simp [Node.form]
    · simpa [Node.form, Form.parts] using literal (start + 2)
  refine ⟨?_, List.pairwise_singleton _ _, ?_⟩
  · simp [twoDeclarators, Node.Inside, Node.start, Node.stop]
  · rw [List.forall_mem_singleton]
    refine .intro (Nat.zero_le _) ?_ ?_ ?_ ?_
    · simp [twoDeclarators, Node.form, Form.parts, Node.Inside, Node.start, Node.stop]
    · rw [twoDeclarators, Node.form, Form.parts, List.pairwise_pair]
      intro offset first second
      simp only [Node.mem_bytes, Node.start, Node.stop] at first second
      omega
    · intro declarations form
      rw [twoDeclarators, Node.form, Form.variableDeclaration.injEq] at form
      simp [← form, Node.Before, Node.stop, Node.start]
    · simpa [twoDeclarators, Node.form, Form.parts] using ⟨declarator "a" 4, declarator "b" 8⟩

theorem total_run_twoDeclarators :
    ∃ z : Sizing, z.source = "var a=1,b=2;".toUTF8 ∧
      NestedIn z.source.size [twoDeclarators] ∧ (z.run [twoDeclarators]).1.total = 12 := by
  let z : Sizing := ⟨"var a=1,b=2;".toUTF8, fun n => 0 < n, []⟩
  have size : z.source.size = 12 := by decide
  have nested : NestedIn z.source.size [twoDeclarators] := size ▸ nestedIn_twoDeclarators
  have total := (total_run z nested).1
  exact ⟨z, rfl, nested, size ▸ total⟩

/-- Whatever the settings, the symbols of a text have as many bytes as the text. -/
theorem total_measureScript {settings : Settings} {source : String} {found : Measurement}
    (parsed : parse source = .ok body) (nested : NestedIn source.utf8ByteSize body)
    (h : measureScript settings source = .ok found) :
    found.table.total = source.utf8ByteSize := by
  unfold measureScript at h
  rw [parsed] at h
  injection h with found_eq
  have le : (Sizing.visitAll ⟨source.toUTF8, settings.splits source.toUTF8.size,
      settings.dump⟩ body).table.total ≤ source.toUTF8.size := total_visitAll_le nested
  rw [← found_eq]
  exact (addRest_spec le).1

end SizeAtlas.Script.Sizing
