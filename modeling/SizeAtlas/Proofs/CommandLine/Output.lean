import SizeAtlas.CommandLine.Run
import SizeAtlas.Proofs.Json.Grammar

/-!
# What a run prints

A run reads and measures everything that may fail before it prints anything, and
printing does not fail.  So a run that fails has printed nothing to the output.  If
JSON is wanted, the texts of symbols go to the error stream, and the output is the text
of one value and a line end.

## Main definitions

* `Step.Clean`, `Step.Sure` — a step that prints nothing if it fails, and one that does
  not fail.
* `Fails` — why a run with given options fails.
* `Answers` — the value that a run with given options is to print.

## Main statements

* `clean_steps` — a run that fails has printed nothing.
* `failsFrom_steps` — when a run fails.
* `output_steps` — what a run that does not fail prints as JSON.
* `run_allOrNothing` — all of this for the command line.
-/

namespace SizeAtlas

/-! ## Values that are printed -/

namespace Json

theorem written_renames (renames : Renames) : Written renames.toJson := by
  refine written_object fun member hm => ?_
  obtain ⟨pair, -, rfl⟩ := List.mem_map.1 hm
  exact written_text pair.2

theorem written_report (r : Report) (renames : Renames) : Written (r.toJson renames) := by
  refine written_list fun v hv => ?_
  obtain ⟨s, -, rfl⟩ := List.mem_map.1 hv
  apply written_object
  simp [Report.members, or_imp, forall_and, written_text, written_ofNat]

end Json

namespace CommandLine

/-! ## Steps -/

namespace Step

variable {α β : Type}

/-- A step that has printed nothing if it fails. -/
def Clean (x : Step α) : Prop := ∀ s fault s', x.run s = .error fault s' → s' = s

/-- A step that does not fail. -/
def Sure (x : Step α) : Prop := ∀ s, ∃ a s', x.run s = .ok a s'

/-- A step fails after `s` has been printed. -/
def FailsFrom (s : Streams) (x : Step α) : Prop := ∃ fault s', x.run s = .error fault s'

theorem Sure.not_failsFrom {x : Step α} (h : Sure x) (s : Streams) : ¬FailsFrom s x := by
  rintro ⟨fault, s', failed⟩
  obtain ⟨a, s'', done⟩ := h s
  rw [done] at failed
  cases failed

theorem Sure.clean {x : Step α} (h : Sure x) : Clean x :=
  fun s fault s' failed => absurd ⟨fault, s', failed⟩ (h.not_failsFrom s)

theorem run_bind_eq_ok {x : Step α} {f : α → Step β} {s s' : Streams} {b : β}
    (h : (x >>= f).run s = .ok b s') :
    ∃ a s₁, x.run s = .ok a s₁ ∧ (f a).run s₁ = .ok b s' := by
  rw [EStateM.run_bind] at h
  cases first : x.run s with
  | ok a s₁ => exact ⟨a, s₁, rfl, by simpa [first] using h⟩
  | error fault s₁ => simp [first] at h

theorem run_ofExcept_bind_eq_ok {r : Except Fault α} {f : α → Step β} {s s' : Streams} {b : β}
    (h : (ofExcept r >>= f).run s = .ok b s') : ∃ a, r = .ok a ∧ (f a).run s = .ok b s' := by
  cases r with
  | ok a => exact ⟨a, rfl, h⟩
  | error fault => cases h

theorem Sure.bind {x : Step α} {f : α → Step β} (hx : Sure x) (hf : ∀ a, Sure (f a)) :
    Sure (x >>= f) := by
  intro s
  obtain ⟨a, s', done⟩ := hx s
  obtain ⟨b, s'', done'⟩ := hf a s'
  refine ⟨b, s'', ?_⟩
  rw [EStateM.run_bind, done]
  exact done'

theorem Sure.forM {f : α → Step Unit} (hf : ∀ a, Sure (f a)) (l : List α) : Sure (l.forM f) := by
  induction l with
  | nil => exact fun s => ⟨(), s, rfl⟩
  | cons a l ih => exact (hf a).bind fun _ => ih

theorem sure_print (text : String) : Sure (print text) := fun _ => ⟨(), _, rfl⟩

theorem sure_printError (text : String) : Sure (printError text) := fun _ => ⟨(), _, rfl⟩

/-- What is decided before anything is printed fails cleanly. -/
theorem clean_ofExcept_bind (r : Except Fault α) {f : α → Step β} (hf : ∀ a, Clean (f a)) :
    Clean (ofExcept r >>= f) := by
  cases r with
  | ok a => exact hf a
  | error fault =>
    rintro s _ s' ⟨⟩
    rfl

/-- A step behind a decision fails if the decision is to fail or the step fails. -/
theorem failsFrom_ofExcept_bind {r : Except Fault α} {f : α → Step β} {s : Streams} :
    FailsFrom s (ofExcept r >>= f) ↔
      (∃ fault, r = .error fault) ∨ ∃ a, r = .ok a ∧ FailsFrom s (f a) := by
  cases r with
  | ok a =>
    have run : FailsFrom s (ofExcept (.ok a) >>= f) ↔ FailsFrom s (f a) := Iff.rfl
    simp [run]
  | error fault =>
    have run : FailsFrom s (ofExcept (.error fault) >>= f) := ⟨fault, s, rfl⟩
    simp [run]

end Step

/-! ## The steps of a run -/

variable {files : Files} {o : Options}

theorem sure_printDump (d : Script.Dump) : Step.Sure (printDump o d) := by
  unfold printDump
  split
  · exact Step.sure_printError _
  · exact Step.sure_print _

theorem sure_printFindings (renames : Renames) (found : Findings) :
    Step.Sure (printFindings o renames found) := by
  refine (Step.Sure.forM sure_printDump _).bind fun _ => ?_
  split <;> exact Step.sure_print _

theorem sure_printRenames (renames : Renames) : Step.Sure (printRenames o renames) := by
  unfold printRenames
  split <;> exact Step.sure_print _

/-- A run that fails to report sizes has printed nothing. -/
theorem clean_runReport : Step.Clean (runReport files o) :=
  Step.clean_ofExcept_bind _ fun renames =>
    Step.clean_ofExcept_bind _ fun found => (sure_printFindings renames found).clean

/-- A run that fails to recover renamings has printed nothing. -/
theorem clean_runRecovery (mapPath : String) : Step.Clean (runRecovery files o mapPath) := by
  unfold runRecovery
  split
  · exact Step.clean_ofExcept_bind _ fun renames => (sure_printRenames renames).clean
  · rintro s _ s' ⟨⟩
    rfl

/-- **A run that fails has printed nothing**, to either stream. -/
theorem clean_steps : Step.Clean (steps files o) := by
  unfold steps
  split
  · exact clean_runRecovery _
  · exact clean_runReport

/-! ## Why a run fails -/

/-- Why a run with the given options fails. -/
inductive Fails (files : Files) (o : Options) : Prop
  /-- Renamings are to be recovered for no file or for several. -/
  | inputCount {mapPath : String} (recovers : o.sourceMap = some mapPath)
    (count : o.files.length ≠ 1)
  /-- The renamings cannot be recovered. -/
  | recovery {mapPath scriptPath : String} {fault : Fault} (recovers : o.sourceMap = some mapPath)
    (input : o.files = [scriptPath])
    (h : recoverRenames files mapPath scriptPath = .error fault)
  /-- The renamings to show cannot be read. -/
  | renames {path : String} {fault : Fault} (reports : o.sourceMap = none)
    (shown : o.symbols = some path) (h : files.text path = .error fault)
  /-- One of the files cannot be measured. -/
  | input {path : String} {fault : Fault} (reports : o.sourceMap = none) (named : path ∈ o.files)
    (h : measureFile files o.settings path = .error fault)

theorem exists_mapM_eq_error {α β ε : Type} {f : α → Except ε β} {l : List α} :
    (∃ e, l.mapM f = .error e) ↔ ∃ a ∈ l, ∃ e, f a = .error e := by
  induction l with
  | nil => simp [pure, Except.pure]
  | cons a l ih =>
    rw [List.mapM_cons]
    cases here : f a with
    | error e => simp [bind, Except.bind, here]
    | ok b =>
      cases rest : l.mapM f with
      | error e =>
        have later : ∃ x ∈ l, ∃ e, f x = .error e := ih.1 ⟨e, rest⟩
        simp [bind, Except.bind, here, later]
      | ok bs =>
        have none : ¬∃ x ∈ l, ∃ e, f x = .error e := by simp [← ih, rest]
        simp [bind, Except.bind, pure, Except.pure, here, none]

/-- The measurement of several files fails if that of one of them does. -/
theorem exists_measureAll_eq_error {settings : Settings} {paths : List String} :
    (∃ fault, measureAll files settings paths = .error fault) ↔
      ∃ path ∈ paths, ∃ fault, measureFile files settings path = .error fault := by
  rw [← exists_mapM_eq_error, measureAll]
  cases paths.mapM (measureFile files settings) with
  | error e => simp [bind, Except.bind]
  | ok found => simp [bind, Except.bind]

theorem exists_shownRenames_eq_error :
    (∃ fault, shownRenames files o = .error fault) ↔
      ∃ path, o.symbols = some path ∧ ∃ fault, files.text path = .error fault := by
  unfold shownRenames
  cases o.symbols with
  | none => simp
  | some path => cases h : files.text path <;> simp [bind, Except.bind, h]

theorem failsFrom_runReport {s : Streams} :
    Step.FailsFrom s (runReport files o) ↔
      (∃ fault, shownRenames files o = .error fault) ∨
        ∃ fault, measureAll files o.settings o.files = .error fault := by
  have sure : ∀ renames found, ¬Step.FailsFrom s (printFindings o renames found) :=
    fun renames found => (sure_printFindings renames found).not_failsFrom s
  rw [runReport, Step.failsFrom_ofExcept_bind]
  simp only [Step.failsFrom_ofExcept_bind, sure, and_false, exists_false, or_false]
  cases shownRenames files o <;> simp

theorem failsFrom_runRecovery {mapPath : String} {s : Streams} :
    Step.FailsFrom s (runRecovery files o mapPath) ↔
      o.files.length ≠ 1 ∨ ∃ scriptPath, o.files = [scriptPath] ∧
        ∃ fault, recoverRenames files mapPath scriptPath = .error fault := by
  have sure : ∀ renames, ¬Step.FailsFrom s (printRenames o renames) :=
    fun renames => (sure_printRenames renames).not_failsFrom s
  unfold runRecovery
  split
  case h_1 scriptPath one =>
    simp [Step.failsFrom_ofExcept_bind, sure, one]
  case h_2 several =>
    have count : o.files.length ≠ 1 := by
      intro one
      obtain ⟨path, hp⟩ := List.length_eq_one_iff.1 one
      exact several path hp
    simp only [count, ne_eq, not_false_iff, true_or, iff_true]
    exact ⟨_, s, rfl⟩

theorem failsFrom_steps {s : Streams} : Step.FailsFrom s (steps files o) ↔ Fails files o := by
  unfold steps
  cases mode : o.sourceMap with
  | some mapPath =>
    simp only [failsFrom_runRecovery]
    constructor
    · rintro (count | ⟨scriptPath, input, fault, h⟩)
      · exact .inputCount mode count
      · exact .recovery mode input h
    · rintro (⟨-, count⟩ | @⟨path, scriptPath, fault, recovers, input, h⟩ | ⟨reports, -, -⟩ |
        ⟨reports, -, -⟩)
      · exact .inl count
      · obtain rfl : mapPath = path := Option.some.inj (mode.symm.trans recovers)
        exact .inr ⟨scriptPath, input, fault, h⟩
      · simp [mode] at reports
      · simp [mode] at reports
  | none =>
    simp only [failsFrom_runReport, exists_shownRenames_eq_error, exists_measureAll_eq_error]
    constructor
    · rintro (⟨path, shown, fault, h⟩ | ⟨path, named, fault, h⟩)
      · exact .renames mode shown h
      · exact .input mode named h
    · rintro (⟨recovers, -⟩ | ⟨recovers, -, -⟩ | ⟨-, shown, h⟩ | ⟨-, named, h⟩)
      · simp [mode] at recovers
      · simp [mode] at recovers
      · exact .inl ⟨_, shown, _, h⟩
      · exact .inr ⟨_, named, _, h⟩

/-! ## What a run prints as JSON -/

/-- The value that a run with the given options is to print as JSON. -/
inductive Answers (files : Files) (o : Options) : Json.Value → Prop
  /-- The renamings that a source map gives. -/
  | recovery {mapPath scriptPath : String} {renames : Renames}
    (recovers : o.sourceMap = some mapPath) (input : o.files = [scriptPath])
    (h : recoverRenames files mapPath scriptPath = .ok renames) : Answers files o renames.toJson
  /-- The report on the files. -/
  | report {renames : Renames} {found : Findings} (reports : o.sourceMap = none)
    (shown : shownRenames files o = .ok renames)
    (h : measureAll files o.settings o.files = .ok found) :
    Answers files o (found.report.toJson renames)

theorem output_forM_printDump (json : o.json = true) {dumps : List Script.Dump} {s s' : Streams}
    {u : Unit} (done : (dumps.forM (printDump o)).run s = .ok u s') : s'.output = s.output := by
  induction dumps generalizing s with
  | nil =>
    cases done
    rfl
  | cons d dumps ih =>
    obtain ⟨_, s₁, here, rest⟩ := Step.run_bind_eq_ok done
    rw [printDump, if_pos json] at here
    cases here
    exact (ih rest).trans rfl

/-- Symbols that are dumped do not come between what is printed as JSON. -/
theorem output_printFindings (json : o.json = true) {renames : Renames} {found : Findings}
    {s s' : Streams} {u : Unit} (done : (printFindings o renames found).run s = .ok u s') :
    s'.output = s.output ++ ((found.report.toJson renames).pretty ++ "\n") := by
  obtain ⟨_, s₁, dumped, printed⟩ := Step.run_bind_eq_ok done
  rw [if_pos json] at printed
  cases printed
  rw [← output_forM_printDump json dumped]

/-- A run that does not fail prints one value and a line end as JSON. -/
theorem output_steps (json : o.json = true) {s s' : Streams} {u : Unit}
    (done : (steps files o).run s = .ok u s') :
    ∃ v text, Answers files o v ∧ Json.Spells v text ∧
      s'.output = s.output ++ (String.ofList text ++ "\n") := by
  unfold steps at done
  cases mode : o.sourceMap with
  | some mapPath =>
    simp only [mode, runRecovery] at done
    split at done
    case h_1 scriptPath input =>
      obtain ⟨renames, h, printed⟩ := Step.run_ofExcept_bind_eq_ok done
      rw [printRenames, if_pos json] at printed
      cases printed
      refine ⟨_, _, .recovery mode input h, (Json.written_renames renames).compact, ?_⟩
      rw [Json.valueText, String.ofList_toList]
    case h_2 => cases done
  | none =>
    simp only [mode, runReport] at done
    obtain ⟨renames, shown, done⟩ := Step.run_ofExcept_bind_eq_ok done
    obtain ⟨found, h, printed⟩ := Step.run_ofExcept_bind_eq_ok done
    refine ⟨_, _, .report mode shown h, (Json.written_report found.report renames).pretty 0, ?_⟩
    rw [output_printFindings json printed, String.ofList_toList]
    rfl

/-! ## Outcomes -/

theorem exit_ofStep_ne_zero_iff {x : Step Unit} :
    (Outcome.ofStep x).exit ≠ 0 ↔ Step.FailsFrom {} x := by
  unfold Outcome.ofStep Step.FailsFrom
  cases x.run {} <;> simp

theorem output_ofStep_of_clean {x : Step Unit} (h : Step.Clean x)
    (failed : (Outcome.ofStep x).exit ≠ 0) : (Outcome.ofStep x).output = "" := by
  obtain ⟨fault, s, run⟩ := exit_ofStep_ne_zero_iff.1 failed
  rw [Outcome.ofStep, run, h _ _ _ run]

theorem exists_run_eq_ok {x : Step Unit} (done : (Outcome.ofStep x).exit = 0) :
    ∃ u s, x.run {} = .ok u s ∧ (Outcome.ofStep x).output = s.output := by
  unfold Outcome.ofStep at done ⊢
  cases run : x.run {} with
  | ok u s => exact ⟨u, s, rfl, rfl⟩
  | error fault s => simp [run] at done

/-- **A run prints all or nothing.**  It fails if its arguments are of no use, if
renamings are to be recovered for more or less than one file, or if a file that it needs
cannot be read or measured; then nothing goes to the output.  A run that does not fail
and is to print JSON prints the text of its answer and a line end, whatever symbols are
dumped. -/
theorem run_allOrNothing (files : Files) (arguments : List String) :
    (∀ e, Request.ofArguments arguments = .error e →
      (run files arguments).exit ≠ 0 ∧ (run files arguments).output = "") ∧
    ∀ o, Request.ofArguments arguments = .ok (.run o) → o.serve = false →
      ((run files arguments).exit ≠ 0 ↔ Fails files o) ∧
      ((run files arguments).exit ≠ 0 → (run files arguments).output = "") ∧
      ((run files arguments).exit = 0 → o.json = true → ∃ v text,
        Answers files o v ∧ Json.Spells v text ∧
          (run files arguments).output = String.ofList text ++ "\n") := by
  constructor
  · intro e useless
    simp [run, useless]
  · intro o asked _
    have outcome : run files arguments = .ofStep (steps files o) := by
      simp only [run, asked, runOptions]
    rw [outcome]
    refine ⟨exit_ofStep_ne_zero_iff.trans failsFrom_steps, output_ofStep_of_clean clean_steps, ?_⟩
    intro done json
    obtain ⟨u, s, ran, output⟩ := exists_run_eq_ok done
    obtain ⟨v, text, answer, spelled, printed⟩ := output_steps json ran
    refine ⟨v, text, answer, spelled, ?_⟩
    rw [output, printed, String.empty_append]

/-- Two modules, the first of which is nothing but a header and the second of an unknown
version. -/
def oneGoodModule : Files
  | "a.wasm" => some ⟨#[0, 0x61, 0x73, 0x6d, 1, 0, 0, 0]⟩
  | "b.wasm" => some ⟨#[0, 0x61, 0x73, 0x6d, 2, 0, 0, 0]⟩
  | _ => none

/-- The report on the first module is printed, unless the second is to be measured too or
no file is named. -/
theorem run_allOrNothing_oneGoodModule :
    (run oneGoodModule ["--json", "a.wasm"]).exit = 0 ∧
    (∃ v text, Json.Spells v text ∧
      (run oneGoodModule ["--json", "a.wasm"]).output = String.ofList text ++ "\n") ∧
    (run oneGoodModule ["--json", "a.wasm", "b.wasm"]).exit ≠ 0 ∧
    (run oneGoodModule ["--json", "a.wasm", "b.wasm"]).output = "" ∧
    (run oneGoodModule ["--json"]).exit ≠ 0 ∧ (run oneGoodModule ["--json"]).output = "" := by
  have good : (run oneGoodModule ["--json", "a.wasm"]).exit = 0 := by decide +kernel
  have bad : (run oneGoodModule ["--json", "a.wasm", "b.wasm"]).exit ≠ 0 := by decide +kernel
  obtain ⟨-, -, value⟩ := (run_allOrNothing oneGoodModule ["--json", "a.wasm"]).2
    { json := true, files := ["a.wasm"] } rfl rfl
  obtain ⟨-, nothing, -⟩ := (run_allOrNothing oneGoodModule ["--json", "a.wasm", "b.wasm"]).2
    { json := true, files := ["a.wasm", "b.wasm"] } rfl rfl
  obtain ⟨v, text, -, spelled, printed⟩ := value good rfl
  have useless := (run_allOrNothing oneGoodModule ["--json"]).1 .missingFiles rfl
  exact ⟨good, ⟨v, text, spelled, printed⟩, bad, nothing bad, useless⟩

end CommandLine

end SizeAtlas
