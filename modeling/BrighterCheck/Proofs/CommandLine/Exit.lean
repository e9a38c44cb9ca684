import BrighterCheck.CommandLine.Run
import BrighterCheck.Proofs.Program.Diagnostics

/-!
# The exit status

A run succeeds if all its files are loaded and everything found in them is ignored, or reported as a
warning where warnings do no harm (`Run.exit_eq_zero_iff`). What is found does not depend on the
options, and all of it is an error at first, so that the exit status is monotone in the options.
-/

namespace BrighterCheck

namespace Program

/-- The same program under other options. -/
def withConfig (p : Program) (config : Config) : Program :=
  { p with config }

variable {p : Program} {path : Path} {source : String} {config : Config}

lemma register_withConfig :
    (p.withConfig config).register path source =
      ((p.register path source).1.withConfig config, (p.register path source).2) := by
  have hnumber : (p.withConfig config).number? path = p.number? path := rfl
  unfold register
  rw [hnumber]
  cases p.number? path with
  | none => rfl
  | some n => rfl

/-- Options change what is shown of an addition, and nothing else. -/
lemma program_add_withConfig :
    ((p.withConfig config).add path source).program =
      (p.add path source).program.withConfig config := by
  unfold add
  rw [register_withConfig]
  cases ParsedFile.ofSource source with
  | error e => rfl
  | ok parsed => rfl

lemma diagnostics_withConfig :
    (p.withConfig config).validate.diagnostics =
      ((p.validate.files.flatMap ScriptFile.openDiagnostics).filter fun d =>
        !config.ignore.contains d.code).map (graded config) :=
  rfl

end Program

namespace Run

variable {r : Run} {name : String} {text : Except ReadFailure String}
  {texts : List (String × Except ReadFailure String)} {o o' : Options} {d : Diagnostic}

/-- A text that could be read and is a file. -/
def Loads (text : Except ReadFailure String) : Prop :=
  ∃ source f, text = .ok source ∧ ParsedFile.ofSource source = .ok f

/-- A run that has loaded all files. -/
def loaded (config : Config) (texts : List (String × Except ReadFailure String)) : Run :=
  texts.foldl (fun r (name, text) => r.load name text) (start config)

/-- What is found in the files and not suppressed by their flags, before the options apply. -/
def found (texts : List (String × Except ReadFailure String)) : List Diagnostic :=
  (loaded {} texts).program.validate.files.flatMap ScriptFile.openDiagnostics

/-- A file that is not loaded counts as a failure for good. -/
lemma failures_load_eq_zero_iff :
    (r.load name text).failures = 0 ↔ r.failures = 0 ∧ Loads text := by
  unfold load Program.load Loads
  cases text with
  | error e => simp [Except.map]
  | ok source =>
    cases hparsed : ParsedFile.ofSource source with
    | error e => simp [Except.map, Program.add, hparsed]
    | ok f => simp [Except.map, Program.add, hparsed]

lemma failures_foldl_eq_zero_iff (r : Run) :
    (texts.foldl (fun r (name, text) => r.load name text) r).failures = 0 ↔
      r.failures = 0 ∧ ∀ entry ∈ texts, Loads entry.2 := by
  induction texts generalizing r with
  | nil => simp
  | cons entry texts ih =>
    rw [List.foldl_cons, ih, failures_load_eq_zero_iff, List.forall_mem_cons, and_assoc]

/-- Loading a file does the same to a program whatever its options are. -/
lemma program_load {r' : Run} {config : Config} (h : r.program = r'.program.withConfig config) :
    (r.load name text).program = (r'.load name text).program.withConfig config := by
  unfold load Program.load
  cases text with
  | error e => exact h
  | ok source =>
    rw [h]
    exact Program.program_add_withConfig

lemma program_foldl {r' : Run} {config : Config} (h : r.program = r'.program.withConfig config) :
    (texts.foldl (fun r (name, text) => r.load name text) r).program =
      (texts.foldl (fun r (name, text) => r.load name text) r').program.withConfig config := by
  induction texts generalizing r r' with
  | nil => exact h
  | cons entry texts ih => exact ih (program_load h)

/-- Options leave out some of what was found, and change the severity of some. -/
lemma diagnostics_loaded (config : Config) :
    (loaded config texts).program.validate.diagnostics =
      ((found texts).filter fun d => !config.ignore.contains d.code).map
        (Program.graded config) := by
  have hprogram : (loaded config texts).program = (loaded {} texts).program.withConfig config :=
    program_foldl rfl
  rw [hprogram]
  exact Program.diagnostics_withConfig

/-- Everything is found as an error. -/
lemma severity_of_mem_found (h : d ∈ found texts) : d.severity = .error := by
  obtain ⟨f, hf, hd⟩ := List.mem_flatMap.1 h
  obtain ⟨g, -, rfl⟩ := List.mem_map.1 hf
  have hitem : d ∈ g.validate.sink.items := List.mem_of_mem_filter hd
  rw [g.items_validate, Tree.diagnosticsAlone, Analysis.items_validate] at hitem
  obtain ⟨finding, -, rfl⟩ := List.mem_map.1 hitem
  rfl

/-- What is found is reported with the severity that the options give to its code. -/
lemma severity_graded {config : Config} (h : d ∈ found texts) :
    (Program.graded config d).severity = if d.code ∈ config.warn then .warning else .error := by
  unfold Program.graded
  simp only [List.contains_iff_mem]
  split
  · rfl
  · exact severity_of_mem_found h

lemma fails_eq_false_iff {warningsAsErrors : Bool} {failures : Nat} {ds : List Diagnostic} :
    fails warningsAsErrors failures ds = false ↔
      failures = 0 ∧ ∀ d ∈ ds, d.severity ≠ .error ∧
        (warningsAsErrors = true → d.severity ≠ .warning) := by
  cases warningsAsErrors with
  | false => simp [fails, countOf]
  | true => simp [fails, countOf, and_assoc, ← forall_and]

/-- Where everything is found as an error, only a warning that does no harm is no failure. -/
lemma harmless_iff (h : d ∈ found texts) :
    ((Program.graded o.config d).severity ≠ .error ∧
      (o.warningsAsErrors = true → (Program.graded o.config d).severity ≠ .warning)) ↔
        o.warningsAsErrors = false ∧ d.code ∈ o.config.warn := by
  rw [severity_graded h]
  by_cases hwarn : d.code ∈ o.config.warn
  · simp [hwarn]
  · simp [hwarn]

/--
A run succeeds if all files are loaded, and what is found in them has a code that is ignored, or one
of a warning while warnings are no errors.
-/
theorem exit_eq_zero_iff :
    (outcome o texts).exit = 0 ↔ (∀ entry ∈ texts, Loads entry.2) ∧ ∀ d ∈ found texts,
      d.code ∈ o.config.ignore ∨ o.warningsAsErrors = false ∧ d.code ∈ o.config.warn := by
  have hexit : (outcome o texts).exit =
      if fails o.warningsAsErrors (loaded o.config texts).failures
        (loaded o.config texts).program.validate.diagnostics then 1 else 0 := rfl
  have hfailures : (loaded o.config texts).failures = 0 ↔ ∀ entry ∈ texts, Loads entry.2 :=
    (failures_foldl_eq_zero_iff _).trans (and_iff_right rfl)
  have hzero (b : Bool) : (if b = true then 1 else 0) = 0 ↔ b = false := by
    cases b <;> simp
  rw [hexit, hzero, fails_eq_false_iff, hfailures, diagnostics_loaded, List.forall_mem_map]
  refine and_congr_right fun _ => ?_
  have hmem (d : Diagnostic) :
      d ∈ (found texts).filter (fun d => !o.config.ignore.contains d.code) ↔
        d ∈ found texts ∧ d.code ∉ o.config.ignore := by
    simp
  simp only [hmem, and_imp, or_iff_not_imp_left]
  exact forall₂_congr fun d hd => imp_congr_right fun _ => harmless_iff hd

/-- A run that does not succeed fails. -/
lemma exit_eq_one_iff : (outcome o texts).exit = 1 ↔ (outcome o texts).exit ≠ 0 := by
  have hexit : (outcome o texts).exit =
      if fails o.warningsAsErrors (loaded o.config texts).failures
        (loaded o.config texts).program.validate.diagnostics then 1 else 0 := rfl
  rw [hexit]
  split
  · simp
  · simp

/--
The exit status over the same files is monotone in the options. A run that succeeds does so with
more codes ignored, and with more codes of warnings unless warnings are errors. Where they are, the
codes of warnings have no effect, and a run that fails while they are none fails as well. Whatever
the options are, a run fails if one of its files cannot be loaded, under whichever name it was given
and however often.
-/
theorem exit_monotone (texts : List (String × Except ReadFailure String)) (o o' : Options) :
    (o.config.ignore ⊆ o'.config.ignore → o'.config.warn = o.config.warn →
      o'.warningsAsErrors = o.warningsAsErrors →
        (outcome o texts).exit = 0 → (outcome o' texts).exit = 0) ∧
    (o.config.warn ⊆ o'.config.warn → o'.config.ignore = o.config.ignore →
      o.warningsAsErrors = false → o'.warningsAsErrors = false →
        (outcome o texts).exit = 0 → (outcome o' texts).exit = 0) ∧
    (o'.config.ignore = o.config.ignore → o.warningsAsErrors = true →
      o'.warningsAsErrors = true → (outcome o' texts).exit = (outcome o texts).exit) ∧
    (o'.config.ignore = o.config.ignore → o'.config.warn = o.config.warn →
      o.warningsAsErrors = false → o'.warningsAsErrors = true →
        (outcome o texts).exit = 1 → (outcome o' texts).exit = 1) ∧
    ∀ entry ∈ texts, ¬ Loads entry.2 → (outcome o texts).exit = 1 := by
  simp only [exit_eq_one_iff, exit_eq_zero_iff, ne_eq]
  refine ⟨?_, ?_, ?_, ?_, ?_⟩
  · rintro hignore hwarn hstrict ⟨hloads, hfound⟩
    refine ⟨hloads, fun d hd => ?_⟩
    rw [hwarn, hstrict]
    exact (hfound d hd).imp_left fun h => hignore h
  · rintro hwarn hignore hlax hlax' ⟨hloads, hfound⟩
    refine ⟨hloads, fun d hd => ?_⟩
    rw [hignore, hlax']
    exact (hfound d hd).imp_right fun h => ⟨rfl, hwarn h.2⟩
  · intro hignore hstrict hstrict'
    have hzero : (outcome o' texts).exit = 0 ↔ (outcome o texts).exit = 0 := by
      rw [exit_eq_zero_iff, exit_eq_zero_iff, hignore, hstrict, hstrict']
      simp
    by_cases h : (outcome o texts).exit = 0
    · rw [h, hzero.2 h]
    · rw [exit_eq_one_iff.2 h, exit_eq_one_iff.2 (mt hzero.1 h)]
  · -- What does no harm where warnings are errors does none where they are not.
    rintro hignore hwarn hlax hstrict hfails ⟨hloads, hfound⟩
    refine hfails ⟨hloads, fun d hd => .inl ?_⟩
    rw [← hignore]
    exact (hfound d hd).resolve_right fun h => Bool.noConfusion (h.1.symm.trans hstrict)
  · rintro entry hentry hlost ⟨hloads, -⟩
    exact hlost (hloads entry hentry)

/--
Two files with statements outside functions and a late import, under more and more options; and a
file that is given twice, the first time with a syntax error.
-/
theorem exit_monotone_of_two_files :
    let texts : List (String × Except ReadFailure String) :=
      [("a.bs", .ok "x = 1"), ("b.bs", .ok "y = 2\nimport \"c\"")]
    let lost : List (String × Except ReadFailure String) :=
      [("a.bs", .ok "x = ("), ("a.bs", .ok "sub a()\nend sub")]
    let options (ignore warn : List Nat) (warningsAsErrors : Bool) : Options :=
      { config := { ignore, warn }, warningsAsErrors }
    let run (ignore warn : List Nat) (warningsAsErrors : Bool) : Nat :=
      (outcome (options ignore warn warningsAsErrors) texts).exit
    run [1112, 1110] [] false = 0 ∧ run [1110, 1109, 1112] [] false = 0 ∧
      run [] [1112, 1110] false = 0 ∧ run [] [1110, 1109, 1112] false = 0 ∧
      run [1112] [] true = 1 ∧ run [1112] [1110] true = 1 ∧
      run [1110] [] false = 1 ∧ run [1110] [] true = 1 ∧
      ¬ Loads (.ok "x = (") ∧ (outcome {} lost).exit = 1 := by
  intro texts lost options run
  have hignored : run [1112, 1110] [] false = 0 := by decide +kernel
  have hwarned : run [] [1112, 1110] false = 0 := by decide +kernel
  have hstrict : run [1112] [] true = 1 := by decide +kernel
  have hfails : run [1110] [] false = 1 := by decide +kernel
  have hlost : ¬ Loads (.ok "x = (") := by
    rintro ⟨_, f, ⟨⟩, hf⟩
    have hnone : (ParsedFile.ofSource "x = (").toOption.isNone = true := by decide +kernel
    rw [hf] at hnone
    cases hnone
  have hignore : [1112, 1110] ⊆ [1110, 1109, 1112] := by decide
  refine ⟨hignored, ?_, hwarned, ?_, hstrict, ?_, hfails, ?_, hlost, ?_⟩
  · exact (exit_monotone texts (options _ [] false) (options _ [] false)).1 hignore rfl rfl hignored
  · exact (exit_monotone texts (options [] _ false) (options [] _ false)).2.1 hignore rfl rfl rfl
      hwarned
  · exact ((exit_monotone texts (options [1112] [] true) (options [1112] [1110] true)).2.2.1 rfl
      rfl rfl).trans hstrict
  · exact (exit_monotone texts (options _ [] false) (options _ [] true)).2.2.2.1 rfl rfl rfl rfl
      hfails
  · exact (exit_monotone lost {} {}).2.2.2.2 _ (.head _) hlost

end Run

end BrighterCheck
