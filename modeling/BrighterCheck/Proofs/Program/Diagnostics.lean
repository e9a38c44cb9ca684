import BrighterCheck.Proofs.Program.Files
import BrighterCheck.Proofs.Rule.Origin
import BrighterCheck.Proofs.Rule.Renewal

/-!
# The diagnostics of a program

After any history that ends with a validation, what a program reports is put together from files
that do not know of each other. The files are those whose last addition could be read, in the order
of these additions (`Program.scripts_afterAll`); each contributes what a validation of it alone
gives, without what its own flags suppress and what the options ignore. What concerns one path
follows from the last source that was added to it (`Program.filter_reports`).
-/

namespace BrighterCheck

/-- A path names type definitions or not, however its slashes and dots are written. -/
lemma Path.isTypedef_of_same {p q : Path} (h : p.same q = true) : p.isTypedef = q.isTypedef := by
  rw [isTypedef, fileName?, same_iff.1 h]
  rfl

/-- The path and the source that an operation adds. -/
def Operation.addition? : Operation → Option (Path × String)
  | .add path source => some (path, source)
  | .load path (.ok source) => some (path, source)
  | .load _ (.error _) => none
  | .validate => none

/-- What a validation of a tree alone finds, in the file with the number `n`. -/
def Tree.diagnosticsAlone (t : NumberedTree) (typedef : Bool) (n : Nat) : List Diagnostic :=
  ((Analysis.ofTree t).validate typedef (.empty n)).2.items

namespace Program

variable {path : Path} {source : String} {n : Nat}

/--
What is to be reported on a file with the given tokens and tree: what the tree gives alone, without
what a flag of the file suppresses and without the codes that are ignored, and as warnings what has
the code of a warning.
-/
def reports (config : Config) (typedef : Bool) (n : Nat) (s : TokenStream) (t : NumberedTree) :
    List Diagnostic :=
  ((t.diagnosticsAlone typedef n).filter fun d =>
    (CommentFlag.ofTokens s.tokens).all (fun flag => !flag.suppresses d) &&
      decide (d.code ∉ config.ignore)).map fun d =>
    if d.code ∈ config.warn then { d with severity := .warning } else d

/-! ### The last additions -/

/-- Additions without those behind which there is another one to the same path. -/
def latest : List (Path × String) → List (Path × String)
  | [] => []
  | a :: later => if later.any fun b => a.1.same b.1 then latest later else a :: latest later

/-- The file of an addition, if its source can be read. -/
def parsed? (a : Path × String) : Option (Path × ParsedFile) :=
  (ParsedFile.ofSource a.2).toOption.map fun f => (a.1, f)

/-- The files after some operations: those whose last addition could be read, in that order. -/
def standing (ops : List Operation) : List (Path × ParsedFile) :=
  (latest (ops.filterMap Operation.addition?)).filterMap parsed?

/-- The source that was added last to a path. -/
def lastSource? (ops : List Operation) (path : Path) : Option String :=
  ((ops.filterMap Operation.addition?).reverse.find? fun a => a.1.same path).map Prod.snd

/-- A further addition takes the place of the earlier one to its path, behind all others. -/
lemma latest_concat (as : List (Path × String)) (a : Path × String) :
    latest (as ++ [a]) = (latest as).filter (fun b => !b.1.same a.1) ++ [a] := by
  induction as with
  | nil => rfl
  | cons b as ih =>
    rw [List.cons_append, latest, latest, List.any_append, ih]
    cases hlater : as.any fun c => b.1.same c.1 with
    | true => rfl
    | false =>
      cases hsame : b.1.same a.1 with
      | true => simp [hsame]
      | false => simp [hsame]

/-- The last addition to a path is the only one of it among the last additions. -/
lemma filter_latest (as : List (Path × String)) (path : Path) :
    (latest as).filter (fun a => a.1.same path) =
      (as.reverse.find? fun a => a.1.same path).toList := by
  induction as using List.reverseRecOn with
  | nil => rfl
  | append_singleton as a ih =>
    rw [latest_concat, List.filter_append, List.filter_filter, List.reverse_append,
      List.reverse_singleton, List.singleton_append, List.find?_cons, List.filter_singleton]
    cases ha : a.1.same path with
    | true =>
      -- What has the path has that of the new addition, so that nothing of it is left.
      have hparts := Path.same_iff.1 ha
      have hnone : (latest as).filter (fun b => b.1.same path && !b.1.same a.1) = [] := by
        apply List.filter_eq_nil_iff.2
        intro b _
        simp [Path.same, hparts]
      rw [hnone]
      rfl
    | false =>
      have hparts := Path.same_eq_false_iff.1 ha
      have hall : (latest as).filter (fun b => b.1.same path && !b.1.same a.1) =
          (latest as).filter fun b => b.1.same path := by
        apply List.filter_congr
        intro b _
        cases hb : b.1.same path with
        | false => rfl
        | true =>
          have hne : b.1.same a.1 = false :=
            Path.same_eq_false_iff.2 fun h => hparts (h.symm.trans (Path.same_iff.1 hb))
          rw [hne]
          rfl
      rw [hall, ih]
      exact List.append_nil _

/-! ### The files of a history -/

/-- Reading sources keeps their paths. -/
lemma filter_parsed (as : List (Path × String)) (q : Path → Bool) :
    (as.filterMap parsed?).filter (fun s => q s.1) =
      (as.filter fun a => q a.1).filterMap parsed? := by
  rw [List.filter_filterMap, List.filterMap_filter]
  apply List.filterMap_congr
  intro a _
  rw [parsed?]
  cases (ParsedFile.ofSource a.2).toOption with
  | none => simp
  | some f => simp [Option.filter_some]

lemma standing_concat_of_addition {ops : List Operation} {op : Operation}
    (h : op.addition? = some (path, source)) :
    standing (ops ++ [op]) = (standing ops).filter (fun s => !s.1.same path) ++
      (ParsedFile.ofSource source).toOption.toList.map fun f => (path, f) := by
  have hlast : ([op].filterMap Operation.addition?) = [(path, source)] :=
    List.filterMap_cons_some h
  rw [standing, List.filterMap_append, hlast, latest_concat, List.filterMap_append, standing,
    filter_parsed _ fun q => !q.same path]
  congr 1
  cases hf : (ParsedFile.ofSource source).toOption with
  | none => simp [parsed?, hf]
  | some f => simp [parsed?, hf]

lemma standing_concat_of_none {ops : List Operation} {op : Operation} (h : op.addition? = none) :
    standing (ops ++ [op]) = standing ops := by
  rw [standing, List.filterMap_append, List.filterMap_cons_none h, List.filterMap_nil,
    List.append_nil]
  rfl

lemma config_register (p : Program) (path : Path) (source : String) :
    (p.register path source).1.config = p.config := by
  unfold register
  split
  · rfl
  · rfl

lemma perform_of_addition (p : Program) {op : Operation} (h : op.addition? = some (path, source)) :
    p.perform op = (p.add path source).program := by
  cases op with
  | add path' source' =>
    cases h
    rfl
  | load path' text =>
    cases text with
    | error e => cases h
    | ok source' =>
      cases h
      rfl
  | validate => cases h

/-- The options of a program stay as they are. -/
lemma config_afterAll (config : Config) (ops : List Operation) :
    (afterAll config ops).config = config := by
  induction ops using List.reverseRecOn with
  | nil => rfl
  | append_singleton ops op ih =>
    rw [afterAll_append]
    cases h : op.addition? with
    | some a =>
      rw [perform_of_addition _ h, program_add]
      exact (config_register _ _ _).trans ih
    | none =>
      cases op with
      | add => cases h
      | load path text =>
        cases text with
        | error e => exact ih
        | ok source => cases h
      | validate => exact ih

end Program

/-- What counts of a file for its diagnostics: its path, its tokens and its tree. -/
def ScriptFile.script (g : ScriptFile) : Path × TokenStream × NumberedTree :=
  (g.path, g.stream, g.analysis.tree)

lemma ScriptFile.script_validate (g : ScriptFile) : g.validate.script = g.script :=
  congrArg (fun t => (g.path, g.stream, t)) (g.analysis.tree_validate g.isTypedef g.sink)

/-- Whatever a file held before, a validation leaves what the tree alone gives. -/
lemma ScriptFile.items_validate (g : ScriptFile) : g.validate.sink.items =
    g.analysis.tree.diagnosticsAlone g.isTypedef g.fileId :=
  congrArg (fun outcome => outcome.2.items) (Analysis.validate_congr rfl rfl g.isTypedef)

namespace Program

variable {path : Path} {source : String} {n : Nat}

lemma scripts_add (p : Program) (path : Path) (source : String) :
    (p.add path source).program.files.map ScriptFile.script =
      (p.files.map ScriptFile.script).filter (fun s => !s.1.same path) ++
        (ParsedFile.ofSource source).toOption.toList.map fun f => (path, f.stream, f.tree) := by
  rw [program_add, List.map_append, List.filter_map]
  congr 1
  unfold add
  cases ParsedFile.ofSource source with
  | error e => rfl
  | ok f => rfl

/-- The run: the files of a program are those whose last addition could be read. -/
theorem scripts_afterAll (config : Config) (ops : List Operation) :
    (afterAll config ops).files.map ScriptFile.script =
      (standing ops).map fun s => (s.1, s.2.stream, s.2.tree) := by
  induction ops using List.reverseRecOn with
  | nil => rfl
  | append_singleton ops op ih =>
    rw [afterAll_append]
    cases h : op.addition? with
    | some a =>
      rw [perform_of_addition _ h, scripts_add, standing_concat_of_addition h, ih,
        List.map_append, List.filter_map, List.map_map]
      rfl
    | none =>
      rw [standing_concat_of_none h, ← ih]
      cases op with
      | add => cases h
      | load path text =>
        cases text with
        | error e => rfl
        | ok source => cases h
      | validate =>
        show ((afterAll config ops).files.map ScriptFile.validate).map ScriptFile.script = _
        rw [List.map_map]
        exact List.map_congr_left fun g _ => g.script_validate

/-! ### Reports -/

lemma fileId_of_mem_reports {config : Config} {typedef : Bool} {s : TokenStream}
    {t : NumberedTree} {d : Diagnostic} (hd : d ∈ reports config typedef n s t) :
    d.fileId = n := by
  obtain ⟨e, he, rfl⟩ := List.mem_map.1 hd
  have halone := List.mem_of_mem_filter he
  rw [Tree.diagnosticsAlone, Analysis.items_validate] at halone
  obtain ⟨finding, -, rfl⟩ := List.mem_map.1 halone
  split
  · rfl
  · rfl

/-- A file contributes what is to be reported on it, whatever it held before its validation. -/
lemma reports_validate (config : Config) (g : ScriptFile) :
    (g.validate.openDiagnostics.filter fun d => !config.ignore.contains d.code).map
        (graded config) =
      reports config g.isTypedef g.fileId g.stream g.analysis.tree := by
  have hflags : g.validate.flags = CommentFlag.ofTokens g.stream.tokens := rfl
  rw [ScriptFile.openDiagnostics, List.filter_filter, g.items_validate, hflags, reports]
  congr 1
  · funext d
    simp only [graded, List.contains_iff_mem]
    rfl
  · apply List.filter_congr
    intro d _
    rw [Bool.and_comm, List.not_any_eq_all_not]
    simp

/-- What is to be reported on each file of a program, under the number of its path. -/
theorem Consistent.diagnostics_eq {p : Program} (hp : p.Consistent) :
    p.validate.diagnostics = (p.files.map ScriptFile.script).flatMap fun s =>
      (p.number? s.1).elim [] fun n => reports p.config s.1.isTypedef n s.2.1 s.2.2 := by
  show (((p.files.map ScriptFile.validate).flatMap ScriptFile.openDiagnostics).filter fun d =>
    !p.config.ignore.contains d.code).map (graded p.config) = _
  rw [List.filter_flatMap, List.map_flatMap, List.flatMap_map, List.flatMap_map]
  apply List.flatMap_congr
  intro g hg
  have hnumber : p.number? g.script.1 = some g.fileId := hp.number?_eq g hg
  rw [hnumber]
  exact reports_validate p.config g

lemma number?_of_same {p : Program} {q : Path} (h : q.same path = true) :
    p.number? q = p.number? path := by
  simp only [number?, Path.same, Path.same_iff.1 h]

/-- Under a number there is reported what concerns its path. -/
lemma Consistent.filter_reports {p : Program} (hp : p.Consistent)
    (hn : p.number? path = some n) (q : Path) {report : Nat → List Diagnostic}
    (hreport : ∀ m, ∀ d ∈ report m, d.fileId = m) :
    ((p.number? q).elim [] report).filter (fun d => d.fileId = n) =
      if q.same path then report n else [] := by
  cases hsame : q.same path with
  | true =>
    have hq : p.number? q = some n := by
      rw [number?_of_same hsame]
      exact hn
    rw [hq]
    exact List.filter_eq_self.2 fun d hd => decide_eq_true (hreport n d hd)
  | false =>
    apply List.filter_eq_nil_iff.2
    intro d hd hid
    cases hm : p.number? q with
    | none =>
      rw [hm] at hd
      cases hd
    | some m =>
      rw [hm] at hd
      have hmn : m = n := (hreport m d hd).symm.trans (of_decide_eq_true hid)
      rw [hmn] at hm
      exact Path.same_eq_false_iff.1 hsame (number?_inj hp.numbers_eq hm hn)

/-- Of all files only the one whose source was added last to a path can have the path. -/
lemma filter_standing (ops : List Operation) (path : Path) :
    ((standing ops).filter fun s => s.1.same path).map Prod.snd =
      ((lastSource? ops path).bind fun source => (ParsedFile.ofSource source).toOption).toList := by
  rw [standing, filter_parsed _ fun q => q.same path, filter_latest, lastSource?]
  cases (ops.filterMap Operation.addition?).reverse.find? fun a => a.1.same path with
  | none => rfl
  | some a =>
    cases hf : (ParsedFile.ofSource a.2).toOption with
    | none => simp [parsed?, hf]
    | some f => simp [parsed?, hf]

/--
The diagnostics of a program that was just validated are those of its files, in the order of their
last additions: of each file what its last source alone gives, without what its own flags suppress
and what the options ignore, and with the severity of warnings where the options say so. Every file
keeps all that its source gives. What is reported on a path follows from its number, its name and
the last source that was added to it.
-/
theorem diagnostics_afterAll (config : Config) (ops : List Operation) :
    let p := afterAll config (ops ++ [.validate])
    (p.diagnostics = (standing ops).flatMap fun s =>
      (p.number? s.1).elim [] fun n =>
        reports config s.1.isTypedef n s.2.stream s.2.tree) ∧
    (p.files.map (fun g => (g.path, some g.sink.items)) = (standing ops).map fun s =>
      (s.1, (p.number? s.1).map fun n => s.2.tree.diagnosticsAlone s.1.isTypedef n)) ∧
    ∀ path n, p.number? path = some n →
      p.diagnostics.filter (fun d => d.fileId = n) =
        ((lastSource? ops path).bind fun source => (ParsedFile.ofSource source).toOption).elim []
          fun f => reports config path.isTypedef n f.stream f.tree := by
  intro p
  let before := afterAll config ops
  have hbefore : before.Consistent := consistent_afterAll config ops
  have hp : p = before.validate := afterAll_append config ops .validate
  have hnumber (path : Path) : p.number? path = before.number? path := by
    rw [hp]
    rfl
  have hscripts := scripts_afterAll config ops
  have hdiagnostics : p.diagnostics = (standing ops).flatMap fun s =>
      (p.number? s.1).elim [] fun n => reports config s.1.isTypedef n s.2.stream s.2.tree := by
    rw [hp, hbefore.diagnostics_eq, hscripts, List.flatMap_map, config_afterAll]
    rfl
  refine ⟨hdiagnostics, ?_, ?_⟩
  · have hstored : p.files.map (fun g => (g.path, some g.sink.items)) =
        (before.files.map ScriptFile.script).map fun s =>
          (s.1, (p.number? s.1).map fun n => s.2.2.diagnosticsAlone s.1.isTypedef n) := by
      rw [hp]
      show (before.files.map ScriptFile.validate).map _ = _
      rw [List.map_map, List.map_map]
      apply List.map_congr_left
      intro g hg
      have hid : before.number? g.path = some g.fileId := hbefore.number?_eq g hg
      show (g.path, some g.validate.sink.items) = (g.path, (before.number? g.path).map _)
      rw [hid, g.items_validate]
      rfl
    rw [hstored, hscripts, List.map_map]
    rfl
  · intro path n hn
    rw [hnumber] at hn
    -- Only the file of the path reports under its number.
    have hfilter : p.diagnostics.filter (fun d => d.fileId = n) =
        ((standing ops).filter fun s => s.1.same path).flatMap fun s =>
          reports config path.isTypedef n s.2.stream s.2.tree := by
      rw [hdiagnostics, List.filter_flatMap, flatMap_filter]
      apply List.flatMap_congr
      intro s _
      rw [hnumber, hbefore.filter_reports hn s.1 fun m d hd => fileId_of_mem_reports hd]
      cases hsame : s.1.same path with
      | true => rw [Path.isTypedef_of_same hsame]
      | false => rfl
    have hfiles := congrArg
      (List.flatMap fun f => reports config path.isTypedef n f.stream f.tree)
      (filter_standing ops path)
    rw [List.flatMap_map] at hfiles
    rw [hfilter, hfiles]
    cases (lastSource? ops path).bind fun source => (ParsedFile.ofSource source).toOption with
    | none => rfl
    | some f => exact List.flatMap_singleton ..

/-- A flag of one file suppresses nothing on the same line of another. -/
theorem diagnostics_afterAll_of_flag :
    let ops := [.add ⟨"a.bs"⟩ "x = 1", .add ⟨"b.bs"⟩ "x = 1", .add ⟨"a.bs"⟩ "x = (",
      .add ⟨"c.bs"⟩ "x = 1 'bs:disable-line"]
    let p := afterAll {} (ops ++ [.validate])
    p.number? ⟨"b.bs"⟩ = some 1 ∧
      (p.diagnostics.filter fun d => d.fileId = 1).map Diagnostic.code = [1110] ∧
      p.number? ⟨"c.bs"⟩ = some 2 ∧
      (p.diagnostics.filter fun d => d.fileId = 2).map Diagnostic.code = [] := by
  intro ops p
  have hb : p.number? ⟨"b.bs"⟩ = some 1 := by decide +kernel
  have hc : p.number? ⟨"c.bs"⟩ = some 2 := by decide +kernel
  obtain ⟨-, -, hpath⟩ := diagnostics_afterAll {} ops
  refine ⟨hb, ?_, hc, ?_⟩
  · rw [hpath _ _ hb]
    decide +kernel
  · rw [hpath _ _ hc]
    decide +kernel

end Program

end BrighterCheck
