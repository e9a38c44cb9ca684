import BrighterCheck.Program.Load
import BrighterCheck.Proofs.Rule.Validation
import Mathlib.Data.Finset.Card
import Mathlib.Data.List.Induction
import Mathlib.Data.List.Nodup
import Mathlib.Tactic.Lemma

/-!
# The files of a program

A program keeps three stores: its files, the numbers of all paths, and the sources that reports
refer to. Whatever is added, loaded or validated, they fit together: no two files have the same
path, a path keeps its number, and the source under the number of a file is that of the file.
-/

namespace BrighterCheck

namespace Path

variable {p q r : Path}

lemma same_iff : p.same q = true ↔ p.parts = q.parts :=
  decide_eq_true_iff

lemma same_eq_false_iff : p.same q = false ↔ p.parts ≠ q.parts :=
  decide_eq_false_iff_not

end Path

/-- What can be done to a program. -/
inductive Operation where
  | add (path : Path) (source : String)
  | load (path : Path) (text : Except ReadFailure String)
  | validate

/-- The path of a file that an operation adds. -/
def Operation.path? : Operation → Option Path
  | .add path _ => some path
  | .load path (.ok _) => some path
  | .load _ (.error _) => none
  | .validate => none

namespace Program

variable {p : Program} {path : Path} {source : String} {n : Nat}

/-- The program after an operation. -/
def perform (p : Program) : Operation → Program
  | .add path source => (p.add path source).program
  | .load path text =>
    match p.load path text with
    | .ok added => added.program
    | .error _ => p
  | .validate => p.validate

/-- The program after several operations on an empty one. -/
def afterAll (config : Config) (ops : List Operation) : Program :=
  ops.foldl perform (.empty config)

/-- The parts of the paths that have a number. -/
def knownParts (p : Program) : List (List PathPart) :=
  p.numbers.map fun entry => entry.1.parts

/-- The three stores fit together. -/
structure Consistent (p : Program) : Prop where
  knownParts_nodup : p.knownParts.Nodup
  /-- The numbers are given in order, one for each source of the reporter. -/
  numbers_eq : p.numbers.map Prod.snd = List.range p.reporter.count
  paths_distinct : p.files.Pairwise fun f g => f.path.same g.path = false
  number?_eq : ∀ f ∈ p.files, p.number? f.path = some f.fileId
  source_eq : ∀ f ∈ p.files, (p.reporter.sources[f.fileId]?).map NamedSource.text = some f.source

section Numbers

lemma mem_of_number? (h : p.number? path = some n) :
    ∃ known, (known, n) ∈ p.numbers ∧ known.parts = path.parts := by
  obtain ⟨entry, hfind, rfl⟩ := Option.map_eq_some_iff.1 h
  exact ⟨entry.1, List.mem_of_find?_eq_some hfind,
    Path.same_iff.1 (List.find?_some (p := fun entry : Path × Nat => entry.1.same path) hfind)⟩

lemma number?_eq_none_iff : p.number? path = none ↔ path.parts ∉ p.knownParts := by
  simp only [number?, knownParts, Option.map_eq_none_iff, List.find?_eq_none, Path.same_iff,
    List.mem_map, not_exists, not_and]

/-- A number belongs to a source. -/
lemma Consistent.lt_count (hp : p.Consistent) (h : p.number? path = some n) :
    n < p.reporter.count := by
  obtain ⟨known, hmem, -⟩ := mem_of_number? h
  apply List.mem_range.1
  rw [← hp.numbers_eq]
  exact List.mem_map_of_mem hmem

/-- Different paths have different numbers. -/
lemma number?_inj (hnumbers : p.numbers.map Prod.snd = List.range p.reporter.count)
    {path' : Path} (h : p.number? path = some n) (h' : p.number? path' = some n) :
    path.parts = path'.parts := by
  obtain ⟨known, hmem, hparts⟩ := mem_of_number? h
  obtain ⟨known', hmem', hparts'⟩ := mem_of_number? h'
  have hnodup : (p.numbers.map Prod.snd).Nodup := by
    rw [hnumbers]
    exact List.nodup_range
  cases List.inj_on_of_nodup_map hnodup hmem hmem' rfl
  exact hparts.symm.trans hparts'

end Numbers

section Register

lemma register_of_some (h : p.number? path = some n) :
    p.register path source = ({ p with reporter := p.reporter.update n source }, n) := by
  unfold register
  simp only [h]

lemma register_of_none (h : p.number? path = none) :
    p.register path source =
      ({ p with
          reporter := ⟨p.reporter.sources ++ [⟨path.text, source⟩]⟩
          numbers := p.numbers ++ [(path, p.reporter.count)] }, p.reporter.count) := by
  unfold register
  simp only [h]
  rfl

/-- What handing over a source does: the path has the number, and the source stands under it. -/
structure Registered (p q : Program) (path : Path) (source : String) (n : Nat) : Prop where
  files_eq : q.files = p.files
  number?_self : q.number? path = some n
  number?_of_some : ∀ path' m, p.number? path' = some m → q.number? path' = some m
  text_self : (q.reporter.sources[n]?).map NamedSource.text = some source
  text_of_ne : ∀ m, m ≠ n → m < p.reporter.count → q.reporter.sources[m]? = p.reporter.sources[m]?
  mem_knownParts : ∀ parts, parts ∈ q.knownParts ↔ parts ∈ p.knownParts ∨ parts = path.parts
  knownParts_nodup : q.knownParts.Nodup
  numbers_eq : q.numbers.map Prod.snd = List.range q.reporter.count

/-- The source of a path with a number is exchanged. -/
lemma Consistent.registered_of_some (hp : p.Consistent) (h : p.number? path = some n)
    (source : String) :
    Registered p { p with reporter := p.reporter.update n source } path source n := by
  have hlt := hp.lt_count h
  have hknown : path.parts ∈ p.knownParts := by
    by_contra hnot
    rw [number?_eq_none_iff.2 hnot] at h
    cases h
  have hcount : (p.reporter.update n source).count = p.reporter.count := List.length_modify _ _ _
  refine ⟨rfl, h, fun _ _ h' => h', ?_, ?_, ?_, hp.knownParts_nodup, ?_⟩
  · show ((p.reporter.sources.modify n _)[n]?).map NamedSource.text = some source
    rw [List.getElem?_modify_eq, List.getElem?_eq_getElem hlt]
    rfl
  · intro m hm _
    exact List.getElem?_modify_ne _ _ hm.symm
  · intro parts
    constructor
    · exact .inl
    · intro hparts
      cases hparts with
      | inl hparts => exact hparts
      | inr hparts =>
        rw [hparts]
        exact hknown
  · rw [hcount]
    exact hp.numbers_eq

/-- A path without a number gets the next one, and its source is added. -/
lemma Consistent.registered_of_none (hp : p.Consistent) (h : p.number? path = none)
    (source : String) :
    Registered p
      { p with
        reporter := ⟨p.reporter.sources ++ [⟨path.text, source⟩]⟩
        numbers := p.numbers ++ [(path, p.reporter.count)] }
      path source p.reporter.count := by
  have hfresh := number?_eq_none_iff.1 h
  have hnone : p.numbers.find? (fun entry => entry.1.same path) = none :=
    Option.map_eq_none_iff.1 h
  refine ⟨rfl, ?_, ?_, ?_, ?_, ?_, ?_, ?_⟩
  · -- None of the earlier entries is for the path, so the new one is found.
    show ((p.numbers ++ [(path, p.reporter.count)]).find? fun entry => entry.1.same path).map _ = _
    rw [List.find?_append, hnone, Option.none_or, List.find?_singleton,
      if_pos (Path.same_iff.2 rfl)]
    rfl
  · intro path' m hm
    obtain ⟨entry, hfind, rfl⟩ := Option.map_eq_some_iff.1 hm
    show ((p.numbers ++ [(path, p.reporter.count)]).find? fun entry => entry.1.same path').map _ = _
    rw [List.find?_append, hfind]
    rfl
  · show ((p.reporter.sources ++ [⟨path.text, source⟩])[p.reporter.sources.length]?).map _ = _
    rw [List.getElem?_concat_length]
    rfl
  · intro m _ hlt
    exact List.getElem?_append_left hlt
  · intro parts
    simp [knownParts]
  · show ((p.numbers ++ [(path, p.reporter.count)]).map fun entry => entry.1.parts).Nodup
    rw [List.map_append, List.nodup_append']
    refine ⟨hp.knownParts_nodup, List.nodup_singleton _, ?_⟩
    intro parts hparts hlast
    rw [List.mem_singleton.1 hlast] at hparts
    exact hfresh hparts
  · show (p.numbers ++ [(path, p.reporter.count)]).map Prod.snd =
      List.range (p.reporter.sources ++ [_]).length
    rw [List.map_append, hp.numbers_eq, List.length_append, List.length_singleton,
      List.range_succ]
    rfl

lemma Consistent.registered (hp : p.Consistent) (path : Path) (source : String) :
    Registered p (p.register path source).1 path source (p.register path source).2 := by
  cases hnumber : p.number? path with
  | some n =>
    rw [register_of_some hnumber]
    exact hp.registered_of_some hnumber source
  | none =>
    rw [register_of_none hnumber]
    exact hp.registered_of_none hnumber source

end Register

section Add

lemma register_files (p : Program) (path : Path) (source : String) :
    (p.register path source).1.files = p.files := by
  unfold register
  split
  · rfl
  · rfl

/-- An addition hands over the source and exchanges the file of the path. -/
lemma program_add (p : Program) (path : Path) (source : String) :
    (p.add path source).program = { (p.register path source).1 with
      files := p.files.filter (fun f => !f.path.same path) ++
        (p.add path source).result.toOption.toList } := by
  unfold add
  cases ParsedFile.ofSource source with
  | error e => simp only [register_files, Except.toOption, Option.toList, List.append_nil]
  | ok parsed => simp only [register_files, Except.toOption, Option.toList]

/-- A file that was added has the path, the source and the number that it was added with. -/
lemma exists_of_add_result {f : ScriptFile} (h : (p.add path source).result = .ok f) :
    ∃ parsed, f = .ofParsed path source (p.register path source).2 parsed := by
  unfold add at h
  cases hparsed : ParsedFile.ofSource source with
  | error e =>
    simp only [hparsed] at h
    cases h
  | ok parsed =>
    simp only [hparsed] at h
    cases h
    exact ⟨parsed, rfl⟩

lemma mem_result {f : ScriptFile} :
    f ∈ (p.add path source).result.toOption.toList ↔ (p.add path source).result = .ok f := by
  cases (p.add path source).result with
  | error e => simp [Except.toOption]
  | ok g => simp [Except.toOption, eq_comm]

lemma mem_files_add {f : ScriptFile} :
    f ∈ (p.add path source).program.files ↔
      f ∈ p.files ∧ f.path.same path = false ∨ (p.add path source).result = .ok f := by
  rw [program_add]
  simp only [List.mem_append, List.mem_filter, Bool.not_eq_true', mem_result]

/-- The stores still fit together after an addition, whether the file could be read or not. -/
lemma Consistent.add (hp : p.Consistent) (path : Path) (source : String) :
    (p.add path source).program.Consistent := by
  have hq := hp.registered path source
  have hprogram := program_add p path source
  have hnew {f : ScriptFile} (h : (p.add path source).result = .ok f) :
      f.path = path ∧ f.source = source ∧ f.fileId = (p.register path source).2 := by
    obtain ⟨parsed, rfl⟩ := exists_of_add_result h
    exact ⟨rfl, rfl, rfl⟩
  have hnumber (path' : Path) : (p.add path source).program.number? path' =
      (p.register path source).1.number? path' := by
    rw [hprogram]
    rfl
  have hreporter : (p.add path source).program.reporter =
      (p.register path source).1.reporter := by
    rw [hprogram]
  refine ⟨?_, ?_, ?_, ?_, ?_⟩
  · rw [hprogram]
    exact hq.knownParts_nodup
  · rw [hprogram]
    exact hq.numbers_eq
  · rw [hprogram]
    apply List.pairwise_append.2
    refine ⟨hp.paths_distinct.filter _, ?_, ?_⟩
    · cases (p.add path source).result.toOption with
      | none => exact .nil
      | some f => exact List.pairwise_singleton _ f
    · -- No other file has the path of the new one.
      intro f hf g hg
      rw [(hnew (mem_result.1 hg)).1]
      simpa using (List.mem_filter.1 hf).2
  · intro f hf
    rw [hnumber]
    cases mem_files_add.1 hf with
    | inl hold => exact hq.number?_of_some _ _ (hp.number?_eq f hold.1)
    | inr h =>
      obtain ⟨hpath, -, hid⟩ := hnew h
      rw [hpath, hid]
      exact hq.number?_self
  · intro f hf
    rw [hreporter]
    cases mem_files_add.1 hf with
    | inl hold =>
      obtain ⟨hmem, hother⟩ := hold
      have hnumber := hp.number?_eq f hmem
      -- The number of another file is not that of the path, whose source is exchanged.
      have hne : f.fileId ≠ (p.register path source).2 := by
        intro hid
        have hsame := hq.number?_of_some _ _ hnumber
        rw [hid] at hsame
        exact Path.same_eq_false_iff.1 hother (number?_inj hq.numbers_eq hsame hq.number?_self)
      rw [hq.text_of_ne _ hne (hp.lt_count hnumber)]
      exact hp.source_eq f hmem
    | inr h =>
      obtain ⟨-, hsource, hid⟩ := hnew h
      rw [hsource, hid]
      exact hq.text_self

/-- An addition that fails leaves the other files as they are, and none of the path. -/
lemma files_add_of_error {e : SourceError} (h : (p.add path source).result = .error e) :
    (p.add path source).program.files = p.files.filter fun f => !f.path.same path := by
  rw [program_add, h]
  exact List.append_nil _

end Add

section Steps

/-- The diagnostics of a validation are those of the same file. -/
lemma fileId_validate (f : ScriptFile) : f.validate.fileId = f.fileId := by
  rw [ScriptFile.validate, Analysis.validate_eq]
  rfl

/-- Validation changes neither the path nor the source nor the number of a file. -/
lemma Consistent.validate (hp : p.Consistent) : p.validate.Consistent where
  knownParts_nodup := hp.knownParts_nodup
  numbers_eq := hp.numbers_eq
  paths_distinct := List.pairwise_map.2 hp.paths_distinct
  number?_eq f hf := by
    obtain ⟨g, hg, rfl⟩ := List.mem_map.1 hf
    rw [fileId_validate]
    exact hp.number?_eq g hg
  source_eq f hf := by
    obtain ⟨g, hg, rfl⟩ := List.mem_map.1 hf
    rw [fileId_validate]
    exact hp.source_eq g hg

lemma consistent_empty (config : Config) : (empty config).Consistent where
  knownParts_nodup := .nil
  numbers_eq := rfl
  paths_distinct := .nil
  number?_eq _ hf := absurd hf List.not_mem_nil
  source_eq _ hf := absurd hf List.not_mem_nil

/-- What one operation does to the numbers. -/
structure Numbered (p q : Program) (op : Operation) : Prop where
  consistent : q.Consistent
  number?_of_some : ∀ path n, p.number? path = some n → q.number? path = some n
  mem_knownParts : ∀ parts, parts ∈ q.knownParts ↔
    parts ∈ p.knownParts ∨ op.path?.map Path.parts = some parts

/-- The step: every operation keeps the stores together and all numbers as they are. -/
lemma Consistent.perform (hp : p.Consistent) (op : Operation) : Numbered p (p.perform op) op := by
  -- A load that could be read is an addition.
  have hadd (path : Path) (source : String) :
      Numbered p (p.add path source).program (.add path source) := by
    have hq := hp.registered path source
    refine ⟨hp.add path source, ?_, ?_⟩
    · rw [program_add]
      exact hq.number?_of_some
    · intro parts
      have hpath : (Operation.path? (.add path source)).map Path.parts = some parts ↔
          parts = path.parts := by
        simp [Operation.path?, eq_comm]
      rw [program_add, hpath]
      exact hq.mem_knownParts parts
  have hsame (op : Operation) (hop : op.path? = none) : Numbered p p op :=
    ⟨hp, fun _ _ h => h, fun parts => by simp [hop]⟩
  cases op with
  | add path source => exact hadd path source
  | load path text =>
    cases text with
    | error e => exact hsame _ rfl
    | ok source => exact ⟨(hadd path source).1, (hadd path source).2, (hadd path source).3⟩
  | validate => exact ⟨hp.validate, (hsame .validate rfl).2, (hsame .validate rfl).3⟩

variable {config : Config} {ops : List Operation}

lemma afterAll_append (config : Config) (ops : List Operation) (op : Operation) :
    afterAll config (ops ++ [op]) = (afterAll config ops).perform op :=
  List.foldl_concat ..

/-- The run: the stores fit together after any operations. -/
lemma consistent_afterAll (config : Config) (ops : List Operation) :
    (afterAll config ops).Consistent := by
  induction ops using List.reverseRecOn with
  | nil => exact consistent_empty config
  | append_singleton ops op ih =>
    rw [afterAll_append]
    exact (ih.perform op).consistent

lemma mem_knownParts_afterAll (parts : List PathPart) :
    parts ∈ (afterAll config ops).knownParts ↔
      ∃ op ∈ ops, op.path?.map Path.parts = some parts := by
  induction ops using List.reverseRecOn with
  | nil => simp [afterAll, empty, knownParts]
  | append_singleton ops op ih =>
    rw [afterAll_append, ((consistent_afterAll config ops).perform op).mem_knownParts, ih]
    simp [or_and_right, exists_or]

/-- A number that was given is kept by all later operations. -/
lemma number?_afterAll_append (ops ops' : List Operation)
    (h : (afterAll config ops).number? path = some n) :
    (afterAll config (ops ++ ops')).number? path = some n := by
  induction ops' using List.reverseRecOn with
  | nil =>
    rw [List.append_nil]
    exact h
  | append_singleton ops' op ih =>
    rw [← List.append_assoc, afterAll_append]
    exact ((consistent_afterAll config _).perform op).number?_of_some path n ih

/-- There are as many sources as different paths were added. -/
lemma count_afterAll (config : Config) (ops : List Operation) :
    (afterAll config ops).reporter.count =
      ((ops.filterMap Operation.path?).map Path.parts).toFinset.card := by
  have hp := consistent_afterAll config ops
  have hlength := congrArg List.length hp.numbers_eq
  rw [List.length_map, List.length_range] at hlength
  have hknown : (afterAll config ops).knownParts.toFinset =
      ((ops.filterMap Operation.path?).map Path.parts).toFinset := by
    ext parts
    rw [List.mem_toFinset, mem_knownParts_afterAll]
    simp only [List.mem_toFinset, List.mem_map, List.mem_filterMap, Option.map_eq_some_iff]
    constructor
    · intro h
      obtain ⟨op, hop, path, hpath, hparts⟩ := h
      exact ⟨path, ⟨op, hop, hpath⟩, hparts⟩
    · intro h
      obtain ⟨path, ⟨op, hop, hpath⟩, hparts⟩ := h
      exact ⟨op, hop, path, hpath, hparts⟩
  rw [← hknown, List.toFinset_card_of_nodup hp.knownParts_nodup, knownParts, List.length_map,
    hlength]

end Steps

/-- What holds of a program after some operations on an empty one. -/
structure FilesFit (config : Config) (ops : List Operation) (p : Program) : Prop where
  /-- No two files have the same path. -/
  paths_distinct : p.files.Pairwise fun f g => f.path.same g.path = false
  /-- Exactly the paths that were added have a number, also where an addition failed. -/
  number?_isSome_iff : ∀ path, (p.number? path).isSome = true ↔
    ∃ op ∈ ops, ∃ added, op.path? = some added ∧ added.same path = true
  /-- Different paths have different numbers. -/
  same_of_number? : ∀ path path' n, p.number? path = some n → p.number? path' = some n →
    path.same path' = true
  /-- The number of a path is the one that it got first. -/
  number?_of_prefix : ∀ before after path n, ops = before ++ after →
    (afterAll config before).number? path = some n → p.number? path = some n
  /-- The number of a file is that of its path. -/
  fileId_eq : ∀ f ∈ p.files, p.number? f.path = some f.fileId
  /-- The reporter has one source for each of the different paths that were added. -/
  count_eq : p.reporter.count = ((ops.filterMap Operation.path?).map Path.parts).toFinset.card
  /-- Under the number of a file stands its source. -/
  source_eq : ∀ f ∈ p.files, (p.reporter.sources[f.fileId]?).map NamedSource.text = some f.source
  /-- An addition that fails only removes the file of its path. -/
  files_of_error : ∀ path source e, (p.add path source).result = .error e →
    (p.add path source).program.files = p.files.filter fun f => !f.path.same path
  /-- A read that fails changes nothing. -/
  perform_unread : ∀ path e, p.perform (.load path (.error e)) = p

/-- Whatever is done to a program, its files, numbers and sources fit together. -/
theorem filesFit_afterAll (config : Config) (ops : List Operation) :
    FilesFit config ops (afterAll config ops) := by
  have hp := consistent_afterAll config ops
  refine ⟨hp.paths_distinct, ?_, ?_, ?_, hp.number?_eq, count_afterAll config ops, hp.source_eq,
    fun _ _ _ h => files_add_of_error h, fun _ _ => rfl⟩
  · intro path
    rw [Option.isSome_iff_ne_none, ne_eq, number?_eq_none_iff, not_not, mem_knownParts_afterAll]
    simp only [Option.map_eq_some_iff, Path.same_iff]
  · intro path path' n h h'
    exact Path.same_iff.2 (number?_inj hp.numbers_eq h h')
  · intro before after path n hops h
    rw [hops]
    exact number?_afterAll_append before after h

end Program

end BrighterCheck
