import BrighterCheck.Proofs.Symbol.Lookup
import BrighterCheck.Proofs.Tree.Arena

/-!
# Validating again

A validation reads the tree and nothing else: not the tables, which its own rules also read and
fill, nor what the sink holds. So its outcome follows from the tree and the number of the file
(`Analysis.validate_congr`). As no step changes the tree (`Analysis.tree_perform`), neither does a
history of steps (`Analysis.tree_afterAll`), and a validation gives after any history what it gives
for the file as it was parsed.
-/

namespace BrighterCheck

namespace Analysis

variable {a b : Analysis} {sink sink' : Sink}

/-- The outcome of a validation follows from the tree and the number of the file. -/
theorem validate_congr (htree : a.tree = b.tree) (hid : sink.fileId = sink'.fileId)
    (typedef : Bool) : a.validate typedef sink = b.validate typedef sink' := by
  have hclear : sink.clear = sink'.clear := congrArg Sink.empty hid
  rw [validate_eq, validate_eq, hclear, htree]

lemma tree_validate (a : Analysis) (typedef : Bool) (sink : Sink) :
    (a.validate typedef sink).1.tree = a.tree := by
  rw [validate_eq]

lemma fileId_sink_validate (a : Analysis) (typedef : Bool) (sink : Sink) :
    (a.validate typedef sink).2.fileId = sink.fileId := by
  rw [validate_eq]
  rfl

/-- A validation after another one has the outcome of the other one. -/
theorem validate_validate (a : Analysis) (typedef : Bool) (sink : Sink) :
    (a.validate typedef sink).1.validate typedef (a.validate typedef sink).2 =
      a.validate typedef sink :=
  validate_congr (a.tree_validate typedef sink) (a.fileId_sink_validate typedef sink) typedef

/-- The step: nothing that is done to the tables changes the tree. -/
lemma tree_perform (a : Analysis) (step : Step) : (a.perform step).tree = a.tree := by
  cases step with
  | clear => rfl
  | add l e => rfl
  | validate typedef sink => exact a.tree_validate typedef sink

/-- The run: after any steps the tree is the one that was parsed. -/
theorem tree_afterAll (t : NumberedTree) (steps : List Step) : (afterAll t steps).tree = t := by
  induction steps using List.reverseRecOn with
  | nil => rfl
  | append_singleton steps step ih =>
    rw [afterAll, List.foldl_concat, tree_perform]
    exact ih

end Analysis

namespace ParsedFile

/--
Whatever was done to the symbol tables of a file, and whatever the sink holds, a validation gives
the diagnostics and the tables that the freshly parsed file gives with an empty sink. It leaves the
tree as it was parsed, with all kinds, ranges and parents, and so the rows that reading a source has
stored. A second validation has the outcome of the first.
-/
theorem validate_afterAll (f : ParsedFile) (steps : List Analysis.Step) (typedef : Bool)
    (sink : Sink) :
    let outcome := (Analysis.afterAll f.tree steps).validate typedef sink
    outcome = (Analysis.ofTree f.tree).validate typedef (.empty sink.fileId) ∧
      outcome.1.tree = f.tree ∧
      (∀ source, ofSource source = .ok f →
        outcome.1.tree.byNumber.map Located.record = f.arena) ∧
      outcome.1.validate typedef outcome.2 = outcome := by
  intro outcome
  have hafter := Analysis.tree_afterAll f.tree steps
  have htree : outcome.1.tree = f.tree := (Analysis.tree_validate _ typedef sink).trans hafter
  refine ⟨?_, htree, ?_, ?_⟩
  · exact Analysis.validate_congr hafter rfl typedef
  · intro source h
    rw [htree, arena_eq h]
  · exact Analysis.validate_validate _ typedef sink

end ParsedFile

end BrighterCheck
