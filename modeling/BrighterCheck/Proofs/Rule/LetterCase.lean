import BrighterCheck.Proofs.Lexer.LetterCase
import BrighterCheck.Proofs.Rule.Relabel

/-!
# Findings in any letter case

Every rule compares lowered texts or none. So the findings of a lowered tree are those of the tree,
and only the name in the wording of a duplicate is lowered too.
-/

namespace BrighterCheck

open Ascii

/-- The same violation of a lowered source. -/
def Violation.lower : Violation → Violation
  | .duplicateIdentifier name => .duplicateIdentifier (Ascii.lower name)
  | v => v

@[simp] lemma Violation.code_lower (v : Violation) : v.lower.code = v.code := by
  cases v <;> rfl

def Finding.lower (f : Finding) : Finding :=
  ⟨f.violation.lower, f.range⟩

lemma Finding.relabel_lower (f : Finding) : f.relabel .lower = f.lower := by
  obtain ⟨violation, range⟩ := f
  cases violation <;> rfl

namespace Relabel

/-- Every text keeps its letters. -/
lemma keepsWord_lower (w : Token) : lower.KeepsWord w :=
  ⟨rfl, lower_lower w.text⟩

lemma keepsWords_lower (t : NumberedTree) : lower.KeepsWords t :=
  fun _ _ _ w _ => keepsWord_lower w

end Relabel

/-- A lowered tree has the lowered findings. -/
theorem Tree.findings_lower (t : NumberedTree) (typedef : Bool) :
    (Relabel.lower.tree t).findings typedef = (t.findings typedef).map Finding.lower := by
  rw [findings_relabel Relabel.inPlace_lower (Relabel.keepsWords_lower t)]
  exact List.map_congr_left fun f _ => f.relabel_lower

end BrighterCheck
