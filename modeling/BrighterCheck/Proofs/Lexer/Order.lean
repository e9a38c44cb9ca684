import BrighterCheck.Proofs.Lexer.Stream
import BrighterCheck.Proofs.Text.Range

/-!
# The order of tokens

No token is empty, and every token stands behind the one before it.
-/

namespace BrighterCheck

/-- Every character takes place. -/
lemma Position.lt_step (p : Position) (c : Char) : p < p.step c := by
  refine lt_of_le_not_ge (p.le_step c) fun h => ?_
  have hsize := c.utf8Size_pos
  unfold Position.step at h
  split at h
  · have hle := Position.le_iff.1 h
    dsimp only at hle
    omega
  · have hle := Position.le_iff.1 h
    dsimp only at hle
    omega

/-- Every text that is not empty takes place. -/
lemma Position.lt_after (p : Position) (c : Char) (cs : List Char) : p < p.after (c :: cs) :=
  (p.lt_step c).trans_le ((p.step c).le_after cs)

namespace Cursor

variable {c d : Cursor}

lemma place_le_skipBlanks (c : Cursor) : c.place ≤ c.skipBlanks.place :=
  c.place.le_after _

/-- A token has a range that is not empty and ends where reading goes on. -/
lemma Takes.range {t : Token} (h : Takes c t d) :
    c.place ≤ t.range.start ∧ t.range.start < t.range.finish ∧ t.range.finish = d.place := by
  cases h with
  | @mk x xs kind n hr hs =>
    obtain ⟨n, rfl⟩ : ∃ m, n = m + 1 :=
      Nat.exists_eq_succ_of_ne_zero (Nat.ne_of_gt (by simpa [hs] using scan_pos x xs))
    refine ⟨place_le_skipBlanks c, ?_, rfl⟩
    show c.skipBlanks.place < c.skipBlanks.place.after (c.skipBlanks.rest.take (n + 1))
    rw [hr]
    exact Position.lt_after _ _ _

/-- The tokens between two cursors stand between their places, each behind the one before it. -/
theorem Yields.between {ts : List Token} (h : Yields c ts d) :
    Range.Between c.place (ts.map Token.range) d.place := by
  induction h with
  | nil c => exact .nil (le_refl _)
  | cons ht _ ih =>
    obtain ⟨hp, hr, he⟩ := ht.range
    exact .cons hp hr (he ▸ ih)

end Cursor

/-- The tokens of a source stand behind one another from its start on. -/
theorem TokenStream.between_of_ofSource {source : String} {s : TokenStream}
    (h : ofSource source = .ok s) :
    ∃ q, Range.Between .origin (s.tokens.map Token.range) q := by
  obtain ⟨d, hd⟩ := ofSource_eq_ok.1 h
  exact ⟨d.place, hd.yields.between⟩

end BrighterCheck
