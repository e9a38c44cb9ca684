import BrighterCheck.Diagnostic.Suppression
import BrighterCheck.Proofs.Tree.Relabel

/-!
# Flags in relabelled comments

Whether a comment is a flag is decided by its text alone, and a flag is known by its text and its
line. So tokens have the same flags among them as long as flags look the same and no other comment
looks like one.
-/

namespace BrighterCheck.CommentFlag

/-- Whether the text of a comment is that of a flag. -/
def isFlag (text : String) : Bool :=
  (ofComment? 0 text).isSome

/-- What is no flag on the first line is none on any other line. -/
lemma ofComment?_of_not_isFlag {text : String} (h : isFlag text = false) (line : Nat) :
    ofComment? line text = none := by
  have hdirective (line : Nat) (cs : List Char) :
      (directive? line cs).map Prod.fst = (directive? 0 cs).map Prod.fst := by
    rw [directive?, directive?]
    cases Ascii.dropWord? "bs:disable-next-line".toList cs with
    | some rest => rfl
    | none => cases Ascii.dropWord? "bs:disable-line".toList cs <;> rfl
  have hline := hdirective line (trim (body text.toList))
  rw [isFlag, ofComment?, Option.isSome_eq_false_iff] at h
  rw [ofComment?]
  cases hfirst : directive? 0 (trim (body text.toList)) with
  | none =>
    rw [hfirst, Option.map_none, Option.map_eq_none_iff] at hline
    rw [hline]
    rfl
  | some first =>
    rw [hfirst] at hline h
    obtain ⟨found, hfound, hrest⟩ := Option.map_eq_some_iff.1 hline
    rw [hfound]
    cases hlist : list? first.1 with
    | none => simp [hrest, hlist]
    | some list => simp [hlist] at h

variable {r : Relabel}

/-- Relabelled tokens have the same flags among them. -/
theorem ofTokens_relabel (hr : r.InPlace)
    (h : ∀ line text, ofComment? line (r.text .comment text) = ofComment? line text)
    (tokens : List Token) : ofTokens (tokens.map r.token) = ofTokens tokens := by
  rw [ofTokens, ofTokens, List.filterMap_map]
  apply List.filterMap_congr
  intro t _
  rw [Function.comp_apply, r.token_kind, hr.token_range]
  split
  case isTrue hkind =>
    have htext : (r.token t).text = r.text .comment t.text := by rw [← hkind]; rfl
    rw [htext, h]
  case isFalse => rfl

end BrighterCheck.CommentFlag
