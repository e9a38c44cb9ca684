import BrighterCheck.Proofs.Lexer.Likeness
import BrighterCheck.Proofs.Lexer.Munch
import BrighterCheck.Proofs.Tree.Hiding

/-!
# Tokens with any line ends

No token but a line end reaches to the end of its line, and a carriage return in front of a line
feed belongs to that line end. So a source to which carriage returns are added in front of line
feeds has the same tokens at the same places, apart from the texts of its line ends.
-/

namespace BrighterCheck

/-- The second text is the first one with carriage returns in front of some of its line feeds. -/
inductive AddsReturns : List Char → List Char → Prop where
  | nil : AddsReturns [] []
  | keep {cs ds} (c : Char) : AddsReturns cs ds → AddsReturns (c :: cs) (c :: ds)
  | add {cs ds} : AddsReturns cs ds → AddsReturns ('\n' :: cs) ('\r' :: '\n' :: ds)

namespace AddsReturns

open Cursor

variable {cs ds : List Char}

lemma refl (cs : List Char) : AddsReturns cs cs := by
  induction cs with
  | nil => exact .nil
  | cons c cs ih => exact .keep c ih

lemma append_left (us : List Char) (h : AddsReturns cs ds) : AddsReturns (us ++ cs) (us ++ ds) := by
  induction us with
  | nil => exact h
  | cons u us ih => exact .keep u ih

/-- Carriage returns can be added in front of all line feeds. -/
lemma everywhere (cs : List Char) :
    AddsReturns cs (cs.flatMap fun c => if c = '\n' then ['\r', '\n'] else [c]) := by
  induction cs with
  | nil => exact .nil
  | cons c cs ih =>
    rw [List.flatMap_cons]
    split
    case isTrue h => exact h ▸ .add ih
    case isFalse => exact .keep c ih

/-- Texts are the same up to the first carriage return that is added. -/
lemma eq_or_exists_add (h : AddsReturns cs ds) :
    cs = ds ∨ ∃ us cs' ds', cs = us ++ '\n' :: cs' ∧ ds = us ++ '\r' :: '\n' :: ds' ∧
      AddsReturns cs' ds' := by
  induction h with
  | nil => exact .inl rfl
  | keep c _ ih =>
    cases ih with
    | inl heq => exact .inl (congrArg (c :: ·) heq)
    | inr hadd =>
      obtain ⟨us, cs', ds', rfl, rfl, hrest⟩ := hadd
      exact .inr ⟨c :: us, cs', ds', rfl, rfl, hrest⟩
  | @add cs ds h _ => exact .inr ⟨[], cs, ds, rfl, rfl, h⟩

/-- The same blanks stand in front of both texts. -/
lemma blanks (h : AddsReturns cs ds) :
    cs.takeWhile isBlank = ds.takeWhile isBlank ∧
      AddsReturns (cs.dropWhile isBlank) (ds.dropWhile isBlank) := by
  induction h with
  | nil => exact ⟨rfl, .nil⟩
  | keep c h ih =>
    obtain ⟨htake, hdrop⟩ := ih
    rw [List.takeWhile_cons, List.takeWhile_cons, List.dropWhile_cons, List.dropWhile_cons, htake]
    split
    case isTrue => exact ⟨rfl, hdrop⟩
    case isFalse => exact ⟨rfl, .keep c h⟩
  | add h _ => exact ⟨rfl, .add h⟩

/-- The same piece stands in front of both texts. -/
lemma scan_eq {x : Char} (hx : x ≠ '\r') (h : AddsReturns cs ds) :
    scan x cs = scan x ds ∧
      (x :: cs).take (scan x ds).2 = (x :: ds).take (scan x ds).2 ∧
      AddsReturns ((x :: cs).drop (scan x ds).2) ((x :: ds).drop (scan x ds).2) := by
  by_cases hfeed : x = '\n'
  · subst hfeed
    rw [scan_newline, scan_newline]
    exact ⟨rfl, rfl, h⟩
  · cases h.eq_or_exists_add with
    | inl heq =>
      rw [heq]
      exact ⟨rfl, rfl, .refl _⟩
    | inr hadd =>
      obtain ⟨us, cs', ds', rfl, rfl, hrest⟩ := hadd
      -- Both texts go on with the end of a line behind what they share.
      have hline : ¬ (x = '\r' ∨ x = '\n') := not_or.2 ⟨hx, hfeed⟩
      have hle : (scan x us).2 ≤ (x :: us).length := scan_le x us
      rw [scan_append_break hline (.inl rfl), scan_append_break hline (.inr rfl),
        ← List.cons_append, ← List.cons_append, List.take_append_of_le_length hle,
        List.take_append_of_le_length hle, List.drop_append_of_le_length hle,
        List.drop_append_of_le_length hle]
      exact ⟨rfl, rfl, hrest.add.append_left _⟩

end AddsReturns

namespace Cursor

open Relabel

variable {c c' : Cursor}

/-- The same place in a source and in one with more carriage returns. -/
structure AddsReturns (c c' : Cursor) : Prop where
  place_eq : c.place = c'.place
  rest : BrighterCheck.AddsReturns c.rest c'.rest
  not_mem : '\r' ∉ c.rest

namespace AddsReturns

lemma skipBlanks (h : c.AddsReturns c') : c.skipBlanks.AddsReturns c'.skipBlanks := by
  obtain ⟨htake, hdrop⟩ := h.rest.blanks
  rw [skipBlanks_eq, skipBlanks_eq]
  exact ⟨by rw [h.place_eq, htake], hdrop,
    fun hmem => h.not_mem ((List.dropWhile_sublist _).subset hmem)⟩

/-- What is read looks the same, and reading goes on at the same place. -/
lemma next (h : c.AddsReturns c') :
    c.next.1.map withoutBreaks.token = c'.next.1.map withoutBreaks.token ∧
      c.next.2.AddsReturns c'.next.2 := by
  have hskip := h.skipBlanks
  obtain ⟨hplace, hrest, hmem⟩ := hskip
  generalize hr : c.skipBlanks.rest = rest at hrest hmem
  generalize hr' : c'.skipBlanks.rest = rest' at hrest
  cases hrest with
  | nil =>
    rw [next_of_rest_eq_nil hr, next_of_rest_eq_nil hr', hplace]
    exact ⟨rfl, h.skipBlanks⟩
  | @keep xs xs' x hrest =>
    have hx : x ≠ '\r' := fun hx => hmem (hx ▸ .head _)
    obtain ⟨hscan, htake, hdrop⟩ := hrest.scan_eq hx
    rw [next_of_rest_eq_cons hr, next_of_rest_eq_cons hr', forward, forward, hr, hr', hscan, htake,
      hplace]
    exact ⟨rfl, rfl, hdrop, fun h => hmem ((List.drop_sublist _ _).subset h)⟩
  | @add xs xs' hrest =>
    rw [next_of_rest_eq_cons hr, next_of_rest_eq_cons hr', forward, forward, hr, hr', scan_newline,
      scan_return, hplace]
    exact ⟨rfl, rfl, hrest, fun h => hmem (.tail _ h)⟩

lemma likeness : Likeness withoutBreaks AddsReturns where
  next_eq h := h.next.1
  next h _ _ := h.next.2

end AddsReturns

end Cursor

/-- With more carriage returns in front of line feeds, the tokens are the same up to line ends. -/
theorem TokenStream.ofSource_addsReturns {source source' : String}
    (h : AddsReturns source.toList source'.toList) (hmem : '\r' ∉ source.toList) :
    (ofSource source).map Relabel.withoutBreaks.stream =
      (ofSource source').map Relabel.withoutBreaks.stream :=
  ofSource_eq_of_likeness rfl Cursor.AddsReturns.likeness ⟨rfl, h, hmem⟩

end BrighterCheck
