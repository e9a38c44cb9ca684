import BrighterCheck.Proofs.Lexer.Stream
import BrighterCheck.Proofs.Text.Range
import BrighterCheck.Proofs.Tree.Relabel

/-!
# Tokens of joined sources

No token but a line end reaches over the end of a line. So a source that is followed by a line feed
and another source has its own tokens, then a line end, and then the tokens of the other source,
further down.
-/

namespace BrighterCheck

/-- The position `n` lines further down. -/
def Position.down (n : Nat) (p : Position) : Position :=
  ⟨p.line + n, p.column⟩

def Range.down (n : Nat) (r : Range) : Range :=
  ⟨r.start.down n, r.finish.down n⟩

namespace Position

variable {n : Nat} {p q : Position}

lemma down_le_down : p.down n ≤ q.down n ↔ p ≤ q := by
  simp only [le_iff, down]
  omega

lemma step_down (c : Char) : (p.down n).step c = (p.step c).down n := by
  unfold step
  split
  · simp only [down, Nat.add_right_comm]
  · rfl

/-- A text that starts further down ends further down. -/
lemma after_down (cs : List Char) : (p.down n).after cs = (p.after cs).down n := by
  induction cs generalizing p with
  | nil => rfl
  | cons c cs ih =>
    show ((p.down n).step c).after cs = ((p.step c).after cs).down n
    rw [step_down, ih]

/-- The line of a position is the number of line feeds before it. -/
lemma line_after (cs : List Char) : (p.after cs).line = p.line + cs.count '\n' := by
  induction cs generalizing p with
  | nil => rfl
  | cons c cs ih =>
    show ((p.step c).after cs).line = _
    rw [ih, step]
    split
    case isTrue h =>
      rw [h, List.count_cons_self, Nat.add_right_comm, Nat.add_assoc]
    case isFalse h => rw [List.count_cons_of_ne h]

end Position

lemma Range.down_merge (n : Nat) (r s : Range) :
    (r.merge s).down n = (r.down n).merge (s.down n) := by
  have hmin (p q : Position) : (min p q).down n = min (p.down n) (q.down n) := by
    show (if p ≤ q then p else q).down n = if p.down n ≤ q.down n then p.down n else q.down n
    simp only [Position.down_le_down]
    split
    · rfl
    · rfl
  have hmax (p q : Position) : (max p q).down n = max (p.down n) (q.down n) := by
    show (if p ≤ q then q else p).down n = if p.down n ≤ q.down n then q.down n else p.down n
    simp only [Position.down_le_down]
    split
    · rfl
    · rfl
  simp only [merge, down, hmin, hmax]

/-- The same texts, some lines further down and behind some other nodes. -/
def Relabel.below (nodes lines : Nat) : Relabel where
  text _ s := s
  range := Range.down lines
  shift := nodes
  text_name _ _ _ := rfl
  text_dotted := refl.text_dotted
  text_forEach := refl.text_forEach
  range_merge := Range.down_merge lines

namespace Cursor

variable {c d : Cursor} {nodes lines : Nat} {t : Token} {ts : List Token}

/-- The same text with more text behind it. -/
def followedBy (ds : List Char) (c : Cursor) : Cursor :=
  ⟨c.rest ++ ds, c.place⟩

lemma forward_followedBy (ds : List Char) {n : Nat} (hn : n ≤ c.rest.length) :
    (c.followedBy ds).forward n = (c.forward n).followedBy ds := by
  simp only [forward, followedBy, List.take_append_of_le_length hn,
    List.drop_append_of_le_length hn]

lemma skipBlanks_followedBy (ds : List Char) :
    (c.followedBy ('\n' :: ds)).skipBlanks = c.skipBlanks.followedBy ('\n' :: ds) := by
  have hblanks (cs : List Char) :
      (cs ++ '\n' :: ds).takeWhile isBlank = cs.takeWhile isBlank := by
    induction cs with
    | nil => rfl
    | cons c cs ih => simp only [List.cons_append, List.takeWhile_cons, ih]
  show (c.followedBy ('\n' :: ds)).forward ((c.rest ++ '\n' :: ds).takeWhile isBlank).length = _
  rw [hblanks]
  exact forward_followedBy _ (List.takeWhile_sublist _).length_le

/-- A token that is found stays the same with a line feed and more text behind it. -/
lemma scan_append {x : Char} {xs : List Char} {kind : TokenKind} {n : Nat}
    (h : scan x xs = (.ok kind, n)) (ds : List Char) :
    scan x (xs ++ '\n' :: ds) = (.ok kind, n) := by
  by_cases hx : x = '"'
  · rw [scan_append_break (by rw [hx]; decide) (.inr rfl)]
    exact h
  · rw [scan, if_neg hx] at h ⊢
    split at h
    case h_1 hlongest => rw [TokenKind.longest_patterns_append hlongest, ← h]
    case h_2 => cases h

/-- A token stays the same if a line feed and other text follow its source. -/
lemma Takes.followedBy (h : Takes c t d) (ds : List Char) :
    Takes (c.followedBy ('\n' :: ds)) t (d.followedBy ('\n' :: ds)) := by
  cases h with
  | @mk x xs kind n hr hs =>
    have hs' := scan_append hs ds
    have hle : n ≤ (x :: xs).length := by simpa [hs] using scan_le x xs
    have hr' : (c.followedBy ('\n' :: ds)).skipBlanks.rest = x :: (xs ++ '\n' :: ds) := by
      rw [skipBlanks_followedBy]
      exact congrArg (· ++ '\n' :: ds) hr
    have hforward := forward_followedBy ('\n' :: ds) (hr ▸ hle)
    have ht := Takes.mk hr' hs'
    rw [← List.cons_append, List.take_append_of_le_length hle, skipBlanks_followedBy,
      hforward] at ht
    exact ht

lemma Yields.followedBy (h : Yields c ts d) (ds : List Char) :
    Yields (c.followedBy ('\n' :: ds)) ts (d.followedBy ('\n' :: ds)) := by
  induction h with
  | nil => exact .nil _
  | cons ht _ ih => exact .cons (ht.followedBy ds) ih

lemma forward_forward (m n : Nat) : (c.forward m).forward n = c.forward (m + n) := by
  simp only [forward, List.drop_drop, List.take_add, Position.after_append]

lemma Yields.exists_forward (h : Yields c ts d) : ∃ n, d = c.forward n := by
  induction h with
  | nil c => exact ⟨0, rfl⟩
  | cons ht _ ih =>
    obtain ⟨m, rfl⟩ := ih
    cases ht with
    | mk => exact ⟨_, by rw [skipBlanks, forward_forward, forward_forward]⟩

/-- Where nothing but blanks is left, the whole text was passed over. -/
lemma Yields.place_eq (h : Yields c ts d) (hd : d.skipBlanks.rest = []) :
    d.skipBlanks.place = c.place.after c.rest := by
  obtain ⟨m, rfl⟩ := h.exists_forward
  rw [skipBlanks, forward_forward] at hd ⊢
  exact congrArg c.place.after (List.take_of_length_le (List.drop_eq_nil_iff.1 hd))

/-- The line feed between two sources is a token of its own. -/
lemma takes_lineFeed (hd : d.skipBlanks.rest = []) (ds : List Char) :
    Takes (d.followedBy ('\n' :: ds))
      ⟨.newline, "\n", ⟨d.skipBlanks.place, ⟨d.skipBlanks.place.line + 1, 0⟩⟩⟩
      ⟨ds, ⟨d.skipBlanks.place.line + 1, 0⟩⟩ := by
  have hr : (d.followedBy ('\n' :: ds)).skipBlanks.rest = '\n' :: ds := by
    rw [skipBlanks_followedBy]
    exact congrArg (· ++ '\n' :: ds) hd
  have ht := Takes.mk hr (scan_newline ds)
  have hforward : (d.skipBlanks.followedBy ('\n' :: ds)).forward 1 =
      ⟨ds, ⟨d.skipBlanks.place.line + 1, 0⟩⟩ := by
    simp only [forward, followedBy, hd]
    rfl
  rw [skipBlanks_followedBy, hforward] at ht
  exact ht

/-- The same text, some lines further down. -/
def down (lines : Nat) (c : Cursor) : Cursor :=
  ⟨c.rest, c.place.down lines⟩

lemma forward_down (n : Nat) : (c.down lines).forward n = (c.forward n).down lines := by
  simp only [forward, down, Position.after_down]

lemma skipBlanks_down : (c.down lines).skipBlanks = c.skipBlanks.down lines :=
  forward_down _

lemma Takes.down (h : Takes c t d) (nodes lines : Nat) :
    Takes (c.down lines) ((Relabel.below nodes lines).token t) (d.down lines) := by
  cases h with
  | @mk x xs kind n hr hs =>
    have hr' : (c.down lines).skipBlanks.rest = x :: xs := by
      rw [skipBlanks_down]
      exact hr
    have ht := Takes.mk hr' hs
    rw [skipBlanks_down, forward_down] at ht
    exact ht

lemma Yields.down (h : Yields c ts d) (nodes lines : Nat) :
    Yields (c.down lines) (ts.map (Relabel.below nodes lines).token) (d.down lines) := by
  induction h with
  | nil => exact .nil _
  | cons ht _ ih => exact .cons (ht.down nodes lines) ih

end Cursor

namespace TokenStream

open Cursor

variable {source source' : String} {s s' : TokenStream}

/-- The line end where a source ends. -/
def lineEnd (s : TokenStream) : Token :=
  ⟨.newline, "\n", ⟨s.eof.range.start, ⟨s.eof.range.start.line + 1, 0⟩⟩⟩

/-- The tokens of two sources with a line end between them. -/
def join (s s' : TokenStream) (r : Relabel) : TokenStream :=
  ⟨s.tokens ++ s.lineEnd :: s'.tokens.map r.token, r.token s'.eof⟩

/-- Joined sources have the joined tokens. -/
theorem ofSource_join (hs : ofSource source = .ok s) (hs' : ofSource source' = .ok s')
    (nodes : Nat) :
    ofSource (source ++ "\n" ++ source') =
      .ok (s.join s' (.below nodes (source.toList.count '\n' + 1))) := by
  obtain ⟨d, hd⟩ := ofSource_eq_ok.1 hs
  obtain ⟨d', hd'⟩ := ofSource_eq_ok.1 hs'
  have hstart : start (source ++ "\n" ++ source') =
      (start source).followedBy ('\n' :: source'.toList) := by
    simp [start, followedBy]
  -- The line feed leads to the start of the other source, as many lines down as there are breaks.
  have hplace : d.skipBlanks.place.line = source.toList.count '\n' := by
    rw [hd.yields.place_eq hd.rest_eq, Position.line_after]
    exact Nat.zero_add _
  have hdown : (⟨source'.toList, ⟨d.skipBlanks.place.line + 1, 0⟩⟩ : Cursor) =
      (start source').down (source.toList.count '\n' + 1) := by
    simp [hplace, down, start, Position.down, Position.origin]
  have hfeed := takes_lineFeed hd.rest_eq source'.toList
  rw [hdown] at hfeed
  rw [ofSource_eq_ok, hstart]
  refine ⟨d'.down (source.toList.count '\n' + 1), ?_, ?_, ?_⟩
  · have hyields := (hd.yields.followedBy source'.toList).append
      (.cons hfeed (hd'.yields.down nodes (source.toList.count '\n' + 1)))
    simp only [join, lineEnd, hd.eof_eq]
    exact hyields
  · rw [skipBlanks_down]
    exact hd'.rest_eq
  · rw [skipBlanks_down]
    simp only [join, hd'.eof_eq]
    rfl

end TokenStream

end BrighterCheck
