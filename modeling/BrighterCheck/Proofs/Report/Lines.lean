import BrighterCheck.Proofs.Lexer.Tiling
import BrighterCheck.Report.Lines

/-!
# Offsets and positions

Positions are found by going through a text character by character, and in the table of its lines.
Both agree (`positionAt_byteLength`), so that the offset of a position leads back to where the
position was found (`offsetOf_positionAt`). Offsets of arbitrary positions are kept within the text
without changing their order (`offsetOf_mono`).
-/

namespace BrighterCheck

/-! ### Bytes of a text -/

lemma byteLength_append (cs ds : List Char) :
    byteLength (cs ++ ds) = byteLength cs + byteLength ds := by
  induction cs with
  | nil => exact (Nat.zero_add _).symm
  | cons c cs ih =>
    show c.utf8Size + byteLength (cs ++ ds) = c.utf8Size + byteLength cs + byteLength ds
    rw [ih, Nat.add_assoc]

lemma utf8ByteSize_ofList (cs : List Char) : (String.ofList cs).utf8ByteSize = byteLength cs := by
  induction cs with
  | nil => rfl
  | cons c cs ih =>
    rw [← List.singleton_append, utf8ByteSize_ofList_append, utf8ByteSize_ofList_singleton, ih]
    rfl

lemma byteLength_toList (s : String) : byteLength s.toList = s.utf8ByteSize := by
  rw [← utf8ByteSize_ofList, String.ofList_toList]

/-! ### The table of lines -/

lemma laterLineStarts_append (n : Nat) (cs ds : List Char) :
    laterLineStarts n (cs ++ ds) =
      laterLineStarts n cs ++ laterLineStarts (n + byteLength cs) ds := by
  induction cs generalizing n with
  | nil => rfl
  | cons c cs ih =>
    have hsize : n + c.utf8Size + byteLength cs = n + byteLength (c :: cs) := Nat.add_assoc _ _ _
    rw [List.cons_append, laterLineStarts, laterLineStarts, ih, hsize]
    split
    · rfl
    · rfl

/-- The lines behind a text start behind it, and within what follows it. -/
lemma mem_laterLineStarts {n start : Nat} {cs : List Char} (h : start ∈ laterLineStarts n cs) :
    n < start ∧ start ≤ n + byteLength cs := by
  induction cs generalizing n with
  | nil => cases h
  | cons c cs ih =>
    have hpos := c.utf8Size_pos
    have hsize : n + byteLength (c :: cs) = n + c.utf8Size + byteLength cs :=
      (Nat.add_assoc _ _ _).symm
    have hbounds : start = n + c.utf8Size ∨ start ∈ laterLineStarts (n + c.utf8Size) cs := by
      unfold laterLineStarts at h
      dsimp only at h
      split at h
      · exact List.mem_cons.1 h
      · exact .inr h
    rw [hsize]
    cases hbounds with
    | inl h => omega
    | inr h =>
      obtain ⟨hlt, hle⟩ := ih h
      omega

lemma pairwise_laterLineStarts (n : Nat) (cs : List Char) :
    (laterLineStarts n cs).Pairwise (· < ·) := by
  induction cs generalizing n with
  | nil => exact .nil
  | cons c cs ih =>
    unfold laterLineStarts
    dsimp only
    split
    · apply List.Pairwise.cons _ (ih _)
      intro start hstart
      exact (mem_laterLineStarts hstart).1
    · exact ih _

/-- Lines start one behind the other. -/
lemma pairwise_lineStarts (cs : List Char) : (lineStarts cs).Pairwise (· < ·) := by
  apply List.Pairwise.cons _ (pairwise_laterLineStarts 0 cs)
  intro start hstart
  exact (mem_laterLineStarts hstart).1

lemma le_byteLength_of_mem {cs : List Char} {start : Nat} (h : start ∈ lineStarts cs) :
    start ≤ byteLength cs := by
  cases List.mem_cons.1 h with
  | inl h =>
    rw [h]
    exact Nat.zero_le _
  | inr h =>
    have hle := (mem_laterLineStarts h).2
    omega

section Split

variable {cs : List Char} {earlier earlier' later later' : List Nat} {start start' n k : Nat}

/-- A line further down starts among the later ones. -/
lemma exists_later_of_lt (h : earlier ++ start :: later = earlier' ++ start' :: later')
    (hlt : earlier.length < earlier'.length) : ∃ between, later = between ++ start' :: later' := by
  cases List.append_eq_append_iff.1 h with
  | inl h =>
    obtain ⟨more, rfl, hmore⟩ := h
    cases more with
    | nil =>
      rw [List.append_nil] at hlt
      exact absurd hlt (Nat.lt_irrefl _)
    | cons m more =>
      cases hmore
      exact ⟨more, rfl⟩
  | inr h =>
    obtain ⟨more, rfl, -⟩ := h
    rw [List.length_append] at hlt
    omega

/-- In a list in order, all behind the entries up to a bound is greater than the bound. -/
lemma lt_of_mem_dropWhile {starts : List Nat} (h : starts.Pairwise (· < ·)) {s : Nat}
    (hs : s ∈ starts.dropWhile (· ≤ n)) : n < s := by
  induction starts with
  | nil => cases hs
  | cons first starts ih =>
    obtain ⟨hfirst, hstarts⟩ := List.pairwise_cons.1 h
    by_cases hle : first ≤ n
    · rw [List.dropWhile_cons_of_pos (by simpa using hle)] at hs
      exact ih hstarts hs
    · rw [List.dropWhile_cons_of_neg (by simpa using hle)] at hs
      have hlt := Nat.lt_of_not_le hle
      cases List.mem_cons.1 hs with
      | inl hs => exact hs ▸ hlt
      | inr hs => exact hlt.trans (hfirst s hs)

/-- The line that holds an offset starts at or before it, and the later ones behind it. -/
lemma exists_lineStarts_eq (cs : List Char) (n : Nat) :
    ∃ earlier start later, lineStarts cs = earlier ++ start :: later ∧
      earlier.length = lineIndex cs n ∧ start ≤ n ∧ ∀ s ∈ later, n < s := by
  have hsplit : (lineStarts cs).takeWhile (· ≤ n) ++ (lineStarts cs).dropWhile (· ≤ n) =
      lineStarts cs := List.takeWhile_append_dropWhile
  obtain ⟨earlier, start, hfirst⟩ : ∃ earlier start,
      (lineStarts cs).takeWhile (· ≤ n) = earlier ++ [start] := by
    refine ⟨_, _, (List.dropLast_append_getLast ?_).symm⟩
    simp [lineStarts]
  have hstart : start ≤ n := by
    have hmem : start ∈ (lineStarts cs).takeWhile (· ≤ n) := by
      rw [hfirst]
      exact List.mem_append_right _ (.head _)
    simpa using List.mem_takeWhile_imp hmem
  refine ⟨earlier, start, (lineStarts cs).dropWhile (· ≤ n), ?_, ?_, hstart, ?_⟩
  · rw [hfirst, List.append_assoc] at hsplit
    exact hsplit.symm
  · rw [lineIndex, hfirst, List.length_append, List.length_singleton, Nat.add_sub_cancel]
  · intro s hs
    exact lt_of_mem_dropWhile (pairwise_lineStarts cs) hs

variable (h : lineStarts cs = earlier ++ start :: later)

include h

/-- Of two lines, the one further up starts first. -/
lemma lt_of_mem_earlier {s : Nat} (hs : s ∈ earlier) : s < start := by
  have hstarts := pairwise_lineStarts cs
  rw [h] at hstarts
  exact (List.pairwise_append.1 hstarts).2.2 s hs start (.head _)

lemma lt_of_mem_later {s : Nat} (hs : s ∈ later) : start < s := by
  have hstarts := pairwise_lineStarts cs
  rw [h] at hstarts
  exact (List.pairwise_cons.1 (List.pairwise_append.1 hstarts).2.1).1 s hs

/-- A line starts before it ends, and ends within the text. -/
lemma start_le_end :
    start ≤ later.headD (byteLength cs) ∧ later.headD (byteLength cs) ≤ byteLength cs := by
  cases later with
  | nil =>
    have hmem : start ∈ lineStarts cs := by
      rw [h]
      exact List.mem_append_right _ (.head _)
    exact ⟨le_byteLength_of_mem hmem, Nat.le_refl _⟩
  | cons next later =>
    have hmem : next ∈ lineStarts cs := by
      rw [h]
      exact List.mem_append_right _ (.tail _ (.head _))
    exact ⟨(lt_of_mem_later h (.head _)).le, le_byteLength_of_mem hmem⟩

/-- The line of an offset is the last one that starts at or before it. -/
lemma lineIndex_eq (hstart : start ≤ n) (hlater : ∀ s ∈ later, n < s) :
    lineIndex cs n = earlier.length := by
  have hearlier : ∀ s ∈ earlier ++ [start], decide (s ≤ n) = true := by
    intro s hs
    apply decide_eq_true
    cases List.mem_append.1 hs with
    | inl hs => exact (lt_of_mem_earlier h hs).le.trans hstart
    | inr hs => exact (List.mem_singleton.1 hs).le.trans hstart
  have hfirst : (lineStarts cs).takeWhile (· ≤ n) = earlier ++ [start] := by
    rw [h, List.append_cons, List.takeWhile_append_of_pos hearlier]
    cases later with
    | nil => rw [List.takeWhile_nil, List.append_nil]
    | cons next later =>
      have hnext : ¬ next ≤ n := Nat.not_le_of_lt (hlater next (.head _))
      rw [List.takeWhile_cons_of_neg (by simpa using hnext), List.append_nil]
  rw [lineIndex, hfirst, List.length_append, List.length_singleton, Nat.add_sub_cancel]

lemma getD_lineStarts : (lineStarts cs).getD earlier.length 0 = start := by
  rw [h]
  simp

lemma lineSpan?_eq : lineSpan? cs earlier.length = some (start, later.headD (byteLength cs)) := by
  rw [lineSpan?, h, List.drop_left]
  cases later with
  | nil => rfl
  | cons next later => rfl

/-- A position in a line is kept within it. -/
lemma offsetOf_eq (column : Nat) :
    offsetOf cs ⟨earlier.length, column⟩ = min (start + column) (later.headD (byteLength cs)) := by
  rw [offsetOf, lineSpan?_eq h]

end Split

/-- A position behind all lines is kept within the text. -/
lemma offsetOf_eq_byteLength {cs : List Char} {p : Position}
    (h : (lineStarts cs).length ≤ p.line) : offsetOf cs p = byteLength cs := by
  rw [offsetOf, lineSpan?, List.drop_eq_nil_of_le h]

/-- Where there is a line, the table is split there. -/
lemma exists_lineStarts_eq_of_lt {cs : List Char} {k : Nat} (h : k < (lineStarts cs).length) :
    ∃ earlier start later, lineStarts cs = earlier ++ start :: later ∧ earlier.length = k := by
  refine ⟨(lineStarts cs).take k, (lineStarts cs)[k], (lineStarts cs).drop (k + 1), ?_, ?_⟩
  · rw [List.getElem_cons_drop, List.take_append_drop]
  · rw [List.length_take, Nat.min_eq_left h.le]

/-! ### Offsets of positions -/

/-- No position leads out of the text. -/
theorem offsetOf_le (cs : List Char) (p : Position) : offsetOf cs p ≤ byteLength cs := by
  cases Nat.lt_or_ge p.line (lineStarts cs).length with
  | inl hlt =>
    obtain ⟨earlier, start, later, hsplit, hline⟩ := exists_lineStarts_eq_of_lt hlt
    obtain ⟨line, column⟩ := p
    cases hline
    rw [offsetOf_eq hsplit]
    exact (Nat.min_le_right _ _).trans (start_le_end hsplit).2
  | inr hge => exact (offsetOf_eq_byteLength hge).le

/-- Positions further on do not lead back, however far outside their lines they are. -/
theorem offsetOf_mono (cs : List Char) {p q : Position} (h : p ≤ q) :
    offsetOf cs p ≤ offsetOf cs q := by
  have hline : p.line ≤ q.line := by
    have hle := Position.le_iff.1 h
    omega
  cases Nat.lt_or_ge q.line (lineStarts cs).length with
  | inr hge =>
    rw [offsetOf_eq_byteLength hge]
    exact offsetOf_le cs p
  | inl hq =>
    obtain ⟨earlier, start, later, hsplit, hp⟩ := exists_lineStarts_eq_of_lt (hline.trans_lt hq)
    obtain ⟨earlier', start', later', hsplit', hq⟩ := exists_lineStarts_eq_of_lt hq
    obtain ⟨line, column⟩ := p
    obtain ⟨line', column'⟩ := q
    cases hp
    cases hq
    rw [offsetOf_eq hsplit, offsetOf_eq hsplit']
    obtain hlt | ⟨he, hcolumn⟩ := Position.le_iff.1 h
    · -- The line of `p` ends where that of `q` starts, or before.
      obtain ⟨between, hlater⟩ := exists_later_of_lt (hsplit.symm.trans hsplit') hlt
      have hend : later.headD (byteLength cs) ≤ start' := by
        cases between with
        | nil =>
          rw [hlater]
          exact Nat.le_refl _
        | cons next between =>
          have hbefore :
              lineStarts cs = (earlier ++ start :: next :: between) ++ start' :: later' := by
            rw [hsplit, hlater]
            simp
          rw [hlater]
          exact (lt_of_mem_earlier hbefore (by simp)).le
      have hstart := (start_le_end hsplit').1
      omega
    · have hsame := hsplit.symm.trans hsplit'
      obtain ⟨-, hsame⟩ := List.append_inj hsame he
      cases hsame
      have hle : start + column ≤ start + column' := Nat.add_le_add_left hcolumn _
      omega

/-- The ends of every range are put in order, within the text. -/
theorem byteSpan_le (cs : List Char) (r : Range) :
    (byteSpan cs r).1 ≤ (byteSpan cs r).2 ∧ (byteSpan cs r).2 ≤ byteLength cs := by
  constructor
  · exact Nat.le_max_right _ _
  · exact Nat.max_le.2 ⟨offsetOf_le cs _, offsetOf_le cs _⟩

/-! ### Positions of offsets -/

/-- The position of a byte offset: the line that holds it, and the bytes since the line started. -/
def positionAt (cs : List Char) (n : Nat) : Position where
  line := lineIndex cs n
  column := n - (lineStarts cs).getD (lineIndex cs n) 0

lemma positionAt_eq {cs : List Char} {earlier later : List Nat} {start n : Nat}
    (h : lineStarts cs = earlier ++ start :: later) (hstart : start ≤ n)
    (hlater : ∀ s ∈ later, n < s) : positionAt cs n = ⟨earlier.length, n - start⟩ := by
  rw [positionAt, lineIndex_eq h hstart hlater, getD_lineStarts h]

/-- The offset of a position is where the position was found. -/
theorem offsetOf_positionAt {cs : List Char} {n : Nat} (hn : n ≤ byteLength cs) :
    offsetOf cs (positionAt cs n) = n := by
  obtain ⟨earlier, start, later, hsplit, -, hstart, hlater⟩ := exists_lineStarts_eq cs n
  rw [positionAt_eq hsplit hstart hlater, offsetOf_eq hsplit, Nat.add_sub_cancel' hstart]
  apply Nat.min_eq_left
  cases later with
  | nil => exact hn
  | cons next later => exact (hlater next (.head _)).le

lemma Position.lt_iff {p q : Position} :
    p < q ↔ p.line < q.line ∨ p.line = q.line ∧ p.column < q.column := by
  rw [← not_le, Position.le_iff]
  omega

/-- Different offsets have different positions, in the same order. -/
theorem positionAt_lt (cs : List Char) {m n : Nat} (h : m < n) :
    positionAt cs m < positionAt cs n := by
  obtain ⟨earlier, start, later, hsplit, -, hstart, hlater⟩ := exists_lineStarts_eq cs m
  obtain ⟨earlier', start', later', hsplit', -, hstart', hlater'⟩ := exists_lineStarts_eq cs n
  have hsame := hsplit.symm.trans hsplit'
  rw [positionAt_eq hsplit hstart hlater, positionAt_eq hsplit' hstart' hlater', Position.lt_iff]
  obtain hlt | he | hgt := Nat.lt_trichotomy earlier.length earlier'.length
  · exact .inl hlt
  · obtain ⟨-, hsame⟩ := List.append_inj hsame he
    cases hsame
    exact .inr ⟨he, Nat.sub_lt_sub_right hstart h⟩
  · -- The line of `m` would start behind `n`.
    obtain ⟨between, hbetween⟩ := exists_later_of_lt hsame.symm hgt
    have hn : n < start := hlater' start (hbetween ▸ List.mem_append_right _ (.head _))
    omega

/-! ### Places between characters -/

lemma lineStarts_append (before after : List Char) : lineStarts (before ++ after) =
    lineStarts before ++ laterLineStarts (byteLength before) after := by
  rw [lineStarts, laterLineStarts_append, Nat.zero_add]
  rfl

/-- The last line of a text is the last one in its table. -/
lemma exists_lineStarts_eq_concat (cs : List Char) :
    ∃ earlier start, lineStarts cs = earlier ++ [start] ∧ earlier.length = cs.count '\n' ∧
      start + byteLength (lastLine cs) = byteLength cs := by
  induction cs using List.reverseRecOn with
  | nil => exact ⟨[], 0, rfl, rfl, rfl⟩
  | append_singleton cs c ih =>
    obtain ⟨earlier, start, hstarts, hcount, hsize⟩ := ih
    rw [lineStarts_append, hstarts, List.count_append, lastLine_concat, byteLength_append,
      laterLineStarts]
    split
    case isTrue hc =>
      rw [hc]
      exact ⟨earlier ++ [start], _, rfl, by simp [hcount], rfl⟩
    case isFalse hc =>
      refine ⟨earlier, start, List.append_nil _, ?_, ?_⟩
      · rw [hcount, List.count_singleton, if_neg (by simpa using hc), Nat.add_zero]
      · rw [byteLength_append, ← hsize, Nat.add_assoc]

/-- Between two characters of a text, the table of its lines is that of the text before them. -/
lemma exists_lineStarts_eq_append (before after : List Char) :
    ∃ earlier start, lineStarts (before ++ after) =
        earlier ++ start :: laterLineStarts (byteLength before) after ∧
      earlier.length = before.count '\n' ∧
      start + byteLength (lastLine before) = byteLength before := by
  obtain ⟨earlier, start, hstarts, hcount, hsize⟩ := exists_lineStarts_eq_concat before
  refine ⟨earlier, start, ?_, hcount, hsize⟩
  rw [lineStarts_append, hstarts, List.append_assoc]
  rfl

/-- The table of lines and going through a text give the same positions. -/
theorem positionAt_byteLength (before after : List Char) :
    positionAt (before ++ after) (byteLength before) = .behind before := by
  obtain ⟨earlier, start, hsplit, hcount, hsize⟩ := exists_lineStarts_eq_append before after
  rw [positionAt_eq hsplit (by omega) fun s hs => (mem_laterLineStarts hs).1, Position.behind,
    hcount, utf8ByteSize_ofList, ← hsize, Nat.add_sub_cancel_left]

/-- The offset of a place is the number of bytes before it. -/
lemma offsetOf_behind (before after : List Char) :
    offsetOf (before ++ after) (.behind before) = byteLength before := by
  rw [← positionAt_byteLength before after]
  apply offsetOf_positionAt
  rw [byteLength_append]
  omega

/-! ### Pieces of a text -/

/-- The range `r` of the text `cs` holds the text `piece`. -/
def Range.Holds (cs piece : List Char) (r : Range) : Prop :=
  ∃ front back, cs = front ++ (piece ++ back) ∧ r = ⟨.behind front, .behind (front ++ piece)⟩

/-- The bytes of a range are those of the text it holds. -/
lemma Range.Holds.exists_byteSpan_eq {cs piece : List Char} {r : Range} (h : r.Holds cs piece) :
    ∃ front back, cs = front ++ (piece ++ back) ∧
      byteSpan cs r = (byteLength front, byteLength front + byteLength piece) := by
  obtain ⟨front, back, hsplit, rfl⟩ := h
  refine ⟨front, back, hsplit, ?_⟩
  have hstart : offsetOf cs (.behind front) = byteLength front := by
    rw [hsplit, offsetOf_behind]
  have hfinish : offsetOf cs (.behind (front ++ piece)) = byteLength front + byteLength piece := by
    rw [hsplit, ← List.append_assoc, offsetOf_behind, byteLength_append]
  rw [byteSpan, hstart, hfinish, Nat.max_eq_left (Nat.le_add_right _ _)]

namespace Cursor

/-- Everything that is read stands in a range of the source, and a token has the text that its range
holds. -/
lemma exists_holds {source : List Char} {l : Except LexicalError Token} {n : Nat} {c : Cursor}
    {before : List Char} (hsource : source = before ++ c.rest) (hplace : c.place = .behind before)
    (hl : l ∈ lexemes n c) :
    ∃ piece, (lexemeRange l).Holds source piece ∧ ∀ t, l = .ok t → t.text.toList = piece := by
  induction n generalizing c before with
  | zero => cases hl
  | succ n ih =>
    have hanswers := c.answers_next
    cases hnext : c.next with
    | mk answer d =>
      rw [hnext] at hanswers
      rw [lexemes, hnext] at hl
      cases hanswers with
      | finish hblank =>
        have hend : c.place.after c.rest = .behind source := by
          rw [hplace, Position.after_behind, hsource]
        cases List.mem_cons.1 hl with
        | inl hl =>
          rw [hl, hend]
          refine ⟨[], ⟨source, [], ?_, ?_⟩, ?_⟩
          · simp
          · rw [List.append_nil]
            rfl
          · intro t ht
            cases ht
            rfl
        | inr hl =>
          have hnothing : source = source ++ [] := (List.append_nil _).symm
          exact ih hnothing hend hl
      | @piece gap piece behind found hrest _ _ _ =>
        have hstart : c.place.after gap = .behind (before ++ gap) := by
          rw [hplace, Position.after_behind]
        have hfinish : c.place.after (gap ++ piece) = .behind (before ++ gap ++ piece) := by
          rw [hplace, Position.after_behind, List.append_assoc]
        cases List.mem_cons.1 hl with
        | inl hl =>
          rw [hl, hstart, hfinish]
          refine ⟨piece, ⟨before ++ gap, behind, ?_, lexemeRange_lexeme _ _ _⟩, ?_⟩
          · rw [hsource, hrest, List.append_assoc]
          · intro t ht
            cases found with
            | ok kind =>
              cases ht
              exact String.toList_ofList
            | error fault => cases ht
        | inr hl =>
          have hmore : source = (before ++ gap ++ piece) ++ behind := by
            simp [hsource, hrest]
          exact ih hmore hfinish hl

/-- Everything that is read from the start stands in a range of the source. -/
lemma exists_holds_start {source : String} {l : Except LexicalError Token} {n : Nat}
    (hl : l ∈ lexemes n (.start source)) :
    ∃ piece, (lexemeRange l).Holds source.toList piece ∧
      ∀ t, l = .ok t → t.text.toList = piece := by
  have hsource : source.toList = [] ++ (start source).rest := rfl
  exact exists_holds hsource rfl hl

end Cursor

/-! ### Round trips -/

/-- How positions and offsets of a source fit together. -/
structure OffsetsFit (source : String) : Prop where
  /-- A cursor that has read `before` stands at the position that the table of lines gives. -/
  place_eq {before after : List Char} : source.toList = before ++ after →
    ((Cursor.start source).forward before.length).place =
      positionAt source.toList (byteLength before)
  /-- The position of an offset leads back to it. -/
  offsetOf_positionAt {n : Nat} : n ≤ source.utf8ByteSize →
    offsetOf source.toList (positionAt source.toList n) = n
  /-- A later offset has a later position. -/
  positionAt_lt {m n : Nat} : m < n → n ≤ source.utf8ByteSize →
    positionAt source.toList m < positionAt source.toList n
  /-- The bytes of a token that is read are those of its text. -/
  byteSpan_token {n : Nat} {t : Token} : .ok t ∈ Cursor.lexemes n (.start source) →
    ∃ front back, source.toList = front ++ (t.text.toList ++ back) ∧
      byteSpan source.toList t.range = (byteLength front, byteLength front + t.text.utf8ByteSize)
  /-- Positions in order have offsets in order, which do not lead out of the source. -/
  offsetOf_le {p q : Position} : p ≤ q →
    offsetOf source.toList p ≤ offsetOf source.toList q ∧
      offsetOf source.toList q ≤ source.utf8ByteSize
  /-- Every range has its bytes in the source, even if it is reversed. -/
  byteSpan_le (r : Range) : (byteSpan source.toList r).1 ≤ (byteSpan source.toList r).2 ∧
    (byteSpan source.toList r).2 ≤ source.utf8ByteSize

/-- Positions and offsets of every source fit together. -/
theorem offsetsFit (source : String) : OffsetsFit source where
  place_eq {before after} hsplit := by
    rw [hsplit, positionAt_byteLength, ← Position.after_origin]
    show Position.origin.after (source.toList.take before.length) = _
    rw [hsplit, List.take_left]
  offsetOf_positionAt hn := BrighterCheck.offsetOf_positionAt (by rwa [byteLength_toList])
  positionAt_lt h _ := BrighterCheck.positionAt_lt _ h
  byteSpan_token ht := by
    obtain ⟨piece, hholds, htext⟩ := Cursor.exists_holds_start ht
    rw [← htext _ rfl] at hholds
    obtain ⟨front, back, hsplit, hspan⟩ := hholds.exists_byteSpan_eq
    rw [byteLength_toList] at hspan
    exact ⟨front, back, hsplit, hspan⟩
  offsetOf_le h := by
    rw [← byteLength_toList]
    exact ⟨offsetOf_mono _ h, BrighterCheck.offsetOf_le _ _⟩
  byteSpan_le r := by
    rw [← byteLength_toList]
    exact BrighterCheck.byteSpan_le _ r

end BrighterCheck
