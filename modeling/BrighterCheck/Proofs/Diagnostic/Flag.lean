import BrighterCheck.Proofs.Diagnostic.Suppression
import BrighterCheck.Proofs.Lexer.Join
import BrighterCheck.Proofs.Lexer.Opening

/-!
# Flags in comments

However a flag is written, the comment is one token, and it is read as the flag that was meant. A
comment in any other form is no flag.
-/

namespace BrighterCheck

/-! ### Written flags -/

namespace CommentFlag

/-- The text `text` writes the codes `codes` one after another, with separators between them. -/
inductive WritesAll : List Char → List Nat → Prop where
  | last {item : List Char} {n : Nat} : Writes item n → WritesAll item [n]
  | more {item gap text : List Char} {n : Nat} {codes : List Nat} :
      Writes item n → gap ≠ [] → (∀ c ∈ gap, separatesItems c = true) → WritesAll text codes →
      WritesAll (item ++ (gap ++ text)) (n :: codes)

/-- What stands behind a directive: nothing, or a colon or white space and then some codes. -/
inductive WritesList : List Char → Option (List Nat) → Prop where
  | alone : WritesList [] none
  | codes {mark : Char} {gap text : List Char} {codes : List Nat} :
      mark = ':' ∨ isWhiteSpace mark = true → (∀ c ∈ gap, separatesItems c = true) →
      WritesAll text codes → WritesList (mark :: (gap ++ text)) (some codes)

/-- The text `word` is a directive, in any letter case, for `line` or for the line after it. -/
def Affects (word : List Char) (line affected : Nat) : Prop :=
  word.map Char.toLower = "bs:disable-next-line".toList ∧ affected = line + 1 ∨
    word.map Char.toLower = "bs:disable-line".toList ∧ affected = line

/-- The comment `text` on `line` writes the flag `flag`, in either style and with any blanks. -/
inductive WritesFlag (line : Nat) (text : List Char) (flag : CommentFlag) : Prop where
  | mk {start lead word list trail : List Char} :
      Cursor.Opening .comment start → (∀ c ∈ lead, isWhiteSpace c = true) →
      Affects word line flag.line → WritesList list flag.codes →
      (∀ c ∈ trail, isWhiteSpace c = true) → text = start ++ (lead ++ (word ++ list) ++ trail) →
      WritesFlag line text flag

/--
Behind the tokens `ts` of the source, the comment `text` stands on `line`: there may be blanks in
front of it, and nothing but a line end behind it.
-/
structure StandsBehind (source : String) (ts : List Token) (line : Nat) (text : List Char) :
    Prop where
  onLine : ∀ c ∈ text, Cursor.onLine c = true
  stands : ∃ before gap behind, source.toList = before ++ (gap ++ (text ++ behind)) ∧
    Cursor.Yields (.start source) ts ⟨gap ++ (text ++ behind), Position.origin.after before⟩ ∧
    Cursor.Blank gap ∧ (∀ c ∈ behind.head?, Cursor.onLine c = false) ∧ line = before.count '\n'

variable {line n : Nat} {item text list word : List Char} {codes : List Nat} {flag : CommentFlag}

/-! ### Codes -/

lemma ignoresCase_separatesItems : Ascii.IgnoresCase separatesItems :=
  .of_capitals (by decide)

/-- No digit is white space or a comma. -/
lemma separatesItems_of_isDigit {c : Char} (h : c.isDigit = true) : separatesItems c = false := by
  have hbounds : 48 ≤ c.toNat ∧ c.toNat ≤ 57 := by
    simpa [Char.isDigit, UInt32.le_iff_toNat_le] using h
  have hcomma : c ≠ ',' := by
    rintro rfl
    revert h
    decide
  have hspace : isWhiteSpace c = false := by
    simp only [isWhiteSpace, Bool.or_eq_false_iff, Bool.and_eq_false_iff, decide_eq_false_iff_not,
      beq_eq_false_iff_ne]
    omega
  simp [separatesItems, hspace, hcomma]

/-- Words in which no small letter separates items hold no separators. -/
lemma separatesItems_of_map_toLower {small : List Char} (hword : word.map Char.toLower = small)
    (hsmall : small.any separatesItems = false) : ∀ c ∈ word, separatesItems c = false := by
  intro c hc
  have hlower := List.any_eq_false.1 hsmall _ (hword ▸ List.mem_map_of_mem hc)
  rw [← ignoresCase_separatesItems c]
  exact Bool.eq_false_iff.2 hlower

lemma not_separatesItems_of_isCode (h : IsCode item n) :
    item ≠ [] ∧ ∀ c ∈ item, separatesItems c = false := by
  obtain ⟨-, hitem | ⟨digits, rfl, hdigits⟩⟩ := h
  · exact ⟨hitem.ne_nil, fun c hc => separatesItems_of_isDigit (hitem.isDigit c hc)⟩
  · refine ⟨List.cons_ne_nil _ _, List.forall_mem_cons.2 ⟨by decide, fun c hc => ?_⟩⟩
    exact separatesItems_of_isDigit (hdigits.isDigit c hc)

/-- What writes a code is one item. -/
lemma Writes.not_separatesItems (h : Writes item n) :
    item ≠ [] ∧ ∀ c ∈ item, separatesItems c = false := by
  rcases h with h | ⟨mark, digits, rfl, hmark, hdigits⟩
  · exact not_separatesItems_of_isCode h
  · obtain ⟨hne, hplain⟩ := not_separatesItems_of_isCode hdigits
    refine ⟨List.append_ne_nil_of_right_ne_nil _ hne, List.forall_mem_append.2 ⟨?_, hplain⟩⟩
    exact separatesItems_of_map_toLower hmark rfl

/-- Every code of 32 bits is written by its digits, and by letters in any case in front of them. -/
lemma writes_toDigits {mark : List Char} (hn : n < codeBound)
    (hmark : mark = [] ∨ mark.map Char.toLower = "bs".toList) :
    Writes (mark ++ Nat.toDigits 10 n) n := by
  have hcode : IsCode (Nat.toDigits 10 n) n := ⟨hn, .inl (isNumeral_toDigits n)⟩
  rcases hmark with rfl | hmark
  · exact .inl hcode
  · exact .inr ⟨mark, _, rfl, hmark, hcode⟩

lemma codesOf_of_separators {gap : List Char} (hgap : ∀ c ∈ gap, separatesItems c = true)
    (text : List Char) : codesOf (gap ++ text) = codesOf text :=
  congrArg (List.filterMap codeOf?) (pieces_of_separators hgap text)

/-- The first item of a list gives the first code. -/
lemma codesOf_append {back : List Char} (h : Writes item n)
    (hback : ∀ c ∈ back.head?, separatesItems c = true) :
    codesOf (item ++ back) = n :: codesOf back := by
  obtain ⟨hne, hplain⟩ := h.not_separatesItems
  have hpieces := pieces_append hplain hne hback
  exact (congrArg (List.filterMap codeOf?) hpieces).trans
    (List.filterMap_cons_some (codeOf?_eq_some_iff.2 h))

namespace WritesAll

/-- The codes of a list are read as they were written. -/
theorem codesOf_eq (h : WritesAll text codes) : codesOf text = codes := by
  induction h with
  | @last item n hitem =>
    have hcodes : codesOf (item ++ []) = n :: codesOf [] := codesOf_append hitem nofun
    rw [List.append_nil] at hcodes
    exact hcodes
  | @more item gap text n codes hitem hne hgap _ ih =>
    rw [codesOf_append hitem, codesOf_of_separators hgap, ih]
    obtain ⟨c, gap, rfl⟩ := List.exists_cons_of_ne_nil hne
    intro d hd
    cases hd
    exact hgap c (.head _)

lemma codes_ne_nil (h : WritesAll text codes) : codes ≠ [] := by
  cases h with
  | last => exact List.cons_ne_nil _ _
  | more => exact List.cons_ne_nil _ _

/-- A list of codes ends with one. -/
lemma getLast (h : WritesAll text codes) :
    text ≠ [] ∧ ∀ c ∈ text.getLast?, separatesItems c = false := by
  induction h with
  | last hitem =>
    obtain ⟨hne, hplain⟩ := hitem.not_separatesItems
    exact ⟨hne, fun c hc => hplain c (List.mem_of_getLast? hc)⟩
  | more _ _ _ _ ih =>
    obtain ⟨hne, hlast⟩ := ih
    rw [← List.append_assoc]
    refine ⟨List.append_ne_nil_of_right_ne_nil _ hne, ?_⟩
    rwa [List.getLast?_append_of_ne_nil _ hne]

end WritesAll

/-! ### Reading flags -/

lemma isWhiteSpace_of_separatesItems {c : Char} (h : separatesItems c = false) :
    isWhiteSpace c = false :=
  (Bool.or_eq_false_iff.1 h).1

/-- Of an opening, at most a blank is left in the body of a comment. -/
lemma body_append {start : List Char} (h : Cursor.Opening .comment start) (cs : List Char) :
    ∃ blanks, body (start ++ cs) = blanks ++ cs ∧ ∀ c ∈ blanks, isWhiteSpace c = true := by
  cases h with
  | apostrophe => exact ⟨[], rfl, nofun⟩
  | @rem word blank hword hblank =>
    have hdrop : Ascii.dropWord? "rem".toList (word ++ ([blank] ++ cs)) = some ([blank] ++ cs) :=
      (dropWord?_small rfl).2 ⟨word, rfl, hword⟩
    have hbody : body (word ++ ([blank] ++ cs)) = [blank] ++ cs := by
      unfold body
      split
      case h_1 rest heq =>
        -- an apostrophe is no letter
        obtain ⟨c, more, rfl, hc, -⟩ := List.map_eq_cons_iff.1 hword
        cases heq
        exact absurd hc (by decide)
      case h_2 => rw [hdrop, Option.getD_some]
    rw [List.append_assoc]
    refine ⟨[blank], hbody, fun c hc => ?_⟩
    cases List.mem_singleton.1 hc
    rcases hblank with rfl | rfl
    · rfl
    · rfl

lemma Affects.isDirective {affected : Nat} (h : Affects word line affected)
    (hline : line + 1 < 0x100000000) : IsDirective line word affected := by
  rcases h with ⟨hword, rfl⟩ | ⟨hword, rfl⟩
  · exact .inl ⟨hword, (nextIndex_of_lt hline).symm⟩
  · exact .inr ⟨hword, rfl⟩

/-- A directive is one word. -/
lemma Affects.plain {affected : Nat} (h : Affects word line affected) :
    word ≠ [] ∧ ∀ c ∈ word, separatesItems c = false := by
  rcases h with ⟨hword, -⟩ | ⟨hword, -⟩
  · refine ⟨?_, separatesItems_of_map_toLower hword (by decide)⟩
    rintro rfl
    cases hword
  · refine ⟨?_, separatesItems_of_map_toLower hword (by decide)⟩
    rintro rfl
    cases hword

/-- Neither a directive nor its list ends in white space. -/
lemma WritesList.getLast {affected : Nat} {codes : Option (List Nat)} (h : WritesList list codes)
    (hword : Affects word line affected) :
    ∀ c ∈ (word ++ list).getLast?, isWhiteSpace c = false := by
  intro c hc
  apply isWhiteSpace_of_separatesItems
  cases h with
  | alone =>
    rw [List.append_nil] at hc
    exact hword.plain.2 c (List.mem_of_getLast? hc)
  | @codes mark gap text codes _ _ htext =>
    obtain ⟨hne, hlast⟩ := htext.getLast
    rw [← List.cons_append, ← List.append_assoc, List.getLast?_append_of_ne_nil _ hne] at hc
    exact hlast c hc

/-- The list behind a directive is read as it was written. -/
lemma WritesList.directs {affected : Nat} {codes : Option (List Nat)} {text : String}
    (h : WritesList list codes) (hword : IsDirective line word affected)
    (htext : trim (body text.toList) = word ++ list) :
    ∃ list, Directs line text affected list ∧
      codes = if (codesOf list).isEmpty then none else some (codesOf list) := by
  cases h with
  | alone => exact ⟨[], .blank hword htext nofun, rfl⟩
  | @codes mark gap text codes hmark hgap hcodes =>
    have hlist : codesOf (gap ++ text) = codes :=
      (codesOf_of_separators hgap text).trans hcodes.codesOf_eq
    have hsome : some codes = if codes.isEmpty then none else some codes := by
      rw [if_neg (by simpa using hcodes.codes_ne_nil)]
    rcases hmark with rfl | hmark
    · exact ⟨gap ++ text, .colon hword htext, by rw [hlist, ← hsome]⟩
    · refine ⟨mark :: (gap ++ text), .blank hword htext fun c hc => ?_, ?_⟩
      · cases hc
        exact hmark
      · have hseparates : ∀ c ∈ [mark], separatesItems c = true := by
          simp [separatesItems, hmark]
        have hskip := codesOf_of_separators hseparates (gap ++ text)
        rw [List.singleton_append] at hskip
        rw [hskip, hlist, ← hsome]

/-- A comment is read as the flag that it writes. -/
theorem WritesFlag.ofComment?_eq (h : WritesFlag line text flag)
    (hline : line + 1 < 0x100000000) : ofComment? line (String.ofList text) = some flag := by
  obtain @⟨start, lead, word, list, trail, hstart, hlead, hword, hlist, htrail, htext⟩ := h
  obtain ⟨blanks, hbody, hblanks⟩ := body_append hstart (lead ++ (word ++ list) ++ trail)
  have htrim : trim (body (String.ofList text).toList) = word ++ list := by
    obtain ⟨hne, hplain⟩ := hword.plain
    rw [String.toList_ofList, htext, hbody, ← List.append_assoc, ← List.append_assoc]
    apply trim_append (List.forall_mem_append.2 ⟨hblanks, hlead⟩) htrail
    · obtain ⟨c, more, rfl⟩ := List.exists_cons_of_ne_nil hne
      intro d hd
      cases hd
      exact isWhiteSpace_of_separatesItems (hplain c (.head _))
    · exact hlist.getLast hword
    · exact List.append_ne_nil_of_left_ne_nil hne _
  obtain ⟨codes, hdirects, hcodes⟩ := hlist.directs (hword.isDirective hline) htrim
  exact ofComment?_eq_some_iff.2 ⟨codes, hdirects, hcodes⟩

/-- A comment is no flag exactly if behind its blanks no directive stands as a word of its own. -/
theorem ofComment?_eq_none_iff {text : String} :
    ofComment? line text = none ↔ ∀ word rest, trim (body text.toList) = word ++ rest →
      word.map Char.toLower = "bs:disable-next-line".toList ∨
        word.map Char.toLower = "bs:disable-line".toList →
      ∃ c ∈ rest.head?, c ≠ ':' ∧ isWhiteSpace c = false := by
  constructor
  · intro hnone word rest htext hword
    by_contra hrest
    obtain ⟨affected, hdirective⟩ : ∃ affected, IsDirective line word affected :=
      hword.elim (fun h => ⟨_, .inl ⟨h, rfl⟩⟩) fun h => ⟨_, .inr ⟨h, rfl⟩⟩
    obtain ⟨list, hdirects⟩ : ∃ list, Directs line text affected list := by
      cases rest with
      | nil => exact ⟨[], .blank hdirective htext nofun⟩
      | cons c rest =>
        by_cases hcolon : c = ':'
        · subst hcolon
          exact ⟨rest, .colon hdirective htext⟩
        · refine ⟨c :: rest, .blank hdirective htext fun d hd => ?_⟩
          cases hd
          by_contra hspace
          exact hrest ⟨c, rfl, hcolon, Bool.eq_false_iff.2 hspace⟩
    have hflag := ofComment?_eq_some_iff (f := ⟨affected, _⟩) |>.2 ⟨list, hdirects, rfl⟩
    cases hnone.symm.trans hflag
  · intro hplain
    rw [Option.eq_none_iff_forall_ne_some]
    intro flag hflag
    obtain ⟨list, hdirects, -⟩ := ofComment?_eq_some_iff.1 hflag
    cases hdirects with
    | @colon word hword htext =>
      obtain ⟨c, hc, hcolon, -⟩ := hplain word _ htext (hword.imp And.left And.left)
      cases hc
      exact hcolon rfl
    | @blank word hword htext hlist =>
      obtain ⟨c, hc, -, hspace⟩ := hplain word _ htext (hword.imp And.left And.left)
      rw [hlist c hc] at hspace
      cases hspace

end CommentFlag

/-! ### Comments in sources -/

namespace Cursor

variable {c d e : Cursor}

/-- Tokens that were read stand at the front of all tokens of the source. -/
lemma Yields.isPrefix {ts : List Token} (h : Yields c ts d) {s : TokenStream} (hs : s.Spells c e) :
    ts <+: s.tokens := by
  obtain ⟨tokens, eof⟩ := s
  obtain ⟨hyields, hrest, -⟩ := hs
  dsimp only at hyields ⊢
  induction h generalizing tokens with
  | nil => exact List.nil_prefix
  | cons htakes _ ih =>
    cases hyields with
    | nil =>
      cases htakes with
      | mk hcons => cases hrest.symm.trans hcons
    | cons htakes' hyields =>
      cases htakes.next_eq.symm.trans htakes'.next_eq
      exact (List.prefix_cons_inj _).2 (ih _ hyields)

/-- A comment is taken as one token, up to the end of its line. -/
lemma takes_comment {gap start body behind : List Char} (hgap : Blank gap)
    (hstart : Opening .comment start) (hbody : ∀ x ∈ body, onLine x = true)
    (hbehind : ∀ x ∈ behind.head?, onLine x = false) (place : Position) :
    Takes ⟨gap ++ (start ++ body ++ behind), place⟩
      ⟨.comment, String.ofList (start ++ body),
        ⟨place.after gap, place.after (gap ++ (start ++ body))⟩⟩
      ⟨behind, place.after (gap ++ (start ++ body))⟩ := by
  have htoken := hstart.isToken_line hbody hbehind
  have hnext := next_eq_ok.1 (next_of_isToken hgap htoken place)
  refine hnext.resolve_left ?_
  rintro ⟨-, heof, -⟩
  cases congrArg Token.kind heof

end Cursor

namespace CommentFlag

variable {source : String} {ts : List Token} {line : Nat} {text : List Char} {flag : CommentFlag}

/-- What writes a flag starts with the opening of a comment. -/
lemma WritesFlag.exists_opening (h : WritesFlag line text flag) :
    ∃ start rest, Cursor.Opening .comment start ∧ text = start ++ rest := by
  obtain ⟨hstart, -, -, -, -, htext⟩ := h
  exact ⟨_, _, hstart, htext⟩

/-- A comment that writes a flag is one token of its source, and is read as this flag. -/
theorem StandsBehind.token (h : StandsBehind source ts line text)
    (hline : line + 1 < 0x100000000) (hflag : WritesFlag line text flag) :
    ∃ t d, Cursor.Yields (.start source) (ts ++ [t]) d ∧ t.kind = .comment ∧
      t.text = String.ofList text ∧ t.range.start.line = line ∧
      ofComment? t.range.start.line t.text = some flag := by
  obtain ⟨honline, before, gap, behind, hsource, hyields, hgap, hbehind, hcount⟩ := h
  obtain ⟨start, rest, hstart, htext⟩ := hflag.exists_opening
  have hrest : ∀ c ∈ rest, Cursor.onLine c = true :=
    fun c hc => honline c (htext ▸ List.mem_append_right _ hc)
  have htakes := Cursor.takes_comment hgap hstart hrest hbehind (Position.origin.after before)
  rw [← htext] at htakes
  have hplace : ((Position.origin.after before).after gap).line = line := by
    have hnone : gap.count '\n' = 0 := List.count_eq_zero.2 fun hmem => by
      cases hgap _ hmem
    rw [Position.line_after, Position.line_after, hnone, hcount]
    exact Nat.zero_add _
  refine ⟨_, _, hyields.append (.cons htakes (.nil _)), rfl, rfl, hplace, ?_⟩
  rw [hplace]
  exact hflag.ofComment?_eq hline

/--
Every list of codes of 32 bits can be written, by digits alone or with letters in any case in front
of them. However it is written behind a directive, in a comment of either style anywhere in a
source, the comment is one token and is read as the flag with this list, and without codes behind
the directive as the flag without a list. A comment is no flag exactly if behind its mark and blanks
no directive stands as a word of its own.
-/
theorem reads_written :
    (∀ n < codeBound, ∀ mark, mark = [] ∨ mark.map Char.toLower = "bs".toList →
      Writes (mark ++ Nat.toDigits 10 n) n) ∧
    (∀ source ts line text flag, StandsBehind source ts line text → line + 1 < 0x100000000 →
      WritesFlag line text flag →
      ∃ t d, Cursor.Yields (.start source) (ts ++ [t]) d ∧ t.kind = .comment ∧
        t.text = String.ofList text ∧ t.range.start.line = line ∧
        ofComment? t.range.start.line t.text = some flag ∧
        ∀ s, TokenStream.ofSource source = .ok s →
          ts ++ [t] <+: s.tokens ∧ flag ∈ ofTokens s.tokens) ∧
    ∀ line text, ofComment? line text = none ↔ ∀ word rest,
      trim (body text.toList) = word ++ rest →
      word.map Char.toLower = "bs:disable-next-line".toList ∨
        word.map Char.toLower = "bs:disable-line".toList →
      ∃ c ∈ rest.head?, c ≠ ':' ∧ isWhiteSpace c = false := by
  refine ⟨fun n hn mark hmark => writes_toDigits hn hmark, ?_,
    fun line text => ofComment?_eq_none_iff⟩
  intro source ts line text flag hstands hline hflag
  obtain ⟨t, d, hyields, hkind, htext, hplace, hread⟩ := hstands.token hline hflag
  refine ⟨t, d, hyields, hkind, htext, hplace, hread, fun s hs => ?_⟩
  obtain ⟨e, he⟩ := TokenStream.ofSource_eq_ok.1 hs
  have hbefore := hyields.isPrefix he
  refine ⟨hbefore, List.mem_filterMap.2 ⟨t, hbefore.subset (by simp), ?_⟩⟩
  rw [if_pos hkind]
  exact hread

/-- At the start of a source, a comment for the next line with two codes. -/
theorem reads_written_of_rem :
    ∃ t d, Cursor.Yields (.start "rem\tBS:Disable-Next-Line: 1106,\x0b bS07 \nx = 1") [t] d ∧
      t.kind = .comment ∧ ofComment? t.range.start.line t.text = some ⟨1, some [1106, 7]⟩ := by
  let text := "rem\tBS:Disable-Next-Line: 1106,\x0b bS07 ".toList
  have hstands : StandsBehind "rem\tBS:Disable-Next-Line: 1106,\x0b bS07 \nx = 1" [] 0 text := by
    have hsource : "rem\tBS:Disable-Next-Line: 1106,\x0b bS07 \nx = 1".toList =
        text ++ "\nx = 1".toList := by
      decide +kernel
    refine ⟨List.all_eq_true.1 (by decide), [], [], "\nx = 1".toList, hsource, ?_, nofun, ?_, rfl⟩
    · rw [Cursor.start, hsource]
      exact .nil _
    · rintro _ ⟨⟩
      rfl
  have hcodes : WritesAll ("1106".toList ++ (",\x0b ".toList ++ "bS07".toList)) [1106, 7] := by
    have hfirst : Writes "1106".toList 1106 := codeOf?_eq_some_iff.1 (by decide +kernel)
    have hlast : Writes "bS07".toList 7 := codeOf?_eq_some_iff.1 (by decide +kernel)
    exact .more hfirst (by decide) (List.all_eq_true.1 rfl) (.last hlast)
  have hlist : WritesList (':' :: ([' '] ++ ("1106".toList ++ (",\x0b ".toList ++
      "bS07".toList)))) (some [1106, 7]) :=
    .codes (.inl rfl) (List.all_eq_true.1 rfl) hcodes
  have hrem : "rem".toList.map Char.toLower = "rem".toList := rfl
  have hword : Affects "BS:Disable-Next-Line".toList 0 1 := .inl ⟨by decide +kernel, rfl⟩
  have hlead : ∀ c ∈ ([] : List Char), isWhiteSpace c = true := nofun
  have htrail : ∀ c ∈ [' '], isWhiteSpace c = true := List.all_eq_true.1 rfl
  have hflag : WritesFlag 0 text ⟨1, some [1106, 7]⟩ :=
    .mk (.rem hrem (.inr rfl)) hlead hword hlist htrail (by decide +kernel)
  obtain ⟨t, d, hyields, hkind, -, -, hread, -⟩ :=
    reads_written.2.1 _ _ _ _ _ hstands (by decide) hflag
  exact ⟨t, d, hyields, hkind, hread⟩

end CommentFlag

end BrighterCheck
