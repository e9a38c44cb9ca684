import BrighterCheck.Proofs.Lexer.Likeness
import BrighterCheck.Proofs.Lexer.Opening
import BrighterCheck.Proofs.Tree.Hiding
import BrighterCheck.Report.Lines

/-!
# Tokens with other contents

The contents of strings, comments and `#error` can be exchanged for others of the same size. Nothing
in front of an opening sees what it opens, so the tokens stay the same, at the same places.
-/

namespace BrighterCheck

open Cursor Relabel TokenKind

/--
The second text is a token of the given kind like the first one, with other contents of the same
size: between the quotes of a string, where no quotes are put, or behind the opening of a comment or
an error. Flags are left as they are, and no other comment becomes one.
-/
inductive Rewords : TokenKind → List Char → List Char → Prop where
  | same (kind : TokenKind) (piece : List Char) : Rewords kind piece piece
  | string {body body' : List Char} :
      byteLength body = byteLength body' → (∀ c ∈ body', c ≠ '"' ∧ onLine c = true) →
      Rewords (.literal .string) ('"' :: (body ++ ['"'])) ('"' :: (body' ++ ['"']))
  | line {kind : TokenKind} {start body body' : List Char} :
      Opening kind start → byteLength body = byteLength body' → (∀ c ∈ body', onLine c = true) →
      (kind = .comment → CommentFlag.isFlag (String.ofList (start ++ body)) = false ∧
        CommentFlag.isFlag (String.ofList (start ++ body')) = false) →
      Rewords kind (start ++ body) (start ++ body')

/-- A text all of which is tokens, and the text with other contents in some of these. -/
inductive Reworded : List Char → List Char → Prop where
  | finish {gap : List Char} : Blank gap → Reworded gap gap
  | token {gap piece piece' behind behind' : List Char} {kind : TokenKind} :
      Blank gap → IsToken (piece ++ behind) kind piece → Rewords kind piece piece' →
      Reworded behind behind' → Reworded (gap ++ (piece ++ behind)) (gap ++ (piece' ++ behind'))

namespace Cursor

/-- What opens contents of any kind. -/
def IsOpening (start : List Char) : Prop :=
  start = ['"'] ∨ ∃ kind, Opening kind start

lemma IsOpening.exists_mark {start : List Char} (h : IsOpening start) :
    ∃ x ∈ marks, x ∈ start := by
  cases h with
  | inl hquote => exact ⟨'"', by decide, hquote ▸ .head _⟩
  | inr hopening =>
    obtain ⟨kind, hopening⟩ := hopening
    exact hopening.exists_mark

end Cursor

variable {kind : TokenKind} {piece piece' behind behind' cs cs' : List Char}

/-- Texts that are the same, or the same up to some opening. -/
def SameUpToOpening (cs cs' : List Char) : Prop :=
  cs = cs' ∨ ∃ front start rest rest', IsOpening start ∧ cs = front ++ (start ++ rest) ∧
    cs' = front ++ (start ++ rest')

namespace SameUpToOpening

lemma append_left (h : SameUpToOpening cs cs') (us : List Char) :
    SameUpToOpening (us ++ cs) (us ++ cs') := by
  cases h with
  | inl heq => exact .inl (congrArg (us ++ ·) heq)
  | inr hdiff =>
    obtain ⟨front, start, rest, rest', hstart, rfl, rfl⟩ := hdiff
    exact .inr ⟨us ++ front, start, rest, rest', hstart, by simp, by simp⟩

lemma head?_eq (h : SameUpToOpening cs cs') : cs.head? = cs'.head? := by
  cases h with
  | inl heq => rw [heq]
  | inr hdiff =>
    obtain ⟨front, start, rest, rest', hstart, rfl, rfl⟩ := hdiff
    obtain ⟨x, -, hx⟩ := hstart.exists_mark
    rw [← List.append_assoc, ← List.append_assoc]
    have hne : front ++ start ≠ [] := by
      intro hnil
      rw [(List.append_eq_nil_iff.1 hnil).2] at hx
      cases hx
    rw [List.head?_append_of_ne_nil _ hne, List.head?_append_of_ne_nil _ hne]

end SameUpToOpening

lemma Rewords.sameUpToOpening (h : Rewords kind piece piece')
    (hb : SameUpToOpening behind behind') :
    SameUpToOpening (piece ++ behind) (piece' ++ behind') := by
  cases h with
  | same => exact hb.append_left piece
  | string => exact .inr ⟨[], ['"'], _, _, .inl rfl, rfl, rfl⟩
  | line hstart =>
    exact .inr ⟨[], _, _, _, .inr ⟨_, hstart⟩, List.append_assoc _ _ _, List.append_assoc _ _ _⟩

/-- Texts with other contents are the same up to what opens these. -/
lemma Reworded.sameUpToOpening (h : Reworded cs cs') : SameUpToOpening cs cs' := by
  induction h with
  | finish => exact .inl rfl
  | token _ _ hpiece _ ih => exact (hpiece.sameUpToOpening ih).append_left _

namespace Cursor

/-- What is read in front of a text of which some contents are exchanged stays the same. -/
lemma IsToken.of_sameUpToOpening (h : IsToken (piece ++ behind) kind piece)
    (hopens : ¬ Opens (piece ++ behind)) (hb : SameUpToOpening behind behind') :
    IsToken (piece ++ behind') kind piece := by
  refine ⟨List.prefix_append _ _, h.ne_nil, h.first, ?_, h.names, ?_⟩
  · intro longer hfront hlt rule hrule hmatch
    cases hb with
    | inl heq => exact h.longest longer (heq ▸ hfront) hlt rule hrule hmatch
    | inr hdiff =>
      obtain ⟨front, start, rest, rest', hstart, rfl, rfl⟩ := hdiff
      -- Both texts go on with the same opening, and `longer` ends behind it.
      have hshared : piece ++ (front ++ start) <+: piece ++ (front ++ (start ++ rest')) :=
        ⟨rest', by simp⟩
      have hold : piece ++ (front ++ start) <+: piece ++ (front ++ (start ++ rest)) :=
        ⟨rest, by simp⟩
      have hbeyond : ¬ longer <+: piece ++ (front ++ start) := fun hwithin =>
        h.longest longer (hwithin.trans hold) hlt rule hrule hmatch
      obtain ⟨more, rfl⟩ := (List.prefix_or_prefix_of_prefix hfront hshared).resolve_left hbeyond
      -- The mark of the opening stands inside whatever goes on behind the opening.
      have hplain : ∀ more, IsPlain (piece ++ (front ++ start) ++ more) → more = [] := by
        intro more hplain
        obtain ⟨x, hx, hmem⟩ := hstart.exists_mark
        obtain ⟨before, after, rfl⟩ := List.append_of_mem hmem
        have hends := hplain (piece ++ (front ++ before)) x (after ++ more) (by simp) hx
        cases hends with
        | inl hnil => exact absurd (List.append_eq_nil_iff.1 hnil).1 h.ne_nil
        | inr hnil => exact (List.append_eq_nil_iff.1 hnil).2
      cases opens_or_isPlain hrule hmatch with
      | inr hlonger =>
        rw [hplain more hlonger, List.append_nil] at hbeyond
        exact hbeyond (List.prefix_refl _)
      | inl hlonger =>
        apply hopens
        rcases hlonger with ⟨cs, hcs⟩ | ⟨kind', start', hstart', hfront'⟩
        · obtain ⟨x, xs, rfl⟩ := List.exists_cons_of_ne_nil h.ne_nil
          cases hcs
          exact .inl ⟨_, rfl⟩
        · refine .inr ⟨kind', start', hstart', ?_⟩
          rcases List.prefix_or_prefix_of_prefix hfront' (List.prefix_append _ more) with
            hwithin | ⟨more', rfl⟩
          · exact hwithin.trans hold
          · rw [hplain more' hstart'.isPlain, List.append_nil]
            exact hold
  · intro cs hcs
    obtain ⟨x, xs, rfl⟩ := List.exists_cons_of_ne_nil h.ne_nil
    cases hcs
    exact absurd (.inl ⟨_, rfl⟩) hopens

end Cursor

section Position

/-- On one line, a text leads as many columns on as it has bytes. -/
lemma Position.after_eq_of_onLine (h : ∀ c ∈ cs, onLine c = true) (p : Position) :
    p.after cs = ⟨p.line, p.column + byteLength cs⟩ := by
  induction cs generalizing p with
  | nil => rfl
  | cons c cs ih =>
    obtain ⟨hc, hcs⟩ := List.forall_mem_cons.1 h
    have hbreak : c ≠ '\n' := fun hc' => onLine_eq_true_iff.1 hc (.inr hc')
    show (p.step c).after cs = _
    rw [ih hcs, Position.step, if_neg hbreak]
    exact congrArg (Position.mk p.line) (Nat.add_assoc _ _ _)

lemma Position.after_eq_of_byteLength_eq (h : ∀ c ∈ cs, onLine c = true)
    (h' : ∀ c ∈ cs', onLine c = true) (hsize : byteLength cs = byteLength cs') (p : Position) :
    p.after cs = p.after cs' := by
  rw [after_eq_of_onLine h, after_eq_of_onLine h', hsize]

end Position

namespace Rewords

variable (hp : Rewords kind piece piece') (h : IsToken (piece ++ behind) kind piece)

include hp h

/-- A token with other contents is a token of the same kind. -/
lemma isToken (hb : SameUpToOpening behind behind') : IsToken (piece' ++ behind') kind piece' := by
  have hhead := hb.head?_eq
  cases hp with
  | string _ hbody' =>
    obtain ⟨_, -, -, -, hend⟩ := string_of_isToken h rfl
    exact isToken_string (.of_forall hbody') (hhead ▸ hend)
  | line hstart _ hbody' =>
    obtain ⟨-, -, hend⟩ := hstart.line_of_isToken h
    exact hstart.isToken_line hbody' (hhead ▸ hend)
  | same =>
    by_cases hopens : Opens (piece ++ behind)
    · rcases hopens with ⟨cs, hcs⟩ | ⟨_, start, hstart, text, htext⟩
      · obtain ⟨x, xs, rfl⟩ := List.exists_cons_of_ne_nil h.ne_nil
        cases hcs
        obtain ⟨body, rfl, hpiece, hbody, hend⟩ := string_of_isToken h rfl
        rw [hpiece]
        exact isToken_string hbody (hhead ▸ hend)
      · have hpiece := (hstart.of_isToken (htext ▸ h)).2
        rw [hpiece] at h ⊢
        obtain ⟨rfl, hbody, hend⟩ := hstart.line_of_isToken h
        exact hstart.isToken_line hbody (hhead ▸ hend)
    · exact h.of_sameUpToOpening hopens hb

/-- A token with other contents ends at the same place. -/
lemma after_eq (p : Position) : p.after piece = p.after piece' := by
  cases hp with
  | same => rfl
  | @string body body' hsize hbody' =>
    obtain ⟨_, -, hpiece, hbody, -⟩ := string_of_isToken h rfl
    cases List.append_cancel_right (List.cons.inj hpiece).2
    have hsplit (body : List Char) :
        p.after ('"' :: (body ++ ['"'])) = ((p.step '"').after body).step '"' := by
      rw [Position.after, List.foldl_cons, List.foldl_append]
      rfl
    have hline' := fun c hc => (hbody' c hc).2
    rw [hsplit, hsplit, Position.after_eq_of_byteLength_eq hbody.onLine hline' hsize]
  | line hstart hsize hbody' =>
    obtain ⟨-, hbody, -⟩ := hstart.line_of_isToken h
    rw [Position.after_append, Position.after_append,
      Position.after_eq_of_byteLength_eq hbody hbody' hsize]

omit h in
/-- With contents hidden, a token looks the same. -/
lemma token_eq (range : Range) :
    withoutContents.token ⟨kind, String.ofList piece, range⟩ =
      withoutContents.token ⟨kind, String.ofList piece', range⟩ := by
  cases hp with
  | same => rfl
  | string => rfl
  | line hstart _ _ hflag =>
    have hhidden (body : List Char) (hbody : kind = .comment →
        CommentFlag.isFlag (String.ofList body) = false) :
        withoutContents.text kind (String.ofList body) = "" := by
      have hcontents : kind.hasContents = true := by
        cases hstart <;> rfl
      apply if_pos
      by_cases hcomment : kind = .comment
      · simp [hcontents, hbody hcomment]
      · simp [hcontents, hcomment]
    exact congrArg (fun text => (⟨kind, text, range⟩ : Token))
      ((hhidden _ fun hk => (hflag hk).1).trans (hhidden _ fun hk => (hflag hk).2).symm)

end Rewords

namespace Cursor

/-- The same place in a source and in one with other contents. -/
structure Rewords (c c' : Cursor) : Prop where
  place_eq : c.place = c'.place
  rest : Reworded c.rest c'.rest

variable {c c' : Cursor}

/-- What is read looks the same, and reading goes on at the same place. -/
lemma Rewords.next (h : c.Rewords c') :
    c.next.1.map withoutContents.token = c'.next.1.map withoutContents.token ∧
      c.next.2.Rewords c'.next.2 := by
  obtain ⟨rest, place⟩ := c
  obtain ⟨rest', place'⟩ := c'
  obtain ⟨rfl, hrest⟩ := h
  cases hrest with
  | finish hgap =>
    obtain ⟨hanswer, hd⟩ := (answers_next ⟨rest, place⟩).unique (.finish hgap)
    rw [hd]
    exact ⟨rfl, rfl, .finish nofun⟩
  | @token gap piece piece' behind behind' kind hgap htoken hpiece hbehind =>
    have htoken' := hpiece.isToken htoken hbehind.sameUpToOpening
    have hplace : place.after (gap ++ piece) = place.after (gap ++ piece') := by
      rw [Position.after_append, Position.after_append, hpiece.after_eq htoken]
    simp only [List.append_eq]
    rw [next_of_isToken hgap htoken, next_of_isToken hgap htoken', ← hplace]
    exact ⟨congrArg Except.ok (hpiece.token_eq _), rfl, hbehind⟩

lemma Rewords.likeness : Likeness withoutContents Rewords where
  next_eq h := h.next.1
  next h _ _ := h.next.2

end Cursor

namespace Reworded

/-- A text is reworded token by token, as they are scanned. -/
lemma of_scan {gap xs rest : List Char} {x : Char} {n : Nat} (hgap : Blank gap)
    (hs : scan x xs = (.ok kind, n)) (hp : Rewords kind ((x :: xs).take n) piece')
    (hr : Reworded ((x :: xs).drop n) rest) :
    Reworded (gap ++ (x :: xs)) (gap ++ (piece' ++ rest)) := by
  have htoken : IsToken ((x :: xs).take n ++ (x :: xs).drop n) kind ((x :: xs).take n) := by
    have hstarts := startsWith_scan x xs
    rw [hs] at hstarts
    rw [List.take_append_drop]
    exact hstarts
  have hreworded := Reworded.token hgap htoken hp hr
  rwa [List.take_append_drop] at hreworded

/-- Only a text all of which is tokens is reworded. -/
lemma exists_spells (h : Reworded cs cs') (p : Position) :
    ∃ s d, TokenStream.Spells s ⟨cs, p⟩ d := by
  induction h generalizing p with
  | @finish gap hgap =>
    have hskip : (⟨gap, p⟩ : Cursor).skipBlanks.rest = [] := by
      rw [skipBlanks_eq]
      exact List.dropWhile_eq_nil_iff.2 hgap
    exact ⟨⟨[], _⟩, _, .nil _, hskip, rfl⟩
  | @token gap piece _ behind _ kind hgap htoken _ _ ih =>
    obtain ⟨⟨tokens, eof⟩, d, hyields, hend, heof⟩ := ih (p.after (gap ++ piece))
    have htakes := (next_eq_ok.1 (next_of_isToken hgap htoken p)).resolve_left fun hnil =>
      htoken.kind_ne_eof (congrArg Token.kind hnil.2.1)
    exact ⟨⟨_ :: tokens, eof⟩, d, .cons htakes hyields, hend, heof⟩

lemma of_yields {c d : Cursor} {tokens : List Token} (h : Yields c tokens d)
    (hd : d.skipBlanks.rest = []) : Reworded c.rest c.rest := by
  induction h with
  | nil c =>
    rw [skipBlanks_eq] at hd
    exact .finish (List.dropWhile_eq_nil_iff.1 hd)
  | @cons c d e t tokens htakes _ ih =>
    cases htakes with
    | @mk x xs kind n hr hs =>
      have hrest := ih hd
      have hblank : Blank (c.rest.takeWhile isBlank) := fun x hx => List.mem_takeWhile_imp hx
      rw [forward, hr] at hrest
      have hreworded := of_scan hblank hs (.same _ _) hrest
      rw [skipBlanks_eq] at hr
      have hr : c.rest.dropWhile isBlank = x :: xs := hr
      rwa [List.take_append_drop, ← hr, List.takeWhile_append_dropWhile] at hreworded

/-- The sources that can be reworded are those that are tokens throughout. -/
theorem self_iff {source : String} :
    Reworded source.toList source.toList ↔ ∃ s, TokenStream.ofSource source = .ok s := by
  constructor
  · intro h
    obtain ⟨s, d, hs⟩ := h.exists_spells .origin
    exact ⟨s, TokenStream.ofSource_eq_ok.2 ⟨d, hs⟩⟩
  · intro h
    obtain ⟨s, hs⟩ := h
    obtain ⟨d, hyields, hend, -⟩ := TokenStream.ofSource_eq_ok.1 hs
    exact of_yields hyields hend

end Reworded

/-- With other contents, the tokens are the same up to these. -/
theorem TokenStream.ofSource_reworded {source source' : String}
    (h : Reworded source.toList source'.toList) :
    (ofSource source).map withoutContents.stream = (ofSource source').map withoutContents.stream :=
  ofSource_eq_of_likeness rfl Cursor.Rewords.likeness ⟨rfl, h⟩

end BrighterCheck
