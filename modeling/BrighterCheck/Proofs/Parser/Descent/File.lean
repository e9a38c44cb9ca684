import BrighterCheck.Proofs.Parser.Descent.Basic
import BrighterCheck.Proofs.Parser.Join

/-!
# Unbounded runs of files

The productions for every depth end, by induction on the depth, and a file is never deeper than it
has tokens. So its parser comes to its end on every source, with all its positions in the source.
-/

namespace BrighterCheck

open BrighterCheck.Parser

/--
The productions that answer an expression, a member or a statement, with the kinds of the tokens
that they are begun at. What is read behind the first tokens of a production is a part of it.
-/
inductive IsProduction : TokenKind → (Nested → Parser NumberedTree) → Prop where
  | primary {k : TokenKind} : IsProduction k Parser.primary
  | accessed {k : TokenKind} : IsProduction k Parser.accessed
  | unaryLayer {k : TokenKind} {p : TokenKind → Bool} {operand : Nested → Parser NumberedTree} :
      p .eof = false → (∀ k, IsProduction k operand) →
      IsProduction k fun n => Parser.unaryLayer p (operand n)
  | binaryLayer {k : TokenKind} {p : TokenKind → Bool} {operand : Nested → Parser NumberedTree} :
      p .eof = false → (∀ k, IsProduction k operand) →
      IsProduction k fun n => Parser.binaryLayer p (operand n)
  | recordMember {k : TokenKind} : IsProduction k Parser.recordMember
  | parameter {k : TokenKind} : IsProduction k Parser.parameter
  | classMember {k : TokenKind} : IsProduction k Parser.classMember
  | interfaceMember {k : TokenKind} : IsProduction k fun _ => Parser.interfaceMember
  | enumMember {k : TokenKind} : IsProduction k Parser.enumMember
  | comment : IsProduction .comment fun _ => Parser.comment
  | keywordStatement {word : Keyword} :
      IsProduction (.keyword word) (Parser.keywordStatement · word)
  | expressionStatement {k : TokenKind} : IsProduction k Parser.expressionStatement
  | statement {k : TokenKind} : IsProduction k Parser.statement

namespace IsProduction

variable {n n' : Nested} {P : Range → Prop} {b : Nat} {k : TokenKind}
  {p : Nested → Parser NumberedTree}

/-- An expression has layers of operators around what is accessed. -/
lemma expression : IsProduction k Parser.expression := by
  refine .binaryLayer rfl fun _ => .binaryLayer rfl fun _ => .unaryLayer rfl fun _ => ?_
  refine .binaryLayer rfl fun _ => .binaryLayer rfl fun _ => .binaryLayer rfl fun _ => ?_
  exact .binaryLayer rfl fun _ => .binaryLayer rfl fun _ => .unaryLayer rfl fun _ => .accessed

/-- A production ends wherever those that are nested in it do, and takes a token if it answers. -/
theorem ends (hP : Range.MergeClosed P) (h : IsProduction k p) (hn : n.Ends (.descent n P) b n')
    (hs : n'.Sound) : EndsAt (.descent n P) k (b + 1) (p n) (p n') := by
  have ht : n'.BlamesTargets (.descent n P) := hs.blamesTargets hP
  induction h with
  | primary => exact (EndsFrom.primary hn).ofAny
  | accessed => exact (EndsFrom.accessed hn).ofAny
  | unaryLayer he _ ih =>
    exact (EndsFrom.unaryLayer he fun s hl _ hb => ih s.current.kind hl rfl hb).ofAny
  | binaryLayer he _ ih =>
    exact (EndsFrom.binaryLayer he fun s hl _ hb => ih s.current.kind hl rfl hb).ofAny
  | recordMember => exact (EndsFrom.recordMember hn).ofAny
  | parameter => exact (EndsFrom.parameter hn).ofAny
  | classMember => exact (EndsFrom.classMember hn).ofAny
  | interfaceMember => exact EndsFrom.interfaceMember.ofAny
  | enumMember => exact (EndsFrom.enumMember hn).ofAny
  | comment => exact EndsFrom.comment
  | keywordStatement => exact EndsFrom.keywordStatement hn ht
  | expressionStatement => exact (EndsFrom.expressionStatement hn ht).ofAny
  | statement => exact (EndsFrom.statement hn ht).ofAny

end IsProduction

section Depth

variable {n : Nested} {P : Range → Prop}

/-- Where less than `depth` tokens are left, productions do not nest more deeply. -/
theorem Nested.ends_nestedWithin (n : Nested) (hP : Range.MergeClosed P) (depth : Nat) :
    n.Ends (.descent n P) depth (nestedWithin depth) := by
  induction depth with
  | zero =>
    -- The depth is used up where less than no tokens are left, which is nowhere.
    constructor
    · exact fun _ _ _ hb => absurd hb (Nat.not_lt_zero _)
    · exact fun _ _ _ hb => absurd hb (Nat.not_lt_zero _)
  | succ depth ih =>
    have hs := sound_nestedWithin depth
    constructor
    · intro s hl _ hb
      exact (IsProduction.expression.ends hP ih hs hl rfl hb).named .expression
    · intro s hl _ hb
      exact (IsProduction.statement.ends hP ih hs hl rfl hb).named .statement

/-- The parser of a file ends as if there were no bounds. -/
theorem settles_fileStatements (n : Nested) (hP : Range.MergeClosed P) {s : Reading}
    (hs : s.IsLexedIn P) :
    (RunLogic.descent n P).Settles (fun _ => False) (statements n .none) s (fileStatements s) :=
  EndsFrom.statements (n.ends_nestedWithin hP (s.tokens.length + 1)) hs trivial
    (Nat.lt_succ_self _)

end Depth

namespace TokenStream

variable {s : TokenStream} {u v : Reading}

/-- How many tokens of a source are taken before a reading. -/
def position (s : TokenStream) (u : Reading) : Nat :=
  s.tokens.length - u.tokens.length

/-- A reading stands at a token of the source, and looks no further than to the next one. -/
structure Stands (s : TokenStream) (u : Reading) : Prop where
  position_lt : s.position u < s.toList.length
  current : s.toList[s.position u]? = some u.current
  following : (s.toList[s.position u + 1]?.map Token.kind).getD .eof = u.following

/-- Readings that stand at tokens of the source, none of them before an earlier one. -/
def Passes (s : TokenStream) (us : List Reading) : Prop :=
  (∀ u ∈ us, s.Stands u) ∧ us.Pairwise fun u v => s.position u ≤ s.position v

/-- A run of `m` from `u` without bounds that comes to `r`, through readings in the source. -/
def RunsTo (s : TokenStream) (n : Nested) {α : Type} (m : Parser α) (u : Reading) (r : Answer α) :
    Prop :=
  ∃ us, Descent n m u us r ∧ s.Passes (us ++ [r.reading])

/-- The position of a reading is the number of the tokens taken before it. -/
lemma exists_taken_of_leads (h : (Reading.start s).Leads u) :
    ∃ taken, s.tokens = taken ++ u.tokens ∧ s.position u = taken.length := by
  obtain ⟨taken, htaken⟩ := h.suffix
  have htaken : taken ++ u.tokens = s.tokens := htaken
  refine ⟨taken, htaken.symm, ?_⟩
  rw [position, ← htaken, List.length_append, Nat.add_sub_cancel]

lemma stands_of_leads (hs : s.IsClosed) (h : (Reading.start s).Leads u) : s.Stands u := by
  obtain ⟨taken, htaken, hposition⟩ := exists_taken_of_leads h
  have heof : u.eof = s.eof := h.eof_eq
  have hlist : s.toList = taken ++ (u.tokens ++ [u.eof]) := by
    rw [toList, htaken, heof, List.append_assoc]
  have hleft (i : Nat) : s.toList[s.position u + i]? = (u.tokens ++ [u.eof])[i]? := by
    rw [hposition, hlist, List.getElem?_append_right (Nat.le_add_right _ _),
      Nat.add_sub_cancel_left]
  have hcurrent : s.toList[s.position u]? = some u.current := by
    rw [← Nat.add_zero (s.position u), hleft, Reading.current]
    cases u.tokens <;> rfl
  refine ⟨(List.getElem?_eq_some_iff.1 hcurrent).1, hcurrent, ?_⟩
  -- Behind the end of the source, its kind stands for that of the next token.
  rw [hleft, Reading.following]
  rcases u.tokens with _ | ⟨t, _ | ⟨t', ts⟩⟩
  · rfl
  · show u.eof.kind = .eof
    rw [heof, hs.kind_eof]
  · rfl

/-- Where the end of the source is met, nothing is left before it. -/
lemma tokens_eq_nil (hs : s.IsClosed)
    (h : (Reading.start s).Leads u) (hk : u.current.kind = .eof) : u.tokens = [] := by
  unfold Reading.current at hk
  split at hk
  case h_1 hnil => exact hnil
  case h_2 t ts htokens =>
    exact absurd hk (hs.kinds t (h.suffix.subset (htokens ▸ .head ts)))

/-- A run from a reading in the source stays in the source, and goes on through it. -/
theorem passes_of_descent {n : Nested} {α : Type} {m : Parser α} {us : List Reading} {r : Answer α}
    (hs : s.IsClosed) (hu : (Reading.start s).Leads u) (h : Descent n m u us r) :
    s.Passes (us ++ [r.reading]) := by
  obtain ⟨hall, hpairwise⟩ := List.pairwise_cons.1 h.pairwise
  constructor
  · intro v hv
    exact stands_of_leads hs (hu.trans (hall v hv))
  · refine hpairwise.imp fun hleads => ?_
    exact Nat.sub_le_sub_left hleads.length_le _

/-- What a parser settles for is what its run comes to. -/
lemma runsTo_of_settles {n : Nested} {P : Range → Prop} {α : Type} {G : α → Prop} {m : Parser α}
    {r : Answer α} (hs : s.IsClosed) (hu : (Reading.start s).Leads u)
    (h : (RunLogic.descent n P).Settles G m u r) : s.RunsTo n m u r := by
  obtain ⟨us, hrun⟩ := h.exists_descent
  exact ⟨us, hrun, passes_of_descent hs hu hrun⟩

end TokenStream

lemma Nested.Lists.current_kind {n : Nested} {s u : Reading} {ts : List NumberedTree}
    (h : n.Lists s ts u) : u.current.kind = .eof := by
  induction h with
  | done hk => exact hk
  | next _ _ _ _ ih => exact ih

namespace ParsedFile

/--
The parser of a source comes to its end, with a tree or with an error. Though its run has no bounds,
it has finitely many steps, each of which stands at a token of the source and none before an earlier
one. So does the run of every production from everywhere in the source, which has taken a token if
it answers. A tree is answered once all tokens before the end are taken.
-/
theorem comes_to_end {source : String} {s : TokenStream} (h : TokenStream.ofSource source = .ok s)
    (n : Nested) :
    s.RunsTo n (statements n .none) (.start s) (fileStatements (.start s)) ∧
      (∀ k p u, IsProduction k p → (Reading.start s).Leads u → u.current.kind = k →
        s.RunsTo n (p n) u (p (nestedWithin (s.tokens.length + 1)) u) ∧
          ∀ t v, p (nestedWithin (s.tokens.length + 1)) u = .ok t v →
            s.position u < s.position v) ∧
      ((∃ ts rest, fileStatements (.start s) = .ok ts rest ∧ rest.tokens = [] ∧
          ofSource source = .ok (ofStatements s ts rest)) ∨
        ∃ e rest, fileStatements (.start s) = .error e rest ∧
          ofSource source = .error (.grammatical e)) := by
  have hclosed := TokenStream.isClosed_of_ofSource h
  have hlexed : (Reading.start s).IsLexedIn fun _ => True :=
    ⟨TokenStream.isLexed_start h, fun _ _ => trivial⟩
  -- Where errors are reported does not matter here.
  have hP : Range.MergeClosed fun _ => True := fun _ _ _ _ => trivial
  have hfile := settles_fileStatements n hP hlexed
  refine ⟨TokenStream.runsTo_of_settles hclosed (.refl _) hfile, fun k p u hp hu hk => ?_, ?_⟩
  · have hends := hp.ends hP (n.ends_nestedWithin hP (s.tokens.length + 1)) (sound_nestedWithin _)
    have hsettles := hends (hu.isLexedIn hlexed) hk
      (hu.length_le.trans_lt (Nat.lt_add_of_pos_right (Nat.succ_pos 1)))
    refine ⟨TokenStream.runsTo_of_settles hclosed hu hsettles, fun t v hr => ?_⟩
    have htakes : v.tokens.length < u.tokens.length := hsettles.takes hr trivial
    exact Nat.sub_lt_sub_left (htakes.trans_le hu.length_le) htakes
  · cases hr : fileStatements (.start s) with
    | ok ts rest =>
      have hf : ofStream s = .ok (ofStatements s ts rest) := by
        rw [ofStream, hr]
      have hk : rest.current.kind = .eof := ((fileStatements_eq_ok hclosed).1 hr).current_kind
      obtain ⟨us, hrun⟩ := hfile.exists_descent
      have hleads := hrun.leads
      rw [hr] at hleads
      exact .inl ⟨ts, rest, rfl, TokenStream.tokens_eq_nil hclosed hleads hk,
        ofSource_eq_ok.2 ⟨s, h, hf⟩⟩
    | error e rest =>
      refine .inr ⟨e, rest, rfl, ?_⟩
      rw [ofSource, h]
      simp only [ofStream, hr, Except.mapError]

/-- A source with a statement that is read, and with one that ends inside an array. -/
theorem comes_to_end_of_open_array :
    ∃ s t v e rest, TokenStream.ofSource "x = 1\ny = [2" = .ok s ∧
      Parser.statement (nestedWithin (s.tokens.length + 1)) (.start s) = .ok t v ∧
      s.position (.start s) < s.position v ∧ fileStatements (.start s) = .error e rest ∧
      ∀ n, s.RunsTo n (statements n .none) (.start s) (.error e rest) := by
  have hsource : (TokenStream.ofSource "x = 1\ny = [2").toOption.any fun s =>
      ((Parser.statement (nestedWithin (s.tokens.length + 1))).run' (.start s)).isSome &&
        (fileStatements.run' (.start s)).isNone := by
    decide +kernel
  obtain ⟨s, hs, hsource⟩ := exists_eq_ok_of_any hsource
  obtain ⟨hstatement, hfile⟩ := Bool.and_eq_true_iff.1 hsource
  unfold EStateM.run' EStateM.run at hstatement hfile
  cases ht : Parser.statement (nestedWithin (s.tokens.length + 1)) (.start s) with
  | error =>
    rw [ht] at hstatement
    cases hstatement
  | ok t v =>
    cases he : fileStatements (.start s) with
    | ok =>
      rw [he] at hfile
      cases hfile
    | error e rest =>
      have hmoves := (comes_to_end hs (nestedWithin 0)).2.1 _ _ _ .statement (.refl _) rfl
      refine ⟨s, t, v, e, rest, hs, ht, hmoves.2 t v ht, he, fun n => ?_⟩
      rw [← he]
      exact (comes_to_end hs n).1

end ParsedFile

end BrighterCheck
