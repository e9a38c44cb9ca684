import BrighterCheck.Proofs.Parser.Logic.Statement
import BrighterCheck.Proofs.Parser.Soundness.File
import BrighterCheck.Proofs.Parser.Descent.File

/-!
# Edits behind an error

A parser looks at the current token and at the one behind it, and gives no token back. So what
stands further behind the place that it comes to can be replaced, and it answers the same.
`RunLogic.edit` is the logic of parsers that answer alike before and after an edit that they have
not come to see.
-/

namespace BrighterCheck

open BrighterCheck.Parser

/-- The answer with a change of the reading behind it. -/
def Answer.mapReading {α : Type} (f : Reading → Reading) : Answer α → Answer α
  | .ok a s => .ok a (f s)
  | .error e s => .error e (f s)

/-- The last tokens of a source are replaced, and so is its end. -/
structure Edit where
  old : List Token
  new : List Token
  eof : Token

namespace Edit

/-- The reading after the edit. -/
def apply (c : Edit) (s : Reading) : Reading :=
  { s with tokens := s.tokens.take (s.tokens.length - c.old.length) ++ c.new, eof := c.eof }

/-- The edit is made behind the current token and the next one. -/
def IsUnseen (c : Edit) (s : Reading) : Prop :=
  ∃ t t' front, s.tokens = t :: t' :: front ++ c.old

variable {c : Edit} {s u : Reading}

lemma apply_eq (front : List Token) (h : s.tokens = front ++ c.old) :
    c.apply s = { s with tokens := front ++ c.new, eof := c.eof } := by
  unfold apply
  rw [h, List.length_append, Nat.add_sub_cancel, List.take_left]

namespace IsUnseen

/-- What is not seen yet was not seen before. -/
lemma of_leads (h : c.IsUnseen u) (hl : s.Leads u) : c.IsUnseen s := by
  obtain ⟨t, t', front, hu⟩ := h
  obtain ⟨taken, hs⟩ := hl.suffix
  rw [hu] at hs
  rcases taken with _ | ⟨x, _ | ⟨x', taken⟩⟩
  · exact ⟨t, t', front, hs.symm⟩
  · exact ⟨x, t, t' :: front, hs.symm⟩
  · exact ⟨x, x', taken ++ t :: t' :: front, by simp [← hs]⟩

lemma length_le (h : c.IsUnseen s) : c.old.length ≤ s.tokens.length := by
  obtain ⟨t, t', front, hs⟩ := h
  simp only [hs, List.length_append]
  exact Nat.le_add_left _ _

/-- The edit changes how many tokens are left, but by the same number everywhere. -/
lemma length_apply (h : c.IsUnseen s) :
    (c.apply s).tokens.length + c.old.length = s.tokens.length + c.new.length := by
  obtain ⟨t, t', front, hs⟩ := h
  rw [apply_eq _ hs, hs]
  simp only [List.length_append]
  omega

lemma current_apply (h : c.IsUnseen s) : (c.apply s).current = s.current := by
  obtain ⟨t, t', front, hs⟩ := h
  rw [apply_eq _ hs]
  simp [Reading.current, hs]

lemma following_apply (h : c.IsUnseen s) : (c.apply s).following = s.following := by
  obtain ⟨t, t', front, hs⟩ := h
  rw [apply_eq _ hs]
  simp [Reading.following, hs]

/-- A token that was taken is taken after the edit, too. -/
lemma advance_apply {t : Token} (h : c.IsUnseen u) (hs : advance s = .ok t u) :
    advance (c.apply s) = .ok t (c.apply u) := by
  obtain ⟨t', t'', front, hu⟩ := h
  obtain ⟨tokens, eof, next, references⟩ := s
  cases tokens with
  | nil =>
    cases hs
    cases hu
  | cons x tokens =>
    cases hs
    have htokens : t :: tokens = (t :: t' :: t'' :: front) ++ c.old := congrArg (t :: ·) hu
    rw [apply_eq _ htokens, apply_eq _ hu]
    rfl

end IsUnseen

/-- A single step answers alike before and after an edit that it has not come to see. -/
lemma step_apply {α : Type} {m : Parser α} (hm : Primitive m)
    (h : c.IsUnseen (Answer.reading (m s))) :
    m (c.apply s) = Answer.mapReading c.apply (m s) := by
  have hs := h.of_leads (hm.leads s)
  cases hm with
  | pure | refuseAt | node | changeStore | noteReference => rfl
  | kind =>
    unfold kind
    rw [hs.current_apply]
    rfl
  | followingKind =>
    unfold followingKind
    rw [hs.following_apply]
    rfl
  | refuse fault =>
    unfold refuse
    rw [hs.current_apply]
    rfl
  | advance =>
    cases ht : advance s with
    | ok t u =>
      rw [ht] at h
      exact h.advance_apply ht
    | error e u => exact absurd ht not_advance_eq_error

end Edit

/--
The logic of edits: a parser that answers `r` before the edit, and has not come to see it, answers
the same after it. An error may be reported anywhere.
-/
def RunLogic.edit (c : Edit) : RunLogic where
  Valid s := s.eof.kind = .eof
  Blamed _ := True
  Runs m s r := s.Leads r.reading ∧
    (c.IsUnseen r.reading → m (c.apply s) = Answer.mapReading c.apply r)
  kind_eof hs := hs
  valid_of_leads hs h := by
    rw [h.eof_eq]
    exact hs
  leads h := h.1
  step {α m s} _ hm _ := ⟨hm.leads s, Edit.step_apply hm⟩
  bind {α β m f s u a r} hm hf := by
    refine ⟨hm.1.trans hf.1, fun h => ?_⟩
    rw [bind_of_ok (hm.2 (h.of_leads hf.1))]
    exact hf.2 h
  fail hm := ⟨hm.1, fun h => bind_eq_error.2 (.inl (hm.2 h))⟩
  leave hstep := ⟨hstep.1, fun h => iterate_of_none (hstep.2 h)⟩
  failStep hstep := ⟨hstep.1, fun h => iterate_of_error (hstep.2 h)⟩
  again {α step a b s u r} hstep hlt hloop := by
    refine ⟨hstep.1.trans hloop.1, fun h => ?_⟩
    have hu := h.of_leads hloop.1
    -- The loop goes on after the edit, too, since as many tokens were taken.
    have hlengths := hu.length_apply
    have hlengths' := (hu.of_leads hstep.1).length_apply
    rw [iterate_of_some (hstep.2 hu) (by omega)]
    exact hloop.2 h

namespace Edit

variable {c : Edit} {s : Reading}

/-- Where less is left than what is edited, the edit is seen, and no more is said of the answers. -/
lemma endsTaking_of_seen {m m' l : Parser NumberedTree} {b : Nat} (h : b ≤ c.old.length)
    (hm : EndsTaking (.edit c) b m m') : EndsTaking (.edit c) b l m' := by
  intro s hs hI hb
  obtain ⟨⟨hleads, -⟩, htakes⟩ := hm hs hI hb
  refine ⟨⟨hleads, fun hunseen => ?_⟩, htakes⟩
  have hle := (hunseen.of_leads hleads).length_le
  omega

/-- The depth that is left after an edit is as much larger or smaller as the rest of the source. -/
theorem ends_nestedWithin (c : Edit) (depth : Nat) :
    (nestedWithin (depth - c.old.length + c.new.length)).Ends (.edit c) depth
      (nestedWithin depth) := by
  induction depth with
  | zero =>
    constructor
    · exact fun _ _ _ hb => absurd hb (Nat.not_lt_zero _)
    · exact fun _ _ _ hb => absurd hb (Nat.not_lt_zero _)
  | succ depth ih =>
    have hexpression := EndsFrom.expression ih
    have hstatement := EndsFrom.statement ih fun _ _ _ _ _ _ => trivial
    rcases Nat.lt_or_ge depth c.old.length with hlt | hle
    · exact ⟨endsTaking_of_seen hlt hexpression, endsTaking_of_seen hlt hstatement⟩
    · rw [Nat.sub_add_comm hle, Nat.add_right_comm]
      exact ⟨hexpression, hstatement⟩

/-- The run of a file in the logic of an edit. -/
lemma runs_fileStatements (c : Edit) (hs : s.eof.kind = .eof) :
    (RunLogic.edit c).Runs
      (statements (nestedWithin (s.tokens.length + 1 - c.old.length + c.new.length)) .none) s
      (fileStatements s) := by
  have hends := EndsFrom.statements (e := .none) (ends_nestedWithin c (s.tokens.length + 1))
  exact (hends hs trivial (Nat.lt_succ_self _)).runs

/-- The parser of a file answers alike before and after an edit that it has not come to see. -/
theorem fileStatements_apply (hs : s.eof.kind = .eof)
    (h : c.IsUnseen (Answer.reading (fileStatements s))) :
    fileStatements (c.apply s) = Answer.mapReading c.apply (fileStatements s) := by
  obtain ⟨hleads, hruns⟩ := c.runs_fileStatements hs
  have hunseen := h.of_leads hleads
  have hlength := hunseen.length_apply
  have hdepth : (c.apply s).tokens.length + 1 =
      s.tokens.length + 1 - c.old.length + c.new.length := by
    have hle := hunseen.length_le
    omega
  unfold fileStatements
  rw [hdepth]
  exact hruns h

end Edit

namespace TokenStream

variable {s s' : TokenStream}

/-- The parser fails on the stream, with the error `e`, once `i` tokens are taken. -/
def FailsAt (s : TokenStream) (i : Nat) (e : SyntaxError) : Prop :=
  ∃ rest, fileStatements (.start s) = .error e rest ∧ s.position rest = i

lemma FailsAt.ofStream_eq {i : Nat} {e : SyntaxError} (h : s.FailsAt i e) :
    ParsedFile.ofStream s = .error e := by
  obtain ⟨rest, hrest, -⟩ := h
  rw [ParsedFile.ofStream, hrest]

/-- What stands behind the token after the one that the parser fails at can be replaced. -/
lemma FailsAt.of_tokens {taken old new : List Token} {t t' : Token} {e : SyntaxError}
    (hs : s.IsClosed) (h : s.FailsAt taken.length e) (htokens : s.tokens = taken ++ t :: t' :: old)
    (htokens' : s'.tokens = taken ++ t :: t' :: new) : s'.FailsAt taken.length e := by
  let c : Edit := ⟨old, new, s'.eof⟩
  obtain ⟨rest, hrest, hposition⟩ := h
  have hrun := c.runs_fileStatements (s := .start s) hs.kind_eof
  rw [hrest] at hrun
  obtain ⟨before, hbefore, hlength⟩ := exists_taken_of_leads hrun.1
  -- As many tokens are taken where it fails, so it stands at the same one.
  have hleft : rest.tokens = [t, t'] ++ c.old :=
    (List.append_inj (hbefore.symm.trans htokens) (hlength.symm.trans hposition)).2
  have hunseen : c.IsUnseen rest := ⟨t, t', [], hleft⟩
  have hstart : c.apply (.start s) = .start s' := by
    have hfront : (Reading.start s).tokens = (taken ++ [t, t']) ++ c.old := by
      rw [List.append_assoc]
      exact htokens
    rw [Edit.apply_eq _ hfront, List.append_assoc]
    exact congrArg (Reading.mk · s'.eof .start .empty) htokens'.symm
  have hedited := Edit.fileStatements_apply (c := c) (s := .start s) hs.kind_eof (hrest ▸ hunseen)
  rw [hstart, hrest] at hedited
  refine ⟨c.apply rest, hedited, ?_⟩
  rw [position, htokens', Edit.apply_eq _ hleft]
  simp [c]

/--
A syntax error is decided by the tokens up to the one behind it. Where the parser fails at the `i`th
token, it fails there with the same error on every stream that has the same tokens up to the next
one. Behind its end a stream has no tokens, so streams that agree there are equal.
-/
theorem failsAt_of_agrees (hs : s.IsClosed) (hs' : s'.IsClosed) {i : Nat} {e : SyntaxError}
    (h : s.FailsAt i e) (hagree : ∀ j ≤ i + 1, s'.toList[j]? = s.toList[j]?) :
    s'.FailsAt i e ∧ ParsedFile.ofStream s' = .error e ∧
      ∀ source, ofSource source = .ok s' →
        ParsedFile.ofSource source = .error (.grammatical e) := by
  have hfails : s'.FailsAt i e := by
    rcases Nat.lt_or_ge (i + 1) s.tokens.length with hlt | hle
    · -- The parser stands at two tokens before the end, and what is behind them is replaced.
      have hi : (s.tokens.take i).length = i := List.length_take_of_le (by omega)
      have htokens : s.tokens =
          s.tokens.take i ++ s.tokens[i] :: s.tokens[i + 1] :: s.tokens.drop (i + 2) := by
        rw [← List.drop_eq_getElem_cons, ← List.drop_eq_getElem_cons, List.take_append_drop]
      obtain ⟨new, hnew⟩ := exists_tokens_eq hs hs' (s.tokens.take (i + 2))
        (List.take_append_drop _ _).symm fun j hj => hagree j (by simp at hj; omega)
      have htokens' : s'.tokens = s.tokens.take i ++ s.tokens[i] :: s.tokens[i + 1] :: new := by
        rw [hnew, List.take_succ_eq_append_getElem hlt,
          List.take_succ_eq_append_getElem (Nat.lt_of_succ_lt hlt), List.append_assoc,
          List.append_assoc]
        rfl
      rw [← hi] at h ⊢
      exact h.of_tokens hs htokens htokens'
    · rwa [eq_of_agrees hs hs' fun j hj => hagree j (hj.trans hle)]
  refine ⟨hfails, hfails.ofStream_eq, fun source hsource => ?_⟩
  rw [ParsedFile.ofSource, hsource]
  simp only [hfails.ofStream_eq, Except.mapError]

/-- Two sources with a bracket that closes nothing, and with other statements behind its line. -/
theorem failsAt_of_agrees_of_bracket :
    ∃ s s' e, ofSource "x = )\ny = 1" = .ok s ∧ ofSource "x = )\nwhile [" = .ok s' ∧ s' ≠ s ∧
      s.IsClosed ∧ s'.IsClosed ∧ s.FailsAt 2 e ∧ (∀ j ≤ 2 + 1, s'.toList[j]? = s.toList[j]?) ∧
        s'.FailsAt 2 e ∧
          ParsedFile.ofSource "x = )\nwhile [" = .error (.grammatical e) := by
  have hsources : (ofSource "x = )\ny = 1").toOption.any fun s =>
      (ofSource "x = )\nwhile [").toOption.any fun s' =>
        decide (s'.tokens ≠ s.tokens ∧ (∀ j ≤ 2 + 1, s'.toList[j]? = s.toList[j]?) ∧
          (fileStatements.run' (.start s)).isNone ∧
          s.position (Answer.reading (fileStatements (.start s))) = 2) := by
    decide +kernel
  obtain ⟨s, hs, hs'⟩ := exists_eq_ok_of_any hsources
  obtain ⟨s', hs', htest⟩ := exists_eq_ok_of_any hs'
  obtain ⟨hne, hagree, hnone, hposition⟩ := of_decide_eq_true htest
  have hclosed := isClosed_of_ofSource hs
  have hclosed' := isClosed_of_ofSource hs'
  unfold EStateM.run' EStateM.run at hnone
  cases hrest : fileStatements (.start s) with
  | ok =>
    rw [hrest] at hnone
    cases hnone
  | error e rest =>
    rw [hrest] at hposition
    have hfails : s.FailsAt 2 e := ⟨rest, hrest, hposition⟩
    obtain ⟨hfails', -, hfile⟩ := failsAt_of_agrees hclosed hclosed' hfails hagree
    exact ⟨s, s', e, hs, hs', fun h => hne (congrArg tokens h), hclosed, hclosed', hfails, hagree,
      hfails', hfile _ hs'⟩

end TokenStream

end BrighterCheck
