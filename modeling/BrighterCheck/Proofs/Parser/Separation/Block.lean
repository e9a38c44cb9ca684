import BrighterCheck.Proofs.Parser.Separation.Basic
import BrighterCheck.Parser.Conditional
import Mathlib.Data.List.Chain
import Mathlib.Data.List.DropRight

/-!
# Statement lists are spaced

There are two loops that read statements. In a block, every statement has to end before a separator,
a comment or the end of the source; on the line of a condition, every statement but the first one
stands behind a colon. Both loops carry on what is needed of the last statement for the next one to
follow it.
-/

namespace BrighterCheck

open BrighterCheck.Parser Item

/-- Nested productions that answer spaced trees, for the source with the tokens `tokens`. -/
structure Nested.Spaces (n : Nested) (tokens : List Token) : Prop where
  between : ∃ p q, Range.Between p (tokens.map Token.range) q
  sound : n.Sound
  expression : GivesTree tokens n.expression
  statement : GivesTree tokens n.statement
  comment : ∀ {s t u}, s.current.kind = .comment → n.statement s = .ok t u →
    t.kind.isComment = true

/--
A parser that reads one statement of a list after the other. `Ready a s` says that the next one that
is read from `s` on can follow `a`.
-/
structure ReadsNext (tokens : List Token) (Ready : NumberedTree → Reading → Prop)
    (item : Parser (Option NumberedTree)) : Prop where
  gives : GivesOption tokens item
  stays : ∀ {a s u}, s.IsPlace tokens → item s = .ok none u → Ready a s → Ready a u
  ready : ∀ {b s u}, s.IsPlace tokens → item s = .ok (some b) u → Ready b u
  follows : ∀ {a b s u}, s.IsPlace tokens → item s = .ok (some b) u → Ready a s →
    Follows tokens a b

variable {n : Nested} {tokens : List Token} {s u v w : Reading} {a b t : NumberedTree}
  {ts before : List NumberedTree}

/-- A list that is read behind some statements goes on with statements that can follow. -/
lemma ReadsNext.many {Ready : NumberedTree → Reading → Prop} {item : Parser (Option NumberedTree)}
    (h : ReadsNext tokens Ready item) (hs : s.IsPlace tokens)
    (hb : before.IsChain fun b a => Follows tokens a b) (ha : ∀ a ∈ before.head?, Ready a s)
    (hm : Parser.many item s = .ok ts u) : (before.reverse ++ ts).IsChain (Follows tokens) := by
  obtain ⟨read, v, hread, hm⟩ := bind_eq_ok.1 hm
  obtain ⟨rfl, rfl⟩ := pure_eq_ok.1 hm
  -- The last statement stands first, so a new one is put in front of the chain.
  have key : s.Leads v ∧ (read ++ before).IsChain (fun b a => Follows tokens a b) ∧
      ∀ a ∈ (read ++ before).head?, Ready a v := by
    refine iterate_induction (I := fun read w => s.Leads w ∧
      (read ++ before).IsChain (fun b a => Follows tokens a b) ∧
        ∀ a ∈ (read ++ before).head?, Ready a w) ?_ ?_ hread
    case refine_2 => exact ⟨.refl s, hb, ha⟩
    rintro read w o x ⟨hw, hchain, hready⟩ ho
    have hplace := hw.isPlace hs
    obtain ⟨o, y, hitem, ho⟩ := bind_eq_ok.1 ho
    obtain ⟨rfl, rfl⟩ := pure_eq_ok.1 ho
    refine ⟨hw.trans (h.gives hplace hitem).1, ?_⟩
    cases o with
    | none => exact ⟨hchain, fun a ha => h.stays hplace hitem (hready a ha)⟩
    | some b =>
      refine ⟨List.isChain_cons.2 ⟨fun a ha => ?_, hchain⟩, fun c hc => ?_⟩
      · exact h.follows hplace hitem (hready a ha)
      · cases hc
        exact h.ready hplace hitem
  have hreverse := List.isChain_reverse.2 key.2.1
  rwa [List.reverse_append] at hreverse

namespace Reading

/-- Where a statement has ended, a separator is passed over, or else a comment stands. -/
lemma skipped_cases (he : s.eof.kind = .eof) (hends : endsStatement s.current.kind = true)
    (hk : s.skipped.current.kind ≠ .eof) :
    (∃ mark rest, s.tokens = mark :: rest ∧ isSeparator mark.kind = true ∧
      s.skipped.tokens <:+ rest) ∨ s.skipped.current.kind = .comment := by
  cases hs : s.tokens with
  | nil =>
    have hcurrent : s.skipped.current = s.eof := by simp [skipped, current, hs]
    rw [hcurrent] at hk
    exact absurd he hk
  | cons t ts =>
    have hcurrent : s.current = t := by simp [current, hs]
    rw [hcurrent] at hends
    cases hsep : isSeparator t.kind with
    | true =>
      refine .inl ⟨t, ts, rfl, hsep, ?_⟩
      have hskipped : s.skipped.tokens = ts.dropWhile fun t => isSeparator t.kind := by
        simp [skipped, hs, hsep]
      rw [hskipped]
      exact List.dropWhile_suffix _
    | false =>
      have hskipped : s.skipped.current = t := by simp [skipped, current, hs, hsep]
      rw [hskipped] at hk ⊢
      -- Only four kinds end a statement, two of which separate.
      unfold endsStatement at hends
      split at hends
      case h_1 hk' => simp [hk', isSeparator] at hsep
      case h_2 hk' => simp [hk', isSeparator] at hsep
      case h_3 hk' => exact .inr hk'
      case h_4 hk' => exact absurd hk' hk
      case h_5 => cases hends

lemma skipped_skipped (s : Reading) : s.skipped.skipped = s.skipped := by
  simp [skipped, List.dropWhile_idempotent]

end Reading

/-- A statement of a block is read behind the separators, and ends where a statement can end. -/
lemma Parser.nextStatement_inv {e : Ending} {o : Option NumberedTree} (he : s.eof.kind = .eof)
    (h : nextStatement n e s = .ok o u) :
    o = none ∧ s.skipped = u ∨ ∃ t, o = some t ∧ s.skipped.current.kind ≠ .eof ∧
      n.statement s.skipped = .ok t u ∧ endsStatement u.current.kind = true := by
  have hskip : skipSeparators s = .ok () s.skipped := skip_eq (by rw [he]; rfl)
  rw [nextStatement, bind_of_ok hskip] at h
  obtain ⟨atEnd, v, hv, h⟩ := bind_eq_ok.1 h
  obtain ⟨rfl, rfl⟩ := isAt_eq_ok.1 hv
  obtain ⟨atEnding, v, hv, h⟩ := bind_eq_ok.1 h
  obtain ⟨rfl, rfl⟩ := isAtEnding_eq_ok.1 hv
  split at h
  case isTrue =>
    obtain ⟨rfl, rfl⟩ := pure_eq_ok.1 h
    exact .inl ⟨rfl, rfl⟩
  case isFalse hnot =>
    obtain ⟨t, v, ht, h⟩ := bind_eq_ok.1 h
    obtain ⟨k, v, hk, h⟩ := bind_eq_ok.1 h
    obtain ⟨rfl, rfl⟩ := kind_eq_ok.1 hk
    split at h
    case isTrue hends =>
      obtain ⟨rfl, rfl⟩ := pure_eq_ok.1 h
      exact .inr ⟨t, rfl, fun hk => hnot (by simp [hk]), ht, hends⟩
    case isFalse => exact absurd h not_refuseFor_eq_ok

/-- The next statement on the line of a condition, which stands behind a colon. -/
def nextOnLine (n : Nested) : Parser (Option NumberedTree) := do
  match ← accept (.punctuator .colon) with
  | none => return none
  | some _ => if endsExpression (← kind) then return none else some <$> n.statement

lemma inlineBody_eq : inlineBody n =
    n.statement >>= fun first => many (nextOnLine n) >>= fun more => body (first :: more) :=
  rfl

lemma nextOnLine_inv {o : Option NumberedTree} (he : s.eof.kind = .eof)
    (h : nextOnLine n s = .ok o u) :
    o = none ∧ s.Leads u ∨ ∃ t mark v, o = some t ∧ s.tokens = mark :: v.tokens ∧
      mark.kind = .punctuator .colon ∧ s.Leads v ∧ n.statement v = .ok t u := by
  obtain ⟨colon, v, hcolon, h⟩ := bind_eq_ok.1 h
  rcases acceptIf_eq_ok (decide_eq_false (by rw [he]; nofun)) hcolon with
    ⟨rfl, -, rfl⟩ | ⟨mark, rfl, -, hmark, htokens, hv⟩
  · obtain ⟨rfl, rfl⟩ := pure_eq_ok.1 h
    exact .inl ⟨rfl, .refl s⟩
  · have hleads : s.Leads v := ⟨by rw [hv], htokens ▸ List.suffix_cons _ _⟩
    obtain ⟨k, w, hk, h⟩ := bind_eq_ok.1 h
    obtain ⟨rfl, rfl⟩ := kind_eq_ok.1 hk
    split at h
    case isTrue =>
      obtain ⟨rfl, rfl⟩ := pure_eq_ok.1 h
      exact .inl ⟨rfl, hleads⟩
    case isFalse =>
      obtain ⟨t, ht, rfl⟩ := map_eq_ok.1 h
      exact .inr ⟨t, mark, v, rfl, htokens, of_decide_eq_true hmark, hleads, ht⟩

/-- What is read in the place of a statement. -/
lemma Nested.Spaces.reads (hn : n.Spaces tokens) (hs : s.IsPlace tokens)
    (h : n.statement s = .ok t u) : Reads s [.node .statement t] u := by
  obtain ⟨_, hreads, rfl⟩ := hn.sound.statement hs.toIsLexed (.nil s) h
  exact hreads

/-- The statement `a` of a block has ended before the separators in front of `s`, or among them. -/
def EndsBefore (tokens : List Token) (a : NumberedTree) (s : Reading) : Prop :=
  ∃ v w, v.IsPlace tokens ∧ Reads v [.node .statement a] w ∧
    endsStatement w.current.kind = true ∧ w.skipped = s.skipped

lemma readsNext_nextStatement (hn : n.Spaces tokens) (e : Ending) :
    ReadsNext tokens (EndsBefore tokens) (nextStatement n e) where
  gives s o u hs h := by
    have hplace := s.leads_skipped.isPlace hs
    rcases nextStatement_inv hs.kind_eof h with ⟨rfl, rfl⟩ | ⟨t, rfl, -, ht, -⟩
    · exact ⟨s.leads_skipped, nofun⟩
    · obtain ⟨hu, ht⟩ := hn.statement hplace ht
      exact ⟨s.leads_skipped.trans hu, fun _ hb => Option.some.inj hb ▸ ht⟩
  stays {a s u} hs h ha := by
    obtain ⟨-, rfl⟩ := (nextStatement_inv hs.kind_eof h).resolve_right fun ⟨_, ht, _⟩ => nomatch ht
    obtain ⟨v, w, hv, hreads, hends, hskipped⟩ := ha
    exact ⟨v, w, hv, hreads, hends, by rw [hskipped, s.skipped_skipped]⟩
  ready {b s u} hs h := by
    obtain ⟨_, ⟨⟩, -, ht, hends⟩ :=
      (nextStatement_inv hs.kind_eof h).resolve_left fun ⟨ht, _⟩ => nomatch ht
    have hplace := s.leads_skipped.isPlace hs
    exact ⟨s.skipped, u, hplace, hn.reads hplace ht, hends, rfl⟩
  follows {a b s u} hs h ha := by
    obtain ⟨_, ⟨⟩, hk, ht, -⟩ :=
      (nextStatement_inv hs.kind_eof h).resolve_left fun ⟨ht, _⟩ => nomatch ht
    obtain ⟨v, w, hv, hreads, hends, hskipped⟩ := ha
    obtain ⟨p, q, hb⟩ := hn.between
    rw [← hskipped] at hk ht
    have he := (hreads.isLexed hv.toIsLexed).kind_eof
    have hplace := (hreads.leads.trans w.leads_skipped).isPlace hv
    rcases Reading.skipped_cases he hends hk with ⟨mark, rest, htokens, hmark, hsuffix⟩ | hcomment
    · exact .inl (hreads.parted hb hv.suffix (htokens ▸ List.suffix_refl _) hmark hsuffix
        (hn.reads hplace ht) (by nofun) (by nofun))
    · exact .inr (hn.comment hcomment ht)

/-- The statement `a` on the line of a condition has ended at `s` or before it. -/
def EndsBy (tokens : List Token) (a : NumberedTree) (s : Reading) : Prop :=
  ∃ v w, v.IsPlace tokens ∧ Reads v [.node .statement a] w ∧ w.Leads s

lemma readsNext_nextOnLine (hn : n.Spaces tokens) :
    ReadsNext tokens (EndsBy tokens) (nextOnLine n) where
  gives s o u hs h := by
    rcases nextOnLine_inv hs.kind_eof h with ⟨rfl, hu⟩ | ⟨t, mark, v, rfl, -, -, hv, ht⟩
    · exact ⟨hu, nofun⟩
    · obtain ⟨hu, ht⟩ := hn.statement (hv.isPlace hs) ht
      exact ⟨hv.trans hu, fun _ hb => Option.some.inj hb ▸ ht⟩
  stays {a s u} hs h ha := by
    obtain ⟨-, hu⟩ :=
      (nextOnLine_inv hs.kind_eof h).resolve_right fun ⟨_, _, _, ht, _⟩ => nomatch ht
    obtain ⟨v, w, hv, hreads, hw⟩ := ha
    exact ⟨v, w, hv, hreads, hw.trans hu⟩
  ready {b s u} hs h := by
    obtain ⟨_, mark, v, ⟨⟩, -, -, hv, ht⟩ :=
      (nextOnLine_inv hs.kind_eof h).resolve_left fun ⟨ht, _⟩ => nomatch ht
    exact ⟨v, u, hv.isPlace hs, hn.reads (hv.isPlace hs) ht, .refl u⟩
  follows {a b s u} hs h ha := by
    obtain ⟨_, mark, x, ⟨⟩, htokens, hmark, hx, ht⟩ :=
      (nextOnLine_inv hs.kind_eof h).resolve_left fun ⟨ht, _⟩ => nomatch ht
    obtain ⟨v, w, hv, hreads, hw⟩ := ha
    obtain ⟨p, q, hb⟩ := hn.between
    exact .inl (hreads.parted hb hv.suffix (htokens ▸ hw.suffix) (by rw [hmark]; rfl)
      (List.suffix_refl _) (hn.reads (hx.isPlace hs) ht) (by nofun) (by nofun))

namespace Gives

/-- A statement list with what it is made of. -/
lemma body (hc : ts.IsChain (Follows tokens)) (ht : ∀ t ∈ ts, IsSpaced tokens t) :
    GivesTree tokens (Parser.body ts) := by
  intro s t u _ hm
  obtain ⟨rfl, rfl⟩ := node_eq_ok.1 hm
  exact ⟨⟨rfl, List.suffix_refl _⟩, .ofChildren (fun _ => hc) ht⟩

lemma statements {e : Ending} (hn : n.Spaces tokens) :
    Gives tokens (Parser.statements n e) fun ts =>
      ts.IsChain (Follows tokens) ∧ ∀ t ∈ ts, IsSpaced tokens t := by
  have hnext := readsNext_nextStatement hn e
  intro s ts u hs h
  obtain ⟨hu, hspaced⟩ := many hnext.gives hs h
  exact ⟨hu, by simpa using hnext.many hs .nil nofun h, hspaced⟩

lemma block {e : Ending} (hn : n.Spaces tokens) : GivesTree tokens (Parser.block n e) :=
  (statements hn).bind fun _ h => body h.1 h.2

lemma inlineBody (hn : n.Spaces tokens) : GivesTree tokens (Parser.inlineBody n) := by
  have hnext := readsNext_nextOnLine hn
  rw [inlineBody_eq]
  intro s t u hs h
  obtain ⟨first, v, hfirst, h⟩ := bind_eq_ok.1 h
  obtain ⟨more, w, hmore, h⟩ := bind_eq_ok.1 h
  obtain ⟨hv, hspaced⟩ := hn.statement hs hfirst
  have hplace := hv.isPlace hs
  obtain ⟨hw, hspaced'⟩ := many hnext.gives hplace hmore
  have hready : ∀ a ∈ [first].head?, EndsBy tokens a v := by
    rintro _ ⟨⟩
    exact ⟨s, v, hs, hn.reads hs hfirst, .refl v⟩
  have hchain := hnext.many hplace (.singleton first) hready hmore
  obtain ⟨hu, ht⟩ := body hchain (List.forall_mem_cons.2 ⟨hspaced, hspaced'⟩) (hw.isPlace hplace) h
  exact ⟨hv.trans (hw.trans hu), ht⟩

end Gives

end BrighterCheck
