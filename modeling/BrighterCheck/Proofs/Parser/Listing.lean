import BrighterCheck.Proofs.Parser.Passage.File

/-!
# Lists of statements

The statements of a file as a relation between the readings before and behind them. Where a list
goes on depends on nothing but what is left behind the separators.
-/

namespace BrighterCheck

open BrighterCheck.Parser

namespace Reading

/-- What is left behind the separators at the front. -/
def skipped (s : Reading) : Reading :=
  { s with tokens := s.tokens.dropWhile fun t => isSeparator t.kind }

lemma leads_skipped (s : Reading) : s.Leads s.skipped :=
  ⟨rfl, List.dropWhile_suffix _⟩

end Reading

/-- The statements `ts` are all that stands between `s` and the end of its source. -/
inductive Nested.Lists (n : Nested) : Reading → List NumberedTree → Reading → Prop where
  | done {s : Reading} : s.skipped.current.kind = .eof → Lists n s [] s.skipped
  | next {s u v : Reading} {t : NumberedTree} {ts : List NumberedTree} :
      s.skipped.current.kind ≠ .eof → n.statement s.skipped = .ok t u →
      endsStatement u.current.kind = true → Lists n u ts v → Lists n s (t :: ts) v

variable {P : Passage} {n n' : Nested} {s s' u u' : Reading} {ts : List NumberedTree}

lemma Nested.Lists.of_skipped_eq (h : n.Lists s ts u) (hs : s'.skipped = s.skipped) :
    n.Lists s' ts u := by
  cases h with
  | done hk =>
    rw [← hs]
    apply Lists.done
    rw [hs, hk]
  | next hk ht he hts =>
    rw [← hs] at hk ht
    exact .next hk ht he hts

namespace Parser

/-- Either nothing but separators is left, or a statement stands behind them. -/
lemma nextStatement_eq_ok (he : s.eof.kind = .eof) {o : Option NumberedTree} :
    nextStatement n .none s = .ok o u ↔
      s.skipped.current.kind = .eof ∧ o = none ∧ s.skipped = u ∨
        s.skipped.current.kind ≠ .eof ∧ ∃ t, n.statement s.skipped = .ok t u ∧
          endsStatement u.current.kind = true ∧ o = some t := by
  have hskip : skipSeparators s = .ok () s.skipped := skip_eq (by rw [he]; rfl)
  constructor
  · intro h
    obtain ⟨⟨⟩, v, hv, h⟩ := bind_eq_ok.1 h
    obtain ⟨-, rfl⟩ := EStateM.Result.ok.inj (hskip.symm.trans hv)
    obtain ⟨atEnd, v, hv, h⟩ := bind_eq_ok.1 h
    obtain ⟨rfl, rfl⟩ := isAt_eq_ok.1 hv
    obtain ⟨atEnding, v, hv, h⟩ := bind_eq_ok.1 h
    obtain ⟨rfl, rfl⟩ := isAtEnding_eq_ok.1 hv
    by_cases hk : s.skipped.current.kind = .eof
    · rw [decide_eq_true hk] at h
      obtain ⟨rfl, rfl⟩ := pure_eq_ok.1 h
      exact .inl ⟨hk, rfl, rfl⟩
    · rw [decide_eq_false hk] at h
      obtain ⟨t, v, ht, h⟩ := bind_eq_ok.1 h
      obtain ⟨k, w, hw, h⟩ := bind_eq_ok.1 h
      obtain ⟨rfl, rfl⟩ := kind_eq_ok.1 hw
      split at h
      case isTrue hends =>
        obtain ⟨rfl, rfl⟩ := pure_eq_ok.1 h
        exact .inr ⟨hk, t, ht, hends, rfl⟩
      case isFalse => exact absurd h not_refuseFor_eq_ok
  · intro h
    refine bind_eq_ok.2 ⟨(), _, hskip, ?_⟩
    refine bind_eq_ok.2 ⟨_, _, isAt_eq_ok.2 ⟨rfl, rfl⟩, ?_⟩
    refine bind_eq_ok.2 ⟨_, _, isAtEnding_eq_ok.2 ⟨rfl, rfl⟩, ?_⟩
    rcases h with ⟨hk, rfl, rfl⟩ | ⟨hk, t, ht, hends, rfl⟩
    · rw [decide_eq_true hk]
      rfl
    · rw [decide_eq_false hk]
      refine bind_eq_ok.2 ⟨t, u, ht, bind_eq_ok.2 ⟨_, u, kind_eq_ok.2 ⟨rfl, rfl⟩, ?_⟩⟩
      rw [if_pos hends]
      rfl

lemma iterate_eq_ok (hn : P.OnNested n n') (he : s.eof.kind = .eof)
    {read read' : List NumberedTree} :
    iterate (fun read => do return (← nextStatement n .none).map (· :: read)) read s =
        .ok read' u ↔
      ∃ ts, n.Lists s ts u ∧ ts.reverse ++ read = read' := by
  have hstep {read : List NumberedTree} {s u : Reading} {o : Option (List NumberedTree)} :
      (do return (← nextStatement n .none).map (· :: read) : Parser _) s = .ok o u ↔
        ∃ o', nextStatement n .none s = .ok o' u ∧ o'.map (· :: read) = o := by
    constructor
    · intro h
      obtain ⟨o', v, ho, h⟩ := bind_eq_ok.1 h
      obtain ⟨hmap, rfl⟩ := pure_eq_ok.1 h
      exact ⟨o', ho, hmap⟩
    · rintro ⟨o', ho, hmap⟩
      exact bind_eq_ok.2 ⟨o', u, ho, pure_eq_ok.2 ⟨hmap, rfl⟩⟩
  constructor
  · intro h
    induction read, s using iterate.induct
      (fun read => do return (← nextStatement n .none).map (· :: read)) with
    | case1 read s e v hs =>
      rw [iterate_of_error hs] at h
      cases h
    | case2 read s v hs =>
      rw [iterate_of_none hs] at h
      cases h
      obtain ⟨o, ho, hmap⟩ := hstep.1 hs
      cases Option.map_eq_none_iff.1 hmap
      rcases (nextStatement_eq_ok he).1 ho with ⟨hk, -, rfl⟩ | ⟨-, t, -, -, hsome⟩
      · exact ⟨[], .done hk, rfl⟩
      · cases hsome
    | case3 read s read₁ v hs hlt ih =>
      rw [iterate_of_some hs hlt] at h
      obtain ⟨o, ho, hmap⟩ := hstep.1 hs
      rcases (nextStatement_eq_ok he).1 ho with ⟨-, rfl, -⟩ | ⟨hk, t, ht, hends, rfl⟩
      · cases hmap
      · cases hmap
        have hv := (hn.statement.leads trivial ht).1.eof_eq.trans s.leads_skipped.eof_eq
        obtain ⟨ts, hts, rfl⟩ := ih (hv ▸ he) h
        refine ⟨t :: ts, .next hk ht hends hts, ?_⟩
        rw [List.reverse_cons, List.append_assoc, List.singleton_append]
    | case4 read s read₁ v hs hlt =>
      obtain ⟨o, ho, hmap⟩ := hstep.1 hs
      rcases (nextStatement_eq_ok he).1 ho with ⟨-, rfl, -⟩ | ⟨hk, t, ht, -⟩
      · cases hmap
      · have hle := s.leads_skipped.length_le
        have htakes := hn.statement.takes (s := s.skipped) trivial he ht
        exact absurd (Nat.lt_of_lt_of_le htakes hle) hlt
  · rintro ⟨ts, h, rfl⟩
    induction h generalizing read with
    | done hk =>
      exact iterate_of_none (hstep.2 ⟨none, (nextStatement_eq_ok he).2 (.inl ⟨hk, rfl, rfl⟩), rfl⟩)
    | @next s u v t ts hk ht hends _ ih =>
      have hle := s.leads_skipped.length_le
      have htakes := hn.statement.takes (s := s.skipped) trivial he ht
      have hlt := Nat.lt_of_lt_of_le htakes hle
      have hu := (hn.statement.leads trivial ht).1.eof_eq.trans s.leads_skipped.eof_eq
      have hnext := (nextStatement_eq_ok he).2 (.inr ⟨hk, t, ht, hends, rfl⟩)
      rw [iterate_of_some (hstep.2 ⟨some t, hnext, rfl⟩) hlt, ih (hu ▸ he), List.reverse_cons,
        List.append_assoc, List.singleton_append]

/-- What the parser for statements reads up to the end of the source. -/
lemma statements_eq_ok (hn : P.OnNested n n') (he : s.eof.kind = .eof) :
    statements n .none s = .ok ts u ↔ n.Lists s ts u := by
  constructor
  · intro h
    obtain ⟨read, v, hread, h⟩ := bind_eq_ok.1 h
    obtain ⟨rfl, rfl⟩ := pure_eq_ok.1 h
    obtain ⟨ts, hts, rfl⟩ := (iterate_eq_ok hn he).1 hread
    rw [List.append_nil, List.reverse_reverse]
    exact hts
  · intro h
    have hread := (iterate_eq_ok hn he).2 ⟨ts, h, List.append_nil ts.reverse⟩
    exact bind_eq_ok.2 ⟨ts.reverse, u, hread, pure_eq_ok.2 ⟨List.reverse_reverse ts, rfl⟩⟩

end Parser

namespace Passage.InStep

lemma tokens_skipped (hs : P.InStep s s') :
    s'.skipped.tokens = if s.skipped.tokens = [] then P.tail.dropWhile fun t => isSeparator t.kind
      else s.skipped.tokens.map P.relabel.token ++ P.tail := by
  have hmap : (s.tokens.map P.relabel.token).dropWhile (fun t => isSeparator t.kind) =
      s.skipped.tokens.map P.relabel.token := List.dropWhile_map
  rw [Reading.skipped, hs.tokens_eq, List.dropWhile_append, hmap]
  simp only [List.isEmpty_iff, List.map_eq_nil_iff]

lemma kinds_skipped (hs : P.InStep s s') : ∀ t ∈ s.skipped.tokens, t.kind ≠ .eof :=
  fun t ht => hs.kinds t (s.leads_skipped.suffix.subset ht)

/-- Where something is left behind the separators, the same is left in the other source. -/
lemma skipped (hs : P.InStep s s') (hk : s.skipped.current.kind ≠ .eof) :
    P.InStep s.skipped s'.skipped := by
  have hne : s.skipped.tokens ≠ [] := by
    intro hnil
    apply hk
    rw [Reading.current, hnil]
    exact hs.kind_eof
  have htokens := hs.tokens_skipped
  rw [if_neg hne] at htokens
  exact ⟨hs.kind_eof, hs.kinds_skipped, htokens, hs.eof_eq, hs.next_eq, hs.libraries_eq,
    hs.imports_eq⟩

/-- At the end of the first source nothing is left in the other one but what follows. -/
lemma exhausted (hs : P.InStep s s') (hk : s.skipped.current.kind = .eof) :
    s.skipped.tokens = [] ∧ P.InStep s.skipped { s' with tokens := P.tail } ∧
      s'.skipped = Reading.skipped { s' with tokens := P.tail } := by
  have hnil : s.skipped.tokens = [] := by
    cases htokens : s.skipped.tokens with
    | nil => rfl
    | cons t ts =>
      rw [Reading.current, htokens] at hk
      exact absurd hk (hs.kinds_skipped t (htokens ▸ .head _))
  have htokens := hs.tokens_skipped
  rw [if_pos hnil] at htokens
  refine ⟨hnil, ⟨hs.kind_eof, hs.kinds_skipped, ?_, hs.eof_eq, hs.next_eq, hs.libraries_eq,
    hs.imports_eq⟩, ?_⟩
  · rw [hnil]
    rfl
  · show { s' with tokens := s'.skipped.tokens } = _
    rw [htokens]
    rfl

/-- The statements of the first source stand before what is listed where it ends. -/
lemma lists (hn : P.OnNested n n') (hn' : P.OnNested n' n') (hs : P.InStep s s')
    (h : n.Lists s ts u) :
    u.tokens = [] ∧ ∃ u', P.InStep u u' ∧ u'.eof = s'.eof ∧ ∀ us v, n'.Lists u' us v →
      n'.Lists s' (ts.map P.relabel.tree ++ us) v := by
  induction h generalizing s' with
  | done hk =>
    obtain ⟨hnil, hstep, hskipped⟩ := hs.exhausted hk
    exact ⟨hnil, _, hstep, rfl, fun us v hv => hv.of_skipped_eq hskipped⟩
  | @next s u v t ts hk ht hends _ ih =>
    have hskipped := hs.skipped hk
    obtain ⟨_, u', ht', rfl, hu⟩ :=
      (hn.statement.ok trivial hskipped ht).resolve_left fun hlax => hlax.1
    obtain ⟨hnil, v', hv, heof, hlists⟩ := ih hu
    have hleads := (hn'.statement.leads trivial ht').1
    refine ⟨hnil, v', hv, heof.trans hleads.eof_eq, fun us w hw => ?_⟩
    refine .next ?_ ht' ?_ (hlists us w hw)
    · rw [hskipped.kind_eq hk]
      exact hk
    · rcases hu.kind_or with hkind | ⟨-, -, hkind⟩
      · rw [hkind, hends]
      · rw [hkind]
        rfl

end Passage.InStep

end BrighterCheck
