import BrighterCheck.Parser.Block
import Mathlib.Tactic.Lemma

/-!
# Runs of parsers

What a run that succeeds says about the runs of its parts, for the ways in which parsers are put
together and for the parsers that they are built from.
-/

namespace BrighterCheck.Parser

variable {α β : Type} {s s' : Reading}

lemma bind_eq_ok {m : Parser α} {f : α → Parser β} {b : β} :
    (m >>= f) s = .ok b s' ↔ ∃ a u, m s = .ok a u ∧ f a u = .ok b s' := by
  show EStateM.bind m f s = _ ↔ _
  unfold EStateM.bind
  cases h : m s with
  | ok a u =>
    constructor
    · exact fun h' => ⟨a, u, rfl, h'⟩
    · rintro ⟨_, _, e, h'⟩
      cases e
      exact h'
  | error e u =>
    constructor
    · exact nofun
    · exact nofun

/-- The rest goes on from where the first part has stopped. -/
lemma bind_of_ok {m : Parser α} {f : α → Parser β} {a : α} (h : m s = .ok a s') :
    (m >>= f) s = f a s' := by
  show EStateM.bind m f s = _
  unfold EStateM.bind
  rw [h]

lemma bind_eq_error {m : Parser α} {f : α → Parser β} {e : SyntaxError} :
    (m >>= f) s = .error e s' ↔
      m s = .error e s' ∨ ∃ a u, m s = .ok a u ∧ f a u = .error e s' := by
  show EStateM.bind m f s = _ ↔ _
  unfold EStateM.bind
  cases h : m s with
  | ok a u =>
    constructor
    · exact fun h' => .inr ⟨a, u, rfl, h'⟩
    · rintro (h' | ⟨_, _, e, h'⟩)
      · cases h'
      · cases e
        exact h'
  | error e u =>
    constructor
    · intro h'
      cases h'
      exact .inl rfl
    · rintro (h' | ⟨_, _, e, -⟩)
      · cases h'
        rfl
      · cases e

lemma pure_eq_ok {a b : α} : (pure a : Parser α) s = .ok b s' ↔ a = b ∧ s = s' := by
  constructor
  · intro h
    cases h
    exact ⟨rfl, rfl⟩
  · rintro ⟨rfl, rfl⟩
    rfl

lemma map_eq_ok {f : α → β} {m : Parser α} {b : β} :
    (f <$> m) s = .ok b s' ↔ ∃ a, m s = .ok a s' ∧ f a = b := by
  show EStateM.map f m s = _ ↔ _
  unfold EStateM.map
  cases h : m s with
  | ok a u =>
    constructor
    · intro h'
      cases h'
      exact ⟨a, rfl, rfl⟩
    · rintro ⟨_, e, rfl⟩
      cases e
      rfl
  | error e u =>
    constructor
    · exact nofun
    · exact nofun

lemma map_eq_error {f : α → β} {m : Parser α} {e : SyntaxError} :
    (f <$> m) s = .error e s' ↔ m s = .error e s' := by
  show EStateM.map f m s = _ ↔ _
  unfold EStateM.map
  cases h : m s with
  | ok a u =>
    constructor
    · exact nofun
    · exact nofun
  | error e u =>
    constructor
    · intro h'
      cases h'
      rfl
    · intro h'
      cases h'
      rfl

lemma kind_eq_ok {k : TokenKind} : kind s = .ok k s' ↔ s.current.kind = k ∧ s = s' :=
  pure_eq_ok

lemma followingKind_eq_ok {k : TokenKind} :
    followingKind s = .ok k s' ↔ s.following = k ∧ s = s' :=
  pure_eq_ok

lemma isAt_eq_ok {k : TokenKind} {b : Bool} :
    isAt k s = .ok b s' ↔ decide (s.current.kind = k) = b ∧ s = s' :=
  pure_eq_ok

/-- A question about the current token is one about its kind. -/
lemma isAt_bind {k : TokenKind} {f : Bool → Parser α} :
    isAt k >>= f = kind >>= fun k' => f (decide (k' = k)) :=
  rfl

lemma acceptIf_bind {wanted : TokenKind → Bool} {f : Option Token → Parser α} :
    acceptIf wanted >>= f =
      kind >>= fun k => (if wanted k then some <$> advance else return none) >>= f :=
  rfl

lemma isAtEnding_bind {e : Ending} {f : Bool → Parser α} :
    isAtEnding e >>= f = kind >>= fun k => followingKind >>= fun next => f (e k next) :=
  rfl

lemma isAtEnding_eq_ok {e : Ending} {b : Bool} :
    isAtEnding e s = .ok b s' ↔ e s.current.kind s.following = b ∧ s = s' :=
  pure_eq_ok

lemma not_refuse_eq_ok {fault : Token → SyntaxFault} {a : α} : refuse fault s ≠ .ok a s' :=
  nofun

lemma not_refuseFor_eq_ok {what : Expected} {a : α} : refuseFor what s ≠ .ok a s' :=
  nofun

lemma not_refuseAt_eq_ok {fault : SyntaxFault} {range : Range} {a : α} :
    refuseAt fault range s ≠ .ok a s' :=
  nofun

lemma node_eq_ok {form : Form NumberedTree} {range : Option Range} {t : NumberedTree} :
    node form range s = .ok t s' ↔
      ⟨s.next, form.kind, range, form.children⟩ = t ∧
        { s with store := s.store.alloc (form.map Tree.id) range } = s' := by
  constructor
  · intro h
    cases h
    exact ⟨rfl, rfl⟩
  · rintro ⟨rfl, rfl⟩
    rfl

lemma not_advance_eq_error {e : SyntaxError} : advance s ≠ .error e s' := by
  unfold advance
  split
  · nofun
  · nofun

/-- A token that is not the end of the source is taken off the front. -/
lemma advance_eq_ok {t : Token} (hk : s.current.kind ≠ s.eof.kind) (h : advance s = .ok t s') :
    s.current = t ∧ s.tokens = t :: s'.tokens ∧ s' = { s with tokens := s'.tokens } := by
  unfold advance at h
  unfold Reading.current at *
  cases e : s.tokens with
  | nil =>
    rw [e] at hk
    contradiction
  | cons u us =>
    rw [e] at h
    cases h
    exact ⟨rfl, rfl, rfl⟩

/-- The token behind the front stands at the front of what is left. -/
lemma current_kind_eq {t : Token} (hs : s.tokens = t :: s'.tokens) (hf : s.following ≠ .eof) :
    s'.current.kind = s.following := by
  unfold Reading.following Reading.current at *
  rw [hs] at hf ⊢
  cases hs' : s'.tokens with
  | nil =>
    rw [hs'] at hf
    contradiction
  | cons => rfl

/-- A token is taken if it is wanted, and nothing happens otherwise. -/
lemma acceptIf_eq_ok {wanted : TokenKind → Bool} {o : Option Token}
    (hw : wanted s.eof.kind = false) (h : acceptIf wanted s = .ok o s') :
    (o = none ∧ wanted s.current.kind = false ∧ s = s') ∨
      ∃ t, o = some t ∧ s.current = t ∧ wanted t.kind = true ∧ s.tokens = t :: s'.tokens ∧
        s' = { s with tokens := s'.tokens } := by
  obtain ⟨k, u, hk, h⟩ := bind_eq_ok.1 h
  obtain ⟨rfl, rfl⟩ := kind_eq_ok.1 hk
  cases hc : wanted s.current.kind with
  | true =>
    rw [hc, if_pos rfl] at h
    obtain ⟨t, ht, rfl⟩ := map_eq_ok.1 h
    have hn : s.current.kind ≠ s.eof.kind := by
      intro e
      rw [e, hw] at hc
      cases hc
    obtain ⟨rfl, ht, hs⟩ := advance_eq_ok hn ht
    exact .inr ⟨_, rfl, rfl, hc, ht, hs⟩
  | false =>
    rw [hc, if_neg Bool.false_ne_true] at h
    obtain ⟨rfl, rfl⟩ := pure_eq_ok.1 h
    exact .inl ⟨rfl, rfl, rfl⟩

/-- Behind a mark the rest is read, and without it nothing. -/
lemma after_eq_ok {mark : TokenKind} {rest : Parser α} {o : Option α} (hm : s.eof.kind ≠ mark)
    (h : after mark rest s = .ok o s') :
    (o = none ∧ s = s') ∨
      ∃ a t u, o = some a ∧ t.kind = mark ∧ s.tokens = t :: u.tokens ∧
        u = { s with tokens := u.tokens } ∧ rest u = .ok a s' := by
  obtain ⟨o', u, ho, h⟩ := bind_eq_ok.1 h
  rcases acceptIf_eq_ok (decide_eq_false hm) ho with ⟨rfl, -, rfl⟩ | ⟨t, rfl, -, ht, hs, hu⟩
  · obtain ⟨rfl, rfl⟩ := pure_eq_ok.1 h
    exact .inl ⟨rfl, rfl⟩
  · obtain ⟨a, ha, rfl⟩ := map_eq_ok.1 h
    exact .inr ⟨a, t, u, rfl, of_decide_eq_true ht, hs, hu, ha⟩

section Loop

variable {step : α → Parser (Option α)} {a : α}

lemma iterate_of_none {u : Reading} (h : step a s = .ok none u) :
    iterate step a s = .ok a u := by
  rw [iterate, h]

lemma iterate_of_error {u : Reading} {e : SyntaxError} (h : step a s = .error e u) :
    iterate step a s = .error e u := by
  rw [iterate, h]

lemma iterate_of_some {c : α} {u : Reading} (h : step a s = .ok (some c) u)
    (hlt : u.tokens.length < s.tokens.length) :
    iterate step a s = iterate step c u := by
  rw [iterate, h]
  exact if_pos hlt

lemma iterate_of_still {c : α} {u : Reading} (h : step a s = .ok (some c) u)
    (hlt : ¬ u.tokens.length < s.tokens.length) : iterate step a s = .ok c u := by
  rw [iterate, h]
  exact if_neg hlt

end Loop

lemma acceptIf_of_true {wanted : TokenKind → Bool} {t : Token} {ts : List Token}
    (hs : s.tokens = t :: ts) (hw : wanted t.kind = true) :
    acceptIf wanted s = .ok (some t) { s with tokens := ts } := by
  have hcurrent : s.current = t := by
    rw [Reading.current, hs]
  refine bind_eq_ok.2 ⟨t.kind, s, kind_eq_ok.2 ⟨by rw [hcurrent], rfl⟩, ?_⟩
  rw [hw, if_pos rfl]
  refine map_eq_ok.2 ⟨t, ?_, rfl⟩
  rw [advance, hs]

lemma acceptIf_of_false {wanted : TokenKind → Bool} (hw : wanted s.current.kind = false) :
    acceptIf wanted s = .ok none s := by
  refine bind_eq_ok.2 ⟨_, s, kind_eq_ok.2 ⟨rfl, rfl⟩, ?_⟩
  rw [hw, if_neg Bool.false_ne_true]
  rfl

/-- Tokens are taken as long as they are wanted. -/
lemma many_acceptIf_eq {wanted : TokenKind → Bool} (he : wanted s.eof.kind = false) :
    many (acceptIf wanted) s = .ok (s.tokens.takeWhile fun t => wanted t.kind)
      { s with tokens := s.tokens.dropWhile fun t => wanted t.kind } := by
  have hloop (ts : List Token) (read : List Token) :
      iterate (fun read => do return (← acceptIf wanted).map (· :: read)) read
        { s with tokens := ts } =
          .ok ((ts.takeWhile fun t => wanted t.kind).reverse ++ read)
            { s with tokens := ts.dropWhile fun t => wanted t.kind } := by
    induction ts generalizing read with
    | nil =>
      have haccept : acceptIf wanted { s with tokens := [] } = .ok none _ :=
        acceptIf_of_false he
      exact iterate_of_none (bind_eq_ok.2 ⟨_, _, haccept, rfl⟩)
    | cons t ts ih =>
      cases ht : wanted t.kind with
      | true =>
        have haccept : acceptIf wanted { s with tokens := t :: ts } = .ok (some t) _ :=
          acceptIf_of_true rfl ht
        have htake : (((t :: ts).takeWhile fun t => wanted t.kind).reverse ++ read) =
            (ts.takeWhile fun t => wanted t.kind).reverse ++ (t :: read) := by
          simp [ht]
        have hdrop : (t :: ts).dropWhile (fun t => wanted t.kind) =
            ts.dropWhile fun t => wanted t.kind := by
          simp [ht]
        rw [htake, hdrop, ← ih]
        exact iterate_of_some (bind_eq_ok.2 ⟨_, _, haccept, rfl⟩) (Nat.lt_succ_self _)
      | false =>
        have haccept : acceptIf wanted { s with tokens := t :: ts } = .ok none _ :=
          acceptIf_of_false ht
        have htake : (((t :: ts).takeWhile fun t => wanted t.kind).reverse ++ read) = read := by
          simp [ht]
        have hdrop : (t :: ts).dropWhile (fun t => wanted t.kind) = t :: ts := by
          simp [ht]
        rw [htake, hdrop]
        exact iterate_of_none (bind_eq_ok.2 ⟨_, _, haccept, rfl⟩)
  refine bind_eq_ok.2 ⟨_, _, hloop s.tokens [], pure_eq_ok.2 ⟨?_, rfl⟩⟩
  rw [List.append_nil, List.reverse_reverse]

/-- What is passed over is the longest start of the tokens that is unwanted. -/
lemma skip_eq {unwanted : TokenKind → Bool} (he : unwanted s.eof.kind = false) :
    skip unwanted s = .ok () { s with tokens := s.tokens.dropWhile fun t => unwanted t.kind } :=
  bind_eq_ok.2 ⟨_, _, many_acceptIf_eq he, rfl⟩

/-- What a loop keeps: if every step keeps `I`, one that declines as well, `I` holds in the end. -/
lemma iterate_induction {step : α → Parser (Option α)} {I : α → Reading → Prop}
    (hstep : ∀ a s o s', I a s → step a s = .ok o s' → I (o.getD a) s')
    {a b : α} (ha : I a s) (h : iterate step a s = .ok b s') : I b s' := by
  induction a, s using iterate.induct step with
  | case1 a s e u hs =>
    rw [iterate, hs] at h
    cases h
  | case2 a s u hs =>
    rw [iterate, hs] at h
    cases h
    exact hstep _ s none _ ha hs
  | case3 a s c u hs hlt ih =>
    rw [iterate, hs] at h
    simp only [if_pos hlt] at h
    exact ih (hstep a s (some c) u ha hs) h
  | case4 a s c u hs hlt =>
    rw [iterate, hs] at h
    simp only [if_neg hlt] at h
    cases h
    exact hstep _ s (some _) _ ha hs

end BrighterCheck.Parser
