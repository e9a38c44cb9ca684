import BrighterCheck.Proofs.Parser.Grammar
import BrighterCheck.Proofs.Parser.Run

/-!
# Soundness of the parts of parsers

`Parses before m Q` says what a parser does to the items that were read before it: whenever it
answers, all that was read are items of which `Q` holds together with the answer. A parser that
makes a node takes the items of the node out of those before it (`Completes`). There is one rule for
each way in which parsers are put together, so that a proof follows the structure of its parser.
-/

namespace BrighterCheck.Parser

open Item

variable {α β : Type} {c : Category} {before : List Item} {k : TokenKind}

/-- Whenever `m` answers behind the items `before`, the items read are such that `Q` holds. -/
def Parses (before : List Item) (m : Parser α) (Q : α → List Item → Prop) : Prop :=
  ∀ ⦃s₀ s a s'⦄, s₀.IsLexed → Reads s₀ before s → m s = .ok a s' →
    ∃ items, Reads s₀ items s' ∧ Q a items

/-- The same where the current token is of the kind `k`. -/
def ParsesAt (k : TokenKind) (before : List Item) (m : Parser α) (Q : α → List Item → Prop) :
    Prop :=
  ∀ ⦃s₀ s a s'⦄, s₀.IsLexed → Reads s₀ before s → s.current.kind = k →
    m s = .ok a s' → ∃ items, Reads s₀ items s' ∧ Q a items

/-- Whenever `m` answers behind the items `before`, it has made a node out of all items read. -/
abbrev Completes (before : List Item) (c : Category) (m : Parser NumberedTree) : Prop :=
  Parses before m fun t items => items = [.node c t]

/-- The same where the current token is of the kind `k`. -/
abbrev CompletesAt (k : TokenKind) (before : List Item) (c : Category) (m : Parser NumberedTree) :
    Prop :=
  ParsesAt k before m fun t items => items = [.node c t]

/-- Behind `before`, `m` grows the node `left`, or leaves it if it answers nothing. -/
abbrev Continues (before : List Item) (c : Category) (left : NumberedTree)
    (m : Parser (Option NumberedTree)) : Prop :=
  Parses before m fun o items => items = [.node c (o.getD left)]

section Rules

variable {m : Parser α} {f : α → Parser β} {P : α → List Item → Prop} {Q : β → List Item → Prop}

lemma Parses.mono {P' : α → List Item → Prop} (h : Parses before m P)
    (hp : ∀ a items, P a items → P' a items) : Parses before m P' := by
  intro s₀ s a s' he hs hm
  obtain ⟨items, hr, hi⟩ := h he hs hm
  exact ⟨items, hr, hp a items hi⟩

lemma Parses.pure {a : α} (h : P a before) : Parses before (Pure.pure a) P := by
  intro s₀ s b s' _ hs hm
  obtain ⟨rfl, rfl⟩ := pure_eq_ok.1 hm
  exact ⟨before, hs, h⟩

/-- The first part works on the last items, and the rest on all. -/
lemma Parses.within (before : List Item) {inner : List Item} (hm : Parses inner m P)
    (hf : ∀ a items, P a items → Parses (before ++ items) (f a) Q) :
    Parses (before ++ inner) (m >>= f) Q := by
  intro s₀ s b s' he hs h
  obtain ⟨u, hb, hi⟩ := hs.split
  obtain ⟨a, v, ha, h⟩ := bind_eq_ok.1 h
  obtain ⟨items, hr, hp⟩ := hm (hb.isLexed he) hi ha
  exact hf a items hp he (hb.append hr) h

/-- The first part leaves all items alone. -/
lemma Parses.bind (hm : Parses [] m P)
    (hf : ∀ a items, P a items → Parses (before ++ items) (f a) Q) :
    Parses before (m >>= f) Q := by
  have h := Parses.within before hm hf
  rwa [List.append_nil] at h

/-- What was read before is left alone. -/
lemma Parses.frame {E : α → List Item → Prop} (hm : Parses [] m E)
    (h : ∀ a items, E a items → P a (before ++ items)) : Parses before m P := by
  rw [← bind_pure m]
  exact .bind hm fun a items hi => .pure (h a items hi)

lemma Parses.map {g : α → β} (hm : Parses before m P) (hg : ∀ a items, P a items → Q (g a) items) :
    Parses before (g <$> m) Q := by
  intro s₀ s b s' he hs h
  obtain ⟨a, ha, rfl⟩ := map_eq_ok.1 h
  obtain ⟨items, hr, hp⟩ := hm he hs ha
  exact ⟨items, hr, hg a items hp⟩

lemma Parses.ite {b : Prop} [Decidable b] {n : Parser α} (hm : b → Parses before m P)
    (hn : ¬ b → Parses before n P) : Parses before (if b then m else n) P := by
  by_cases h : b
  · rw [if_pos h]
    exact hm h
  · rw [if_neg h]
    exact hn h

lemma Parses.refuseFor {what : Expected} : Parses before (Parser.refuseFor what) P :=
  fun _ _ _ _ _ _ h => absurd h not_refuseFor_eq_ok

lemma Parses.refuseAt {fault : SyntaxFault} {range : Range} :
    Parses before (Parser.refuseAt fault range) P :=
  fun _ _ _ _ _ _ h => absurd h not_refuseAt_eq_ok

lemma Parses.refuse {fault : Token → SyntaxFault} : Parses before (Parser.refuse fault) P :=
  fun _ _ _ _ _ _ h => absurd h not_refuse_eq_ok

/-- What a parser does next depends on the kind of the current token. -/
lemma Parses.onKind {f : TokenKind → Parser β} (hf : ∀ k, ParsesAt k before (f k) Q) :
    Parses before (Parser.kind >>= f) Q := by
  intro s₀ s b s' he hs h
  obtain ⟨k, u, hk, h⟩ := bind_eq_ok.1 h
  obtain ⟨rfl, rfl⟩ := kind_eq_ok.1 hk
  exact hf _ he hs rfl h

/-- What a parser does next depends on whether the current token is of one kind. -/
lemma Parses.onAt {n : Parser α} (hm : ParsesAt k before m P) (hn : Parses before n P) :
    Parses before (do if ← Parser.isAt k then m else n) P := by
  intro s₀ s a s' he hs h
  obtain ⟨b, u, hb, h⟩ := bind_eq_ok.1 h
  obtain ⟨rfl, rfl⟩ := isAt_eq_ok.1 hb
  by_cases hk : s.current.kind = k
  · rw [decide_eq_true hk, if_pos rfl] at h
    exact hm he hs hk h
  · rw [decide_eq_false hk, if_neg Bool.false_ne_true] at h
    exact hn he hs h

lemma Parses.at (h : Parses before m P) : ParsesAt k before m P :=
  fun _ _ _ _ he hs _ hm => h he hs hm

/-- A parser that only looks reads nothing. -/
lemma Parses.kind : Parses [] Parser.kind fun _ items => items = [] := by
  intro s₀ s k s' _ hs h
  obtain ⟨-, rfl⟩ := kind_eq_ok.1 h
  exact ⟨[], hs, rfl⟩

lemma Parses.followingKind : Parses [] Parser.followingKind fun _ items => items = [] := by
  intro s₀ s k s' _ hs h
  obtain ⟨-, rfl⟩ := followingKind_eq_ok.1 h
  exact ⟨[], hs, rfl⟩

lemma Parses.isAt : Parses [] (Parser.isAt k) fun _ items => items = [] := by
  intro s₀ s b s' _ hs h
  obtain ⟨-, rfl⟩ := isAt_eq_ok.1 h
  exact ⟨[], hs, rfl⟩

lemma Parses.isAtEnding {e : Ending} :
    Parses [] (Parser.isAtEnding e) fun _ items => items = [] := by
  refine .bind .kind ?_
  rintro _ _ rfl
  refine .bind .followingKind ?_
  rintro _ _ rfl
  exact .pure rfl

lemma ParsesAt.map {g : α → β} (hm : ParsesAt k before m P)
    (hg : ∀ a items, P a items → Q (g a) items) : ParsesAt k before (g <$> m) Q := by
  intro s₀ s b s' he hs hk h
  obtain ⟨a, ha, rfl⟩ := map_eq_ok.1 h
  obtain ⟨items, hr, hp⟩ := hm he hs hk ha
  exact ⟨items, hr, hg a items hp⟩

lemma ParsesAt.ite {b : Prop} [Decidable b] {n : Parser α} (hm : b → ParsesAt k before m P)
    (hn : ¬ b → ParsesAt k before n P) : ParsesAt k before (if b then m else n) P := by
  by_cases h : b
  · rw [if_pos h]
    exact hm h
  · rw [if_neg h]
    exact hn h

/-- A look at the token behind the current one changes nothing. -/
lemma ParsesAt.onFollowing {f : TokenKind → Parser β} (hf : ∀ j, ParsesAt k before (f j) Q) :
    ParsesAt k before (Parser.followingKind >>= f) Q := by
  intro s₀ s b s' he hs hk h
  obtain ⟨j, u, hj, h⟩ := bind_eq_ok.1 h
  obtain ⟨rfl, rfl⟩ := followingKind_eq_ok.1 hj
  exact hf _ he hs hk h

end Rules

/-- A token that is not the end of the source is read when it is taken. -/
lemma reads_advance {s s' : Reading} {t : Token} (he : s.eof.kind = .eof)
    (hk : s.current.kind ≠ .eof) (h : advance s = .ok t s') :
    Reads s [.token t] s' ∧ s.current = t := by
  obtain ⟨hc, ht, hs⟩ := advance_eq_ok (he ▸ hk) h
  refine ⟨.token (.one t) (show s.tokens = [t] ++ s'.tokens from ht) ?_, hc⟩
  rw [← hs]
  exact .nil s'

/-- The current token is taken. -/
lemma ParsesAt.advance {f : Token → Parser α} {P : α → List Item → Prop} (hk : k ≠ .eof)
    (hf : ∀ t, t.kind = k → Parses (before ++ [.token t]) (f t) P) :
    ParsesAt k before (Parser.advance >>= f) P := by
  intro s₀ s a s' he hs hc h
  obtain ⟨t, u, ht, h⟩ := bind_eq_ok.1 h
  obtain ⟨hr, e⟩ := reads_advance (hs.isLexed he).kind_eof (hc ▸ hk) ht
  exact hf t (e ▸ hc) he (hs.append hr) h

/-- Where nothing is noted, a node is only stored. -/
lemma allocate_of_isDirective {s : Reading} {form : Form NumberedTree} {range : Option Range}
    (hd : form.kind.isDirective = false) :
    s.allocate form range = { s with store := s.store.alloc (form.map Tree.id) range } := by
  unfold Reading.allocate
  split
  case h_1 hk | h_2 hk =>
    rw [hk] at hd
    cases hd
  case h_3 => rfl

/-- A new node that is no directive has the parts that it is made with. -/
lemma Parses.newNode {form : Form NumberedTree} {range : Option Range} {items : List Item}
    (hp : Production c form.kind range items) (hi : before = items)
    (hc : nodes items = form.children) (hd : form.kind.isDirective = false) :
    Parses before (Parser.node form range) fun t items =>
      items = [.node c t] ∧ t.kind = form.kind ∧ t.range = range ∧ t.children = form.children := by
  subst hi
  intro s₀ s t s' _ hs h
  obtain ⟨rfl, rfl⟩ := node_eq_ok.1 h
  rw [← allocate_of_isDirective hd, ← hc]
  exact ⟨_, hs.wrap hp ⟨rfl, hc.symm⟩, rfl, rfl, rfl, rfl⟩

/-- A new node that is no directive. -/
lemma Parses.node {form : Form NumberedTree} {range : Option Range} {items : List Item}
    (hp : Production c form.kind range items) (hi : before = items)
    (hc : nodes items = form.children) (hd : form.kind.isDirective = false) :
    Completes before c (Parser.node form range) :=
  (Parses.newNode hp hi hc hd).mono fun _ _ h => h.1

lemma Parses.acceptIf {wanted : TokenKind → Bool} (hw : wanted .eof = false) :
    Parses [] (Parser.acceptIf wanted) fun o items =>
      items = tokens o.toList ∧ ∀ t ∈ o, wanted t.kind = true := by
  intro s₀ s o s' he hs h
  cases hs
  rcases acceptIf_eq_ok (he.kind_eof ▸ hw) h with ⟨rfl, -, rfl⟩ | ⟨t, rfl, -, ht, hs, hu⟩
  · exact ⟨[], .nil _, rfl, nofun⟩
  · refine ⟨[.token t], .token (.one t) (show _ = [t] ++ s'.tokens from hs) ?_, rfl, ?_⟩
    · rw [← hu]
      exact .nil s'
    · intro t' ht'
      cases ht'
      exact ht

lemma Parses.accept (hk : k ≠ .eof) :
    Parses [] (Parser.accept k) fun o items =>
      items = tokens o.toList ∧ ∀ t ∈ o, t.kind = k := by
  refine (Parses.acceptIf ?_).mono ?_
  · exact decide_eq_false hk.symm
  · rintro o items ⟨hi, ho⟩
    exact ⟨hi, fun t ht => of_decide_eq_true (ho t ht)⟩

lemma Parses.expect (hk : k ≠ .eof) :
    Parses [] (Parser.expect k) fun t items => items = [.token t] ∧ t.kind = k := by
  refine .onAt ?_ .refuseFor
  rw [← bind_pure Parser.advance]
  exact .advance hk fun t ht => .pure ⟨rfl, ht⟩

/-- An identifier is a token of the source, so that it is plain. -/
lemma Parses.plainIdentifier {role : NameRole} :
    Parses [] (Parser.expectIdentifier role) fun t items =>
      items = [.token t] ∧ t.kind = .identifier ∧ t.IsPlain := by
  refine .onAt ?_ .refuseFor
  intro s₀ s t s' he hs hk h
  cases hs
  have hn : s₀.current.kind ≠ .eof := by
    rw [hk]
    nofun
  obtain ⟨hr, hc⟩ := reads_advance he.kind_eof hn h
  obtain ⟨-, ht, -⟩ := advance_eq_ok (he.kind_eof ▸ hn) h
  rw [hc] at hk
  refine ⟨_, hr, rfl, hk, he.plain t ?_ (by rw [hk]; rfl)⟩
  rw [ht]
  exact .head _

lemma Parses.expectIdentifier {role : NameRole} :
    Parses [] (Parser.expectIdentifier role) fun t items =>
      items = [.token t] ∧ t.kind = .identifier :=
  Parses.plainIdentifier.mono fun _ _ h => ⟨h.1, h.2.1⟩

/-- A name is one token, whose kind is changed if it is a keyword. -/
lemma expectName_eq_ok {role : NameRole} {s s' : Reading} {t : Token} (he : s.eof.kind = .eof)
    (h : expectName role s = .ok t s') :
    ∃ u, t = u.asIdentifier ∧ u.kind.isNameLike = true ∧ s.tokens = u :: s'.tokens ∧
      s' = { s with tokens := s'.tokens } := by
  obtain ⟨k, v, hk, h⟩ := bind_eq_ok.1 h
  obtain ⟨rfl, rfl⟩ := kind_eq_ok.1 hk
  cases hc : s.current.kind.isNameLike with
  | true =>
    rw [hc, if_pos rfl] at h
    obtain ⟨u, hu, rfl⟩ := map_eq_ok.1 h
    have hn : s.current.kind ≠ s.eof.kind := by
      intro e
      rw [e, he] at hc
      cases hc
    obtain ⟨e, ht, hs⟩ := advance_eq_ok hn hu
    exact ⟨u, rfl, e ▸ hc, ht, hs⟩
  | false =>
    rw [hc, if_neg Bool.false_ne_true] at h
    exact absurd h not_refuseFor_eq_ok

/-- A keyword that is used as a name is plain too. -/
lemma Parses.plainName {role : NameRole} :
    Parses [] (Parser.expectName role) fun t items =>
      items = [.token t] ∧ t.kind = .identifier ∧ t.IsPlain := by
  intro s₀ s t s' he hs h
  cases hs
  obtain ⟨u, rfl, hu, ht, hs⟩ := expectName_eq_ok he.kind_eof h
  have hplain : u.IsPlain := he.plain u (by rw [ht]; exact .head _) hu
  refine ⟨_, .token (.name hu) (show _ = [u] ++ s'.tokens from ht) ?_, rfl, rfl, hplain⟩
  rw [← hs]
  exact .nil s'

lemma Parses.expectName {role : NameRole} :
    Parses [] (Parser.expectName role) fun t items =>
      items = [.token t] ∧ t.kind = .identifier :=
  Parses.plainName.mono fun _ _ h => ⟨h.1, h.2.1⟩

/-- What follows a mark, if there is the mark. -/
lemma Parses.after {rest : Parser α} {P : α → List Item → Prop} (hk : k ≠ .eof)
    (hr : Parses [] rest P) :
    Parses [] (Parser.after k rest) fun o items =>
      (o = none ∧ items = []) ∨
        ∃ a m xs, o = some a ∧ m.kind = k ∧ items = .token m :: xs ∧ P a xs := by
  refine .bind (.accept hk) ?_
  rintro (_ | m) _ ⟨rfl, hm⟩
  · exact .pure (.inl ⟨rfl, rfl⟩)
  · rw [← bind_pure_comp]
    exact .bind hr fun a xs hp => .pure (.inr ⟨a, m, xs, rfl, hm m rfl, rfl, hp⟩)

/-- What a loop keeps of its value and of the items read. -/
lemma Parses.iterate {step : α → Parser (Option α)} {P : α → List Item → Prop}
    (h : ∀ a items, P a items → Parses items (step a) fun o items => P (o.getD a) items) {a : α}
    (ha : P a before) : Parses before (Parser.iterate step a) P := by
  intro s₀ s b s' he hs hm
  refine iterate_induction (I := fun a u => ∃ items, Reads s₀ items u ∧ P a items) ?_
    ⟨before, hs, ha⟩ hm
  rintro a v o w ⟨items, hr, hp⟩ ho
  exact h a items hp he hr ho

/-- What is true of nothing read and kept by every item is true of all items together. -/
lemma Parses.many {item : Parser (Option α)} {P : List α → List Item → Prop}
    {E : Option α → List Item → Prop} (hi : Parses [] item E) (h₀ : P [] [])
    (h₁ : ∀ as o xs ys, P as xs → E o ys → P (as ++ o.toList) (xs ++ ys)) :
    Parses [] (Parser.many item) P := by
  refine .bind (.iterate (P := fun read items => P read.reverse items) ?_ h₀)
    fun _ _ hp => .pure hp
  intro read xs hp
  refine .bind hi ?_
  rintro (_ | a) ys hy
  · exact .pure (by simpa using h₁ _ _ _ _ hp hy)
  · exact .pure (by simpa using h₁ _ _ _ _ hp hy)

/-- Tokens that are passed over. -/
lemma Parses.skip {unwanted : TokenKind → Bool} (hw : unwanted .eof = false) :
    Parses [] (Parser.skip unwanted) fun _ items =>
      ∃ ts, items = tokens ts ∧ ∀ t ∈ ts, unwanted t.kind = true := by
  refine .bind (P := fun ts items => items = tokens ts ∧ ∀ t ∈ ts, unwanted t.kind = true) ?_ ?_
  · refine .many (.acceptIf hw) ⟨rfl, nofun⟩ ?_
    rintro as o _ _ ⟨rfl, ha⟩ ⟨rfl, ho⟩
    refine ⟨by simp [tokens], ?_⟩
    intro t ht
    rcases List.mem_append.1 ht with ht | ht
    · exact ha t ht
    · exact ho t (Option.mem_toList.1 ht)
  · rintro ts _ ⟨rfl, ht⟩
    exact .pure ⟨ts, rfl, ht⟩

/-- Line ends and comments inside brackets. -/
lemma Parses.skipNewlines :
    Parses [] Parser.skipNewlines fun _ items =>
      ∃ ts, items = tokens ts ∧ ∀ t ∈ ts, isBlank t.kind = true :=
  .skip rfl

/-- Blanks are marks of a list. -/
lemma Parses.blanks :
    Parses [] Parser.skipNewlines fun _ items =>
      ∃ ts, items = tokens ts ∧ ∀ t ∈ ts, isListMark t.kind = true := by
  refine Parses.skipNewlines.mono ?_
  rintro _ _ ⟨ts, rfl, hts⟩
  exact ⟨ts, rfl, fun t ht => by simp [isListMark, hts t ht]⟩

/-- No blanks at all. -/
lemma Parses.noBlanks :
    Parses [] (Pure.pure ()) fun _ items =>
      ∃ ts, items = tokens ts ∧ ∀ t ∈ ts, isListMark t.kind = true :=
  .pure ⟨[], rfl, nofun⟩

/--
Elements with commas between them: what is true of nothing read and kept by every element and by
every mark of the list is true of the whole list.
-/
lemma Parses.commaList {close : TokenKind → Bool} {blanks : Parser Unit} {item : Parser α}
    {P : List α → List Item → Prop} {E : α → List Item → Prop}
    (hb : Parses [] blanks fun _ items =>
      ∃ ts, items = tokens ts ∧ ∀ t ∈ ts, isListMark t.kind = true)
    (hi : Parses [] item E) (h₀ : P [] [])
    (h₁ : ∀ as a xs ys, P as xs → E a ys → P (as ++ [a]) (xs ++ ys))
    (h₂ : ∀ as xs ts, P as xs → (∀ t ∈ ts, isListMark t.kind = true) → P as (xs ++ tokens ts)) :
    Parses [] (Parser.commaList close blanks item) P := by
  refine .bind (.iterate (P := fun read items => P read.1.reverse items) ?_ h₀)
    fun _ _ hp => .pure hp
  rintro ⟨read, goesOn⟩ xs hp
  refine .bind .kind ?_
  rintro k _ rfl
  refine .ite (fun _ => .pure (by simpa using hp)) fun _ => ?_
  refine .bind hi fun a ys hy => ?_
  have ha := h₁ _ _ _ _ hp hy
  refine .bind hb ?_
  rintro _ _ ⟨ts, rfl, hts⟩
  have hts := h₂ _ _ _ ha hts
  refine .bind (.accept (by nofun)) ?_
  rintro (_ | comma) _ ⟨rfl, hc⟩
  · exact .pure (by simpa [tokens] using hts)
  · have hcomma := h₂ _ _ [comma] hts (by simp [isListMark, hc comma rfl])
    refine .bind hb ?_
    rintro _ _ ⟨us, rfl, hus⟩
    exact .pure (by simpa [tokens] using h₂ _ _ _ hcomma hus)

lemma listed_nil {among : TokenKind → Bool} : Listed c among [] :=
  nofun

lemma listed_append {among : TokenKind → Bool} {xs ys : List Item} (hx : Listed c among xs)
    (hy : Listed c among ys) : Listed c among (xs ++ ys) :=
  fun i hi => (List.mem_append.1 hi).elim (hx i) (hy i)

lemma listed_tokens {among : TokenKind → Bool} {ts : List Token}
    (h : ∀ t ∈ ts, among t.kind = true) : Listed c among (tokens ts) := by
  intro i hi
  obtain ⟨t, ht, rfl⟩ := List.mem_map.1 hi
  exact h t ht

lemma listed_token {among : TokenKind → Bool} {t : Token} (h : among t.kind = true) :
    Listed c among [.token t] := by
  intro i hi
  cases List.mem_singleton.1 hi
  exact h

lemma listed_node {among : TokenKind → Bool} {t : NumberedTree} :
    Listed c among [.node c t] := by
  intro i hi
  cases List.mem_singleton.1 hi
  rfl

/-- A list of nodes with marks around them. -/
abbrev Lists (c : Category) (among : TokenKind → Bool) (ts : List NumberedTree)
    (items : List Item) : Prop :=
  Listed c among items ∧ nodes items = ts

lemma Lists.append {among : TokenKind → Bool} {xs ys : List Item} {l m : List NumberedTree}
    (hx : Lists c among l xs) (hy : Lists c among m ys) : Lists c among (l ++ m) (xs ++ ys) :=
  ⟨listed_append hx.1 hy.1, by rw [nodes_append, hx.2, hy.2]⟩

/-- Elements with commas between them that are nodes. -/
lemma Parses.commaNodes {close : TokenKind → Bool} {blanks : Parser Unit}
    {item : Parser NumberedTree}
    (hb : Parses [] blanks fun _ items =>
      ∃ ts, items = tokens ts ∧ ∀ t ∈ ts, isListMark t.kind = true)
    (hi : Completes [] c item) :
    Parses [] (Parser.commaList close blanks item) (Lists c isListMark) := by
  refine .commaList hb hi ⟨listed_nil, rfl⟩ ?_ ?_
  · rintro as a xs _ hl rfl
    exact hl.append ⟨listed_node, rfl⟩
  · rintro as xs ts hl hts
    simpa using hl.append (m := []) ⟨listed_tokens hts, nodes_tokens ts⟩

/-- A node that grows as long as the steps answer. -/
lemma Parses.grow {step : NumberedTree → Parser (Option NumberedTree)}
    (h : ∀ left, Continues [.node c left] c left (step left)) (left : NumberedTree) :
    Completes [.node c left] c (Parser.iterate step left) := by
  refine Parses.iterate ?_ rfl
  rintro left _ rfl
  exact h left

/-- A node that grew. -/
lemma Parses.grown {left : NumberedTree} {m : Parser NumberedTree}
    (h : Completes before c m) : Continues before c left (Option.some <$> m) :=
  .map h fun _ _ hi => hi

end BrighterCheck.Parser
