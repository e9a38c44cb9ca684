import BrighterCheck.Proofs.Parser.Run
import BrighterCheck.Proofs.Tree.Relabel
import BrighterCheck.Parser.Statement

/-!
# Two runs side by side

A `Passage` leads from the readings of one source to those of another, where the same tokens stand
with other texts and places, and where more tokens may follow behind a line end. `Carries` says that
a parser, run on both, gives the same up to relabelling. Where tokens follow, the first run can meet
its end while the second one goes on: a parser that is carried laxly may leave the second run behind
there, and is made good by one that takes a token after it.
-/

namespace BrighterCheck

open BrighterCheck.Parser

/-- The reading `u` stands behind `s` in the same source. -/
structure Reading.Leads (s u : Reading) : Prop where
  eof_eq : u.eof = s.eof
  suffix : u.tokens <:+ s.tokens

namespace Reading.Leads

variable {s u v : Reading}

lemma refl (s : Reading) : s.Leads s :=
  ⟨rfl, List.suffix_refl _⟩

lemma trans (h : s.Leads u) (h' : u.Leads v) : s.Leads v :=
  ⟨h'.eof_eq.trans h.eof_eq, h'.suffix.trans h.suffix⟩

lemma length_le (h : s.Leads u) : u.tokens.length ≤ s.tokens.length :=
  h.suffix.length_le

end Reading.Leads

lemma Reading.leads_advance {s u : Reading} {t : Token} (h : advance s = .ok t u) :
    s.Leads u ∧ t = s.current := by
  unfold advance at h
  unfold Reading.current
  split at h
  case h_1 hs =>
    cases h
    exact ⟨.refl s, rfl⟩
  case h_2 t ts hs =>
    cases h
    refine ⟨⟨rfl, ?_⟩, rfl⟩
    rw [hs]
    exact List.suffix_cons t ts

/-- A way from one source to another: the tokens are relabelled, and others may follow them. -/
structure Passage where
  relabel : Relabel
  /-- The references that stand before those of the source. -/
  base : References
  /-- What follows the tokens of the source. -/
  tail : List Token
  /-- Whether errors are carried over too. -/
  faithful : Prop
  kind_tail : ∀ t ∈ tail.head?, t.kind = .newline
  tail_eq_nil : faithful → tail = []

namespace Passage

/-- Where nothing follows the source, no line end is missing. -/
lemma kind_head?_nil : ∀ t ∈ ([] : List Token).head?, t.kind = .newline :=
  nofun

variable (P : Passage)

/-- The same place in both sources. -/
structure InStep (s s' : Reading) : Prop where
  kind_eof : s.eof.kind = .eof
  kinds : ∀ t ∈ s.tokens, t.kind ≠ .eof
  tokens_eq : s'.tokens = s.tokens.map P.relabel.token ++ P.tail
  eof_eq : P.tail = [] → s'.eof = P.relabel.token s.eof
  next_eq : s'.next = s.next + P.relabel.shift
  libraries_eq : s'.references.libraries =
    P.base.libraries ++ (P.relabel.references s.references).libraries
  imports_eq : s'.references.imports =
    P.base.imports ++ (P.relabel.references s.references).imports

/-- The first run is at its end, and the second one is not. -/
def Lost (s : Reading) : Prop :=
  s.tokens = [] ∧ P.tail ≠ []

/-- From every start with `I`, both runs give related values in step. -/
structure CarriesFrom {α β : Type} (I : Reading → Prop) (lax : Prop) (R : α → β → Prop)
    (m : Parser α) (m' : Parser β) : Prop where
  leads : ∀ {s a u}, I s → m s = .ok a u → s.Leads u ∧ ∃ b, R a b
  ok : ∀ {s s' a u}, I s → P.InStep s s' → m s = .ok a u →
    lax ∧ P.Lost u ∨ ∃ b u', m' s' = .ok b u' ∧ R a b ∧ P.InStep u u'
  error : ∀ {s s' e u}, P.faithful → I s → P.InStep s s' → m s = .error e u →
    ∃ u', m' s' = .error (P.relabel.error e) u'

/-- A parser that is carried over and takes a token whenever it succeeds. -/
structure TakesFrom {α β : Type} (I : Reading → Prop) (R : α → β → Prop)
    (m : Parser α) (m' : Parser β) : Prop extends P.CarriesFrom I False R m m' where
  takes : ∀ {s a u}, I s → s.eof.kind = .eof → m s = .ok a u → u.tokens.length < s.tokens.length

abbrev Carries {α β : Type} := @CarriesFrom P α β fun _ => True

abbrev CarriesAt {α β : Type} (k : TokenKind) := @CarriesFrom P α β fun s => s.current.kind = k

abbrev Takes {α β : Type} := @TakesFrom P α β fun _ => True

abbrev TakesAt {α β : Type} (k : TokenKind) := @TakesFrom P α β fun s => s.current.kind = k

variable {P}

namespace InStep

variable {s s' u u' : Reading}

lemma lost_of_leads (h : P.Lost s) (hl : s.Leads u) : P.Lost u := by
  refine ⟨?_, h.2⟩
  have hsuffix := hl.suffix
  rw [h.1] at hsuffix
  exact List.suffix_nil.1 hsuffix

/-- Inside a source no token stands for its end. -/
lemma tokens_eq_nil (h : P.InStep s s') (hk : s.current.kind = .eof) : s.tokens = [] := by
  cases htokens : s.tokens with
  | nil => rfl
  | cons t ts =>
    refine absurd ?_ (h.kinds t (htokens ▸ .head _))
    simpa [Reading.current, htokens] using hk

/-- Both runs see the same token, or the first one is at its end. -/
lemma current (h : P.InStep s s') :
    s'.current = P.relabel.token s.current ∨
      P.Lost s ∧ s.current.kind = .eof ∧ s'.current.kind = .newline := by
  have htokens := h.tokens_eq
  cases hs : s.tokens with
  | cons t ts =>
    left
    rw [hs] at htokens
    simp [Reading.current, hs, htokens]
  | nil =>
    rw [hs] at htokens
    have hcurrent : s.current = s.eof := by simp [Reading.current, hs]
    cases htail : P.tail with
    | nil =>
      left
      rw [hcurrent, ← h.eof_eq htail]
      simp [Reading.current, htokens, htail]
    | cons t ts =>
      right
      have hkind := P.kind_tail t (by simp [htail])
      refine ⟨⟨hs, by simp [htail]⟩, hcurrent ▸ h.kind_eof, ?_⟩
      simp [Reading.current, htokens, htail, hkind]

lemma kind_or (h : P.InStep s s') :
    s'.current.kind = s.current.kind ∨
      P.Lost s ∧ s.current.kind = .eof ∧ s'.current.kind = .newline :=
  h.current.imp_left fun he => by rw [he, Relabel.token_kind]

lemma kind_eq (h : P.InStep s s') (hk : s.current.kind ≠ .eof) :
    s'.current.kind = s.current.kind :=
  h.kind_or.resolve_right fun hl => hk hl.2.1

lemma not_lost (h : P.InStep s s') (hk : s.current.kind ≠ .eof) : ¬ P.Lost s := by
  intro hlost
  refine hk ?_
  have hcurrent : s.current = s.eof := by simp [Reading.current, hlost.1]
  rw [hcurrent, h.kind_eof]

/-- Both runs see the same kind behind the current token, or the first one sees its end there. -/
lemma following_or (h : P.InStep s s') :
    s'.following = s.following ∨ s.following = .eof ∧ s'.following = .newline ∨ P.Lost s := by
  have htokens := h.tokens_eq
  cases htail : P.tail with
  | nil =>
    left
    rw [htail, List.append_nil] at htokens
    cases hs : s.tokens with
    | nil => simp [Reading.following, hs, htokens]
    | cons t ts => cases ts <;> simp [Reading.following, hs, htokens]
  | cons u us =>
    rw [htail] at htokens
    cases hs : s.tokens with
    | nil => exact .inr (.inr ⟨hs, by simp [htail]⟩)
    | cons t ts =>
      cases ts with
      | nil =>
        have hkind := P.kind_tail u (by simp [htail])
        exact .inr (.inl (by simp [Reading.following, hs, htokens, hkind]))
      | cons => exact .inl (by simp [Reading.following, hs, htokens])

lemma length_lt_iff (h : P.InStep s s') (hu : P.InStep u u') :
    u'.tokens.length < s'.tokens.length ↔ u.tokens.length < s.tokens.length := by
  simp [h.tokens_eq, hu.tokens_eq]

/-- Both runs take the same token. -/
lemma advance (h : P.InStep s s') {t : Token} (hk : s.current.kind ≠ .eof)
    (ht : Parser.advance s = .ok t u) :
    ∃ u', Parser.advance s' = .ok (P.relabel.token t) u' ∧ P.InStep u u' := by
  rw [← h.kind_eof] at hk
  obtain ⟨-, hs, hu⟩ := advance_eq_ok hk ht
  have htokens := h.tokens_eq
  rw [hs, List.map_cons, List.cons_append] at htokens
  refine ⟨{ s' with tokens := u.tokens.map P.relabel.token ++ P.tail }, ?_, ?_⟩
  · simp [Parser.advance, htokens]
  · rw [hu]
    exact ⟨h.kind_eof, fun v hv => h.kinds v (hs ▸ .tail _ hv), rfl, h.eof_eq, h.next_eq,
      h.libraries_eq, h.imports_eq⟩

end InStep

variable {α β γ δ : Type} {I : Reading → Prop} {lax : Prop} {k : TokenKind} {R : α → β → Prop}
  {S : γ → δ → Prop} {m : Parser α} {m' : Parser β}

namespace CarriesFrom

lemma pure {a : α} {b : β} (h : R a b) :
    P.CarriesFrom I lax R (Pure.pure a) (Pure.pure b) where
  leads _ hm := by
    obtain ⟨rfl, rfl⟩ := pure_eq_ok.1 hm
    exact ⟨.refl _, b, h⟩
  ok _ hs hm := by
    obtain ⟨rfl, rfl⟩ := pure_eq_ok.1 hm
    exact .inr ⟨b, _, rfl, h, hs⟩
  error _ _ _ hm := nomatch hm

lemma mono {R' : α → β → Prop} (hm : P.CarriesFrom I lax R m m') (h : ∀ a b, R a b → R' a b) :
    P.CarriesFrom I lax R' m m' where
  leads hI ha := (hm.leads hI ha).imp_right fun ⟨b, hb⟩ => ⟨b, h _ b hb⟩
  ok hI hs ha := (hm.ok hI hs ha).imp_right fun ⟨b, u', hb, hR, hu⟩ => ⟨b, u', hb, h _ b hR, hu⟩
  error := hm.error

/-- What is carried strictly is carried laxly. -/
lemma loosen (hm : P.CarriesFrom I False R m m') : P.CarriesFrom I lax R m m' where
  leads := hm.leads
  ok hI hs ha := .inr ((hm.ok hI hs ha).resolve_left fun h => h.1)
  error := hm.error

lemma ofAny (hm : P.Carries lax R m m') : P.CarriesFrom I lax R m m' where
  leads _ := hm.leads trivial
  ok _ := hm.ok trivial
  error hf _ := hm.error hf trivial

/-- Parsers one after the other: where the first one loses the second run, so does the whole. -/
lemma bind {f : α → Parser γ} {f' : β → Parser δ} (hm : P.CarriesFrom I lax R m m')
    (hf : ∀ a b, R a b → P.Carries lax S (f a) (f' b)) :
    P.CarriesFrom I lax S (m >>= f) (m' >>= f') where
  leads hI h := by
    obtain ⟨a, v, ha, hc⟩ := bind_eq_ok.1 h
    obtain ⟨hl, b, hR⟩ := hm.leads hI ha
    obtain ⟨hl', hS⟩ := (hf a b hR).leads trivial hc
    exact ⟨hl.trans hl', hS⟩
  ok hI hs h := by
    obtain ⟨a, v, ha, hc⟩ := bind_eq_ok.1 h
    rcases hm.ok hI hs ha with ⟨hlax, hlost⟩ | ⟨b, v', hb, hR, hv⟩
    · obtain ⟨-, b, hR⟩ := hm.leads hI ha
      exact .inl ⟨hlax, InStep.lost_of_leads hlost ((hf a b hR).leads trivial hc).1⟩
    · refine ((hf a b hR).ok trivial hv hc).imp_right ?_
      rintro ⟨d, u', hd, hS, hu⟩
      exact ⟨d, u', bind_eq_ok.2 ⟨b, v', hb, hd⟩, hS, hu⟩
  error hfaithful hI hs h := by
    rcases bind_eq_error.1 h with h | ⟨a, v, ha, hc⟩
    · obtain ⟨u', hu⟩ := hm.error hfaithful hI hs h
      exact ⟨u', bind_eq_error.2 (.inl hu)⟩
    · rcases hm.ok hI hs ha with ⟨-, hlost⟩ | ⟨b, v', hb, hR, hv⟩
      · exact absurd (P.tail_eq_nil hfaithful) hlost.2
      · obtain ⟨u', hu⟩ := (hf a b hR).error hfaithful trivial hv hc
        exact ⟨u', bind_eq_error.2 (.inr ⟨b, v', hb, hu⟩)⟩

lemma map {f : α → γ} {f' : β → δ} (hm : P.CarriesFrom I lax R m m')
    (hf : ∀ a b, R a b → S (f a) (f' b)) : P.CarriesFrom I lax S (f <$> m) (f' <$> m') where
  leads hI h := by
    obtain ⟨a, ha, rfl⟩ := map_eq_ok.1 h
    exact (hm.leads hI ha).imp_right fun ⟨b, hR⟩ => ⟨f' b, hf a b hR⟩
  ok hI hs h := by
    obtain ⟨a, ha, rfl⟩ := map_eq_ok.1 h
    refine (hm.ok hI hs ha).imp_right ?_
    rintro ⟨b, u', hb, hR, hu⟩
    exact ⟨f' b, u', map_eq_ok.2 ⟨b, hb, rfl⟩, hf a b hR, hu⟩
  error hfaithful hI hs h := by
    obtain ⟨u', hu⟩ := hm.error hfaithful hI hs (map_eq_error.1 h)
    exact ⟨u', map_eq_error.2 hu⟩

lemma ite {c : Prop} [Decidable c] {n : Parser α} {n' : Parser β}
    (hm : c → P.CarriesFrom I lax R m m') (hn : ¬ c → P.CarriesFrom I lax R n n') :
    P.CarriesFrom I lax R (if c then m else n) (if c then m' else n') := by
  split
  case isTrue h => exact hm h
  case isFalse h => exact hn h

/-- A new node is the same node with another number. -/
lemma node {form form' : Form NumberedTree} {range range' : Option Range}
    (hk : form'.kind = P.relabel.kind form.kind) (hr : range' = range.map P.relabel.range)
    (hc : form'.children = form.children.map P.relabel.tree) :
    P.CarriesFrom I lax (fun t t' => t' = P.relabel.tree t) (Parser.node form range)
      (Parser.node form' range') where
  leads _ hm := by
    obtain ⟨rfl, rfl⟩ := node_eq_ok.1 hm
    exact ⟨⟨rfl, List.suffix_refl _⟩, _, rfl⟩
  ok {s s' _ _} _ hs hm := by
    obtain ⟨rfl, rfl⟩ := node_eq_ok.1 hm
    refine .inr ⟨_, _, rfl, ?_, ?_⟩
    · rw [Relabel.tree_mk, hk, hr, hc, hs.next_eq]
    · refine ⟨hs.kind_eof, hs.kinds, hs.tokens_eq, hs.eof_eq, ?_, hs.libraries_eq, hs.imports_eq⟩
      have hnext := congrArg (· + 1) hs.next_eq
      simpa [Reading.next, Nat.add_right_comm] using hnext
  error _ _ _ hm := nomatch hm

/-- Changes to the nodes that were made do not show, if no node is added. -/
lemma changeStore {change change' : Store → Store} (h : ∀ store, (change store).size = store.size)
    (h' : ∀ store, (change' store).size = store.size) :
    P.CarriesFrom I lax (fun _ _ => True) (Parser.changeStore change)
      (Parser.changeStore change') where
  leads _ hm := by
    cases hm
    exact ⟨⟨rfl, List.suffix_refl _⟩, (), trivial⟩
  ok _ hs hm := by
    cases hm
    refine .inr ⟨(), _, rfl, trivial, ?_⟩
    refine ⟨hs.kind_eof, hs.kinds, hs.tokens_eq, hs.eof_eq, ?_, hs.libraries_eq, hs.imports_eq⟩
    exact (h' _).trans (hs.next_eq.trans (congrArg (· + P.relabel.shift) (h _).symm))
  error _ _ _ hm := nomatch hm

/-- A node grows in both sources. -/
lemma extend {t t' : NumberedTree} {r r' : Range} (ht : t' = P.relabel.tree t)
    (hr : r' = P.relabel.range r) :
    P.CarriesFrom I lax (fun t t' => t' = P.relabel.tree t) (Parser.extend t r)
      (Parser.extend t' r') := by
  refine (changeStore (fun _ => Store.size_extend ..) fun _ => Store.size_extend ..).bind ?_
  intro _ _ _
  refine .pure ?_
  rw [ht, hr, Relabel.tree_extend]

/-- The kind of the current token decides what is read, the end of the source like a line end. -/
lemma onKind {f : TokenKind → Parser α} {f' : TokenKind → Parser β}
    (h : ∀ k, P.CarriesAt k lax R (f k) (f' k))
    (hend : P.tail ≠ [] → P.CarriesAt .eof lax R (f .eof) (f' .newline)) :
    P.Carries lax R (kind >>= f) (kind >>= f') where
  leads {s _ _} _ hm := (h s.current.kind).leads rfl hm
  ok {s s' a u} _ hs hm := by
    have hm : f s.current.kind s = .ok a u := hm
    show _ ∨ ∃ b u', f' s'.current.kind s' = .ok b u' ∧ _
    rcases hs.kind_or with he | ⟨hlost, hk, hk'⟩
    · rw [he]
      exact (h _).ok rfl hs hm
    · rw [hk']
      rw [hk] at hm
      exact (hend hlost.2).ok hk hs hm
  error {s s' e u} hfaithful _ hs hm := by
    have hm : f s.current.kind s = .error e u := hm
    show ∃ u', f' s'.current.kind s' = .error _ u'
    rcases hs.kind_or with he | ⟨hlost, -⟩
    · rw [he]
      exact (h _).error hfaithful rfl hs hm
    · exact absurd (P.tail_eq_nil hfaithful) hlost.2

lemma onTest {p : TokenKind → Bool} {n : Parser α} {n' : Parser β} (hp : p .newline = p .eof)
    (hm : P.Carries lax R m m') (hn : P.Carries lax R n n') :
    P.Carries lax R (kind >>= fun k => if p k then m else n)
      (kind >>= fun k => if p k then m' else n') := by
  refine onKind (fun k => .ite (fun _ => hm.ofAny) fun _ => hn.ofAny) fun _ => ?_
  rw [hp]
  exact .ite (fun _ => hm.ofAny) fun _ => hn.ofAny

/-- The same for the kind behind the current token, which is not the end. -/
lemma onFollowing {f : TokenKind → Parser α} {f' : TokenKind → Parser β} (hk : k ≠ .eof)
    (h : ∀ next, P.CarriesFrom (fun s => s.current.kind = k ∧ s.following = next) lax R
      (f next) (f' next))
    (hend : P.CarriesAt k lax R (f .eof) (f' .newline)) :
    P.CarriesAt k lax R (followingKind >>= f) (followingKind >>= f') where
  leads {s _ _} hI hm := (h s.following).leads ⟨hI, rfl⟩ hm
  ok {s s' a u} hI hs hm := by
    have hm : f s.following s = .ok a u := hm
    show _ ∨ ∃ b u', f' s'.following s' = .ok b u' ∧ _
    rcases hs.following_or with he | ⟨hf, hf'⟩ | hlost
    · rw [he]
      exact (h _).ok ⟨hI, rfl⟩ hs hm
    · rw [hf']
      rw [hf] at hm
      exact hend.ok hI hs hm
    · exact absurd hlost (hs.not_lost (hI ▸ hk))
  error {s s' e u} hfaithful hI hs hm := by
    have hm : f s.following s = .error e u := hm
    show ∃ u', f' s'.following s' = .error _ u'
    rcases hs.following_or with he | ⟨hf, hf'⟩ | hlost
    · rw [he]
      exact (h _).error hfaithful ⟨hI, rfl⟩ hs hm
    · rw [hf']
      rw [hf] at hm
      exact hend.error hfaithful hI hs hm
    · exact absurd hlost (hs.not_lost (hI ▸ hk))

end CarriesFrom

namespace TakesFrom

lemma restrict {J : Reading → Prop} (hm : P.TakesFrom I R m m') (hJ : ∀ s, J s → I s) :
    P.TakesFrom J R m m' where
  leads h := hm.leads (hJ _ h)
  ok h := hm.ok (hJ _ h)
  error hfaithful h := hm.error hfaithful (hJ _ h)
  takes h := hm.takes (hJ _ h)

lemma ofAny (hm : P.Takes R m m') : P.TakesFrom I R m m' :=
  hm.restrict fun _ _ => trivial

lemma carries (hm : P.TakesFrom I R m m') : P.CarriesFrom I lax R m m' :=
  hm.toCarriesFrom.loosen

lemma mono {R' : α → β → Prop} (hm : P.TakesFrom I R m m') (h : ∀ a b, R a b → R' a b) :
    P.TakesFrom I R' m m' where
  toCarriesFrom := hm.toCarriesFrom.mono h
  takes := hm.takes

lemma bind {f : α → Parser γ} {f' : β → Parser δ} (hm : P.TakesFrom I R m m')
    (hf : ∀ a b, R a b → P.Carries False S (f a) (f' b)) :
    P.TakesFrom I S (m >>= f) (m' >>= f') where
  toCarriesFrom := hm.toCarriesFrom.bind hf
  takes hI he h := by
    obtain ⟨a, v, ha, hc⟩ := bind_eq_ok.1 h
    obtain ⟨-, b, hR⟩ := hm.leads hI ha
    exact ((hf a b hR).leads trivial hc).1.length_le.trans_lt (hm.takes hI he ha)

/-- What takes a token makes good what was carried laxly, as it fails where the first run ends. -/
lemma after {f : α → Parser γ} {f' : β → Parser δ} (hm : P.CarriesFrom I True R m m')
    (hf : ∀ a b, R a b → P.Takes S (f a) (f' b)) : P.TakesFrom I S (m >>= f) (m' >>= f') where
  leads := (hm.bind fun a b h => (hf a b h).carries).leads
  ok hI hs h := by
    obtain ⟨a, v, ha, hc⟩ := bind_eq_ok.1 h
    obtain ⟨hl, b, hR⟩ := hm.leads hI ha
    rcases hm.ok hI hs ha with ⟨-, hlost⟩ | ⟨b, v', hb, hR, hv⟩
    · have hlt := (hf a b hR).takes trivial (hl.eof_eq ▸ hs.kind_eof) hc
      rw [hlost.1] at hlt
      exact absurd hlt (Nat.not_lt_zero _)
    · obtain ⟨d, u', hd, hS, hu⟩ :=
        ((hf a b hR).ok trivial hv hc).resolve_left fun hlax => hlax.1
      exact .inr ⟨d, u', bind_eq_ok.2 ⟨b, v', hb, hd⟩, hS, hu⟩
  error := (hm.bind fun a b h => (hf a b h).carries).error
  takes hI he h := by
    obtain ⟨a, v, ha, hc⟩ := bind_eq_ok.1 h
    obtain ⟨hl, b, hR⟩ := hm.leads hI ha
    exact ((hf a b hR).takes trivial (hl.eof_eq ▸ he) hc).trans_le hl.length_le

lemma map {f : α → γ} {f' : β → δ} (hm : P.TakesFrom I R m m')
    (hf : ∀ a b, R a b → S (f a) (f' b)) : P.TakesFrom I S (f <$> m) (f' <$> m') where
  toCarriesFrom := hm.toCarriesFrom.map hf
  takes hI he h := by
    obtain ⟨a, ha, rfl⟩ := map_eq_ok.1 h
    exact hm.takes hI he ha

lemma ite {c : Prop} [Decidable c] {n : Parser α} {n' : Parser β}
    (hm : c → P.TakesFrom I R m m') (hn : ¬ c → P.TakesFrom I R n n') :
    P.TakesFrom I R (if c then m else n) (if c then m' else n') := by
  split
  case isTrue h => exact hm h
  case isFalse h => exact hn h

lemma refuse {fault fault' : Token → SyntaxFault}
    (hf : ∀ s, I s → fault' (P.relabel.token s.current) = P.relabel.fault (fault s.current)) :
    P.TakesFrom I R (Parser.refuse fault) (Parser.refuse fault') where
  leads _ hm := absurd hm not_refuse_eq_ok
  ok _ _ hm := absurd hm not_refuse_eq_ok
  error {s s' _ _} hfaithful hI hs hm := by
    cases hm
    have hcurrent := hs.current.resolve_right fun h => h.1.2 (P.tail_eq_nil hfaithful)
    refine ⟨s', ?_⟩
    simp only [Parser.refuse, Relabel.error, hcurrent, hf s hI, Relabel.token_range]
  takes _ _ hm := absurd hm not_refuse_eq_ok

lemma refuseFor {what : Expected} :
    P.TakesFrom I R (Parser.refuseFor what) (Parser.refuseFor what) :=
  refuse fun _ _ => rfl

lemma refuseAt {f f' : SyntaxFault} {r r' : Range} (hf : f' = P.relabel.fault f)
    (hr : r' = P.relabel.range r) :
    P.TakesFrom I R (Parser.refuseAt f r) (Parser.refuseAt f' r') where
  leads _ hm := absurd hm not_refuseAt_eq_ok
  ok _ _ hm := absurd hm not_refuseAt_eq_ok
  error {_ s' _ _} _ _ _ hm := by
    cases hm
    exact ⟨s', by rw [hf, hr]; rfl⟩
  takes _ _ hm := absurd hm not_refuseAt_eq_ok

/-- Where the first run is at its end it fails, whatever the second one sees. -/
lemma kindAt {f : TokenKind → Parser α} {f' : TokenKind → Parser β}
    (h : P.TakesAt k R (f k) (f' k)) : P.TakesAt k R (kind >>= f) (kind >>= f') where
  leads {s a u} hI hm := by
    have hm : f s.current.kind s = .ok a u := hm
    exact h.leads hI (hI ▸ hm)
  ok {s s' a u} hI hs hm := by
    have hm : f s.current.kind s = .ok a u := hm
    show _ ∨ ∃ b u', f' s'.current.kind s' = .ok b u' ∧ _
    rw [hI] at hm
    rcases hs.kind_or with he | ⟨hlost, -⟩
    · rw [he, hI]
      exact h.ok hI hs hm
    · have hlt := h.takes hI hs.kind_eof hm
      rw [hlost.1] at hlt
      exact absurd hlt (Nat.not_lt_zero _)
  error {s s' e u} hfaithful hI hs hm := by
    have hm : f s.current.kind s = .error e u := hm
    show ∃ u', f' s'.current.kind s' = .error _ u'
    rcases hs.kind_or with he | ⟨hlost, -⟩
    · rw [he, hI]
      exact h.error hfaithful hI hs (hI ▸ hm)
    · exact absurd (P.tail_eq_nil hfaithful) hlost.2
  takes {s a u} hI he hm := by
    have hm : f s.current.kind s = .ok a u := hm
    exact h.takes hI he (hI ▸ hm)

/-- A parser that takes a token of whatever kind is carried over. -/
lemma ofAt (h : ∀ k, P.TakesAt k R m m') : P.Takes R m m' where
  leads {s _ _} _ := (h s.current.kind).leads rfl
  ok {s _ _ _} _ := (h s.current.kind).ok rfl
  error {s _ _ _} hfaithful _ := (h s.current.kind).error hfaithful rfl
  takes {s _ _} _ := (h s.current.kind).takes rfl

lemma onKind {f : TokenKind → Parser α} {f' : TokenKind → Parser β}
    (h : ∀ k, P.TakesAt k R (f k) (f' k)) : P.Takes R (kind >>= f) (kind >>= f') :=
  ofAt fun k => kindAt (h k)

/-- The current token, which is not the end. -/
lemma advance (hk : k ≠ .eof) :
    P.TakesAt k (fun t t' => t' = P.relabel.token t ∧ t.kind = k) Parser.advance
      Parser.advance where
  leads hI hm := by
    obtain ⟨hl, rfl⟩ := Reading.leads_advance hm
    exact ⟨hl, _, rfl, hI⟩
  ok hI hs hm := by
    have hne := hI ▸ hk
    have hne' := hne
    rw [← hs.kind_eof] at hne'
    obtain ⟨rfl, -⟩ := advance_eq_ok hne' hm
    obtain ⟨u', hu, hstep⟩ := hs.advance hne hm
    exact .inr ⟨_, u', hu, ⟨rfl, hI⟩, hstep⟩
  error _ _ _ hm := absurd hm not_advance_eq_error
  takes {s t u} hI he hm := by
    have hne := hI ▸ hk
    rw [← he] at hne
    obtain ⟨-, hs, -⟩ := advance_eq_ok hne hm
    rw [hs]
    exact Nat.lt_succ_self _

lemma onFollowing {f : TokenKind → Parser α} {f' : TokenKind → Parser β} (hk : k ≠ .eof)
    (h : ∀ next, P.TakesFrom (fun s => s.current.kind = k ∧ s.following = next) R
      (f next) (f' next))
    (hend : P.CarriesAt k False R (f .eof) (f' .newline)) :
    P.TakesAt k R (followingKind >>= f) (followingKind >>= f') where
  toCarriesFrom := .onFollowing hk (fun next => (h next).toCarriesFrom) hend
  takes {s _ _} hI he hm := (h s.following).takes ⟨hI, rfl⟩ he hm

end TakesFrom

/-- A token of one of the kinds wanted. -/
lemma TakesFrom.advanceIf {wanted : TokenKind → Bool} (hk : wanted k = true)
    (he : wanted .eof = false) :
    P.TakesAt k (fun t t' => t' = P.relabel.token t ∧ wanted t.kind = true) Parser.advance
      Parser.advance := by
  have hne : k ≠ .eof := by
    intro h
    rw [h, he] at hk
    cases hk
  refine (TakesFrom.advance hne).mono ?_
  rintro t _ ⟨rfl, ht⟩
  exact ⟨rfl, ht ▸ hk⟩

namespace CarriesFrom

/-- Where the first run is lost, it does not matter what the second one does. -/
lemma ofLost {a : α} {b : β} (htail : P.tail ≠ []) (hR : R a b) :
    P.CarriesAt .eof True R (Pure.pure a) m' where
  leads _ hm := by
    obtain ⟨rfl, rfl⟩ := pure_eq_ok.1 hm
    exact ⟨.refl _, b, hR⟩
  ok {s s' _ _} hI hs hm := by
    obtain ⟨rfl, rfl⟩ := pure_eq_ok.1 hm
    exact .inl ⟨trivial, hs.tokens_eq_nil hI, htail⟩
  error hfaithful := absurd (P.tail_eq_nil hfaithful) htail

/-- A token that is wanted is taken; in any case one that is no line end. -/
lemma acceptIf {wanted : TokenKind → Bool} (he : wanted .eof = false)
    (hlax : wanted .newline = true → lax) :
    P.Carries lax (fun o o' => o' = o.map P.relabel.token ∧ ∀ t ∈ o, wanted t.kind = true)
      (Parser.acceptIf wanted) (Parser.acceptIf wanted) := by
  refine onKind (fun k => .ite (fun hk => ?_) fun _ => .pure ⟨rfl, nofun⟩) fun htail => ?_
  · refine (TakesFrom.advanceIf hk he).carries.map ?_
    rintro t _ ⟨rfl, ht⟩
    exact ⟨rfl, fun _ h => Option.some.inj h ▸ ht⟩
  · rw [he, if_neg Bool.false_ne_true]
    cases hn : wanted .newline with
    | false => exact .pure ⟨rfl, nofun⟩
    | true =>
      have hl : lax = True := eq_true (hlax hn)
      subst hl
      exact ofLost (b := none) htail ⟨rfl, nofun⟩

/-- The kind of the current token is asked for where it is known. -/
lemma kindAt {f : TokenKind → Parser α} {f' : TokenKind → Parser β}
    (h : P.CarriesAt k lax R (f k) (f' k)) (hk : k ≠ .eof) :
    P.CarriesAt k lax R (kind >>= f) (kind >>= f') where
  leads {s a u} hI hm := by
    have hm : f s.current.kind s = .ok a u := hm
    exact h.leads hI (hI ▸ hm)
  ok {s s' a u} hI hs hm := by
    have hm : f s.current.kind s = .ok a u := hm
    show _ ∨ ∃ b u', f' s'.current.kind s' = .ok b u' ∧ _
    rw [hs.kind_eq (hI ▸ hk), hI]
    exact h.ok hI hs (hI ▸ hm)
  error {s s' e u} hfaithful hI hs hm := by
    have hm : f s.current.kind s = .error e u := hm
    show ∃ u', f' s'.current.kind s' = .error _ u'
    rw [hs.kind_eq (hI ▸ hk), hI]
    exact h.error hfaithful hI hs (hI ▸ hm)

lemma accept {wanted : TokenKind} (he : wanted ≠ .eof) (hn : wanted ≠ .newline) :
    P.Carries lax (fun o o' => o' = o.map P.relabel.token ∧ ∀ t ∈ o, t.kind = wanted)
      (Parser.accept wanted) (Parser.accept wanted) := by
  refine (acceptIf (decide_eq_false he.symm) fun h => absurd (of_decide_eq_true h) hn.symm).mono ?_
  rintro o _ ⟨rfl, ho⟩
  exact ⟨rfl, fun t ht => of_decide_eq_true (ho t ht)⟩

/-- What stands behind a mark is carried over, and the mark decides whether it is there. -/
lemma after {mark : TokenKind} {g : α → β} (he : mark ≠ .eof) (hn : mark ≠ .newline)
    (hm : P.Carries lax (fun a b => b = g a) m m') :
    P.Carries lax (fun o o' => o' = o.map g) (Parser.after mark m) (Parser.after mark m') := by
  refine (accept he hn).bind ?_
  rintro (_ | t) _ ⟨rfl, -⟩
  · exact .pure rfl
  · refine hm.map ?_
    rintro a _ rfl
    rfl

section Loop

variable {step : α → Parser (Option α)} {step' : β → Parser (Option β)} {a : α} {b : β}
  {s s' : Reading}

lemma leads_iterate
    (hstep : ∀ a b, R a b → P.Carries lax (Option.Rel R) (step a) (step' b)) (hR : R a b)
    {c : α} {u : Reading} (hm : Parser.iterate step a s = .ok c u) :
    s.Leads u ∧ ∃ d, R c d := by
  refine iterate_induction (I := fun c u => s.Leads u ∧ ∃ d, R c d) ?_ ⟨.refl s, b, hR⟩ hm
  intro a v o w hv ho
  obtain ⟨hl, b, hR⟩ := hv
  obtain ⟨hl', o', hR'⟩ := (hstep a b hR).leads trivial ho
  refine ⟨hl.trans hl', ?_⟩
  cases hR' with
  | none => exact ⟨b, hR⟩
  | some hR' => exact ⟨_, hR'⟩

lemma ok_iterate
    (hstep : ∀ a b, R a b → P.Carries lax (Option.Rel R) (step a) (step' b)) (hR : R a b)
    (hs : P.InStep s s') {c : α} {u : Reading} (hm : Parser.iterate step a s = .ok c u) :
    lax ∧ P.Lost u ∨ ∃ d u', Parser.iterate step' b s' = .ok d u' ∧ R c d ∧ P.InStep u u' := by
  induction a, s using iterate.induct step generalizing b s' with
  | case1 a s e v h =>
    rw [iterate_of_error h] at hm
    cases hm
  | case2 a s v h =>
    rw [iterate_of_none h] at hm
    cases hm
    refine ((hstep _ b hR).ok trivial hs h).imp_right ?_
    rintro ⟨_, u', h', ⟨⟩, hu⟩
    exact ⟨b, u', iterate_of_none h', hR, hu⟩
  | case3 a s d v h hlt ih =>
    rw [iterate_of_some h hlt] at hm
    rcases (hstep a b hR).ok trivial hs h with ⟨hlax, hlost⟩ | ⟨_, v', h', hR', hv⟩
    · obtain ⟨-, _, hR'⟩ := (hstep a b hR).leads trivial h
      cases hR' with
      | some hR' =>
        exact .inl ⟨hlax, InStep.lost_of_leads hlost (leads_iterate hstep hR' hm).1⟩
    · cases hR' with
      | some hR' =>
        rw [iterate_of_some h' ((hs.length_lt_iff hv).2 hlt)]
        exact ih hR' hv hm
  | case4 a s d v h hlt =>
    rw [iterate_of_still h hlt] at hm
    cases hm
    refine ((hstep a b hR).ok trivial hs h).imp_right ?_
    rintro ⟨_, v', h', hR', hv⟩
    cases hR' with
    | some hR' =>
      exact ⟨_, v', iterate_of_still h' fun hlt' => hlt ((hs.length_lt_iff hv).1 hlt'), hR', hv⟩

lemma error_iterate
    (hstep : ∀ a b, R a b → P.Carries lax (Option.Rel R) (step a) (step' b)) (hR : R a b)
    (hf : P.faithful) (hs : P.InStep s s') {e : SyntaxError} {u : Reading}
    (hm : Parser.iterate step a s = .error e u) :
    ∃ u', Parser.iterate step' b s' = .error (P.relabel.error e) u' := by
  have hnot {v : Reading} : ¬ P.Lost v := fun hlost => hlost.2 (P.tail_eq_nil hf)
  induction a, s using iterate.induct step generalizing b s' with
  | case1 a s e v h =>
    rw [iterate_of_error h] at hm
    cases hm
    obtain ⟨u', hu⟩ := (hstep a b hR).error hf trivial hs h
    exact ⟨u', iterate_of_error hu⟩
  | case2 a s v h =>
    rw [iterate_of_none h] at hm
    cases hm
  | case3 a s d v h hlt ih =>
    rw [iterate_of_some h hlt] at hm
    obtain ⟨_, v', h', hR', hv⟩ :=
      ((hstep a b hR).ok trivial hs h).resolve_left fun hl => hnot hl.2
    cases hR' with
    | some hR' =>
      rw [iterate_of_some h' ((hs.length_lt_iff hv).2 hlt)]
      exact ih hR' hv hm
  | case4 a s d v h hlt =>
    rw [iterate_of_still h hlt] at hm
    cases hm

/-- A loop is carried over if its steps are. -/
lemma iterate (hstep : ∀ a b, R a b → P.Carries lax (Option.Rel R) (step a) (step' b))
    (hR : R a b) : P.Carries lax R (Parser.iterate step a) (Parser.iterate step' b) where
  leads _ := leads_iterate hstep hR
  ok _ hs := ok_iterate hstep hR hs
  error hf _ hs := error_iterate hstep hR hf hs

end Loop

/-- Values that are read one after the other. -/
lemma many {g : α → β} {item : Parser (Option α)} {item' : Parser (Option β)}
    (h : P.Carries lax (fun o o' => o' = o.map g) item item') :
    P.Carries lax (fun l l' => l' = l.map g) (Parser.many item) (Parser.many item') := by
  refine (iterate (R := fun l l' => l' = l.map g) ?_ rfl).bind ?_
  · rintro l _ rfl
    refine h.bind ?_
    rintro o _ rfl
    cases o with
    | none => exact .pure .none
    | some a => exact .pure (.some rfl)
  · rintro l _ rfl
    exact .pure (List.map_reverse ..).symm

lemma skip {unwanted : TokenKind → Bool} (he : unwanted .eof = false)
    (hlax : unwanted .newline = true → lax) :
    P.Carries lax (fun _ _ => True) (Parser.skip unwanted) (Parser.skip unwanted) := by
  refine (many ((acceptIf he hlax).mono fun o o' h => h.1)).bind ?_
  intro _ _ _
  exact .pure trivial

lemma skipNewlines : P.Carries True (fun _ _ => True) Parser.skipNewlines Parser.skipNewlines :=
  skip rfl fun _ => trivial

/-- Items with commas between them. -/
lemma commaList {close : TokenKind → Bool} {blanks : Parser Unit} {item : Parser α}
    {item' : Parser β} {g : α → β} (hclose : close .newline = close .eof)
    (hblanks : P.Carries lax (fun _ _ => True) blanks blanks)
    (hitem : P.Carries lax (fun a b => b = g a) item item') :
    P.Carries lax (fun l l' => l' = l.map g) (Parser.commaList close blanks item)
      (Parser.commaList close blanks item') := by
  refine (iterate (R := fun p p' => p' = (p.1.map g, p.2)) ?_ rfl).bind ?_
  · rintro ⟨read, goesOn⟩ _ rfl
    refine onTest (p := fun k => !goesOn || close k) (by rw [hclose]) (.pure .none) ?_
    refine hitem.bind ?_
    rintro a _ rfl
    refine hblanks.bind fun _ _ _ => ?_
    refine (accept (by nofun) (by nofun)).bind ?_
    rintro (_ | comma) _ ⟨rfl, -⟩
    · exact .pure (.some rfl)
    · refine hblanks.bind fun _ _ _ => ?_
      exact .pure (.some rfl)
  · rintro ⟨read, goesOn⟩ _ rfl
    exact .pure (List.map_reverse ..).symm

end CarriesFrom

namespace TakesFrom

/-- A parser that takes a token of some kinds, or else something that takes one. -/
lemma acceptIf {wanted : TokenKind → Bool} {f : Option Token → Parser α}
    {f' : Option Token → Parser β} (he : wanted .eof = false)
    (hsome : ∀ t, wanted t.kind = true →
      P.Carries False R (f (some t)) (f' (some (P.relabel.token t))))
    (hnone : ∀ k, wanted k = false → P.TakesAt k R (f none) (f' none)) :
    P.Takes R (Parser.acceptIf wanted >>= f) (Parser.acceptIf wanted >>= f') := by
  rw [acceptIf_bind, acceptIf_bind]
  refine onKind fun k => ?_
  cases hk : wanted k with
  | false => exact hnone k hk
  | true =>
    refine ((advanceIf hk he).map (S := fun o o' => ∃ t, o = some t ∧
      o' = some (P.relabel.token t) ∧ wanted t.kind = true) ?_).bind ?_
    · rintro t _ ⟨rfl, ht⟩
      exact ⟨t, rfl, rfl, ht⟩
    · rintro _ _ ⟨t, rfl, rfl, ht⟩
      exact hsome t ht

lemma expectIf {p : TokenKind → Bool} {what : Expected} (he : p .eof = false) :
    P.Takes (fun t t' => t' = P.relabel.token t ∧ p t.kind = true)
      (kind >>= fun k => if p k then Parser.advance else Parser.refuseFor what)
      (kind >>= fun k => if p k then Parser.advance else Parser.refuseFor what) :=
  onKind fun _ => .ite (fun hk => advanceIf hk he) fun _ => .refuseFor

lemma expect {wanted : TokenKind} (hw : wanted ≠ .eof) :
    P.Takes (fun t t' => t' = P.relabel.token t ∧ t.kind = wanted) (Parser.expect wanted)
      (Parser.expect wanted) :=
  (expectIf (p := (· = wanted)) (decide_eq_false hw.symm)).mono fun _ _ h =>
    ⟨h.1, of_decide_eq_true h.2⟩

lemma expectIdentifier {role : NameRole} :
    P.Takes (fun t t' => t' = P.relabel.token t ∧ t.kind = .identifier)
      (Parser.expectIdentifier role) (Parser.expectIdentifier role) :=
  (expectIf (p := (· = .identifier)) rfl).mono fun _ _ h => ⟨h.1, of_decide_eq_true h.2⟩

/-- A name is relabelled like the keyword that it may be. -/
lemma expectName {role : NameRole} :
    P.Takes (fun t t' => t' = P.relabel.token t ∧ t.kind = .identifier)
      (Parser.expectName role) (Parser.expectName role) := by
  refine onKind fun k => .ite (fun hk => ?_) fun _ => .refuseFor
  refine (advanceIf hk rfl).map ?_
  rintro t _ ⟨rfl, ht⟩
  exact ⟨(P.relabel.token_asIdentifier ht).symm, rfl⟩

end TakesFrom

end Passage

end BrighterCheck
