import BrighterCheck.Proofs.Parser.Listing
import BrighterCheck.Proofs.Tree.Origin
import BrighterCheck.Proofs.Tree.Shape

/-!
# Answers that are spaced

`Gives` says of a parser that every answer from a place of the source has some property. The trees
that parsers answer are spaced: in each of their statement lists, a separator stands between two
statements, or the later one is a comment. There is one rule for each way in which parsers are put
together; a node that is no statement list is spaced if its children are.
-/

namespace BrighterCheck

open BrighterCheck.Parser Item

/-- Comments in the place of a statement or a member. -/
def NodeKind.isComment : NodeKind → Bool
  | .comment _ => true
  | _ => false

/-- Between two nodes stands a line end or a colon. -/
def Parted (tokens : List Token) (a b : NumberedTree) : Prop :=
  ∃ mark ∈ tokens, isSeparator mark.kind = true ∧ ∃ r ∈ a.range, ∃ r' ∈ b.range,
    r.finish ≤ mark.range.start ∧ mark.range.finish ≤ r'.start

/-- The statement `b` can follow `a`: they are parted, or `b` is a comment. -/
def Follows (tokens : List Token) (a b : NumberedTree) : Prop :=
  Parted tokens a b ∨ b.kind.isComment = true

instance (tokens : List Token) (a b : NumberedTree) : Decidable (Parted tokens a b) :=
  inferInstanceAs (Decidable (∃ mark ∈ tokens, isSeparator mark.kind = true ∧ ∃ r ∈ a.range,
    ∃ r' ∈ b.range, r.finish ≤ mark.range.start ∧ mark.range.finish ≤ r'.start))

instance (tokens : List Token) (a b : NumberedTree) : Decidable (Follows tokens a b) :=
  inferInstanceAs (Decidable (Parted tokens a b ∨ b.kind.isComment = true))

/-- In every statement list of a tree, each statement can follow the one before it. -/
def IsSpaced (tokens : List Token) (t : NumberedTree) : Prop :=
  ∀ u ∈ t.preorder, u.kind = .body → u.children.IsChain (Follows tokens)

/-- A place of the source with the tokens `tokens`. -/
structure Reading.IsPlace (tokens : List Token) (s : Reading) : Prop extends s.IsLexed where
  suffix : s.tokens <:+ tokens

/-- Whenever `m` answers at a place of the source, `Q` holds of the answer. -/
def Gives (tokens : List Token) {α : Type} (m : Parser α) (Q : α → Prop) : Prop :=
  ∀ ⦃s a u⦄, s.IsPlace tokens → m s = .ok a u → s.Leads u ∧ Q a

/-- The answer of `m` does not matter. -/
abbrev Passes (tokens : List Token) {α : Type} (m : Parser α) : Prop :=
  Gives tokens m fun _ => True

abbrev GivesTree (tokens : List Token) (m : Parser NumberedTree) : Prop :=
  Gives tokens m (IsSpaced tokens)

abbrev GivesOption (tokens : List Token) (m : Parser (Option NumberedTree)) : Prop :=
  Gives tokens m fun o => ∀ t ∈ o, IsSpaced tokens t

abbrev GivesTrees (tokens : List Token) (m : Parser (List NumberedTree)) : Prop :=
  Gives tokens m fun ts => ∀ t ∈ ts, IsSpaced tokens t

variable {tokens : List Token} {α β : Type} {m : Parser α} {Q : α → Prop} {R : β → Prop}
  {s u v w x : Reading} {a b t : NumberedTree} {c c' : Category}

namespace IsSpaced

lemma ofChildren (hk : t.kind = .body → t.children.IsChain (Follows tokens))
    (hc : ∀ v ∈ t.children, IsSpaced tokens v) : IsSpaced tokens t := by
  intro u hu
  rcases Tree.mem_preorder.1 hu with rfl | hu
  · exact hk
  · obtain ⟨v, hv, hu⟩ := Tree.mem_preorderAll.1 hu
    exact hc v hv u hu

lemma child (h : IsSpaced tokens t) (hv : a ∈ t.children) : IsSpaced tokens a :=
  fun _ hu => h _ (Tree.mem_preorder_of_child hv hu)

/-- Where a node ends does not matter. -/
lemma extend {range : Range} (h : IsSpaced tokens t) : IsSpaced tokens (t.extend range) :=
  .ofChildren (h t t.self_mem_preorder) fun _ => h.child

/-- A target becomes an assignment. -/
lemma assignment {target value : NumberedTree} {op : Token} (ht : IsSpaced tokens target)
    (hv : IsSpaced tokens value) (h : assignment? target op value = some t) :
    IsSpaced tokens t := by
  refine .ofChildren (fun hk => absurd hk (assignment?_kind h)) fun u hu => ?_
  rcases (assignment?_parts h).2.2 u hu with hu | rfl
  · exact ht.child hu
  · exact hv

end IsSpaced

namespace Reading

lemma Leads.isPlace (h : s.Leads u) (hs : s.IsPlace tokens) : u.IsPlace tokens where
  kind_eof := h.eof_eq ▸ hs.kind_eof
  plain t ht := hs.plain t (h.suffix.subset ht)
  suffix := h.suffix.trans hs.suffix

end Reading

lemma Reads.leads {items : List Item} (h : Reads s items u) : s.Leads u :=
  ⟨h.eof_eq, h.suffix⟩

/-- Two nodes that are read before and behind a separator are parted. -/
lemma Reads.parted {p q : Position} {mark : Token} {rest : List Token}
    (hb : Range.Between p (tokens.map Token.range) q) (hs : s.tokens <:+ tokens)
    (ha : Reads s [.node c a] u) (hm : mark :: rest <:+ u.tokens)
    (hk : isSeparator mark.kind = true) (hv : v.tokens <:+ rest) (h : Reads v [.node c' b] w)
    (hc : c ≠ .body) (hc' : c' ≠ .body) : Parted tokens a b := by
  obtain ⟨m, hb⟩ := between_of_suffix hs hb
  obtain ⟨n, -, hb, hplaced⟩ := ha.placed hb
  obtain ⟨before, hbefore⟩ := hm
  rw [← hbefore, List.map_append] at hb
  obtain ⟨n', hbefore', hb⟩ := hb.split
  obtain ⟨between, rfl⟩ := hv
  rw [List.map_cons, List.map_append] at hb
  cases hb with
  | cons hstart _ hb =>
    obtain ⟨k, hbetween, hb⟩ := hb.split
    obtain ⟨l, -, -, hplaced'⟩ := h.placed hb
    have hpa := hplaced _ _ (.head _)
    have hpb := hplaced' _ _ (.head _)
    obtain ⟨r, hr⟩ := hpa.exists_range hc
    obtain ⟨r', hr'⟩ := hpb.exists_range hc'
    have hmem : mark ∈ u.tokens := by
      rw [← hbefore]
      exact List.mem_append_right _ (.head _)
    refine ⟨mark, hs.subset (ha.suffix.subset hmem), hk, r, hr, r', hr', ?_, ?_⟩
    · exact (hpa.within r hr).finish_le.trans (hbefore'.le.trans hstart)
    · exact hbetween.le.trans (hpb.within r' hr').le_start

namespace Gives

lemma pure {a : α} (h : Q a) : Gives tokens (Pure.pure a) Q := by
  intro s b u _ hm
  obtain ⟨rfl, rfl⟩ := pure_eq_ok.1 hm
  exact ⟨.refl s, h⟩

lemma bind {f : α → Parser β} (hm : Gives tokens m Q) (hf : ∀ a, Q a → Gives tokens (f a) R) :
    Gives tokens (m >>= f) R := by
  intro s b w hs h
  obtain ⟨a, u, ha, h⟩ := bind_eq_ok.1 h
  obtain ⟨hu, hQ⟩ := hm hs ha
  obtain ⟨hw, hR⟩ := hf a hQ (hu.isPlace hs) h
  exact ⟨hu.trans hw, hR⟩

/-- A part whose answer does not matter. -/
lemma andThen {f : α → Parser β} (hm : Passes tokens m) (hf : ∀ a, Gives tokens (f a) R) :
    Gives tokens (m >>= f) R :=
  hm.bind fun a _ => hf a

lemma mono {Q' : α → Prop} (hm : Gives tokens m Q) (h : ∀ a, Q a → Q' a) : Gives tokens m Q' :=
  fun _ _ _ hs ha => (hm hs ha).imp_right (h _)

lemma map {f : α → β} (hm : Gives tokens m Q) (hf : ∀ a, Q a → R (f a)) :
    Gives tokens (f <$> m) R := by
  rw [← bind_pure_comp]
  exact hm.bind fun a ha => .pure (hf a ha)

lemma mapSome {m : Parser α} (hm : Gives tokens m Q) :
    Gives tokens (some <$> m) fun o => ∀ a ∈ o, Q a :=
  hm.map fun _ ha _ hb => Option.some.inj hb ▸ ha

lemma pureNone : Gives tokens (Pure.pure (none : Option α)) fun o => ∀ a ∈ o, Q a :=
  .pure nofun

lemma ite {p : Prop} [Decidable p] {l : Parser α} (hm : p → Gives tokens m Q)
    (hl : ¬ p → Gives tokens l Q) : Gives tokens (if p then m else l) Q := by
  split
  case isTrue h => exact hm h
  case isFalse h => exact hl h

lemma refuse {fault : Token → SyntaxFault} : Gives tokens (Parser.refuse fault) Q :=
  fun _ _ _ _ h => absurd h not_refuse_eq_ok

lemma refuseFor {what : Expected} : Gives tokens (Parser.refuseFor what) Q :=
  refuse

lemma refuseAt {fault : SyntaxFault} {range : Range} :
    Gives tokens (Parser.refuseAt fault range) Q :=
  fun _ _ _ _ h => absurd h not_refuseAt_eq_ok

/-- A parser that only looks stays where it is. -/
lemma kind : Passes tokens Parser.kind := by
  intro s k u _ hm
  obtain ⟨-, rfl⟩ := kind_eq_ok.1 hm
  exact ⟨.refl s, trivial⟩

lemma followingKind : Passes tokens Parser.followingKind := by
  intro s k u _ hm
  obtain ⟨-, rfl⟩ := followingKind_eq_ok.1 hm
  exact ⟨.refl s, trivial⟩

lemma isAt {k : TokenKind} : Passes tokens (Parser.isAt k) :=
  kind.andThen fun _ => .pure trivial

lemma advance : Passes tokens Parser.advance :=
  fun _ _ _ _ hm => ⟨(Reading.leads_advance hm).1, trivial⟩

lemma noteReference {change : References → References} :
    Passes tokens (Parser.noteReference change) := by
  intro s _ u _ hm
  cases hm
  exact ⟨⟨rfl, List.suffix_refl _⟩, trivial⟩

/-- A new node that is no statement list is spaced if its children are. -/
lemma node {form : Form NumberedTree} {range : Option Range} (hk : form.kind ≠ .body)
    (hc : ∀ t ∈ form.children, IsSpaced tokens t) :
    GivesTree tokens (Parser.node form range) := by
  intro s t u _ hm
  obtain ⟨rfl, rfl⟩ := node_eq_ok.1 hm
  exact ⟨⟨rfl, List.suffix_refl _⟩, .ofChildren (fun h => absurd h hk) hc⟩

lemma leaf {form : Form NumberedTree} {token : Token} (hk : form.kind ≠ .body)
    (hc : form.children = []) : GivesTree tokens (Parser.leaf form token) :=
  node hk (hc ▸ nofun)

lemma changeStore {change : Store → Store} : Passes tokens (Parser.changeStore change) := by
  intro s _ u _ hm
  cases hm
  exact ⟨⟨rfl, List.suffix_refl _⟩, trivial⟩

/-- A spaced node stays spaced when it grows. -/
lemma extend {t : NumberedTree} {range : Range} (ht : IsSpaced tokens t) :
    GivesTree tokens (Parser.extend t range) :=
  changeStore.andThen fun _ => .pure ht.extend

/-- What is read somewhere stands behind that place. -/
lemma ofParses {P : α → List Item → Prop} (hm : Parses [] m P) : Passes tokens m := by
  intro s a u hs ha
  obtain ⟨items, hreads, -⟩ := hm hs.toIsLexed (.nil s) ha
  exact ⟨hreads.leads, trivial⟩

lemma acceptIf {wanted : TokenKind → Bool} : Passes tokens (Parser.acceptIf wanted) :=
  kind.andThen fun _ => .ite (fun _ => advance.map fun _ _ => trivial) fun _ => .pure trivial

lemma accept {wanted : TokenKind} : Passes tokens (Parser.accept wanted) :=
  acceptIf

lemma expect {wanted : TokenKind} : Passes tokens (Parser.expect wanted) :=
  isAt.andThen fun _ => .ite (fun _ => advance) fun _ => .refuseFor

lemma expectIdentifier {role : NameRole} : Passes tokens (Parser.expectIdentifier role) :=
  isAt.andThen fun _ => .ite (fun _ => advance) fun _ => .refuseFor

lemma expectName {role : NameRole} : Passes tokens (Parser.expectName role) :=
  kind.andThen fun _ => .ite (fun _ => advance.map fun _ _ => trivial) fun _ => .refuseFor

/-- What stands behind a mark, if there is the mark. -/
lemma after {mark : TokenKind} (hm : Gives tokens m Q) :
    Gives tokens (Parser.after mark m) fun o => ∀ a ∈ o, Q a := by
  refine accept.andThen fun o => ?_
  cases o with
  | none => exact .pureNone
  | some => exact hm.mapSome

/-- What every step of a loop keeps. -/
lemma iterate {step : α → Parser (Option α)}
    (h : ∀ a, Q a → Gives tokens (step a) fun o => ∀ b ∈ o, Q b) {a : α} (ha : Q a) :
    Gives tokens (Parser.iterate step a) Q := by
  intro s b u hs hm
  refine iterate_induction (I := fun a v => s.Leads v ∧ Q a) ?_ ⟨.refl s, ha⟩ hm
  rintro a v o w ⟨hv, hQ⟩ ho
  obtain ⟨hw, hb⟩ := h a hQ (hv.isPlace hs) ho
  refine ⟨hv.trans hw, ?_⟩
  cases o with
  | none => exact hQ
  | some b => exact hb b rfl

lemma many {item : Parser (Option α)} (h : Gives tokens item fun o => ∀ a ∈ o, Q a) :
    Gives tokens (Parser.many item) fun l => ∀ a ∈ l, Q a := by
  refine (iterate (Q := fun read => ∀ a ∈ read, Q a) (fun read hread => ?_)
    (List.forall_mem_nil _)).bind ?_
  · refine h.bind fun o ho => .pure ?_
    cases o with
    | none => exact nofun
    | some a =>
      rintro _ ⟨⟩
      exact List.forall_mem_cons.2 ⟨ho a rfl, hread⟩
  · exact fun read hread => .pure fun a ha => hread a (List.mem_reverse.1 ha)

lemma skip {unwanted : TokenKind → Bool} : Passes tokens (Parser.skip unwanted) :=
  (many (Q := fun _ => True) (acceptIf.mono fun _ _ _ _ => trivial)).bind fun _ _ => .pure trivial

/-- Items with commas between them. -/
lemma commaList {close : TokenKind → Bool} {blanks : Parser Unit} (hb : Passes tokens blanks)
    (hm : Gives tokens m Q) :
    Gives tokens (Parser.commaList close blanks m) fun l => ∀ a ∈ l, Q a := by
  refine (iterate (Q := fun p => ∀ a ∈ p.1, Q a) ?_ (List.forall_mem_nil _)).bind ?_
  · rintro ⟨read, goesOn⟩ hread
    refine kind.andThen fun k => .ite (fun _ => .pureNone) fun _ => ?_
    refine hm.bind fun a ha => hb.andThen fun _ => accept.andThen fun comma => ?_
    have hcons : ∀ b ∈ a :: read, Q b := List.forall_mem_cons.2 ⟨ha, hread⟩
    cases comma with
    | none => exact .pure fun p hp => Option.some.inj hp ▸ hcons
    | some => exact hb.andThen fun _ => .pure fun p hp => Option.some.inj hp ▸ hcons
  · exact fun p hp => .pure fun a ha => hp a (List.mem_reverse.1 ha)

end Gives

end BrighterCheck
