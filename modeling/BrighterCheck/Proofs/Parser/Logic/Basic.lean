import BrighterCheck.Proofs.Parser.Passage.Basic

/-!
# Logics of runs

A `RunLogic` says something of a parser and of what it answers, for the primitive parsers and for
all that are put together from them. `EndsFrom` sets a parser beside another one of the same form,
in which other productions are nested: wherever few enough tokens are left, the logic holds of the
one with the answers of the other. There is one rule for each way in which parsers are put together,
and the rules for the productions follow from these in every logic.
-/

namespace BrighterCheck

open BrighterCheck.Parser

/-- What a parser answers. -/
abbrev Answer (α : Type) := EStateM.Result SyntaxError Reading α

/-- The reading that is left behind an answer. -/
def Answer.reading {α : Type} : Answer α → Reading
  | .ok _ s => s
  | .error _ s => s

/-- The parsers that all others are built from. -/
inductive Primitive : {α : Type} → Parser α → Prop where
  | pure {α : Type} (a : α) : Primitive (pure a)
  | kind : Primitive kind
  | followingKind : Primitive followingKind
  | advance : Primitive advance
  | refuse {α : Type} (fault : Token → SyntaxFault) : Primitive (refuse (α := α) fault)
  | refuseAt {α : Type} (fault : SyntaxFault) (range : Range) :
      Primitive (refuseAt (α := α) fault range)
  | node (form : Form NumberedTree) (range : Option Range) : Primitive (node form range)
  | changeStore (change : Store → Store) : Primitive (changeStore change)
  | noteReference (change : References → References) : Primitive (noteReference change)

/-- A single step never leads back. -/
lemma Primitive.leads {α : Type} {m : Parser α} (h : Primitive m) (s : Reading) :
    s.Leads (Answer.reading (m s)) := by
  cases h with
  | advance =>
    cases hs : Parser.advance s with
    | ok t u => exact (Reading.leads_advance hs).1
    | error e u => exact absurd hs not_advance_eq_error
  | node | changeStore | noteReference => exact ⟨rfl, List.suffix_refl _⟩
  | _ => exact .refl s

/--
A logic of runs: `Runs m s r` says something of the parser `m`, which is run from `s`, and of the
answer `r`. It holds of every step, and of what is put together from parts that it holds of.
-/
structure RunLogic where
  /-- The readings that runs may start at. -/
  Valid : Reading → Prop
  /-- The ranges that errors may be reported at, besides that of the current token. -/
  Blamed : Range → Prop
  /-- What is said of a parser that is run from a reading, and of its answer. -/
  Runs : {α : Type} → Parser α → Reading → Answer α → Prop
  kind_eof : ∀ {s : Reading}, Valid s → s.eof.kind = .eof
  valid_of_leads : ∀ {s u : Reading}, Valid s → s.Leads u → Valid u
  leads : ∀ {α : Type} {m : Parser α} {s : Reading} {r : Answer α},
    Runs m s r → s.Leads r.reading
  step : ∀ {α : Type} {m : Parser α} {s : Reading}, Valid s → Primitive m →
    (∀ e u, m s = .error e u → e.range = s.current.range ∨ Blamed e.range) → Runs m s (m s)
  bind : ∀ {α β : Type} {m : Parser α} {f : α → Parser β} {s u : Reading} {a : α} {r : Answer β},
    Runs m s (.ok a u) → Runs (f a) u r → Runs (m >>= f) s r
  fail : ∀ {α β : Type} {m : Parser α} {f : α → Parser β} {s u : Reading} {e : SyntaxError},
    Runs m s (.error e u) → Runs (m >>= f) s (.error e u)
  leave : ∀ {α : Type} {step : α → Parser (Option α)} {a : α} {s u : Reading},
    Runs (step a) s (.ok none u) → Runs (iterate step a) s (.ok a u)
  failStep : ∀ {α : Type} {step : α → Parser (Option α)} {a : α} {s u : Reading} {e : SyntaxError},
    Runs (step a) s (.error e u) → Runs (iterate step a) s (.error e u)
  again : ∀ {α : Type} {step : α → Parser (Option α)} {a b : α} {s u : Reading} {r : Answer α},
    Runs (step a) s (.ok (some b) u) → u.tokens.length < s.tokens.length →
    Runs (iterate step b) u r → Runs (iterate step a) s r

/-- A step that answers a value is never blamed. -/
lemma RunLogic.runs_of_eq_ok (L : RunLogic) {α : Type} {m : Parser α} {s u : Reading} {a : α}
    (hs : L.Valid s) (hm : Primitive m) (h : m s = .ok a u) : L.Runs m s (.ok a u) := by
  rw [← h]
  refine L.step hs hm fun e v he => ?_
  rw [h] at he
  cases he

/-- The logic holds of `m` with the answer `r`, and tokens were taken for a value with `G`. -/
structure RunLogic.Settles (L : RunLogic) {α : Type} (G : α → Prop) (m : Parser α) (s : Reading)
    (r : Answer α) : Prop where
  runs : L.Runs m s r
  takes : ∀ {a u}, r = .ok a u → G a → u.tokens.length < s.tokens.length

/-- A run behind another one, where the one or the other takes a token. -/
lemma RunLogic.Settles.after {L : RunLogic} {α β : Type} {m : Parser α} {f : α → Parser β}
    {s u : Reading} {a : α} {H H' : β → Prop} {r : Answer β} (hm : L.Runs m s (.ok a u))
    (hf : L.Settles H' (f a) u r) (hH : ∀ b, H b → H' b ∨ u.tokens.length < s.tokens.length) :
    L.Settles H (m >>= f) s r where
  runs := L.bind hm hf.runs
  takes := by
    intro b w hr hb
    have hle : u.tokens.length ≤ s.tokens.length := (L.leads hm).length_le
    -- No part gives a token back, so it does not matter which one took it.
    rcases hH b hb with hb | hlt
    · exact (hf.takes hr hb).trans_le hle
    · have hleads := L.leads hf.runs
      rw [hr] at hleads
      exact hleads.length_le.trans_lt hlt

/--
From every start with `I` that less than `b` tokens are left at, the logic holds of `m` with what
`m'` answers, and tokens are taken for the answers that `G` holds of.
-/
def EndsFrom (L : RunLogic) {α : Type} (I : Reading → Prop) (b : Nat) (G : α → Prop)
    (m m' : Parser α) : Prop :=
  ∀ ⦃s⦄, L.Valid s → I s → s.tokens.length < b → L.Settles G m s (m' s)

/-- From everywhere, with or without tokens taken. -/
abbrev Ends (L : RunLogic) {α : Type} (b : Nat) (m m' : Parser α) : Prop :=
  EndsFrom L (fun _ => True) b (fun _ => False) m m'

/-- From everywhere, and every answer takes a token. -/
abbrev EndsTaking (L : RunLogic) {α : Type} (b : Nat) (m m' : Parser α) : Prop :=
  EndsFrom L (fun _ => True) b (fun _ => True) m m'

/-- From everywhere, and every step that answers something takes a token. -/
abbrev EndsSteps (L : RunLogic) {α : Type} (b : Nat) (m m' : Parser (Option α)) : Prop :=
  EndsFrom L (fun _ => True) b (fun o => o.isSome) m m'

/-- At tokens of the kind `k`, and every answer takes a token. -/
abbrev EndsAt (L : RunLogic) {α : Type} (k : TokenKind) (b : Nat) (m m' : Parser α) : Prop :=
  EndsFrom L (fun s => s.current.kind = k) b (fun _ => True) m m'

namespace EndsFrom

variable {L : RunLogic} {α β : Type} {I : Reading → Prop} {b c : Nat}
  {G : α → Prop} {H : β → Prop} {k : TokenKind} {m m' : Parser α}

lemma step (hm : Primitive m) (h : ∀ ⦃s⦄, L.Valid s → I s → s.tokens.length < b →
    (∀ a u, m s = .ok a u → G a → u.tokens.length < s.tokens.length) ∧
      ∀ e u, m s = .error e u → e.range = s.current.range ∨ L.Blamed e.range) :
    EndsFrom L I b G m m := by
  intro s hs hI hb
  obtain ⟨htakes, hblamed⟩ := h hs hI hb
  exact ⟨L.step hs hm hblamed, fun hr hG => htakes _ _ hr hG⟩

lemma pure {a : α} (h : ¬ G a) : EndsFrom L I b G (Pure.pure a) (Pure.pure a) := by
  refine step (.pure a) fun s _ _ _ => ⟨fun c u hc hG => ?_, fun _ _ he => nomatch he⟩
  obtain ⟨rfl, -⟩ := pure_eq_ok.1 hc
  exact absurd hG h

lemma refuse {fault : Token → SyntaxFault} :
    EndsFrom L I b G (Parser.refuse fault) (Parser.refuse fault) := by
  refine step (.refuse fault) fun s _ _ _ => ⟨fun a u h => absurd h not_refuse_eq_ok, ?_⟩
  intro e u he
  cases he
  exact .inl rfl

lemma refuseAt {fault : SyntaxFault} {range : Range} (h : L.Blamed range) :
    EndsFrom L I b G (Parser.refuseAt fault range) (Parser.refuseAt fault range) :=
  step (.refuseAt fault range) fun _ _ _ _ => ⟨nofun, fun e u he => by cases he; exact .inr h⟩

lemma refuseFor {what : Expected} :
    EndsFrom L I b G (Parser.refuseFor what) (Parser.refuseFor what) :=
  refuse

lemma node {form : Form NumberedTree} {range : Option Range} :
    EndsFrom L I b (fun _ => False) (Parser.node form range) (Parser.node form range) :=
  step (.node form range) fun _ _ _ _ => ⟨fun _ _ _ h => h.elim, fun _ _ he => nomatch he⟩

lemma changeStore {change : Store → Store} :
    EndsFrom L I b (fun _ => False) (Parser.changeStore change) (Parser.changeStore change) :=
  step (.changeStore change) fun _ _ _ _ => ⟨fun _ _ _ h => h.elim, fun _ _ he => nomatch he⟩

lemma noteReference {change : References → References} :
    EndsFrom L I b (fun _ => False) (Parser.noteReference change)
      (Parser.noteReference change) :=
  step (.noteReference change) fun _ _ _ _ =>
    ⟨fun _ _ _ h => h.elim, fun _ _ he => nomatch he⟩

/-- The current token, which is not the end. -/
lemma advance {G : Token → Prop} (hk : k ≠ .eof) :
    EndsFrom L (fun s => s.current.kind = k) b G Parser.advance Parser.advance := by
  refine step .advance fun s hs hI _ => ⟨fun t u ht _ => ?_, fun e u he => ?_⟩
  · have hne : s.current.kind ≠ s.eof.kind := by
      rw [L.kind_eof hs, hI]
      exact hk
    obtain ⟨-, htokens, -⟩ := advance_eq_ok hne ht
    rw [htokens]
    exact Nat.lt_succ_self _
  · exact absurd he not_advance_eq_error

/-- At the end of the source no token is taken. -/
lemma advanceAny : EndsFrom L I b (fun _ => False) Parser.advance Parser.advance :=
  step .advance fun _ _ _ _ => ⟨fun _ _ _ h => h.elim, fun _ _ he => absurd he not_advance_eq_error⟩

lemma weaken {G' : α → Prop} (hm : EndsFrom L I b G m m') (h : ∀ a, G' a → G a) :
    EndsFrom L I b G' m m' := by
  intro s hs hI hb
  have hr := hm hs hI hb
  exact ⟨hr.runs, fun he hG => hr.takes he (h _ hG)⟩

/-- Nothing is claimed of the tokens that are taken. -/
lemma ends (hm : EndsFrom L I b G m m') : EndsFrom L I b (fun _ => False) m m' :=
  hm.weaken nofun

lemma mono (hm : EndsFrom L I b G m m') (hc : c ≤ b) : EndsFrom L I c G m m' :=
  fun _ hs hI hb => hm hs hI (hb.trans_le hc)

lemma ofAny (hm : EndsFrom L (fun _ => True) b G m m') : EndsFrom L I b G m m' :=
  fun _ hs _ hb => hm hs trivial hb

/-- What a run of the first part comes to, for the rest to go on from. -/
lemma bindWith {f f' : α → Parser β} (hm : EndsFrom L I b G m m')
    (hf : ∀ {s a u}, L.Valid s → s.tokens.length < b → m' s = .ok a u → L.Runs m s (.ok a u) →
      (G a → u.tokens.length < s.tokens.length) → L.Settles H (m >>= f) s (f' a u)) :
    EndsFrom L I b H (m >>= f) (m' >>= f') := by
  intro s hs hI hb
  obtain ⟨hruns, htakes⟩ := hm hs hI hb
  show L.Settles H (m >>= f) s (EStateM.bind m' f' s)
  unfold EStateM.bind
  cases hm' : m' s with
  | ok a u =>
    rw [hm'] at hruns
    exact hf hs hb hm' hruns (htakes hm')
  | error e u =>
    rw [hm'] at hruns
    exact ⟨L.fail hruns, nofun⟩

/-- Parsers one after the other: the first one takes a token, so that less is left, or the rest. -/
lemma bindOr {f f' : α → Parser β} (hm : EndsFrom L I b G m m')
    (hf : ∀ a, (G a ∧ Ends L (b - 1) (f a) (f' a)) ∨
      EndsFrom L (fun _ => True) b H (f a) (f' a)) :
    EndsFrom L I b H (m >>= f) (m' >>= f') := by
  refine hm.bindWith fun {s a u} hs hb _ hrun htakes => ?_
  have hu := L.valid_of_leads hs (L.leads hrun)
  rcases hf a with ⟨hG, ha⟩ | ha
  · -- A token was taken, so the rest is run where less is left.
    have hlt := htakes hG
    exact .after hrun (ha hu trivial (by omega)) fun _ _ => .inr hlt
  · exact .after hrun (ha hu trivial ((L.leads hrun).length_le.trans_lt hb)) fun _ => .inl

lemma bind {f f' : α → Parser β} (hm : EndsFrom L I b G m m')
    (hf : ∀ a, EndsFrom L (fun _ => True) b H (f a) (f' a)) :
    EndsFrom L I b H (m >>= f) (m' >>= f') :=
  hm.bindOr fun a => .inr (hf a)

/-- Behind a parser that takes a token, less is left. -/
lemma bindTaking {f f' : α → Parser β} (hm : EndsFrom L I (b + 1) (fun _ => True) m m')
    (hf : ∀ a, Ends L b (f a) (f' a)) : EndsFrom L I (b + 1) H (m >>= f) (m' >>= f') :=
  hm.bindOr fun a => .inl ⟨trivial, hf a⟩

lemma thenAny {f f' : α → Parser β} (hm : EndsFrom L I b (fun _ => True) m m')
    (hf : ∀ a, Ends L b (f a) (f' a)) : EndsFrom L I b H (m >>= f) (m' >>= f') :=
  hm.bindOr fun a => .inl ⟨trivial, (hf a).mono (Nat.sub_le b 1)⟩

/-- The answer is changed. -/
lemma thenPure {f : α → β} (hm : EndsFrom L I b G m m') (hf : ∀ a, H (f a) → G a) :
    EndsFrom L I b H (m >>= fun a => Pure.pure (f a)) (m' >>= fun a => Pure.pure (f a)) := by
  refine hm.bindWith fun {s a u} hs _ _ hrun htakes => ?_
  have hpure : L.Runs (Pure.pure (f a)) u (.ok (f a) u) :=
    L.runs_of_eq_ok (L.valid_of_leads hs (L.leads hrun)) (.pure _) rfl
  refine ⟨L.bind hrun hpure, fun hr hH => ?_⟩
  cases hr
  exact htakes (hf _ hH)

lemma map {f : α → β} (hm : EndsFrom L I b G m m') (hf : ∀ a, H (f a) → G a) :
    EndsFrom L I b H (f <$> m) (f <$> m') := by
  rw [← bind_pure_comp, ← bind_pure_comp]
  exact hm.thenPure hf

lemma extend {t : NumberedTree} {range : Range} :
    EndsFrom L I b (fun _ => False) (Parser.extend t range) (Parser.extend t range) :=
  changeStore.bind fun _ => .pure nofun

lemma ite {p : Prop} [Decidable p] {l l' : Parser α} (hm : p → EndsFrom L I b G m m')
    (hl : ¬ p → EndsFrom L I b G l l') :
    EndsFrom L I b G (if p then m else l) (if p then m' else l') := by
  split
  case isTrue h => exact hm h
  case isFalse h => exact hl h

lemma mapAny {f : α → β} (hm : EndsFrom L I b G m m') :
    EndsFrom L I b (fun _ => False) (f <$> m) (f <$> m') :=
  hm.map fun _ h => h.elim

/-- What is done next depends on the kind of the current token. -/
lemma onKind {f f' : TokenKind → Parser α}
    (h : ∀ k, EndsFrom L (fun s => s.current.kind = k) b G (f k) (f' k)) :
    EndsFrom L (fun _ => True) b G (kind >>= f) (kind >>= f') := by
  intro s hs _ hb
  have hrun : L.Runs kind s (.ok s.current.kind s) := L.runs_of_eq_ok hs .kind rfl
  exact .after hrun (h s.current.kind hs rfl hb) fun _ => .inl

lemma onFollowing {f f' : TokenKind → Parser α} (h : ∀ k, EndsFrom L I b G (f k) (f' k)) :
    EndsFrom L I b G (followingKind >>= f) (followingKind >>= f') := by
  intro s hs hI hb
  have hrun : L.Runs followingKind s (.ok s.following s) := L.runs_of_eq_ok hs .followingKind rfl
  exact .after hrun (h s.following hs hI hb) fun _ => .inl

/-- Loops end, as every step that answers something takes a token. -/
lemma iterate {step step' : α → Parser (Option α)} (h : ∀ a, EndsSteps L b (step a) (step' a))
    (a : α) : Ends L b (Parser.iterate step a) (Parser.iterate step' a) := by
  intro s hs _ hb
  refine ⟨?_, fun _ hG => hG.elim⟩
  -- The loop recurses on the readings that its steps leave, so the induction is along it.
  induction a, s using Parser.iterate.induct step' with
  | case1 a s e u hu =>
    have hstep := (h a hs trivial hb).runs
    rw [hu] at hstep
    rw [iterate_of_error hu]
    exact L.failStep hstep
  | case2 a s u hu =>
    have hstep := (h a hs trivial hb).runs
    rw [hu] at hstep
    rw [iterate_of_none hu]
    exact L.leave hstep
  | case3 a s c u hu hlt ih =>
    have hstep := (h a hs trivial hb).runs
    rw [hu] at hstep
    rw [iterate_of_some hu hlt]
    exact L.again hstep hlt (ih (L.valid_of_leads hs (L.leads hstep)) (hlt.trans hb))
  | case4 a s c u hu hlt =>
    -- No step answers something without taking a token.
    exact absurd ((h a hs trivial hb).takes hu rfl) hlt

lemma many {item item' : Parser (Option α)} (h : EndsSteps L b item item') :
    Ends L b (Parser.many item) (Parser.many item') := by
  refine bind (iterate (fun read => h.thenPure fun o ho => ?_) []) fun _ => .pure nofun
  rwa [Option.isSome_map] at ho

/-- A token of one of the kinds wanted. -/
lemma advanceIf {wanted : TokenKind → Bool} {G : Token → Prop} (hk : wanted k = true)
    (he : wanted .eof = false) :
    EndsFrom L (fun s => s.current.kind = k) b G Parser.advance Parser.advance := by
  refine advance ?_
  rintro rfl
  rw [he] at hk
  cases hk

lemma acceptIf {wanted : TokenKind → Bool} (he : wanted .eof = false) :
    EndsSteps L b (Parser.acceptIf wanted) (Parser.acceptIf wanted) :=
  onKind fun _ => .ite
    (fun hk => (advanceIf (G := fun _ => True) hk he).map fun _ _ => trivial) fun _ => .pure nofun

lemma accept {wanted : TokenKind} (he : wanted ≠ .eof) :
    EndsSteps L b (Parser.accept wanted) (Parser.accept wanted) :=
  acceptIf (decide_eq_false he.symm)

/-- A token is taken, behind which less is left, or else something that takes one is read. -/
lemma acceptWithin {wanted : TokenKind → Bool} {f f' : Option Token → Parser β} (hb : b ≤ c + 1)
    (he : wanted .eof = false) (hsome : ∀ t, Ends L c (f (some t)) (f' (some t)))
    (hnone : EndsFrom L (fun _ => True) b H (f none) (f' none)) :
    EndsFrom L (fun _ => True) b H (Parser.acceptIf wanted >>= f)
      (Parser.acceptIf wanted >>= f') := by
  refine (acceptIf he).bindOr fun o => ?_
  cases o with
  | none => exact .inr hnone
  | some t => exact .inl ⟨rfl, (hsome t).mono (Nat.sub_le_of_le_add hb)⟩

lemma acceptOr {wanted : TokenKind → Bool} {f f' : Option Token → Parser β}
    (he : wanted .eof = false) (hsome : ∀ t, Ends L b (f (some t)) (f' (some t)))
    (hnone : EndsFrom L (fun _ => True) b H (f none) (f' none)) :
    EndsFrom L (fun _ => True) b H (Parser.acceptIf wanted >>= f)
      (Parser.acceptIf wanted >>= f') :=
  acceptWithin b.le_succ he hsome hnone

lemma skip {unwanted : TokenKind → Bool} (he : unwanted .eof = false) :
    Ends L b (Parser.skip unwanted) (Parser.skip unwanted) :=
  (many (acceptIf he)).bind fun _ => .pure nofun

lemma skipSeparators : Ends L b Parser.skipSeparators Parser.skipSeparators :=
  skip rfl

lemma skipNewlines : Ends L b Parser.skipNewlines Parser.skipNewlines :=
  skip rfl

lemma expectIf {p : TokenKind → Bool} {what : Expected} (he : p .eof = false) :
    EndsTaking L b (kind >>= fun k => if p k then Parser.advance else Parser.refuseFor what)
      (kind >>= fun k => if p k then Parser.advance else Parser.refuseFor what) :=
  onKind fun _ => .ite (fun hk => advanceIf hk he) fun _ => .refuseFor

lemma expect {wanted : TokenKind} (hw : wanted ≠ .eof) :
    EndsTaking L b (Parser.expect wanted) (Parser.expect wanted) :=
  expectIf (p := (· = wanted)) (decide_eq_false hw.symm)

lemma expectIdentifier {role : NameRole} :
    EndsTaking L b (Parser.expectIdentifier role) (Parser.expectIdentifier role) :=
  expectIf (p := (· = .identifier)) rfl

lemma expectName {role : NameRole} :
    EndsTaking L b (Parser.expectName role) (Parser.expectName role) :=
  onKind fun _ => .ite
    (fun hk => (advanceIf (G := fun _ => True) hk rfl).map fun _ _ => trivial) fun _ => .refuseFor

/-- What stands behind a mark, if there is the mark. -/
lemma after {mark : TokenKind} (he : mark ≠ .eof) (hm : EndsFrom L (fun _ => True) b G m m') :
    Ends L b (Parser.after mark m) (Parser.after mark m') := by
  refine (accept he).bind fun o => ?_
  cases o with
  | none => exact .pure nofun
  | some t => exact hm.mapAny

/-- Items with commas between them, each of which takes a token. -/
lemma commaList {close : TokenKind → Bool} {blanks : Parser Unit} {item item' : Parser α}
    (hblanks : Ends L b blanks blanks) (hitem : EndsTaking L b item item') :
    Ends L b (Parser.commaList close blanks item) (Parser.commaList close blanks item') := by
  refine bind (iterate ?_ _) fun _ => .pure nofun
  rintro ⟨read, goesOn⟩
  refine onKind fun k => .ite (fun _ => .pure nofun) fun _ => ofAny ?_
  refine hitem.thenAny fun a => hblanks.bind fun _ => (accept (by nofun)).bind fun comma => ?_
  cases comma with
  | none => exact .pure nofun
  | some _ => exact hblanks.bind fun _ => .pure nofun

end EndsFrom

end BrighterCheck
