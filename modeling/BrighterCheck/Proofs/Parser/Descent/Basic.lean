import BrighterCheck.Proofs.Parser.Grammar
import BrighterCheck.Proofs.Parser.Logic.Statement
import BrighterCheck.Proofs.Parser.Soundness.Expression
import BrighterCheck.Proofs.Tree.Alignment

/-!
# Runs without bounds

The parsers of a file look at a depth and at the tokens that loops take, so that they end by their
form. `Descent` says what they would do if they looked at neither: nested productions are run as
what they stand for, however deep, and a loop goes on as long as its steps answer something. In the
logic of these runs, that a parser ends says that such a run comes to its end with what the bounded
parser answers, so that no bound is ever reached.
-/

namespace BrighterCheck

open BrighterCheck.Parser Item

/--
The parser `m`, run from `s` without any bound, does a step at each of the readings `us` and ends
with `r`. The productions in `n` are names only, which are run as what they stand for.
-/
inductive Descent (n : Nested) :
    {α : Type} → Parser α → Reading → List Reading → Answer α → Prop where
  | step {α : Type} {m : Parser α} {s : Reading} : Primitive m → Descent n m s [s] (m s)
  | bind {α β : Type} {m : Parser α} {f : α → Parser β} {s u : Reading} {a : α} {r : Answer β}
      {us vs : List Reading} :
      Descent n m s us (.ok a u) → Descent n (f a) u vs r → Descent n (m >>= f) s (us ++ vs) r
  | fail {α β : Type} {m : Parser α} {f : α → Parser β} {s u : Reading} {e : SyntaxError}
      {us : List Reading} :
      Descent n m s us (.error e u) → Descent n (m >>= f) s us (.error e u)
  | leave {α : Type} {step : α → Parser (Option α)} {a : α} {s u : Reading} {us : List Reading} :
      Descent n (step a) s us (.ok none u) → Descent n (iterate step a) s us (.ok a u)
  | failStep {α : Type} {step : α → Parser (Option α)} {a : α} {s u : Reading} {e : SyntaxError}
      {us : List Reading} :
      Descent n (step a) s us (.error e u) → Descent n (iterate step a) s us (.error e u)
  | again {α : Type} {step : α → Parser (Option α)} {a b : α} {s u : Reading} {r : Answer α}
      {us vs : List Reading} :
      Descent n (step a) s us (.ok (some b) u) → Descent n (iterate step b) u vs r →
      Descent n (iterate step a) s (us ++ vs) r
  | expression {s : Reading} {r : Answer NumberedTree} {us : List Reading} :
      Descent n (expression n) s us r → Descent n n.expression s us r
  | statement {s : Reading} {r : Answer NumberedTree} {us : List Reading} :
      Descent n (statement n) s us r → Descent n n.statement s us r

/-- A lexed reading whose tokens have their ranges in `P`. -/
structure Reading.IsLexedIn (P : Range → Prop) (s : Reading) : Prop extends s.IsLexed where
  lies : ∀ t ∈ s.tokens, P t.range

/-- The ranges that an error may be reported at: that of the end, and those in `P`. -/
def Reading.Blames (P : Range → Prop) (s : Reading) (r : Range) : Prop :=
  r = s.eof.range ∨ P r

namespace Reading

variable {P : Range → Prop} {s u : Reading}

lemma Leads.isLexedIn (h : s.Leads u) (hs : s.IsLexedIn P) : u.IsLexedIn P where
  kind_eof := h.eof_eq ▸ hs.kind_eof
  plain t ht := hs.plain t (h.suffix.subset ht)
  lies t ht := hs.lies t (h.suffix.subset ht)

lemma Leads.blames {r : Range} (h : s.Leads u) (hr : u.Blames P r) : s.Blames P r := by
  unfold Blames
  rwa [← h.eof_eq]

lemma IsLexedIn.blames_current (hs : s.IsLexedIn P) : s.Blames P s.current.range := by
  unfold current
  split
  case h_1 => exact .inl rfl
  case h_2 t ts htokens => exact .inr (hs.lies t (htokens ▸ .head ts))

end Reading

section Descent

variable {n : Nested} {α : Type} {m : Parser α} {s u : Reading} {us vs : List Reading}
  {r : Answer α}

/-- The steps of two runs one after the other. -/
lemma pairwise_leads_append {w : Reading} (h : (s :: us ++ [u]).Pairwise Reading.Leads)
    (h' : (u :: vs ++ [w]).Pairwise Reading.Leads) :
    (s :: (us ++ vs) ++ [w]).Pairwise Reading.Leads := by
  rw [List.cons_append, List.pairwise_cons] at h'
  rw [List.pairwise_append] at h
  rw [← List.cons_append, List.append_assoc, List.pairwise_append]
  refine ⟨h.1, h'.2, fun x hx y hy => ?_⟩
  exact (h.2.2 x hx u (.head _)).trans (h'.1 y hy)

/-- A run never leads back: every reading stands behind those that were met before it. -/
theorem Descent.pairwise (h : Descent n m s us r) :
    (s :: us ++ [Answer.reading r]).Pairwise Reading.Leads := by
  -- Only a sequence and a loop put runs together; all other rules pass one on.
  induction h with
  | @step _ m s hm =>
    have hleads := hm.leads s
    simp [Reading.Leads.refl, hleads]
  | bind _ _ ihm ihf => exact pairwise_leads_append ihm ihf
  | again _ _ ihstep ih => exact pairwise_leads_append ihstep ih
  | fail _ ih | leave _ ih | failStep _ ih | expression _ ih | statement _ ih => exact ih

theorem Descent.leads (h : Descent n m s us r) : s.Leads (Answer.reading r) := by
  have hpairwise := h.pairwise
  rw [List.cons_append, List.pairwise_cons] at hpairwise
  exact hpairwise.1 _ (List.mem_append_right _ (.head _))

end Descent

/--
The logic of unbounded runs, with the productions in `n` as names, from lexed readings with ranges
in `P`. Errors are reported at the end or in `P`.
-/
def RunLogic.descent (n : Nested) (P : Range → Prop) : RunLogic where
  Valid := Reading.IsLexedIn P
  Blamed := P
  Runs m s r := (∃ us, Descent n m s us r) ∧ ∀ e u, r = .error e u → s.Blames P e.range
  kind_eof hs := hs.kind_eof
  valid_of_leads hs h := h.isLexedIn hs
  leads := fun ⟨⟨_, hrun⟩, _⟩ => hrun.leads
  step := by
    refine fun {α m s} hs hm h => ⟨⟨[s], .step hm⟩, fun e u he => ?_⟩
    rcases h e u he with hcurrent | hP
    · exact hcurrent ▸ hs.blames_current
    · exact .inr hP
  bind := fun ⟨⟨_, hm⟩, _⟩ ⟨⟨_, hf⟩, hblames⟩ =>
    ⟨⟨_, .bind hm hf⟩, fun e u he => hm.leads.blames (hblames e u he)⟩
  fail := fun ⟨⟨_, hm⟩, hblames⟩ => ⟨⟨_, .fail hm⟩, fun e u he => hblames e u (by cases he; rfl)⟩
  leave := fun ⟨⟨_, hstep⟩, _⟩ => ⟨⟨_, .leave hstep⟩, fun _ _ he => nomatch he⟩
  failStep := fun ⟨⟨_, hstep⟩, hblames⟩ =>
    ⟨⟨_, .failStep hstep⟩, fun e u he => hblames e u (by cases he; rfl)⟩
  again := fun ⟨⟨_, hstep⟩, _⟩ _ ⟨⟨_, hloop⟩, hblames⟩ =>
    ⟨⟨_, .again hstep hloop⟩, fun e u he => hstep.leads.blames (hblames e u he)⟩

section Logic

variable {n n' : Nested} {P : Range → Prop} {α : Type} {G : α → Prop} {m : Parser α} {s u : Reading}

namespace RunLogic.Settles

lemma exists_descent {r : Answer α} (h : (RunLogic.descent n P).Settles G m s r) :
    ∃ us, Descent n m s us r :=
  h.runs.1

lemma blames {e : SyntaxError} (h : (RunLogic.descent n P).Settles G m s (.error e u)) :
    s.Blames P e.range :=
  h.runs.2 e u rfl

/-- A production that is named is run as what it stands for. -/
lemma named {l : Parser α} {r : Answer α} (h : (RunLogic.descent n P).Settles G l s r)
    (hrun : ∀ {us}, Descent n l s us r → Descent n m s us r) :
    (RunLogic.descent n P).Settles G m s r := by
  obtain ⟨us, hl⟩ := h.exists_descent
  exact ⟨⟨⟨us, hrun hl⟩, h.runs.2⟩, h.takes⟩

end RunLogic.Settles

/-- A target is made of tokens that were read, so its range lies where theirs do. -/
lemma Nested.Sound.blamesTargets (hs : n'.Sound) (hP : Range.MergeClosed P) :
    n'.BlamesTargets (.descent n P) := by
  intro s target u hl hm operator
  obtain ⟨_, hreads, rfl⟩ := Parses.accessed hs hl.toIsLexed (.nil s) hm
  have htarget : PlacedIn P .expression target := (hreads.placedIn hP hl.lies).2 _ _ (.head _)
  obtain ⟨r, hr⟩ := Option.ne_none_iff_exists'.1 (htarget.range_ne_none nofun)
  rw [hr]
  exact lies_some.1 (hr ▸ htarget.lies)

end Logic

end BrighterCheck
