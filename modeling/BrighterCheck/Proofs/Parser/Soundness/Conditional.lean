import BrighterCheck.Proofs.Parser.Soundness.Block
import BrighterCheck.Parser.Conditional

/-!
# Soundness of conditionals

The arms of a conditional are read from the first to the last and become nodes from the last to the
first. In between they are pending: `Pending` says which items stand for them.
-/

namespace BrighterCheck.Parser

open Item

variable {n : Nested} {before : List Item} {form : ArmForm} {style : ArmStyle}

/-- The items of an arm, with the word `then` if it is there. -/
def Arm.items (arm : Arm) (thens : List Token) : List Item :=
  .token arm.keyword :: .node .expression arm.condition ::
    (tokens thens ++ [.node .body arm.branch])

/-- The items of arms that have been read but are no nodes yet, the last arm first. -/
inductive Pending (form : ArmForm) : List Arm → List Item → Prop where
  | nil : Pending form [] []
  | cons {e : Token} {a : Arm} {thens : List Token} {arms : List Arm} {items : List Item} :
      e.kind = form.otherwise → (∀ t ∈ thens, t.kind = .keyword .thenKw) →
      a.keyword.kind = .keyword .ifKw → (form = .inline → a.branch.children ≠ []) →
      Pending form arms items → Pending form (a :: arms) (items ++ .token e :: a.items thens)

/-- The parts of a style read what the arms of its form are made of. -/
structure ArmStyle.Sound (style : ArmStyle) (form : ArmForm) : Prop where
  otherwise : style.otherwise = form.otherwise
  condition : Parses [] style.condition fun v items =>
    ∃ thens, items = .node .expression v :: tokens thens ∧ ∀ t ∈ thens, t.kind = .keyword .thenKw
  branch : Parses [] style.branch fun t items =>
    items = [.node .body t] ∧ (form = .inline → t.children ≠ [])
  last : Completes [] .body style.last
  build : ∀ arm other, ∃ f : Form NumberedTree,
    f.Has (form.kind arm.keyword) (arm.condition :: arm.branch :: other.toList) ∧
      style.build arm other =
        Parser.node f (form.range arm.keyword arm.condition arm.branch other)

lemma ArmForm.otherwise_ne_eof : form.otherwise ≠ .eof := by
  cases form <;> nofun

/-- An arm and what follows it become a node. -/
lemma Parses.build (arm : Arm) {thens : List Token} {other : Option NumberedTree}
    {others : List Item} (h : style.Sound form) (ht : ∀ t ∈ thens, t.kind = .keyword .thenKw)
    (hb : form = .inline → arm.branch.children ≠ []) (ho : Others form other others) :
    Completes (arm.items thens ++ others) (.arm form arm.keyword.kind) (style.build arm other) := by
  obtain ⟨f, ⟨hkind, hchildren⟩, hbuild⟩ := h.build arm other
  rw [hbuild]
  have hp : Production (.arm form arm.keyword.kind) f.kind
      (form.range arm.keyword arm.condition arm.branch other) (arm.items thens ++ others) := by
    rw [hkind]
    simpa [Arm.items] using .arm ht hb ho
  refine .node hp rfl ?_ ?_
  · rw [hchildren]
    cases ho <;> simp [Arm.items]
  · rw [hkind]
    cases form <;> rfl

lemma Parses.laterArms (h : style.Sound form) :
    Parses [] (Parser.laterArms style) fun p items =>
      ∃ pending others, items = pending ++ others ∧ Pending form p.1 pending ∧
        Others form p.2 others := by
  refine .iterate ?_ ⟨[], [], rfl, .nil, .none⟩
  rintro ⟨arms, last⟩ _ ⟨pending, others, rfl, hp, ho⟩
  refine .ite (fun _ => .pure ⟨pending, others, rfl, hp, ho⟩) fun hlast => ?_
  cases ho with
  | last => exact absurd rfl hlast
  | arm => exact absurd rfl hlast
  | none =>
    refine .bind (.accept (h.otherwise ▸ ArmForm.otherwise_ne_eof)) ?_
    rintro (_ | e) _ ⟨rfl, he⟩
    · exact .pure ⟨pending, [], by simp [tokens], hp, .none⟩
    · have he : e.kind = form.otherwise := (he e rfl).trans h.otherwise
      refine .bind (.accept (by decide)) ?_
      rintro (_ | keyword) _ ⟨rfl, hk⟩
      · refine .bind h.last ?_
        rintro b _ rfl
        exact .pure ⟨pending, [.token e, .node .body b], by simp [tokens], hp, .last he⟩
      · refine .bind h.condition ?_
        rintro condition _ ⟨thens, rfl, ht⟩
        refine .bind h.branch ?_
        rintro branch _ ⟨rfl, hb⟩
        refine .pure ⟨_, [], ?_, .cons (a := ⟨keyword, condition, branch⟩) he ht
          (hk keyword rfl) hb hp, .none⟩
        simp [tokens, Arm.items]

/-- Pending arms become nodes one after the other, each with the one before as its other branch. -/
lemma Parses.foldArms {arms : List Arm} {last : Option NumberedTree} {pending others : List Item}
    (h : style.Sound form) (hp : Pending form arms pending) (ho : Others form last others) :
    Parses (pending ++ others)
      (arms.foldlM (fun other arm => Option.some <$> style.build arm other) last)
      (Others form) := by
  induction hp generalizing last others with
  | nil => exact .pure ho
  | @cons e arm thens arms items he ht hk hb _ ih =>
    rw [List.foldlM_cons]
    have hitems : items ++ .token e :: arm.items thens ++ others =
        (items ++ [.token e]) ++ (arm.items thens ++ others) := by simp
    have hbuild := Parses.build arm h ht hb ho
    rw [hk] at hbuild
    rw [hitems]
    refine .within (items ++ [.token e])
      (.map (Q := fun o xs => ∃ t, o = Option.some t ∧ xs = [.node (.arm form (.keyword .ifKw)) t])
        hbuild fun t xs hx => ⟨t, rfl, hx⟩) ?_
    rintro _ _ ⟨t, rfl, rfl⟩
    simpa using ih (.arm he)

/-- All arms become one node. -/
lemma Parses.armChain (k : Token) (v : NumberedTree) {thens : List Token}
    (h : style.Sound form) (ht : ∀ t ∈ thens, t.kind = .keyword .thenKw) :
    Completes (.token k :: .node .expression v :: tokens thens) (.arm form k.kind)
      (Parser.armChain style k v) := by
  refine .bind h.branch ?_
  rintro branch _ ⟨rfl, hb⟩
  refine .bind (.laterArms h) ?_
  rintro ⟨arms, last⟩ _ ⟨pending, others, rfl, hp, ho⟩
  refine .within _ (.foldArms h hp ho) fun other others ho => ?_
  simpa [Arm.items] using Parses.build ⟨k, v, branch⟩ h ht hb ho

lemma Parses.condition (hn : n.Sound) :
    Parses [] (Parser.condition n) fun v items =>
      ∃ thens, items = .node .expression v :: tokens thens ∧
        ∀ t ∈ thens, t.kind = .keyword .thenKw := by
  refine .bind hn.expression ?_
  rintro condition _ rfl
  refine .bind (.accept (by nofun)) ?_
  rintro o _ ⟨rfl, ho⟩
  exact .pure ⟨o.toList, rfl, fun t ht => ho t (Option.mem_toList.1 ht)⟩

/-- A branch on one line has a statement at least. -/
lemma Parses.inlineBody (hn : n.Sound) :
    Parses [] (Parser.inlineBody n) fun t items =>
      items = [.node .body t] ∧ t.children ≠ [] := by
  refine .bind hn.statement ?_
  rintro first _ rfl
  refine .bind (P := Lists .statement isSeparator) (.many
    (E := fun o => Lists .statement isSeparator o.toList) ?_ ⟨listed_nil, rfl⟩
    fun _ _ _ _ => Lists.append) ?_
  · refine .bind (.accept (by nofun)) ?_
    rintro (_ | colon) _ ⟨rfl, hc⟩
    · exact .pure ⟨listed_nil, rfl⟩
    · have hcolon : Lists .statement isSeparator [] [.token colon] :=
        ⟨listed_token (by simp [hc colon rfl, isSeparator]), rfl⟩
      refine .bind .kind ?_
      rintro k _ rfl
      refine .ite (fun _ => .pure hcolon) fun _ => ?_
      refine .map (.frame hn.statement (P := fun t => Lists .statement isSeparator [t]) ?_)
        fun _ _ h => h
      rintro t _ rfl
      exact hcolon.append (m := [t]) ⟨listed_node, rfl⟩
  · rintro more items ⟨hl, rfl⟩
    refine (Parses.newNode (.body (listed_append listed_node hl)) rfl ?_ rfl).mono
      fun t _ h => ⟨h.1, by rw [h.2.2.2]; nofun⟩
    simp [Form.children]

lemma ArmStyle.sound_block (hn : n.Sound) : (blockStyle n).Sound .block where
  otherwise := rfl
  condition := .condition hn
  branch := Parses.mono (.block hn) fun _ _ h => ⟨h, nofun⟩
  last := .block hn
  build _ _ := ⟨_, ⟨rfl, rfl⟩, rfl⟩

lemma ArmStyle.sound_inline (hn : n.Sound) : (inlineStyle n).Sound .inline where
  otherwise := rfl
  condition := .condition hn
  branch := (Parses.inlineBody hn).mono fun _ _ h => ⟨h.1, fun _ => h.2⟩
  last := (Parses.inlineBody hn).mono fun _ _ h => h.1
  build _ _ := ⟨_, ⟨rfl, rfl⟩, rfl⟩

lemma ArmStyle.sound_conditional (hn : n.Sound) : (conditionalStyle n).Sound .compile where
  otherwise := rfl
  condition := Parses.mono hn.expression fun _ _ h => ⟨[], h, nofun⟩
  branch := Parses.mono (.block hn) fun _ _ h => ⟨h, nofun⟩
  last := .block hn
  build _ _ := ⟨_, ⟨rfl, rfl⟩, rfl⟩

/-- A conditional on one line needs no words that end it. -/
lemma Parses.ofInline {m : Parser NumberedTree}
    (hm : Completes before (.arm .inline (.keyword .ifKw)) m) : Completes before .statement m := by
  intro s₀ s t s' he hs h
  obtain ⟨_, hr, rfl⟩ := hm he hs h
  cases hr with
  | node hi hp hform hn => exact ⟨_, .inline hi hp hform hn, rfl⟩

/-- The words that end a conditional belong to the node of its first arm. -/
lemma Parses.closed {m : Parser NumberedTree} {finish : Parser Range} {e : Ending}
    (hform : form ≠ .inline) (hm : Completes before (.arm form form.first) m)
    (hfinish : Parses [] finish fun r items => ∃ ends, items = tokens ends ∧ Finish e ends r) :
    Completes before .statement (do
      let node ← m
      extend node (← finish)) := by
  intro s₀ s t s' he hs h
  obtain ⟨arm, u, ha, h⟩ := bind_eq_ok.1 h
  obtain ⟨r, v, hv, h⟩ := bind_eq_ok.1 h
  cases h
  obtain ⟨_, hr, rfl⟩ := hm he hs ha
  obtain ⟨_, hends, ends, rfl, hf⟩ := hfinish (hr.isLexed he) (.nil u) hv
  cases hr with
  | node hi hp hnode hn =>
    cases hn
    exact ⟨_, .close hi hp hform hnode hends hf (.nil _), rfl⟩

lemma ParsesAt.ifStatement (hn : n.Sound) :
    CompletesAt (.keyword .ifKw) [] .statement (Parser.ifStatement n) := by
  refine .advance (by nofun) fun keyword hk => .bind (.condition hn) ?_
  rintro condition _ ⟨thens, rfl, ht⟩
  refine .bind .kind ?_
  rintro k _ rfl
  refine .ite (fun _ => ?_) fun _ => ?_
  · have chain := Parses.armChain keyword condition (ArmStyle.sound_block hn) ht
    rw [hk] at chain
    have hblock : ArmForm.block ≠ .inline := nofun
    simpa using Parses.closed hblock chain .expectEnd
  · have chain := Parses.armChain keyword condition (ArmStyle.sound_inline hn) ht
    rw [hk] at chain
    simpa using Parses.ofInline chain

/-- The words that end conditional compilation. -/
lemma Parses.expectConditionalEnd :
    Parses [] Parser.expectConditionalEnd fun r items =>
      ∃ ends, items = tokens ends ∧ Finish .conditional ends r := by
  intro s₀ s r s' he hs h
  cases hs
  obtain ⟨o, u, ho, h⟩ := bind_eq_ok.1 h
  rcases acceptIf_eq_ok (he.kind_eof ▸ rfl) ho with ⟨rfl, hk, rfl⟩ | ⟨joined, rfl, -, hj, ht, hu⟩
  · obtain ⟨b, v, hb, h⟩ := bind_eq_ok.1 h
    obtain ⟨rfl, rfl⟩ := isAtEnding_eq_ok.1 hb
    split at h
    · rename_i hc
      have hc : s₀.current.kind = .directive .endDirective ∧ s₀.following = .keyword .ifKw := by
        simpa [Ending.conditional, of_decide_eq_false hk] using hc
      obtain ⟨t, u, hr, ht, hu, rfl⟩ :=
        advanceTwo_eq_ok he.kind_eof (by rw [hc.1]; nofun) (by rw [hc.2]; nofun) h
      exact ⟨_, hr, [t, u], rfl, .two (by simp [Ending.conditional, ht, hu, hc])⟩
    · exact absurd h not_refuseFor_eq_ok
  · obtain ⟨rfl, rfl⟩ := pure_eq_ok.1 h
    refine ⟨_, .token (.one joined) (show _ = [joined] ++ u.tokens from ht) ?_,
      [joined], rfl, .one fun next => ?_⟩
    · rw [← hu]
      exact .nil u
    · simp [Ending.conditional, of_decide_eq_true hj]

lemma ParsesAt.conditionalBlock (hn : n.Sound) :
    CompletesAt (.directive .ifDirective) [] .statement (Parser.conditionalBlock n) := by
  refine .advance (by nofun) fun keyword hk => .bind hn.expression ?_
  rintro condition _ rfl
  have thens : ∀ t ∈ ([] : List Token), t.kind = .keyword .thenKw := nofun
  have chain := Parses.armChain keyword condition (ArmStyle.sound_conditional hn) thens
  rw [hk] at chain
  have hcompile : ArmForm.compile ≠ .inline := nofun
  exact .closed hcompile chain .expectConditionalEnd

end BrighterCheck.Parser
