import BrighterCheck.Proofs.Lexer.Line
import BrighterCheck.Proofs.Tree.Origin
import BrighterCheck.Proofs.Tree.Wording

/-!
# Labels of nodes

The tokens that a node holds were read where the node was made (`Production.mem_tokens`), or where
the target of an assignment was. So what holds of all tokens of a source and is kept by folding
holds of the tokens in its nodes (`Origin.forall_token`): no label goes over the end of a line.
-/

namespace BrighterCheck

open BrighterCheck.Parser Item

variable {P : Token → Prop} {s s' : Reading} {items : List Item} {c : Category} {kind : NodeKind}
  {range : Option Range} {t : NumberedTree}

/-- What is read as one token keeps a property of the tokens that it is folded from. -/
def FoldClosed (P : Token → Prop) : Prop :=
  ∀ raw t, Folded raw t → (∀ k ∈ raw, P k) → P t

/-- The tokens that are read have a property of all tokens that folding keeps. -/
lemma Reads.forall_token (h : Reads s items s') (hfold : FoldClosed P)
    (hs : ∀ k ∈ s.tokens, P k) : ∀ k, .token k ∈ items → P k := by
  induction h with
  | nil => exact fun _ hk => absurd hk List.not_mem_nil
  | token hf hraw _ ih =>
    rw [hraw] at hs
    obtain ⟨hraw, hrest⟩ := List.forall_mem_append.1 hs
    intro k hk
    rcases List.mem_cons.1 hk with hk | hk
    · cases hk
      exact hfold _ _ hf hraw
    · exact ih hrest k hk
  | node hi _ _ _ _ ih =>
    intro k hk
    exact ih (fun k hk => hs k (hi.subset_tokens hk)) k ((List.mem_cons.1 hk).resolve_left nofun)
  | assignment hr _ hv _ _ _ _ ih =>
    intro k hk
    exact ih (fun k hk => hs k (hr.subset_tokens (hv.subset_tokens hk))) k
      ((List.mem_cons.1 hk).resolve_left nofun)
  | inline hi _ _ _ _ ih =>
    intro k hk
    exact ih (fun k hk => hs k (hi.subset_tokens hk)) k ((List.mem_cons.1 hk).resolve_left nofun)
  | close hi _ _ _ he _ _ _ _ ih =>
    intro k hk
    exact ih (fun k hk => hs k (hi.subset_tokens (he.subset_tokens hk))) k
      ((List.mem_cons.1 hk).resolve_left nofun)

/-- What stands in a place other than that of a statement was made there by a production. -/
lemma Reads.exists_inside (h : Reads s items s') (ht : .node c t ∈ items) (hc : c ≠ .statement) :
    ∃ u v inside, u.tokens <:+ s.tokens ∧ Reads u inside v ∧
      Production c t.kind t.range inside := by
  induction h with
  | nil => cases ht
  | token _ hraw _ ih =>
    obtain ⟨u, v, inside, hu, hmade⟩ := ih ((List.mem_cons.1 ht).resolve_left nofun)
    exact ⟨u, v, inside, hraw ▸ hu.trans (List.suffix_append _ _), hmade⟩
  | node hi hp _ _ _ ih =>
    rcases List.mem_cons.1 ht with ht | ht
    · cases ht
      exact ⟨_, _, _, List.suffix_refl _, hi, hp⟩
    · obtain ⟨u, v, inside, hu, hmade⟩ := ih ht
      exact ⟨u, v, inside, hu.trans hi.suffix, hmade⟩
  | assignment hr _ hv _ _ _ _ ih =>
    rcases List.mem_cons.1 ht with ht | ht
    · cases ht
      exact absurd rfl hc
    · obtain ⟨u, v, inside, hu, hmade⟩ := ih ht
      exact ⟨u, v, inside, hu.trans (hv.suffix.trans hr.suffix), hmade⟩
  | inline hi _ _ _ _ ih =>
    rcases List.mem_cons.1 ht with ht | ht
    · cases ht
      exact absurd rfl hc
    · obtain ⟨u, v, inside, hu, hmade⟩ := ih ht
      exact ⟨u, v, inside, hu.trans hi.suffix, hmade⟩
  | close hi _ _ _ he _ _ _ _ ih =>
    rcases List.mem_cons.1 ht with ht | ht
    · cases ht
      exact absurd rfl hc
    · obtain ⟨u, v, inside, hu, hmade⟩ := ih ht
      exact ⟨u, v, inside, hu.trans (he.suffix.trans hi.suffix), hmade⟩

/-- The tokens that a node holds are among its items, or its definition has them. -/
lemma Production.mem_tokens (h : Production c kind range items) {k : Token}
    (hk : k ∈ kind.tokens) :
    .token k ∈ items ∨ ∃ f, .node (.definition k) f ∈ items := by
  cases h with
  | @arm form => cases form <;> simp_all [NodeKind.tokens, ArmForm.kind]
  | @field _ _ _ _ _ _ _ _ _ _ ht =>
    cases ht <;> simp_all [NodeKind.tokens, Item.tokens] <;> grind
  | interfaceField _ ht | parameter _ _ ht | interfaceMethod _ _ _ _ ht | classDeclaration _ _ ht
  | interfaceDeclaration _ _ ht | functionExpression _ _ _ _ _ _ ht =>
    cases ht <;> simp_all [NodeKind.tokens, Item.tokens] <;> grind
  | extended h | single h | named h => cases h <;> simp_all [NodeKind.tokens, Item.tokens] <;> grind
  | _ => simp_all [NodeKind.tokens, Item.tokens] <;> grind

/-- The tokens of a node that a production made are among those that were read. -/
lemma Production.forall_token (h : Production c kind range items) (hr : Reads s items s')
    (hfold : FoldClosed P) (hs : ∀ k ∈ s.tokens, P k) : ∀ k ∈ kind.tokens, P k := by
  intro k hk
  rcases h.mem_tokens hk with hmem | ⟨f, hmem⟩
  · exact hr.forall_token hfold hs k hmem
  · -- The name of a function was read inside its definition.
    obtain ⟨u, v, inside, hu, hinside, hdef⟩ := hr.exists_inside hmem nofun
    exact hinside.forall_token hfold (fun k hk => hs k (hu.subset hk)) k hdef.definition_inv.2

/-- The tokens of a node have a property of all tokens that folding keeps. -/
theorem Origin.forall_token {tokens : List Token} (h : Origin tokens t) (hfold : FoldClosed P)
    (hs : ∀ k ∈ tokens, P k) : ∀ k ∈ t.kind.tokens, P k := by
  cases h with
  | made hsuffix hr hp _ | closed hsuffix hr hp _ =>
    exact hp.forall_token hr hfold fun k hk => hs k (hsuffix.subset hk)
  | assigned hsuffix hr _ hv ha =>
    have htokens := fun k hk => hs k (hsuffix.subset hk)
    obtain ⟨w, inside, hinside, hp, -⟩ := hr.expression_inv
    intro k hk
    rw [assignment?_tokens ha] at hk
    rcases List.mem_append.1 hk with hk | hk
    · exact hp.forall_token hinside hfold htokens k hk
    · cases List.mem_singleton.1 hk
      exact hv.forall_token hfold (fun k hk => htokens k (hr.subset_tokens hk)) _ (.head _)

/-- What is read as one token is on one line, but for line ends. -/
lemma foldClosed_isOneLine :
    FoldClosed fun k => k.kind ≠ .newline → IsOneLine k.text.toList := by
  have hname {k : Token} (hk : k.kind.isNameLike = true) : k.kind ≠ .newline := by
    intro hline
    rw [hline] at hk
    cases hk
  have hjoin {k : TokenKind} {glue : String} {t u : Token} (ht : IsOneLine t.text.toList)
      (hglue : IsOneLine glue.toList) (hu : IsOneLine u.text.toList) :
      IsOneLine (Token.join k glue t u).text.toList := by
    rw [Token.join, String.toList_append, String.toList_append]
    exact (ht.append hglue).append hu
  intro raw k hf
  induction hf with
  | one => exact fun hraw => hraw _ (.head _)
  | @name t hk => exact fun hraw _ => hraw t (.head _) (hname hk)
  | @dotted raw t dot name hf ht hdot hk ih =>
    intro hraw _
    obtain ⟨hraw, hnames⟩ := List.forall_mem_append.1 hraw
    exact hjoin (ih hraw (by rw [ht]; nofun)) (by decide) (hnames name (by simp) (hname hk))
  | @forEach first each hfirst heach =>
    intro hraw _
    exact hjoin (hraw first (by simp) (by rw [hfirst]; nofun)) (by decide)
      (hraw each (by simp) (by rw [heach]; nofun))

namespace NodeKind

/-- A label is the text of a token of its node. -/
lemma exists_mem_tokens_of_label {kind : NodeKind} {label : String} (h : kind.label? = some label) :
    ∃ k ∈ kind.tokens, label = k.text := by
  cases kind <;> simp_all [label?, tokens] <;> grind

/-- No token of a node is a line end. -/
lemma IsWorded.ne_newline {kind : NodeKind} (h : kind.IsWorded) {k : Token}
    (hk : k ∈ kind.tokens) : k.kind ≠ .newline := by
  intro hline
  rcases h k (List.mem_append_left _ hk) with hword | ⟨hcontents, -⟩
  · rw [hline] at hword
    cases hword
  · rw [hline] at hcontents
    cases hcontents

end NodeKind

/-- The labels of the nodes of a file stand on one line. -/
theorem ParsedFile.isOneLine_label {source : String} {f : ParsedFile}
    (h : ofSource source = .ok f) {u : NumberedTree} (hu : u ∈ f.tree.preorder) {label : String}
    (hl : u.kind.label? = some label) : IsOneLine label.toList := by
  obtain ⟨k, hk, rfl⟩ := NodeKind.exists_mem_tokens_of_label hl
  exact (origin h u hu).forall_token foldClosed_isOneLine
    (TokenStream.isOneLine_of_ofSource (made_of_ofSource h).1) k hk
    ((isWorded h u hu).ne_newline hk)

end BrighterCheck
