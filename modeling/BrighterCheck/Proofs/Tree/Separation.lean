import BrighterCheck.Proofs.Parser.Separation.Statement

/-!
# What stands between statements and members

Between two statements of a list stands a line end or a colon, unless the later one is a comment
(`ParsedFile.isSpaced_tree`). Members are read without a look at what follows them, so nothing at
all need stand between two of them: then the later one starts with the token behind the earlier one.
-/

namespace BrighterCheck

open BrighterCheck.Parser Item

/-- Declarations whose children are members. -/
def NodeKind.listsMembers : NodeKind → Bool
  | .classDeclaration .. | .interfaceDeclaration .. | .enumDeclaration .. => true
  | _ => false

/-- The member `b` is read from the token behind `a` on. -/
def Adjoins (tokens : List Token) (a b : NumberedTree) : Prop :=
  ∃ s u v, s.tokens <:+ tokens ∧ Reads s [.node .member a] u ∧ Reads u [.node .member b] v

variable {tokens : List Token} {s u v : Reading} {a b t : NumberedTree} {items : List Item}
  {p q : Position}

lemma ArmForm.listsMembers_kind (form : ArmForm) (k : Token) :
    (form.kind k).listsMembers = false := by
  cases form <;> rfl

/-- Members stand between the words of their declaration and the words that end it. -/
lemma Production.members_inv {c : Category} {kind : NodeKind} {range : Option Range}
    (h : Production c kind range items) (hk : kind.listsMembers = true) :
    ∃ front inside ends, items = front ++ (inside ++ Item.tokens ends) ∧ nodes front = [] ∧
      Listed .member isSeparator inside := by
  cases h with
  | @classDeclaration k name parent parents items ends r _ _ ht hl =>
    refine ⟨.token k :: .token name :: parents, items, ends, rfl, ?_, hl⟩
    cases ht <;> rfl
  | @interfaceDeclaration k name parent parents items ends r _ _ ht hl =>
    refine ⟨.token k :: .token name :: parents, items, ends, rfl, ?_, hl⟩
    cases ht <;> rfl
  | @enumDeclaration k name items ends r _ _ hl =>
    exact ⟨[.token k, .token name], items, ends, rfl, rfl, hl⟩
  | arm =>
    rw [ArmForm.listsMembers_kind] at hk
    cases hk
  | extended h => cases h <;> cases hk
  | single h => cases h <;> cases hk
  | named h => cases h <;> cases hk
  | _ => cases hk

/-- An assignment lists no members, whatever its target was. -/
lemma not_listsMembers_assignment {target value : NumberedTree} {op : Token}
    (h : assignment? target op value = some t) : t.kind.listsMembers = false := by
  unfold assignment? at h
  split at h <;> cases h <;> rfl

/-- A separator is one token of the source. -/
lemma Folded.eq_of_isSeparator {raw : List Token} {mark : Token} (h : Folded raw mark)
    (hk : isSeparator mark.kind = true) : raw = [mark] := by
  cases h with
  | one => rfl
  | name | dotted | forEach => cases hk

namespace Reads

/-- The first item stands in front of the others. -/
lemma uncons {i : Item} (h : Reads s (i :: items) v) : ∃ u, Reads s [i] u ∧ Reads u items v :=
  split (show Reads s ([i] ++ items) v from h)

/-- Every node that is read behind a separator is parted from the node before it. -/
lemma parted_of_mem {mark : Token} {rest : List Token} {among : TokenKind → Bool}
    (hb : Range.Between p (tokens.map Token.range) q) (hs : s.tokens <:+ tokens)
    (ha : Reads s [.node .member a] u) (hm : u.tokens = mark :: rest)
    (hk : isSeparator mark.kind = true) (h : Reads { u with tokens := rest } items v)
    (hl : Listed .member among items) (hmem : b ∈ nodes items) : Parted tokens a b := by
  obtain ⟨c, hmem⟩ := mem_nodes.1 hmem
  cases hl _ hmem
  obtain ⟨xs, ys, rfl⟩ := List.append_of_mem hmem
  obtain ⟨w, hw, h⟩ := h.split
  obtain ⟨x, hx, -⟩ := h.uncons
  exact ha.parted hb hs (hm ▸ List.suffix_refl _) hk hw.suffix hx (by nofun) (by nofun)

/-- Members that are read one after the other are parted, or nothing stands between them. -/
theorem isChain_members (hb : Range.Between p (tokens.map Token.range) q)
    (h : Reads s items v) (hs : s.tokens <:+ tokens) (hl : Listed .member isSeparator items) :
    (nodes items).IsChain fun a b => Parted tokens a b ∨ Adjoins tokens a b := by
  induction items generalizing s with
  | nil => exact .nil
  | cons i items ih =>
    obtain ⟨w, hi, hrest⟩ := h.uncons
    have hw := hi.suffix.trans hs
    have hlist : Listed .member isSeparator items := fun j hj => hl j (.tail _ hj)
    cases i with
    | token t => exact ih hrest hw hlist
    | node c a =>
      cases hl _ (.head _)
      refine List.isChain_cons.2 ⟨fun b hb' => ?_, ih hrest hw hlist⟩
      -- The next item is the member that follows, or a separator that parts all that follow.
      cases items with
      | nil => cases hb'
      | cons j items =>
        cases j with
        | node c' b' =>
          cases hb'
          cases hlist _ (.head _)
          obtain ⟨x, hx, -⟩ := hrest.uncons
          exact .inr ⟨s, w, x, hs, hi, hx⟩
        | token mark =>
          have hmark : isSeparator mark.kind = true := hlist _ (.head _)
          cases hrest with
          | token hf htokens hrest =>
            cases hf.eq_of_isSeparator hmark
            exact .inl (parted_of_mem hb hs hi htokens hmark hrest
              (fun j hj => hlist j (.tail _ hj)) (List.mem_of_mem_head? hb'))

end Reads

namespace ParsedFile

variable {source : String} {f : ParsedFile}

/-- The places of a source stand behind one another. -/
lemma exists_between (h : ofSource source = .ok f) :
    ∃ p q, Range.Between p (f.stream.tokens.map Token.range) q := by
  obtain ⟨q, hb⟩ := TokenStream.between_of_ofSource (made_of_ofSource h).1
  exact ⟨_, q, hb⟩

/-- The tree of a file is spaced. -/
theorem isSpaced_tree (h : ofSource source = .ok f) : IsSpaced f.stream.tokens f.tree := by
  obtain ⟨p, q, hb⟩ := exists_between h
  obtain ⟨s, hs, hf⟩ := ofSource_eq_ok.1 h
  have hlexed := TokenStream.isLexed_start hs
  unfold ofStream at hf
  split at hf
  case h_1 ts rest hrun =>
    cases hf
    have hplace : (Reading.start s).IsPlace s.tokens := ⟨hlexed, List.suffix_refl _⟩
    obtain ⟨-, hchain, hspaced⟩ := Gives.statements (spaces_nestedWithin hb _) hplace hrun
    exact .ofChildren (fun _ => hchain) hspaced
  case h_2 => cases hf

/-- In every declaration with members, each two that follow one another are parted or adjoin. -/
theorem isChain_members (h : ofSource source = .ok f) (ht : t ∈ f.tree.preorder)
    (hk : t.kind.listsMembers = true) :
    t.children.IsChain fun a b => Parted f.stream.tokens a b ∨ Adjoins f.stream.tokens a b := by
  obtain ⟨p, q, hb⟩ := exists_between h
  cases origin h t ht with
  | @made s u c inside hs hr hp hc =>
    obtain ⟨front, members, ends, rfl, hfront, hl⟩ := hp.members_inv hk
    obtain ⟨v, hv, hr⟩ := hr.split
    obtain ⟨w, hw, -⟩ := hr.split
    have hchain := hw.isChain_members hb (hv.suffix.trans hs) hl
    rwa [hc, nodes_append, nodes_append, hfront, nodes_tokens, List.nil_append, List.append_nil]
  | assigned _ _ _ _ ha =>
    rw [not_listsMembers_assignment ha] at hk
    cases hk
  | closed _ _ hp =>
    obtain ⟨k, condition, b, thens, other, others, -, -, hkind, -⟩ := hp.arm_inv
    rw [hkind, ArmForm.listsMembers_kind] at hk
    cases hk

/--
Statements that follow one another are parted, unless the later one is a comment. Members are parted
or stand right behind one another.
-/
theorem separates (h : ofSource source = .ok f) :
    ∀ t ∈ f.tree.preorder,
      (t.kind = .body → t.children.IsChain (Follows f.stream.tokens)) ∧
      (t.kind.listsMembers = true → t.children.IsChain fun a b =>
        Parted f.stream.tokens a b ∨ Adjoins f.stream.tokens a b) :=
  fun t ht => ⟨isSpaced_tree h t ht, isChain_members h ht⟩

/-- The members of an enum adjoin on one line; a colon parts the enum from what follows it. -/
theorem separates_of_enum :
    ∃ f, ofSource "enum E\na b\nend enum : x = 1" = .ok f ∧ ∃ enum assignment a b,
      f.tree.children = [enum, assignment] ∧ Parted f.stream.tokens enum assignment ∧
        enum.children = [a, b] ∧ Adjoins f.stream.tokens a b := by
  have hshape : (ofSource "enum E\na b\nend enum : x = 1").toOption.any fun f =>
      f.tree.children.length = 2 ∧ f.tree.children.IsChain fun enum assignment =>
        assignment.kind.isComment = false ∧ enum.kind.listsMembers = true ∧
          enum.children.length = 2 ∧
            enum.children.IsChain fun a b => ¬ Parted f.stream.tokens a b := by
    decide +kernel
  obtain ⟨f, hf, hshape⟩ := exists_of_any hshape
  obtain ⟨hroot, hshape⟩ := of_decide_eq_true hshape
  obtain ⟨enum, assignment, hroot⟩ := List.length_eq_two.1 hroot
  rw [hroot, List.isChain_pair] at hshape
  obtain ⟨hcomment, hlists, hmembers, hnot⟩ := hshape
  obtain ⟨a, b, hmembers⟩ := List.length_eq_two.1 hmembers
  rw [hmembers, List.isChain_pair] at hnot
  have hbody : f.tree.kind = .body := by
    obtain ⟨-, items, rest, hmade⟩ := made_of_ofSource hf
    rw [hmade.tree_eq]
    rfl
  have henum : enum ∈ f.tree.preorder :=
    Tree.mem_preorder_of_child (hroot ▸ .head _) enum.self_mem_preorder
  have hstatements := (separates hf f.tree f.tree.self_mem_preorder).1 hbody
  have hadjoin := (separates hf enum henum).2 hlists
  rw [hroot, List.isChain_pair] at hstatements
  rw [hmembers, List.isChain_pair] at hadjoin
  refine ⟨f, hf, enum, assignment, a, b, hroot, hstatements.resolve_right ?_, hmembers,
    hadjoin.resolve_left hnot⟩
  rw [hcomment]
  nofun

/-- No separator parts the members of an enum that stand on one line. -/
theorem not_follows_member :
    ∃ f, ofSource "enum E\na b\nend enum" = .ok f ∧ ∃ t ∈ f.tree.preorder,
      t.kind.listsMembers = true ∧ ¬ t.children.IsChain (Follows f.stream.tokens) := by
  have hmembers : (ofSource "enum E\na b\nend enum").toOption.any fun f =>
      f.tree.preorder.any fun t =>
        t.kind.listsMembers && !decide (t.children.IsChain (Follows f.stream.tokens)) := by
    decide +kernel
  obtain ⟨f, hf, hmembers⟩ := exists_of_any hmembers
  exact ⟨f, hf, by simpa [List.any_eq_true] using hmembers⟩

end ParsedFile

end BrighterCheck
