import BrighterCheck.Proofs.Tree.Alignment

/-!
# Words and contents in trees

Strings, comments and the messages of `#error` have contents; the texts of all other tokens are
words and marks. The nodes of a file hold no line ends, and only literals, keys, paths, comments and
errors hold tokens with contents, whatever the file was read from (`Reads.worded`).
-/

namespace BrighterCheck

open BrighterCheck.Parser Item

namespace TokenKind

/-- Kinds of tokens with contents. -/
def hasContents : TokenKind → Bool
  | .literal .string | .comment | .directive .error => true
  | _ => false

/-- Kinds of tokens that are neither contents nor line ends. -/
def isWord (k : TokenKind) : Bool :=
  !k.hasContents && decide (k ≠ .newline)

/-- A class of kinds without contents and line ends is one of words. -/
lemma isWord_of {p : TokenKind → Bool} {k : TokenKind} (h : p k = true)
    (hp : [.newline, .literal .string, .comment, .directive .error].all (fun k => !p k) = true) :
    k.isWord = true := by
  simp only [List.all_cons, List.all_nil, Bool.and_true, Bool.and_eq_true, Bool.not_eq_true']
    at hp
  obtain ⟨hnewline, hstring, hcomment, herror⟩ := hp
  cases k with
  | newline =>
    rw [hnewline] at h
    cases h
  | comment =>
    rw [hcomment] at h
    cases h
  | literal l =>
    cases l with
    | string =>
      rw [hstring] at h
      cases h
    | _ => rfl
  | directive d =>
    cases d with
    | error =>
      rw [herror] at h
      cases h
    | _ => rfl
  | _ => rfl

end TokenKind

namespace NodeKind

/-- Every token that a node holds. -/
def allTokens (kind : NodeKind) : List Token :=
  kind.tokens ++
    match kind with
    | .interfaceMethod _ _ parameters _ => parameters.flatMap fun q => q.name :: q.type.toList
    | _ => []

/-- Nodes that may hold tokens with contents. -/
def hasContents : NodeKind → Bool
  | .comment _ | .conditionalError _ | .literal _ | .recordMember _ | .library .. |
    .importStatement .. => true
  | _ => false

/-- A node holds words only, and tokens with contents where its kind has contents. -/
def IsWorded (kind : NodeKind) : Prop :=
  ∀ t ∈ kind.allTokens,
    t.kind.isWord = true ∨ t.kind.hasContents = true ∧ kind.hasContents = true

end NodeKind

variable {c : Category} {kind : NodeKind} {range : Option Range} {items : List Item}
  {t : NumberedTree}

lemma Typed.isWord {mark : Keyword} {type : Option Token} (h : Typed mark type items) :
    ∀ t ∈ type, t.kind.isWord = true := by
  cases h with
  | none => exact fun t ht => absurd ht (Option.not_mem_none t)
  | some _ ht =>
    intro u hu
    cases hu
    rw [ht]
    rfl

section Simp

attribute [local simp] NodeKind.IsWorded NodeKind.allTokens NodeKind.tokens NodeKind.hasContents
  TokenKind.isWord TokenKind.hasContents

/-- A node is worded if it is no arm that starts with contents. -/
lemma Production.isWorded (h : Production c kind range items)
    (hc : ∀ form word, c = .arm form word → word.isWord = true) : kind.IsWorded := by
  cases h with
  | @arm form =>
    have hword := hc form _ rfl
    cases form <;> simp_all [ArmForm.kind]
  | increment h =>
    have hword := TokenKind.isWord_of h (by decide)
    simp_all
  | print h => rcases h with h | h <;> simp_all
  | extended h _ hx =>
    cases h with
    | exitLoop | continueLoop =>
      have hloop := fun t ht => TokenKind.isWord_of (hx t ht) (by decide)
      simp_all
    | library | importStatement => simp_all
  | single h => cases h <;> simp_all
  | named h => cases h <;> simp_all
  | classDeclaration _ _ ht | interfaceDeclaration _ _ ht | interfaceField _ ht
  | parameter _ _ ht =>
    have htype := ht.isWord
    simp_all
  | functionExpression _ hk _ _ _ _ ht =>
    have hword := TokenKind.isWord_of hk (by decide)
    have htype := ht.isWord
    simp_all
  | interfaceMethod hk _ _ _ ht hqs =>
    have hword := TokenKind.isWord_of hk (by decide)
    have htype := ht.isWord
    have hname := fun q hq => (hqs q hq).1
    have htypes := fun q hq => (hqs q hq).2
    simp_all [or_imp, forall_and]
    grind
  | method ha ho _ =>
    have haccess := fun t ht => TokenKind.isWord_of (ha t ht) (by decide)
    simp_all [or_imp, forall_and]
  | field ha ho _ ht =>
    have haccess := fun t ht => TokenKind.isWord_of (ha t ht) (by decide)
    have htype := ht.isWord
    simp_all [or_imp, forall_and]
  | unary h | binary h | dottedGet h =>
    have hword := TokenKind.isWord_of h (by decide)
    simp_all
  | recordMember h => rcases h with h | h <;> simp_all
  | indexedGet h => cases h <;> simp_all
  | @literal t h =>
    cases hk : t.kind with
    | literal l => cases l <;> simp_all
    | keyword => simp_all
    | _ =>
      rw [hk] at h
      cases h
  | _ => simp_all

/-- An assignment holds the tokens of its target, and its operator. -/
lemma assignment?_isWorded {target value : NumberedTree} {op : Token}
    (h : assignment? target op value = some t) (ht : target.kind.IsWorded)
    (ho : isAssignment op.kind = true) : t.kind.IsWorded := by
  have hword := TokenKind.isWord_of ho (by decide)
  unfold assignment? at h
  split at h
  case h_1 hk | h_2 hk | h_3 hk =>
    cases h
    simp_all [or_imp, forall_and]
  case h_4 => cases h

end Simp

/-- Every node of a tree is worded, unless the tree is an arm that starts with contents. -/
def Worded (c : Category) (t : NumberedTree) : Prop :=
  (∀ form word, c = .arm form word → word.isWord = true) → ∀ u ∈ t.preorder, u.kind.IsWorded

/-- The arms inside a node start with `if`, so a node is worded with its parts. -/
lemma Production.worded {id : Nat} (h : Production c kind range items)
    (hi : ∀ d t, .node d t ∈ items → Worded d t) : Worded c ⟨id, kind, range, nodes items⟩ := by
  intro hc u hu
  rcases Tree.mem_preorder.1 hu with rfl | hu
  · exact h.isWorded hc
  · obtain ⟨v, hv, hu⟩ := Tree.mem_preorderAll.1 hu
    obtain ⟨d, hmem⟩ := mem_nodes.1 hv
    apply hi d v hmem _ u hu
    intro form word hd
    subst hd
    rw [h.word_eq hmem]
    rfl

/-- The first arm of a conditional starts with a word. -/
lemma ArmForm.isWord_first (form : ArmForm) : form.first.isWord = true := by
  cases form <;> rfl

/-- The end of a conditional changes its range only. -/
lemma Worded.extend (h : Worded c t) (hc : ∀ form word, c = .arm form word → word.isWord = true)
    (r : Range) : Worded .statement (t.extend r) := by
  intro _ u hu
  rcases Tree.mem_preorder.1 hu with rfl | hu
  · exact h hc t t.self_mem_preorder
  · exact h hc u (Tree.mem_preorder.2 (.inr hu))

/-- What is assigned to and what is assigned are worded, so the assignment is. -/
lemma worded_assignment {target value : NumberedTree} {op : Token}
    (ha : assignment? target op value = some t) (ht : Worded .expression target)
    (ho : isAssignment op.kind = true) (hv : Worded .expression value) :
    Worded .statement t := by
  intro _ u hu
  rcases Tree.mem_preorder.1 hu with rfl | hu
  · exact assignment?_isWorded ha (ht nofun target target.self_mem_preorder) ho
  · obtain ⟨v, hv', hu⟩ := Tree.mem_preorderAll.1 hu
    rcases (assignment?_parts ha).2.2 v hv' with hmem | rfl
    · exact ht nofun u (Tree.mem_preorder_of_child hmem hu)
    · exact hv nofun u hu

lemma inherits_worded (stream : List Token) : Inherits stream Worded where
  made _ _ hp hi := hp.worded hi
  assigned _ _ ho _ ha ht hv := worded_assignment ha ht ho hv
  inlined h _ := h fun _ _ hc => by cases hc; rfl
  closed _ _ hp _ _ hi := (hp.worded hi).extend (fun _ _ hc => by
    cases hc
    exact ArmForm.isWord_first _) _

/-- All nodes that are read are worded. -/
theorem Reads.worded {s s' : Reading} (h : Reads s items s') :
    ∀ c t, .node c t ∈ items → Worded c t :=
  h.forall_node (inherits_worded s.tokens) (List.suffix_refl _)

/-- The nodes of a file hold no line ends, and contents only where their kinds have them. -/
theorem ParsedFile.isWorded {source : String} {f : ParsedFile} (h : ofSource source = .ok f) :
    ∀ t ∈ f.tree.preorder, t.kind.IsWorded := by
  obtain ⟨-, items, rest, hm⟩ := made_of_ofSource h
  have hbody : Production .body .body (Range.bounding ((nodes items).map Tree.range)) items :=
    .body hm.lists
  rw [hm.tree_eq]
  exact hbody.worded hm.reads.worded nofun

end BrighterCheck
