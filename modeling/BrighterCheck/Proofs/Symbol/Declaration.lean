import BrighterCheck.Proofs.Tree.Shape
import BrighterCheck.Symbol.Registration

/-!
# Declarations

A declarative account of the symbols that the nodes of a tree declare. `Declares l S e` says that
the node `l` declares the symbol `e` in the scope `S`: most nodes in the scope around themselves or
around their parent, functions in a namespace at the root of the file as well, and functions and
methods in the function expression itself. The registrations of a node are its declarations
(`declares_iff`).
-/

namespace BrighterCheck

namespace Tree

variable {ι : Type} {t : Tree ι}

/-- The first child of a node, or the node itself if it has none. -/
def firstChild (t : Tree ι) : Tree ι :=
  t.children.headD t

lemma firstChild_eq {u : Tree ι} {more : List (Tree ι)} (h : t.children = u :: more) :
    t.firstChild = u := by
  rw [firstChild, h, List.headD_cons]

/-- The tokens of an identifier, or of a chain of dotted accesses to one, from left to right. -/
def nameTokens : Tree ι → List Token
  | ⟨_, .name t, _, _⟩ => [t]
  | ⟨_, .dottedGet _ t, _, object :: _⟩ => object.nameTokens ++ [t]
  | _ => []

/-- The type of a parameter: the one it has in the source, else that of its default value. -/
def parameterType (t : Tree ι) : Option Token → ScriptType
  | some type => .ofName type.text
  | none => (t.children.head?.map literalType).getD .dynamic

lemma parameter?_eq {name : Token} {type : Option Token} (hk : t.kind = .parameter name type) :
    t.parameter? = some (name.text, t.parameterType type) := by
  obtain ⟨id, kind, range, children⟩ := t
  cases hk
  cases type with
  | some type => rfl
  | none =>
    cases children with
    | nil => rfl
    | cons value more => rfl

/-- A node names a symbol of the scope around itself. -/
inductive Binds (t : NumberedTree) : Token → ScriptType → Prop where
  | assignment {name operator} : t.kind = .assignment name operator →
      Binds t name t.firstChild.literalType
  | counter {name operator} : t.kind = .counter name operator →
      Binds t name t.firstChild.literalType
  | forEach {keyword item} : t.kind = .forEachLoop keyword item → Binds t item .dynamic
  | dim {keyword name} : t.kind = .dim keyword name → Binds t name (.array .dynamic)
  | exception {keyword name} : t.kind = .catchClause keyword (some name) → Binds t name .dynamic
  | parameter {name type} : t.kind = .parameter name type → Binds t name (t.parameterType type)

/-- A node other than a function names a symbol of the scope around its parent. -/
inductive Introduces (t : NumberedTree) : Token → ScriptType → Prop where
  | enumeration {keyword name} : t.kind = .enumDeclaration keyword name →
      Introduces t name (.enumType name.text)
  | classes {keyword name parent} : t.kind = .classDeclaration keyword name parent →
      Introduces t name (.custom name.text)
  | interface {keyword name parent} : t.kind = .interfaceDeclaration keyword name parent →
      Introduces t name (.interfaceType [])
  | const {keyword name} : t.kind = .constDeclaration keyword name →
      Introduces t name t.firstChild.literalType
  /-- Of the name of a namespace, it is the leading segment. -/
  | leading {keyword name more} : t.kind = .namespaceDeclaration keyword →
      t.firstChild.nameTokens = name :: more → Introduces t name (.namespaceType name.text)

end Tree

namespace Located

variable {ι : Type}

/-- The namespaces around a node, outermost first. -/
def namespaces (l : Located ι) : List (Tree ι) :=
  l.ancestors.reverse.filter fun t => t.kind.isNamespace

/-- The segments of the names of all namespaces around a node, outermost first. -/
def namespaceSegments (l : Located ι) : List String :=
  l.namespaces.flatMap fun t => t.firstChild.nameTokens.map Token.text

/-- The name of a function behind the segments of the namespaces around it. -/
def flatName (l : Located ι) (name : Token) : String :=
  "_".intercalate (l.namespaceSegments ++ [name.text])

/-- A node declares a symbol in a scope. -/
inductive Declares (l : Located Nat) : Located Nat → SymbolEntry → Prop where
  | inner {name type} : l.node.Binds name type →
      Declares l l.scope ⟨name.text, some name.range, type⟩
  | outer {p name type} : l.parent? = some p → l.node.Introduces name type →
      Declares l p.scope ⟨name.text, some name.range, type⟩
  | function {p name} : l.parent? = some p → l.node.kind = .function name →
      Declares l p.scope
        ⟨name.text, some name.range, l.node.firstChild.signature (l.flatName name)⟩
  /-- A function in a namespace is found at the root of the file too. -/
  | flattened {name} : l.node.kind = .function name → l.namespaces ≠ [] →
      Declares l l.root
        ⟨l.flatName name, some name.range, l.node.firstChild.signature (l.flatName name)⟩
  | receiver {keyword returns} : l.node.kind = .functionExpression keyword returns →
      Declares l l ⟨"m", none, .dynamic⟩
  /-- The scope of `super` is the function expression of the method. -/
  | super {access overriding name} : l.node.kind = .method access overriding name →
      Declares l ⟨l.node.firstChild, l.node :: l.ancestors⟩ ⟨"super", none, .dynamic⟩

end Located

/-! ### Names of namespaces -/

/-- Texts that are joined group by group are joined in all. -/
lemma intercalate_map_intercalate (glue : String) {groups : List (List String)}
    (h : ∀ g ∈ groups, g ≠ []) :
    glue.intercalate (groups.map glue.intercalate) = glue.intercalate groups.flatten := by
  induction groups with
  | nil => rfl
  | cons g groups ih =>
    have hg : g ≠ [] := h g (.head _)
    have ih := ih fun g hg => h g (.tail _ hg)
    cases groups with
    | nil => simp
    | cons g' groups =>
      have hflat : (g' :: groups).flatten ≠ [] := by
        simp [h g' (.tail _ (.head _))]
      rw [List.map_cons, String.intercalate_cons_of_ne_nil (by simp), ih,
        ← String.intercalate_append_of_ne_nil hg hflat, ← List.flatten_cons]

/-- The dots between texts without dots can be replaced afterwards. -/
lemma map_intercalate_dot {texts : List String} (h : ∀ s ∈ texts, '.' ∉ s.toList) :
    (".".intercalate texts).map (fun c => if c = '.' then '_' else c) =
      "_".intercalate texts := by
  have hplain (s : String) (hs : '.' ∉ s.toList) :
      s.toList.map (fun c => if c = '.' then '_' else c) = s.toList := by
    have hc : ∀ c ∈ s.toList, (if c = '.' then '_' else c) = c :=
      fun c hc => if_neg (ne_of_mem_of_not_mem hc hs)
    rw [List.map_congr_left hc, List.map_id']
  apply String.toList_inj.1
  rw [String.toList_map]
  induction texts with
  | nil => rfl
  | cons s texts ih =>
    have hs := hplain s (h s (.head _))
    have ih := ih fun s hs => h s (.tail _ hs)
    cases texts with
    | nil => simpa using hs
    | cons s' texts =>
      rw [String.intercalate_cons_cons, String.intercalate_cons_cons]
      simp only [String.toList_append, List.map_append, hs, ih]
      rfl

/-- Steps that all succeed give all their results. -/
lemma mapM_eq_some_map {α β : Type} {f : α → Option β} {g : α → β} {xs : List α}
    (h : ∀ x ∈ xs, f x = some (g x)) : xs.mapM f = some (xs.map g) := by
  induction xs with
  | nil => rfl
  | cons x xs ih =>
    rw [List.mapM_cons, h x (.head _), ih fun y hy => h y (.tail _ hy)]
    rfl

namespace Tree.IsQualified

variable {ι : Type} {t : Tree ι}

/-- Every qualified name has tokens, and none of them has a dot in it. -/
lemma nameTokens (h : t.IsQualified) :
    t.nameTokens ≠ [] ∧ ∀ name ∈ t.nameTokens, name.IsPlain := by
  induction h with
  | name hp => exact ⟨nofun, fun name hn => List.mem_singleton.1 hn ▸ hp⟩
  | dotted _ hp ih =>
    refine ⟨by simp [Tree.nameTokens], fun name hn => ?_⟩
    rcases List.mem_append.1 hn with hn | hn
    · exact ih.2 name hn
    · exact List.mem_singleton.1 hn ▸ hp

/-- The text of a qualified name has dots between its tokens. -/
lemma dottedName?_eq (h : t.IsQualified) :
    t.dottedName? = some (".".intercalate (t.nameTokens.map Token.text)) := by
  induction h with
  | name => simp [dottedName?, Tree.nameTokens]
  | @dotted id dot name range object ho _ ih =>
    have hne : object.nameTokens.map Token.text ≠ [] := by
      simpa using ho.nameTokens.1
    simp [dottedName?, Tree.nameTokens, ih, String.intercalate_append_of_ne_nil hne,
      String.append_assoc]

lemma leadingName?_eq (h : t.IsQualified) : t.leadingName? = t.nameTokens.head? := by
  induction h with
  | name => rfl
  | @dotted id dot name range object ho _ ih =>
    rw [leadingName?, ih, Tree.nameTokens, List.head?_append_of_ne_nil _ ho.nameTokens.1]

end Tree.IsQualified

namespace Located

variable {t : NumberedTree} {l S : Located Nat} {e : SymbolEntry}

lemma node_mem_preorder (hl : l ∈ t.located) : l.node ∈ t.preorder :=
  Tree.mem_preorder_iff_located.2 ⟨l, hl, rfl⟩

/-- Every ancestor of a node is a node of the tree. -/
lemma mem_preorder_of_mem_ancestors (hl : l ∈ t.located) {u : NumberedTree}
    (hu : u ∈ l.ancestors) : u ∈ t.preorder := by
  obtain ⟨before, above, hs⟩ := List.append_of_mem hu
  exact node_mem_preorder (Tree.ancestor_mem_located hl ⟨before, hs.symm⟩)

/-- The name of a namespace is its first child. -/
lemma isQualified_of_mem_namespaces (h : t.IsScript) (hl : l ∈ t.located) {n : NumberedTree}
    (hn : n ∈ l.namespaces) : n.children.head? = some n.firstChild ∧ n.firstChild.IsQualified := by
  obtain ⟨hmem, hkind⟩ := List.mem_filter.1 hn
  have hshaped := h.isShaped n (mem_preorder_of_mem_ancestors hl (List.mem_reverse.1 hmem))
  obtain ⟨id, kind, range, children⟩ := n
  cases kind with
  | namespaceDeclaration =>
    obtain ⟨name, body, rfl, hq⟩ := hshaped
    exact ⟨rfl, hq⟩
  | _ => cases hkind

/-- The names of the namespaces around a node are the texts of their segments. -/
lemma namespaceNames?_eq (h : t.IsScript) (hl : l ∈ t.located)
    (hk : l.node.kind.isNamespace = false) :
    l.namespaceNames? = some (l.namespaces.map fun n =>
      ".".intercalate (n.firstChild.nameTokens.map Token.text)) := by
  have hself : l.selfAndAncestors.reverse.filter (fun t => t.kind.isNamespace) = l.namespaces := by
    simp [selfAndAncestors, namespaces, hk]
  have hname : ∀ n ∈ l.namespaces, n.children.head?.bind Tree.dottedName? =
      some (".".intercalate (n.firstChild.nameTokens.map Token.text)) := by
    intro n hn
    obtain ⟨hchild, hq⟩ := isQualified_of_mem_namespaces h hl hn
    rw [hchild, Option.bind_some, hq.dottedName?_eq]
  rw [namespaceNames?, hself]
  exact mapM_eq_some_map hname

/-- Every namespace has a name. -/
lemma namespaceSegments_ne_nil (h : t.IsScript) (hl : l ∈ t.located) (hn : l.namespaces ≠ []) :
    l.namespaceSegments ≠ [] := by
  obtain ⟨n, more, he⟩ := List.exists_cons_of_ne_nil hn
  have hmem : n ∈ l.namespaces := he ▸ .head _
  have hq := (isQualified_of_mem_namespaces h hl hmem).2
  simp [namespaceSegments, he, hq.nameTokens.1]

/-- Inside namespaces, the flattened name of a function joins all segments with its own name. -/
lemma flattenedName_eq (h : t.IsScript) (hl : l ∈ t.located) (hn : l.namespaces ≠ [])
    (name : Token) :
    flattenedName (l.namespaces.map fun n =>
      ".".intercalate (n.firstChild.nameTokens.map Token.text)) name.text = l.flatName name := by
  have hq : ∀ n ∈ l.namespaces, n.firstChild.IsQualified :=
    fun n hmem => (isQualified_of_mem_namespaces h hl hmem).2
  have hgroup : ∀ g ∈ l.namespaces.map fun n => n.firstChild.nameTokens.map Token.text,
      g ≠ [] := by
    intro g hg
    obtain ⟨n, hmem, rfl⟩ := List.mem_map.1 hg
    simpa using (hq n hmem).nameTokens.1
  have hplain : ∀ s ∈ l.namespaceSegments, '.' ∉ s.toList := by
    intro s hs
    obtain ⟨n, hmem, hs⟩ := List.mem_flatMap.1 hs
    obtain ⟨token, htoken, rfl⟩ := List.mem_map.1 hs
    exact (hq n hmem).nameTokens.2 token htoken
  have hjoin := intercalate_map_intercalate "." hgroup
  rw [List.map_map, ← List.flatMap_def] at hjoin
  rw [flattenedName, flatName,
    String.intercalate_append_of_ne_nil (namespaceSegments_ne_nil h hl hn) (by simp),
    String.intercalate_singleton, ← map_intercalate_dot hplain, namespaceSegments, ← hjoin]
  rfl

/-- A named function is declared around it and, inside namespaces, at the root of the file. -/
lemma functionSymbols_eq (h : t.IsScript) (hl : l ∈ t.located)
    (hk : l.node.kind.isNamespace = false) (name : Token) (f : NumberedTree) :
    l.functionSymbols name f =
      l.declareOutside name (f.signature (l.flatName name)) ++
        if l.namespaces = [] then []
        else [⟨l.root,
          ⟨l.flatName name, some name.range, f.signature (l.flatName name)⟩, false⟩] := by
  rw [functionSymbols, namespaceNames?_eq h hl hk]
  cases hn : l.namespaces with
  | nil =>
    have hname : l.flatName name = name.text := by simp [flatName, namespaceSegments, hn]
    simp [hname]
  | cons n more =>
    -- The segments have no dots in them, so that replacing dots joins them by underscores.
    have hflat := flattenedName_eq h hl (hn ▸ List.cons_ne_nil n more) name
    rw [hn] at hflat
    simp only [List.map_cons, List.cons_ne_nil, if_false] at hflat ⊢
    rw [hflat]

/-! ### Registrations are declarations -/

/-- A function expression is a scope. -/
lemma scope_of_isFunction (hf : l.node.IsFunction) : l.scope = l := by
  obtain ⟨f, above⟩ := l
  obtain ⟨keyword, returns, hk⟩ := hf
  cases above with
  | nil => rfl
  | cons p above =>
    dsimp only at hk
    exact if_pos (by rw [hk]; rfl)

lemma mem_declareOutside {r : Registration} {name : Token} {type : ScriptType} :
    r ∈ l.declareOutside name type ↔ ∃ p, l.parent? = some p ∧ r = p.declare name type := by
  simp [declareOutside, eq_comm]

/-- What a node registers is what it declares. -/
lemma declares_of_mem_registrations (h : t.IsScript) (hl : l ∈ t.located) {r : Registration}
    (hr : r ∈ l.registrations) : l.Declares r.place.scope r.entry := by
  have hshaped := h.isShaped l.node (node_mem_preorder hl)
  unfold registrations at hr
  split at hr
  case h_1 name operator value hk hc =>
    cases List.mem_singleton.1 hr
    exact .inner (Tree.firstChild_eq hc ▸ .assignment hk)
  case h_2 name operator value hk hc =>
    cases List.mem_singleton.1 hr
    exact .inner (Tree.firstChild_eq hc ▸ .counter hk)
  case h_3 keyword item hk =>
    cases List.mem_singleton.1 hr
    exact .inner (.forEach hk)
  case h_4 keyword name hk =>
    cases List.mem_singleton.1 hr
    exact .inner (.dim hk)
  case h_5 keyword name hk =>
    cases List.mem_singleton.1 hr
    exact .inner (.exception hk)
  case h_6 name type hk =>
    cases List.mem_singleton.1 hr
    rw [Tree.parameter?_eq hk]
    exact .inner (.parameter hk)
  case h_7 keyword returns hk =>
    cases List.mem_singleton.1 hr
    exact (scope_of_isFunction ⟨keyword, returns, hk⟩).symm ▸ .receiver hk
  case h_8 access overriding name f hk hc =>
    cases List.mem_singleton.1 hr
    -- The child is a function expression, so that it is the scope of `super` itself.
    obtain ⟨f', hc', hf⟩ : ∃ f', l.node.children = [f'] ∧ f'.IsFunction := by
      simpa [Tree.IsShaped, hk] using hshaped
    cases hc.symm.trans hc'
    have hs : l.Declares _ _ := .super hk
    rw [Tree.firstChild_eq hc] at hs
    exact (scope_of_isFunction (l := ⟨f, l.node :: l.ancestors⟩) hf).symm ▸ hs
  case h_9 keyword name hk =>
    obtain ⟨p, hp, rfl⟩ := mem_declareOutside.1 hr
    exact .outer hp (.enumeration hk)
  case h_10 keyword name parent hk =>
    obtain ⟨p, hp, rfl⟩ := mem_declareOutside.1 hr
    exact .outer hp (.classes hk)
  case h_11 keyword name parent hk =>
    obtain ⟨p, hp, rfl⟩ := mem_declareOutside.1 hr
    exact .outer hp (.interface hk)
  case h_12 keyword name value hk hc =>
    obtain ⟨p, hp, rfl⟩ := mem_declareOutside.1 hr
    exact .outer hp (Tree.firstChild_eq hc ▸ .const hk)
  case h_13 keyword name more hk hc =>
    -- The leading name is there, as the name of a namespace is qualified.
    unfold namespaceSymbols at hr
    split at hr
    case h_1 leading hleading =>
      obtain ⟨p, hp, rfl⟩ := mem_declareOutside.1 hr
      obtain ⟨name', body, hc', hq⟩ : ∃ name' body, l.node.children = [name', body] ∧
          name'.IsQualified := by
        simpa [Tree.IsShaped, hk] using hshaped
      cases hc.symm.trans hc'
      rw [hq.leadingName?_eq] at hleading
      obtain ⟨more, hmore⟩ := List.head?_eq_some_iff.1 hleading
      exact .outer hp (.leading hk (Tree.firstChild_eq hc ▸ hmore))
    case h_2 => cases hr
  case h_14 name _ _ _ _ _ hk hc =>
    rw [functionSymbols_eq h hl (by rw [hk]; rfl)] at hr
    rcases List.mem_append.1 hr with hr | hr
    · obtain ⟨p, hp, rfl⟩ := mem_declareOutside.1 hr
      exact Tree.firstChild_eq hc ▸ .function hp hk
    · split at hr
      case isTrue => cases hr
      case isFalse hn =>
        cases List.mem_singleton.1 hr
        exact Tree.firstChild_eq hc ▸ .flattened hk hn
  case h_15 => cases hr

/-- What a node names in the scope around itself, it registers there. -/
lemma declare_mem_registrations (h : t.IsScript) (hl : l ∈ t.located) {name : Token}
    {type : ScriptType} (hb : l.node.Binds name type) : l.declare name type ∈ l.registrations := by
  have hshaped := h.isShaped l.node (node_mem_preorder hl)
  rw [Tree.IsShaped] at hshaped
  cases hb with
  | assignment hk | counter hk =>
    simp only [hk] at hshaped
    obtain ⟨value, hc⟩ := hshaped
    simp [registrations, hk, hc, Tree.firstChild]
  | forEach hk | dim hk | exception hk => simp [registrations, hk]
  | parameter hk => simp [registrations, hk, Tree.parameter?_eq hk]

/-- What a node names in the scope around its parent, it registers there. -/
lemma declareOutside_subset_registrations (h : t.IsScript) (hl : l ∈ t.located) {name : Token}
    {type : ScriptType} (hi : l.node.Introduces name type) :
    l.declareOutside name type ⊆ l.registrations := by
  have hshaped := h.isShaped l.node (node_mem_preorder hl)
  rw [Tree.IsShaped] at hshaped
  cases hi with
  | enumeration hk | classes hk | interface hk => simp [registrations, hk]
  | const hk =>
    simp only [hk] at hshaped
    obtain ⟨value, hc⟩ := hshaped
    simp [registrations, hk, hc, Tree.firstChild]
  | @leading keyword name more hk hn =>
    simp only [hk] at hshaped
    obtain ⟨name', body, hc, hq⟩ := hshaped
    have hleading : name'.leadingName? = some name := by
      rw [hq.leadingName?_eq, ← Tree.firstChild_eq hc, hn]
      rfl
    simp [registrations, hk, hc, namespaceSymbols, hleading]

/-- A named function is given by the function expression below it. -/
lemma registrations_function (h : t.IsScript) (hl : l ∈ t.located) {name : Token}
    (hk : l.node.kind = .function name) :
    l.registrations = l.functionSymbols name l.node.firstChild := by
  have hshaped := h.isShaped l.node (node_mem_preorder hl)
  rw [Tree.IsShaped] at hshaped
  simp only [hk] at hshaped
  obtain ⟨⟨id, kind, range, parts⟩, hc, keyword, returns, hf⟩ := hshaped
  cases hf
  simp only [registrations, hk, hc, Tree.firstChild_eq hc]

/-- What a node declares, it registers. -/
lemma exists_mem_registrations (h : t.IsScript) (hl : l ∈ t.located) (hd : l.Declares S e) :
    ∃ r ∈ l.registrations, r.place.scope = S ∧ r.entry = e := by
  have hshaped := h.isShaped l.node (node_mem_preorder hl)
  rw [Tree.IsShaped] at hshaped
  cases hd with
  | inner hb => exact ⟨_, declare_mem_registrations h hl hb, rfl, rfl⟩
  | @outer p name type hp hi =>
    exact ⟨p.declare name type, declareOutside_subset_registrations h hl hi
      (mem_declareOutside.2 ⟨p, hp, rfl⟩), rfl, rfl⟩
  | @function p name hp hk =>
    refine ⟨p.declare name (l.node.firstChild.signature (l.flatName name)), ?_, rfl, rfl⟩
    rw [registrations_function h hl hk, functionSymbols_eq h hl (by rw [hk]; rfl)]
    exact List.mem_append_left _ (mem_declareOutside.2 ⟨p, hp, rfl⟩)
  | @flattened name hk hn =>
    refine ⟨⟨l.root, ⟨l.flatName name, some name.range,
      l.node.firstChild.signature (l.flatName name)⟩, false⟩, ?_, rfl, rfl⟩
    rw [registrations_function h hl hk, functionSymbols_eq h hl (by rw [hk]; rfl), if_neg hn]
    exact List.mem_append_right _ (List.mem_singleton.2 rfl)
  | @receiver keyword returns hk =>
    refine ⟨{ l.declareImplicit "m" with yields := true }, by simp [registrations, hk], ?_, rfl⟩
    exact scope_of_isFunction ⟨keyword, returns, hk⟩
  | super hk =>
    simp only [hk] at hshaped
    obtain ⟨f, hc, hf⟩ := hshaped
    refine ⟨declareImplicit ⟨f, l.node :: l.ancestors⟩ "super", by simp [registrations, hk, hc],
      ?_, rfl⟩
    rw [Tree.firstChild_eq hc]
    exact scope_of_isFunction (l := ⟨f, l.node :: l.ancestors⟩) hf

/-- What a node declares is what it registers. -/
theorem declares_iff (h : t.IsScript) (hl : l ∈ t.located) :
    l.Declares S e ↔ ∃ r ∈ l.registrations, r.place.scope = S ∧ r.entry = e := by
  constructor
  · exact exists_mem_registrations h hl
  · intro hr
    obtain ⟨r, hr, rfl, rfl⟩ := hr
    exact declares_of_mem_registrations h hl hr

end Located

end BrighterCheck
