import BrighterCheck.Proofs.Rule.Relabel
import BrighterCheck.Proofs.Rule.Validation
import BrighterCheck.Symbol.Registration

/-!
# Symbols of relabelled trees

The symbols of a tree are named and typed by words. So a tree in which nothing but texts looks
different has its symbols at the same places, with names and types that look different in the same
way (`registrations_relabel`).
-/

namespace BrighterCheck

open Ascii Relabel

namespace ScriptType

mutual

/-- A type with other names in it. -/
def rename (f : String → String) : ScriptType → ScriptType
  | .function name parameters returns isSub =>
    .function (name.map f) (renameAll f parameters) (rename f returns) isSub
  | .interfaceType members => .interfaceType (renameAll f members)
  | .custom name => .custom (f name)
  | .enumType name => .enumType (f name)
  | .array element => .array (rename f element)
  | .namespaceType name => .namespaceType (f name)
  | .dynamic => .dynamic
  | .boolean => .boolean
  | .integer => .integer
  | .longInteger => .longInteger
  | .float => .float
  | .double => .double
  | .string => .string
  | .object => .object
  | .invalid => .invalid
  | .void => .void

/-- Names with their types, with other names in both. -/
def renameAll (f : String → String) : List (String × ScriptType) → List (String × ScriptType)
  | [] => []
  | (name, type) :: rest => (f name, rename f type) :: renameAll f rest

end

variable {f : String → String}

lemma renameAll_eq_map (parameters : List (String × ScriptType)) :
    renameAll f parameters = parameters.map (Prod.map f (rename f)) := by
  induction parameters with
  | nil => rfl
  | cons parameter rest ih => rw [renameAll, ih, List.map_cons, Prod.map]

mutual

/-- Without other names a type stays as it is. -/
theorem rename_eq_self (hf : ∀ s, f s = s) : (type : ScriptType) → type.rename f = type
  | .function name parameters returns isSub => by
    have hname : name.map f = name := by
      rw [show f = id from funext hf, Option.map_id_fun, id]
    rw [rename, hname, renameAll_eq_self hf parameters, rename_eq_self hf returns]
  | .interfaceType members => by rw [rename, renameAll_eq_self hf members]
  | .custom name => by rw [rename, hf]
  | .enumType name => by rw [rename, hf]
  | .array element => by rw [rename, rename_eq_self hf element]
  | .namespaceType name => by rw [rename, hf]
  | .dynamic => rfl
  | .boolean => rfl
  | .integer => rfl
  | .longInteger => rfl
  | .float => rfl
  | .double => rfl
  | .string => rfl
  | .object => rfl
  | .invalid => rfl
  | .void => rfl

theorem renameAll_eq_self (hf : ∀ s, f s = s) :
    (parameters : List (String × ScriptType)) → renameAll f parameters = parameters
  | [] => rfl
  | (name, type) :: rest => by
    rw [renameAll, hf, rename_eq_self hf type, renameAll_eq_self hf rest]

end

/-- A name stands for a built-in type in any letter case. -/
lemma ofName_rename {name : String} (hf : lower (f name) = lower name) :
    ofName (f name) = (ofName name).rename f := by
  unfold ofName
  rw [hf]
  split <;> rfl

end ScriptType

/-- The same symbol in a source that looks different. -/
def SymbolEntry.relabel (r : Relabel) (e : SymbolEntry) : SymbolEntry :=
  ⟨r.text .identifier e.name, e.range, e.type.rename (r.text .identifier)⟩

def Registration.relabel (r : Relabel) (x : Registration) : Registration :=
  ⟨r.located x.place, x.entry.relabel r, x.yields⟩

variable {r : Relabel}

namespace Tree

variable {t : NumberedTree}

lemma literalType_relabel (t : NumberedTree) :
    (r.tree t).literalType = t.literalType.rename (r.text .identifier) := by
  have hdynamic : ScriptType.ofName "dynamic" =
      (ScriptType.ofName "dynamic").rename (r.text .identifier) := rfl
  have hbuiltin (k : TokenKind) : ScriptType.ofName k.literalTypeName =
      (ScriptType.ofName k.literalTypeName).rename (r.text .identifier) := by
    cases k with
    | literal l => cases l <;> rfl
    | keyword w => cases w <;> rfl
    | _ => exact hdynamic
  rw [literalType, literalType, literal?_relabel]
  cases t.literal? with
  | none => rfl
  | some found => exact hbuiltin found.1.kind

/-- The name of a type after `as` is a word. -/
lemma ofName_relabel {type : Token} (h : r.KeepsWord type) :
    ScriptType.ofName (r.token type).text =
      (ScriptType.ofName type.text).rename (r.text .identifier) := by
  rw [h.text_token, ScriptType.ofName_rename h.lower_text]

lemma parameter?_relabel (h : r.KeepsWords t) :
    (r.tree t).parameter? = t.parameter?.map
      (Prod.map (r.text .identifier) (ScriptType.rename (r.text .identifier))) := by
  have hwords := h.keepsWord
  obtain ⟨id, kind, range, children⟩ := t
  rw [tree_mk]
  cases kind with
  | parameter name type =>
    have hname : (r.token name).text = _ := (hwords rfl name (.head _)).text_token
    cases type with
    | some type =>
      have htype := ofName_relabel (hwords rfl type (.tail _ (.head _)))
      exact congrArg some (Prod.ext hname htype)
    | none =>
      cases children with
      | nil => exact congrArg some (Prod.ext hname rfl)
      | cons value rest => exact congrArg some (Prod.ext hname (literalType_relabel value))
  | _ => rfl

lemma signature_relabel (h : r.KeepsWords t) (name : String) :
    (r.tree t).signature (r.text .identifier name) =
      (t.signature name).rename (r.text .identifier) := by
  obtain ⟨id, kind, range, children⟩ := t
  cases kind with
  | functionExpression keyword returns =>
    have hwords := h.keepsWord
    have hparts : (children.map r.tree).filterMap parameter? =
        (children.filterMap parameter?).map
          (Prod.map (r.text .identifier) (ScriptType.rename (r.text .identifier))) := by
      rw [List.filterMap_map, List.map_filterMap]
      exact List.filterMap_congr fun u hu => parameter?_relabel (h.child hu)
    have hreturns : returnType (r.token keyword) (returns.map r.token) =
        (returnType keyword returns).rename (r.text .identifier) := by
      cases returns with
      | some type => exact ofName_relabel (hwords rfl type (.tail _ (.head _)))
      | none =>
        by_cases hsub : keyword.kind = .keyword .subKw
        · simp [returnType, hsub, ScriptType.rename]
        · simp [returnType, hsub, ScriptType.rename]
    rw [tree_mk]
    simp only [signature, Relabel.kind, ScriptType.rename, ScriptType.renameAll_eq_map, hparts,
      hreturns, token_kind, Option.map_some]
    rfl
  | _ => rfl

lemma dottedName?_relabel (h : r.KeepsWords t) :
    (r.tree t).dottedName? = t.dottedName?.map (r.text .identifier) := by
  induction t using Tree.induction with
  | node t ih =>
    have hwords := h.keepsWord
    have hchild := fun u hu => ih u hu (h.child hu)
    obtain ⟨id, kind, range, children⟩ := t
    cases kind with
    | name name => exact congrArg some (hwords rfl name (.head _)).text_token
    | dottedGet dot name =>
      cases children with
      | nil => rfl
      | cons object rest =>
        have hname := (hwords rfl name (.tail _ (.head _))).text_token
        show (r.tree object).dottedName?.map (· ++ "." ++ (r.token name).text) = _
        rw [hchild object (.head _), hname, Option.map_map]
        show _ = (object.dottedName?.map (· ++ "." ++ name.text)).map (r.text .identifier)
        rw [Option.map_map]
        congr 1
        funext objectName
        exact (r.text_dotted objectName name.text).symm
    | _ => rfl

lemma leadingName?_relabel (t : NumberedTree) :
    (r.tree t).leadingName? = t.leadingName?.map r.token := by
  induction t using Tree.induction with
  | node t ih =>
    obtain ⟨id, kind, range, children⟩ := t
    cases kind with
    | dottedGet dot name =>
      cases children with
      | nil => rfl
      | cons object rest => exact ih object (.head _)
    | _ => rfl

/-- The first name of a chain of names is a word. -/
lemma keepsWord_leadingName (h : r.KeepsWords t) {leading : Token}
    (hl : t.leadingName? = some leading) : r.KeepsWord leading := by
  induction t using Tree.induction with
  | node t ih =>
    have hwords := h.keepsWord
    have hchild := fun u hu => ih u hu (h.child hu)
    obtain ⟨id, kind, range, children⟩ := t
    cases kind with
    | name name =>
      cases hl
      exact hwords rfl leading (.head _)
    | dottedGet dot name =>
      cases children with
      | nil => cases hl
      | cons object rest => exact hchild object (.head _) hl
    | _ => cases hl

end Tree

namespace Located

lemma scope_relabel (l : Located Nat) : (r.located l).scope = r.located l.scope := by
  obtain ⟨node, ancestors⟩ := l
  show scopeFrom (r.tree node) (ancestors.map r.tree) = r.located (scopeFrom node ancestors)
  induction ancestors generalizing node with
  | nil => rfl
  | cons parent above ih =>
    have hopens := opensScope_relabel (r := r) node.kind (parent :: above)
    simp only [List.map_cons, scopeFrom, tree_kind] at hopens ⊢
    rw [hopens]
    split
    case isTrue => rfl
    case isFalse => exact ih parent

lemma parent?_relabel (l : Located Nat) : (r.located l).parent? = l.parent?.map r.located := by
  obtain ⟨node, ancestors⟩ := l
  cases ancestors <;> rfl

lemma outerScope?_relabel (l : Located Nat) :
    (r.located l).outerScope? = l.outerScope?.map r.located := by
  have hscope : Located.scope ∘ r.located = r.located ∘ Located.scope := funext scope_relabel
  rw [outerScope?, scope_relabel, parent?_relabel, Option.map_map, hscope, ← Option.map_map]
  rfl

lemma root_relabel (l : Located Nat) : (r.located l).root = r.located l.root := by
  simp only [root, Relabel.located, List.getLastD_eq_getLast?, List.getLast?_map]
  cases l.ancestors.getLast? <;> rfl

variable {l : Located Nat}

lemma namespaceNames?_relabel (h : l.KeepsWords r) :
    (r.located l).namespaceNames? =
      l.namespaceNames?.map (List.map (r.text .identifier)) := by
  have hall : (r.located l).selfAndAncestors = l.selfAndAncestors.map r.tree := rfl
  have hname : ∀ t ∈ l.selfAndAncestors, (r.tree t).children.head?.bind Tree.dottedName? =
      (t.children.head?.bind Tree.dottedName?).map (r.text .identifier) := by
    intro t ht
    rw [tree_children, List.head?_map]
    cases hc : t.children with
    | nil => rfl
    | cons name rest =>
      exact Tree.dottedName?_relabel ((h t ht).child (hc ▸ .head _))
  have hmap (f g : NumberedTree → Option String) (ts : List NumberedTree)
      (hts : ∀ t ∈ ts, g t = (f t).map (r.text .identifier)) :
      ts.mapM g = (ts.mapM f).map (List.map (r.text .identifier)) := by
    induction ts with
    | nil => rfl
    | cons t ts ih =>
      rw [List.mapM_cons, List.mapM_cons, ih fun u hu => hts u (.tail _ hu), hts t (.head _)]
      cases f t with
      | none => rfl
      | some name => cases ts.mapM f <;> rfl
  simp only [namespaceNames?, hall, ← List.map_reverse, List.filter_map, List.mapM_map,
    Function.comp_def, tree_kind, Tree.isNamespace_relabel]
  exact hmap _ _ _ fun t ht => hname t (List.mem_reverse.1 (List.mem_filter.1 ht).1)

end Located

/-- Names that the source does not spell out look alike. -/
structure Relabel.KeepsNames (r : Relabel) : Prop where
  text_m : r.text .identifier "m" = "m"
  text_super : r.text .identifier "super" = "super"
  text_flattened : ∀ namespaces name, r.text .identifier (Located.flattenedName namespaces name) =
    Located.flattenedName (namespaces.map (r.text .identifier)) (r.text .identifier name)

namespace Located

variable {l : Located Nat} {token : Token}

section InPlace

variable (hr : r.InPlace)

include hr

lemma declare_relabel (h : r.KeepsWord token) (l : Located Nat) {type type' : ScriptType}
    (htype : type' = type.rename (r.text .identifier)) :
    (r.located l).declare (r.token token) type' = (l.declare token type).relabel r := by
  rw [declare, h.text_token, hr.token_range, htype]
  rfl

omit hr in
lemma declareImplicit_relabel {name : String} (h : r.text .identifier name = name)
    (l : Located Nat) :
    (r.located l).declareImplicit name = (l.declareImplicit name).relabel r := by
  have hentry : (⟨name, none, .dynamic⟩ : SymbolEntry) =
      SymbolEntry.relabel r ⟨name, none, .dynamic⟩ := by
    rw [SymbolEntry.relabel, h]
    rfl
  rw [declareImplicit, hentry]
  rfl

lemma declareOutside_relabel (h : r.KeepsWord token) (l : Located Nat) {type type' : ScriptType}
    (htype : type' = type.rename (r.text .identifier)) :
    (r.located l).declareOutside (r.token token) type' =
      (l.declareOutside token type).map (Registration.relabel r) := by
  rw [declareOutside, declareOutside, parent?_relabel]
  cases l.parent? with
  | none => rfl
  | some p => exact congrArg ([·]) (declare_relabel hr h p htype)

lemma functionSymbols_relabel (hnames : r.KeepsNames) (h : l.KeepsWords r)
    (ht : r.KeepsWord token) {function : NumberedTree} (hf : r.KeepsWords function) :
    (r.located l).functionSymbols (r.token token) (r.tree function) =
      (l.functionSymbols token function).map (Registration.relabel r) := by
  have htext := ht.text_token
  have houtside (name : String) := declareOutside_relabel hr ht l (Tree.signature_relabel hf name)
  rw [functionSymbols, functionSymbols, namespaceNames?_relabel h]
  cases l.namespaceNames? with
  | none => exact htext ▸ houtside token.text
  | some namespaces =>
    cases namespaces with
    | nil => exact htext ▸ houtside token.text
    | cons n ns =>
      -- The name at the root of the file is made of names that look different.
      have hflattened := hnames.text_flattened (n :: ns) token.text
      have htype := Tree.signature_relabel hf (flattenedName (n :: ns) token.text)
      simp only [Option.map_some, List.map_cons, htext, hr.token_range, root_relabel]
        at hflattened ⊢
      rw [← hflattened, houtside, htype, List.map_append]
      rfl

lemma namespaceSymbols_relabel (l : Located Nat) {name : NumberedTree} (h : r.KeepsWords name) :
    (r.located l).namespaceSymbols (r.tree name) =
      (l.namespaceSymbols name).map (Registration.relabel r) := by
  rw [namespaceSymbols, namespaceSymbols, Tree.leadingName?_relabel]
  cases hl : name.leadingName? with
  | none => rfl
  | some leading =>
    have hleading := Tree.keepsWord_leadingName h hl
    have htype : ScriptType.namespaceType (r.token leading).text =
        (ScriptType.namespaceType leading.text).rename (r.text .identifier) := by
      rw [hleading.text_token]
      rfl
    exact declareOutside_relabel hr hleading l htype

/-- The symbols of a relabelled node are the relabelled symbols. -/
theorem registrations_relabel (hnames : r.KeepsNames) (h : l.KeepsWords r) :
    (r.located l).registrations = l.registrations.map (Registration.relabel r) := by
  have hnode := h.node
  have hwords := hnode.keepsWord
  have hchild := fun {u : NumberedTree} (hu : u ∈ l.node.children) => hnode.child hu
  obtain ⟨⟨id, kind, range, children⟩, ancestors⟩ := l
  cases kind with
  | assignment name operator | counter name operator =>
    cases children with
    | nil => rfl
    | cons value rest =>
      cases rest with
      | nil =>
        exact congrArg ([·])
          (declare_relabel hr (hwords rfl name (.head _)) _ (Tree.literalType_relabel value))
      | cons _ _ => rfl
  | forEachLoop keyword item =>
    exact congrArg ([·]) (declare_relabel hr (hwords rfl item (.tail _ (.head _))) _ rfl)
  | dim keyword name =>
    exact congrArg ([·]) (declare_relabel hr (hwords rfl name (.tail _ (.head _))) _ rfl)
  | catchClause keyword exception =>
    cases exception with
    | none => rfl
    | some exception =>
      exact congrArg ([·]) (declare_relabel hr (hwords rfl exception (.tail _ (.head _))) _ rfl)
  | parameter name type =>
    apply congrArg ([·]) (declare_relabel hr (hwords rfl name (.head _)) _ _)
    rw [Relabel.located, Tree.parameter?_relabel hnode]
    generalize Tree.parameter? _ = parameter
    cases parameter <;> rfl
  | functionExpression keyword returns =>
    exact congrArg (fun x : Registration => [{ x with yields := true }])
      (declareImplicit_relabel hnames.text_m _)
  | method modifiers overrides name =>
    cases children with
    | nil => rfl
    | cons function rest =>
      cases rest with
      | nil =>
        let parent : NumberedTree := ⟨id, .method modifiers overrides name, range, [function]⟩
        exact congrArg ([·])
          (declareImplicit_relabel hnames.text_super ⟨function, parent :: ancestors⟩)
      | cons _ _ => rfl
  | enumDeclaration keyword name =>
    have hname := hwords rfl name (.tail _ (.head _))
    exact declareOutside_relabel hr hname _ (congrArg ScriptType.enumType hname.text_token)
  | classDeclaration keyword name parent =>
    have hname := hwords rfl name (.tail _ (.head _))
    exact declareOutside_relabel hr hname _ (congrArg ScriptType.custom hname.text_token)
  | interfaceDeclaration keyword name parent =>
    exact declareOutside_relabel hr (hwords rfl name (.tail _ (.head _))) _ rfl
  | constDeclaration keyword name =>
    cases children with
    | nil => rfl
    | cons value rest =>
      cases rest with
      | nil =>
        exact declareOutside_relabel hr (hwords rfl name (.tail _ (.head _))) _
          (Tree.literalType_relabel value)
      | cons _ _ => rfl
  | namespaceDeclaration keyword =>
    cases children with
    | nil => rfl
    | cons name rest => exact namespaceSymbols_relabel hr _ (hchild (.head _))
  | function name =>
    cases children with
    | nil => rfl
    | cons value rest =>
      obtain ⟨_, kind, _, _⟩ := value
      cases kind with
      | functionExpression keyword returns =>
        cases rest with
        | nil =>
          exact functionSymbols_relabel hr hnames h (hwords rfl name (.head _)) (hchild (.head _))
        | cons _ _ => rfl
      | _ => cases rest <;> rfl
  | _ => rfl

lemma scope_id_relabel (l : Located Nat) : (r.located l).scope.node.id = l.scope.node.id := by
  rw [scope_relabel]
  exact hr.tree_id l.scope.node

lemma outerScope?_id_relabel (l : Located Nat) :
    (r.located l).outerScope?.map (·.node.id) = l.outerScope?.map (·.node.id) := by
  rw [outerScope?_relabel, Option.map_map]
  congr 1
  funext scope
  exact hr.tree_id scope.node

end InPlace

end Located

section Same

variable (hr : r.InPlace) (htext : ∀ s, r.text .identifier s = s)

include hr htext

/-- Where names look the same, a symbol is added to the same table. -/
lemma Scopes.register_relabel (s : Scopes) (x : Registration) :
    s.register (x.relabel r) = s.register x := by
  have hentry : x.entry.relabel r = x.entry := by
    rw [SymbolEntry.relabel, htext, ScriptType.rename_eq_self htext]
  have hadd : s.add (r.located x.place) x.entry = s.add x.place x.entry := by
    rw [add, add, Located.scope_id_relabel hr, Located.outerScope?_id_relabel hr]
  have hcontains : s.containsLocal (r.located x.place) x.entry.name =
      s.containsLocal x.place x.entry.name := by
    rw [containsLocal, containsLocal, Located.scope_id_relabel hr]
  rw [register, register, Registration.relabel, hentry, hadd, hcontains]

/-- Where names look the same, the symbol tables are the same. -/
theorem Analysis.scopes_validate_relabel {t : NumberedTree} (h : r.KeepsWords t)
    (typedef : Bool) (sink : Sink) :
    ((ofTree (r.tree t)).validate typedef sink).1.scopes =
      ((ofTree t).validate typedef sink).1.scopes := by
  have hnames : r.KeepsNames := by
    refine ⟨htext "m", htext "super", ?_⟩
    intro namespaces name
    rw [htext, htext, show r.text .identifier = id from funext htext, List.map_id]
  have hone : ∀ l ∈ t.located,
      (r.located l).registrations = l.registrations.map (Registration.relabel r) := fun l hl =>
    Located.registrations_relabel hr hnames fun u hu v hv => h v (Tree.preorder_subset hl hu hv)
  have hall : (r.tree t).located.flatMap Located.registrations =
      (t.located.flatMap Located.registrations).map (Registration.relabel r) := by
    rw [located_tree, List.flatMap_map, List.map_flatMap]
    exact List.flatMap_congr hone
  have hregister : (fun s x => Scopes.register s (Registration.relabel r x)) = Scopes.register :=
    funext fun s => funext fun x => Scopes.register_relabel hr htext s x
  rw [validate_eq, validate_eq]
  show ((r.tree t).located.flatMap Located.registrations).foldl Scopes.register .empty =
    (t.located.flatMap Located.registrations).foldl Scopes.register .empty
  rw [hall, List.foldl_map, hregister]

end Same

end BrighterCheck
