import BrighterCheck.Proofs.Diagnostic.Relabel
import BrighterCheck.Proofs.Tree.Wording

/-!
# Hidden texts

Texts of tokens that are no words can be hidden: two sources that differ in such texts only are the
same with these texts hidden. Nothing changes in a node that holds words only.
-/

namespace BrighterCheck

namespace Relabel

section Fixed

variable {r : Relabel} {kind : NodeKind} {t : NumberedTree}

lemma map_eq_self {α : Type} {f : α → α} {o : Option α} (h : ∀ a, o = some a → f a = a) :
    o.map f = o := by
  cases o with
  | none => rfl
  | some a => exact congrArg some (h a rfl)

lemma parameters_eq_self {ps : List InterfaceParameter}
    (h : ∀ q ∈ ps, ∀ t ∈ q.name :: q.type.toList, r.token t = t) : ps.map r.parameter = ps := by
  have hone : ∀ q ∈ ps, r.parameter q = q := by
    intro q hq
    have hname := h q hq q.name (.head _)
    have htype : q.type.map r.token = q.type :=
      map_eq_self fun t ht => h q hq t (.tail _ (Option.mem_toList.2 ht))
    rw [parameter, hname, htype]
  exact (List.map_congr_left hone).trans (List.map_id' _)

/-- A kind stays as it is if its tokens do. -/
lemma kind_eq_self (h : ∀ t ∈ kind.allTokens, r.token t = t) : r.kind kind = kind := by
  cases kind with
  | interfaceMethod keyword name parameters returns =>
    obtain ⟨htokens, hparameters⟩ := List.forall_mem_append.1 h
    have hps := parameters_eq_self fun q hq t ht =>
      hparameters t (List.mem_flatMap.2 ⟨q, hq, ht⟩)
    simp only [NodeKind.tokens, List.forall_mem_cons, Option.mem_toList] at htokens
    obtain ⟨hkeyword, hname, hreturns⟩ := htokens
    rw [Relabel.kind, hkeyword, hname, hps, map_eq_self hreturns]
  | _ =>
    simp only [NodeKind.allTokens, NodeKind.tokens, List.append_nil, List.forall_mem_append,
      List.forall_mem_cons, Option.mem_toList] at h
    simp_all [Relabel.kind, map_eq_self]

end Fixed

namespace InPlace

variable {r : Relabel} (h : r.InPlace)

include h

/-- A tree stays as it is if its kinds do. -/
lemma tree_eq_self {t : NumberedTree} (hkind : ∀ u ∈ t.preorder, r.kind u.kind = u.kind) :
    r.tree t = t := by
  induction t using Tree.induction with
  | node t ih =>
    have hchildren : t.children.map r.tree = t.children := by
      have hone : ∀ u ∈ t.children, r.tree u = u := fun u hu =>
        ih u hu fun v hv => hkind v (Tree.mem_preorder_of_child hu hv)
      exact (List.map_congr_left hone).trans (List.map_id' _)
    have hid : t.id + r.shift = t.id := congrArg (t.id + ·) h.shift_eq
    have hrange : t.range.map r.range = t.range := by
      rw [h.range_eq]
      exact congrFun Option.map_id t.range
    rw [tree_mk, hchildren, hid, hrange, hkind t t.self_mem_preorder]
    cases t
    rfl

end InPlace

section Hide

variable {hidden : TokenKind → String → Bool} (h : ∀ k s, hidden k s = true → k.isWord = false)

lemma hidden_eq_false {k : TokenKind} (hk : k.isWord = true)
    (h : ∀ k s, hidden k s = true → k.isWord = false) (s : String) : hidden k s = false := by
  cases hhidden : hidden k s with
  | false => rfl
  | true =>
    rw [h k s hhidden] at hk
    cases hk

/-- Hides the texts of some tokens, none of which are words. -/
def hide (hidden : TokenKind → String → Bool) (h : ∀ k s, hidden k s = true → k.isWord = false) :
    Relabel where
  text k s := if hidden k s then "" else s
  range := id
  shift := 0
  text_name k s hk := by
    have hword : k.isWord = true := by
      cases k with
      | identifier | keyword => rfl
      | _ => cases hk
    rw [hidden_eq_false hword h, hidden_eq_false (k := .identifier) rfl h]
  text_dotted s t := by
    rw [hidden_eq_false (k := .identifier) rfl h, hidden_eq_false (k := .identifier) rfl h,
      hidden_eq_false (k := .identifier) rfl h]
    rfl
  text_forEach s t := by
    rw [hidden_eq_false (k := .forEach) rfl h, hidden_eq_false (k := .keyword .forKw) rfl h,
      hidden_eq_false (k := .keyword .eachKw) rfl h]
    rfl
  range_merge := id_merge

lemma inPlace_hide : (hide hidden h).InPlace :=
  ⟨rfl, rfl⟩

/-- Words are not hidden. -/
lemma text_hide {k : TokenKind} (hk : k.isWord = true) (s : String) :
    (hide hidden h).text k s = s :=
  if_neg (by simp [hidden_eq_false hk h])

/-- A token that is not hidden stays as it is. -/
lemma token_hide {t : Token} (ht : hidden t.kind t.text = false) : (hide hidden h).token t = t := by
  have htext : (if hidden t.kind t.text then "" else t.text) = t.text := if_neg (by simp [ht])
  obtain ⟨kind, text, range⟩ := t
  exact congrArg (fun text => (⟨kind, text, range⟩ : Token)) htext

/-- Only words are reported by their texts, so that errors are the same. -/
lemma error_hide (e : SyntaxError) : (hide hidden h).error e = e := by
  obtain ⟨fault, range⟩ := e
  cases fault with
  | unexpected text =>
    exact congrArg (fun s => (⟨.unexpected s, range⟩ : SyntaxError)) (text_hide h rfl text)
  | expected | notAssignable => rfl

/-- A worded node stays as it is, unless it has contents and contents are hidden. -/
lemma kind_hide {kind : NodeKind} (hkind : kind.IsWorded)
    (hcontents : kind.hasContents = true → ∀ k s, k.hasContents = true → hidden k s = false) :
    (hide hidden h).kind kind = kind := by
  apply kind_eq_self
  intro t ht
  apply token_hide
  cases hkind t ht with
  | inl hword => exact hidden_eq_false hword h t.text
  | inr hboth => exact hcontents hboth.2 _ _ hboth.1

end Hide

/-- The way to a source whose line ends are spelled differently. -/
def withoutBreaks : Relabel :=
  hide (fun k _ => decide (k = .newline)) fun k _ hk => by
    rw [of_decide_eq_true hk]
    rfl

/-- The way to a source with other contents; the flags among its comments stay. -/
def withoutContents : Relabel :=
  hide (fun k s => k.hasContents && !(decide (k = .comment) && CommentFlag.isFlag s))
    fun k _ hk => by
      rw [TokenKind.isWord, (Bool.and_eq_true_iff.1 hk).1]
      rfl

end Relabel

end BrighterCheck
