import BrighterCheck.Proofs.Parser.Soundness.Block
import BrighterCheck.Proofs.Text.Range
import BrighterCheck.Parser.Declaration

/-!
# Soundness of declarations

Functions, namespaces, classes, interfaces, enums and constants read what their productions list.
-/

namespace BrighterCheck.Parser

open Item

variable {n : Nested} {k : TokenKind}

lemma ParsesAt.functionDeclaration (hn : n.Sound) (hk : isFunctionWord k = true) (he : k ≠ .eof) :
    CompletesAt k [] .statement (Parser.functionDeclaration n) := by
  refine .advance he fun keyword hkeyword => .bind .expectIdentifier ?_
  rintro name _ ⟨rfl, hname⟩
  refine .within [] (.functionRest (some name) hn (hkeyword ▸ hk) ?_) ?_
  · rintro t ⟨⟩
    exact hname
  · rintro f _ ⟨rfl, r, hr⟩
    have hrange : Range.bounding [some keyword.range, f.range] = f.range := by
      rw [hr]
      exact congrArg some (Range.merge_merge_self _ _)
    rw [hrange]
    exact .node (.function hname) rfl rfl rfl

lemma ParsesAt.namespaceDeclaration (hn : n.Sound) :
    CompletesAt (.keyword .namespaceKw) [] .statement (Parser.namespaceDeclaration n) := by
  refine .advance (by nofun) fun keyword hk => .bind .qualifiedName ?_
  rintro name _ ⟨rfl, hname⟩
  refine .bind (.block hn) ?_
  rintro body _ rfl
  refine .bind .expectEnd ?_
  rintro r _ ⟨ends, rfl, he⟩
  exact .node (.namespaceDeclaration hk hname he) rfl (by simp [Form.children]) rfl

lemma Parses.method {access overriding : Option Token} {keyword : Token} (hn : n.Sound)
    (ha : ∀ t ∈ access, isAccess t.kind = true)
    (ho : ∀ t ∈ overriding, t.kind = .keyword .overrideKw)
    (hk : isFunctionWord keyword.kind = true) :
    Completes (tokens access.toList ++ tokens overriding.toList ++ [.token keyword]) .member
      (Parser.method n access overriding keyword) := by
  refine .bind .expectName ?_
  rintro name _ ⟨rfl, hname⟩
  simp only [List.append_assoc]
  rw [← List.append_assoc]
  refine .within _ (.functionRest (some name) hn hk ?_) ?_
  · rintro t ⟨⟩
    exact hname
  · rintro f _ ⟨rfl, r, hr⟩
    rw [hr, Range.bounding_merge_merge, ← hr]
    exact .node (.method ha ho hname) (by simp) (by simp [Form.children]) rfl

lemma Parses.field {access overriding : Option Token} (hn : n.Sound)
    (ha : ∀ t ∈ access, isAccess t.kind = true)
    (ho : ∀ t ∈ overriding, t.kind = .keyword .overrideKw) :
    Completes (tokens access.toList ++ tokens overriding.toList) .member
      (Parser.field n access overriding) := by
  refine .bind .expectName ?_
  rintro name _ ⟨rfl, hname⟩
  refine .bind .typed fun type types ht => ?_
  refine .bind (.valued (by nofun) hn) fun value values hv => ?_
  refine .node (.field ha ho hname ht hv) (by simp) ?_ rfl
  cases ht <;> cases hv <;> simp [Form.children]

lemma Parses.classMember (hn : n.Sound) : Completes [] .member (Parser.classMember n) := by
  refine .bind (.acceptIf rfl) ?_
  rintro access _ ⟨rfl, ha⟩
  refine .bind (.accept (by nofun)) ?_
  rintro overriding _ ⟨rfl, ho⟩
  refine .bind (.acceptIf rfl) ?_
  rintro (_ | keyword) _ ⟨rfl, hk⟩
  · simpa [tokens] using Parses.field hn ha ho
  · exact .method hn ha ho (hk keyword rfl)

lemma ParsesAt.classDeclaration (hn : n.Sound) :
    CompletesAt (.keyword .classKw) [] .statement (Parser.classDeclaration n) := by
  refine .advance (by nofun) fun keyword hk => .bind .expectIdentifier ?_
  rintro name _ ⟨rfl, hname⟩
  refine .bind .typed fun parent parents hp => ?_
  refine .bind (.members (.classMember hn)) ?_
  rintro inside items ⟨hl, rfl⟩
  refine .bind .expectEnd ?_
  rintro r _ ⟨ends, rfl, he⟩
  refine .node (.classDeclaration hk hname hp hl he) (by simp) ?_ rfl
  cases hp <;> simp [Form.children]

/-- Parameters of a method that an interface announces are names, and tokens only. -/
lemma Parses.interfaceParameter :
    Parses [] Parser.interfaceParameter fun q items => q.IsNamed ∧ ∃ ts, items = tokens ts := by
  refine .bind .expectIdentifier ?_
  rintro name _ ⟨rfl, hname⟩
  refine .bind .typed fun type types ht => .pure ?_
  cases ht with
  | none => exact ⟨⟨hname, nofun⟩, [name], rfl⟩
  | @some m t _ htype =>
    refine ⟨⟨hname, ?_⟩, [name, m, t], rfl⟩
    intro u hu
    cases hu
    exact htype

lemma Parses.interfaceMethod {keyword : Token} (hk : isFunctionWord keyword.kind = true) :
    Completes [.token keyword] .member (Parser.interfaceMethod keyword) := by
  refine .bind .expectName ?_
  rintro name _ ⟨rfl, hname⟩
  refine .bind (.expect (by decide)) ?_
  rintro opening _ ⟨rfl, ho⟩
  refine .bind (P := fun qs items => (∀ q ∈ qs, q.IsNamed) ∧ ∃ ts, items = tokens ts)
    (.commaList .noBlanks .interfaceParameter
      ⟨List.forall_mem_nil InterfaceParameter.IsNamed, [], rfl⟩ ?_ ?_) ?_
  · rintro qs q _ _ ⟨hqs, ts, rfl⟩ ⟨hq, us, rfl⟩
    refine ⟨?_, ts ++ us, by simp [tokens]⟩
    intro p hp
    rcases List.mem_append.1 hp with hp | hp
    · exact hqs p hp
    · rw [List.mem_singleton.1 hp]
      exact hq
  · rintro _ _ us ⟨hqs, ts, rfl⟩ -
    exact ⟨hqs, ts ++ us, by simp [tokens]⟩
  rintro parameters _ ⟨hqs, ts, rfl⟩
  refine .bind (.expect (by decide)) ?_
  rintro close _ ⟨rfl, hc⟩
  refine .bind .typed fun returns types ht => ?_
  refine .node (.interfaceMethod (p := ts) hk hname ho hc ht hqs) (by simp) ?_ rfl
  cases ht <;> simp [Form.children]

lemma Parses.interfaceField : Completes [] .member Parser.interfaceField := by
  refine .bind .expectName ?_
  rintro name _ ⟨rfl, hname⟩
  refine .bind .typed fun type types ht => ?_
  refine .node (.interfaceField hname ht) (by simp) ?_ rfl
  cases ht <;> simp [Form.children]

lemma Parses.interfaceMember : Completes [] .member Parser.interfaceMember := by
  refine .bind (.acceptIf rfl) ?_
  rintro (_ | keyword) _ ⟨rfl, hk⟩
  · exact .interfaceField
  · exact .interfaceMethod (hk keyword rfl)

lemma ParsesAt.interfaceDeclaration :
    CompletesAt (.keyword .interfaceKw) [] .statement Parser.interfaceDeclaration := by
  refine .advance (by nofun) fun keyword hk => .bind .expectIdentifier ?_
  rintro name _ ⟨rfl, hname⟩
  refine .bind .typed fun parent parents hp => ?_
  refine .bind (.members .interfaceMember) ?_
  rintro inside items ⟨hl, rfl⟩
  refine .bind .expectEnd ?_
  rintro r _ ⟨ends, rfl, he⟩
  refine .node (.interfaceDeclaration hk hname hp hl he) (by simp) ?_ rfl
  cases hp <;> simp [Form.children]

lemma Parses.enumMember (hn : n.Sound) : Completes [] .member (Parser.enumMember n) := by
  refine .bind .expectName ?_
  rintro name _ ⟨rfl, hname⟩
  refine .bind (.valued (by nofun) hn) fun value values hv => ?_
  refine .node (.enumMember hname hv) (by simp) ?_ rfl
  cases hv <;> simp [Form.children]

lemma ParsesAt.enumDeclaration (hn : n.Sound) :
    CompletesAt (.keyword .enumKw) [] .statement (Parser.enumDeclaration n) := by
  refine .advance (by nofun) fun keyword hk => .bind .expectIdentifier ?_
  rintro name _ ⟨rfl, hname⟩
  refine .bind (.members (.enumMember hn)) ?_
  rintro inside items ⟨hl, rfl⟩
  refine .bind .expectEnd ?_
  rintro r _ ⟨ends, rfl, he⟩
  exact .node (.enumDeclaration hk hname hl he) (by simp) (by simp [Form.children]) rfl

lemma ParsesAt.namedValue {role : NameRole}
    {make : Token → Token → NumberedTree → Form NumberedTree} {kinds : Token → Token → NodeKind}
    (hn : n.Sound) (hm : Naming kinds k)
    (hform : ∀ keyword name value, (make keyword name value).Has (kinds keyword name) [value]) :
    CompletesAt k [] .statement (Parser.namedValue n role make) := by
  have hk : k ≠ .eof := by cases hm <;> nofun
  refine .advance hk fun keyword hkeyword => .bind .expectIdentifier ?_
  rintro name _ ⟨rfl, hname⟩
  refine .bind (.expect (by nofun)) ?_
  rintro op _ ⟨rfl, ho⟩
  refine .bind hn.expression ?_
  rintro value _ rfl
  obtain ⟨hkind, hchildren⟩ := hform keyword name value
  have hp := Production.named (v := value) hm hkeyword hname ho
  rw [← hkind] at hp
  refine .node hp (by simp) (by simp [hchildren]) ?_
  rw [hkind]
  cases hm <;> rfl

end BrighterCheck.Parser
