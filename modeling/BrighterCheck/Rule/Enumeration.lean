import BrighterCheck.Diagnostic.Basic
import BrighterCheck.Tree.Basic

/-!
# Enums

The members of an enum have different names, and values of one type. That type is decided by the
first value; members of an integer enum may go without a value.
-/

namespace BrighterCheck.Tree

variable {ι : Type}

/-- The name of a member of an enum, and its value if it has one. -/
def enumMember? : Tree ι → Option (Token × Option (Tree ι))
  | ⟨_, .enumMember name, _, children⟩ => some (name, children.head?)
  | _ => none

/-- The name of the type of a value, if the value is a literal. -/
def literalTypeName? (t : Tree ι) : Option String :=
  t.literal?.map fun (token, _) => token.kind.literalTypeName

/-- The type that the values of an enum should have: that of its first value, or integer. -/
def enumValueType (members : List (Tree ι)) : String :=
  let values := members.filterMap fun t => t.enumMember?.bind Prod.snd
  (values.head?.bind literalTypeName?).getD "integer"

/-- A member is reported at its name if `seen` holds its name in some letter case. -/
def duplicateFindings (seen : List String) (name : Token) : List Finding :=
  if Ascii.lower name.text ∈ seen then
    [⟨.duplicateIdentifier name.text, some name.range⟩]
  else
    []

/-- The value of a member is reported if it is missing or not of the type of the enum. -/
def enumValueFindings (type : String) (member : Tree ι) (value : Option (Tree ι)) :
    List Finding :=
  match value with
  | none => if type = "integer" then [] else [⟨.enumValueRequired type, member.range⟩]
  | some value =>
    if value.literalTypeName? = some type then []
    else
      [⟨.enumValueType type,
        (value.literal?.bind fun (_, literal) => literal.range) <|> member.range⟩]

/-- The findings of the members of an enum, if `seen` holds the names before them. -/
def enumFindingsFrom (type : String) (seen : List String) : List (Tree ι) → List Finding
  | [] => []
  | member :: members =>
    match member.enumMember? with
    | none => enumFindingsFrom type seen members
    | some (name, value) =>
      duplicateFindings seen name ++ enumValueFindings type member value ++
        enumFindingsFrom type (Ascii.lower name.text :: seen) members

/-- The findings of the members of an enum. -/
def enumFindings (members : List (Tree ι)) : List Finding :=
  enumFindingsFrom (enumValueType members) [] members

end BrighterCheck.Tree
