import BrighterCheck.Text.Ascii
import BrighterCheck.Text.Dictionary

/-!
# Types

The types that symbols have. A name after `as` stands for a built-in type in any letter case, and
for a custom type otherwise.
-/

namespace BrighterCheck

/-- The type of a symbol. -/
inductive ScriptType where
  | dynamic
  | boolean
  | integer
  | longInteger
  | float
  | double
  | string
  | object
  | invalid
  | void
  | function (name : Option String) (parameters : List (String × ScriptType))
      (returns : ScriptType) (isSub : Bool)
  | interfaceType (members : List (String × ScriptType))
  | custom (name : String)
  | enumType (name : String)
  | array (element : ScriptType)
  | namespaceType (name : String)

namespace ScriptType

/-- The type of functions about which nothing is known. -/
def anyFunction : ScriptType :=
  .function none [] .dynamic false

/-- The type with the given name. -/
def ofName (name : String) : ScriptType :=
  match Ascii.lower name with
  | "dynamic" => .dynamic
  | "boolean" => .boolean
  | "integer" => .integer
  | "longinteger" => .longInteger
  | "float" => .float
  | "double" => .double
  | "string" => .string
  | "object" => .object
  | "invalid" => .invalid
  | "void" => .void
  | "function" => .anyFunction
  | _ => .custom name

/-- Whether nothing is known about values of the type. -/
def isDynamic : ScriptType → Bool
  | .dynamic => true
  | _ => false

mutual

/-- A type as it is shown. -/
def display : ScriptType → String
  | .dynamic => "dynamic"
  | .boolean => "boolean"
  | .integer => "integer"
  | .longInteger => "longinteger"
  | .float => "float"
  | .double => "double"
  | .string => "string"
  | .object => "object"
  | .invalid => "invalid"
  | .void => "void"
  | .function name parameters returns isSub =>
    let keyword := if isSub then "sub" else "function"
    let name := (name.map (" " ++ ·)).getD ""
    let parameters := ", ".intercalate (displayNamed " as " parameters)
    s!"{keyword}{name}({parameters}) as {display returns}"
  | .interfaceType members =>
    "interface \x7b" ++ ", ".intercalate (displayNamed ": " members) ++ "\x7d"
  | .custom name => name
  | .enumType name => s!"enum {name}"
  | .array element => s!"array of {display element}"
  | .namespaceType name => s!"namespace {name}"

/-- Names with their types, each name and type with `glue` between them. -/
def displayNamed (glue : String) : List (String × ScriptType) → List String
  | [] => []
  | (name, type) :: rest => (name ++ glue ++ display type) :: displayNamed glue rest

end

end ScriptType

end BrighterCheck
