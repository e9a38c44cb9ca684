import BrighterCheck.Parser.Expression

/-!
# Declarations

Functions, namespaces, classes, interfaces, enums and constants.
-/

namespace BrighterCheck.Parser

/-- A named function. -/
def functionDeclaration (nested : Nested) : Parser NumberedTree := do
  let keyword ← advance
  let name ← expectIdentifier .function
  let function ← functionRest nested keyword
  node (.function name function) (Range.bounding [some keyword.range, function.range])

/-- A namespace with its dotted name and its statements. -/
def namespaceDeclaration (nested : Nested) : Parser NumberedTree := do
  let keyword ← advance
  let name ← qualifiedName .namespaceName
  let body ← block nested (.block .namespaceKw)
  let finish ← expectEnd .namespaceKw
  node (.namespaceDeclaration keyword name body) (some (keyword.range.merge finish))

/-- What a class or interface extends, if it extends something. -/
def optionalParent : Parser (Option Token) :=
  after (.keyword .extendsKw) typeName

/-- The words that say who can see a member. -/
def isAccess : TokenKind → Bool
  | .keyword .publicKw | .keyword .protectedKw | .keyword .privateKw => true
  | _ => false

/-- The words that start a function. -/
def isFunctionWord : TokenKind → Bool
  | .keyword .subKw | .keyword .functionKw => true
  | _ => false

/-- A method of a class behind its modifiers. -/
def method (nested : Nested) (access overriding : Option Token) (keyword : Token) :
    Parser NumberedTree := do
  let name ← expectName .method
  let function ← functionRest nested keyword
  let range := Range.bounding
    [(access <|> overriding).map Token.range, some keyword.range, function.range]
  node (.method access overriding name function) range

/-- A field of a class behind its modifiers. -/
def field (nested : Nested) (access overriding : Option Token) : Parser NumberedTree := do
  let name ← expectName .field
  let type ← optionalType
  let value ← after (.punctuator .equal) nested.expression
  let range := Range.bounding
    [(access <|> overriding).map Token.range, some name.range, type.map Token.range,
      value.bind Tree.range]
  node (.field access name type value) range

/-- A method or field of a class. -/
def classMember (nested : Nested) : Parser NumberedTree := do
  let access ← acceptIf isAccess
  let overriding ← accept (.keyword .overrideKw)
  match ← acceptIf isFunctionWord with
  | some keyword => method nested access overriding keyword
  | none => field nested access overriding

/-- A class. -/
def classDeclaration (nested : Nested) : Parser NumberedTree := do
  let keyword ← advance
  let name ← expectIdentifier .className
  let parent ← optionalParent
  let inside ← members .classKw (classMember nested)
  let finish ← expectEnd .classKw
  node (.classDeclaration keyword name parent inside) (some (keyword.range.merge finish))

/-- A parameter of a method that an interface announces. -/
def interfaceParameter : Parser InterfaceParameter := do
  return ⟨← expectIdentifier .parameter, ← optionalType⟩

/-- A method that an interface announces, behind its keyword. -/
def interfaceMethod (keyword : Token) : Parser NumberedTree := do
  let name ← expectName .method
  let _ ← expect (.punctuator .openParen)
  let parameters ← commaList closesParen (pure ()) interfaceParameter
  let close ← expect (.punctuator .closeParen)
  let returns ← optionalType
  let range := keyword.range.merge ((returns.map Token.range).getD close.range)
  node (.interfaceMethod keyword name parameters returns) (some range)

/-- A field that an interface announces. -/
def interfaceField : Parser NumberedTree := do
  let name ← expectName .interfaceMember
  let type ← optionalType
  let range := name.range.merge ((type.map Token.range).getD name.range)
  node (.interfaceField name type) (some range)

/-- A member of an interface. -/
def interfaceMember : Parser NumberedTree := do
  match ← acceptIf isFunctionWord with
  | some keyword => interfaceMethod keyword
  | none => interfaceField

/-- An interface. -/
def interfaceDeclaration : Parser NumberedTree := do
  let keyword ← advance
  let name ← expectIdentifier .interfaceName
  let parent ← optionalParent
  let inside ← members .interfaceKw interfaceMember
  let finish ← expectEnd .interfaceKw
  node (.interfaceDeclaration keyword name parent inside) (some (keyword.range.merge finish))

/-- A member of an enum, with its value if it has one. -/
def enumMember (nested : Nested) : Parser NumberedTree := do
  let name ← expectName .enumMember
  let value ← after (.punctuator .equal) nested.expression
  let range := Range.bounding [some name.range, value.bind Tree.range]
  node (.enumMember name value) range

/-- An enum. -/
def enumDeclaration (nested : Nested) : Parser NumberedTree := do
  let keyword ← advance
  let name ← expectIdentifier .enumName
  let inside ← members .enumKw (enumMember nested)
  let finish ← expectEnd .enumKw
  node (.enumDeclaration keyword name inside) (some (keyword.range.merge finish))

/-- `keyword name = value`, as a node of the form that `make` gives. -/
def namedValue (nested : Nested) (role : NameRole)
    (make : Token → Token → NumberedTree → Form NumberedTree) : Parser NumberedTree := do
  let keyword ← advance
  let name ← expectIdentifier role
  let _ ← expect (.punctuator .equal)
  let value ← nested.expression
  node (make keyword name value) (Range.bounding [some keyword.range, value.range])

end BrighterCheck.Parser
