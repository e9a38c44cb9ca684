import BrighterCheck.Text.Ascii

/-!
# Keywords

The words of the language. A keyword is written in any letter case, and most of them can still name
a property after a dot.
-/

namespace BrighterCheck

/-- The words of the language, with the words that close a block in their joined form. -/
inductive Keyword where
  | subKw
  | functionKw
  | namespaceKw
  | classKw
  | extendsKw
  | interfaceKw
  | enumKw
  | constKw
  | importKw
  | libraryKw
  | publicKw
  | protectedKw
  | privateKw
  | overrideKw
  | typecastKw
  | aliasKw
  | asKw
  | dimKw
  | newKw
  | ifKw
  | thenKw
  | elseKw
  | whileKw
  | forKw
  | eachKw
  | inKw
  | toKw
  | stepKw
  | nextKw
  | exitKw
  | continueKw
  | returnKw
  | tryKw
  | catchKw
  | throwKw
  | printKw
  | stopKw
  | endKw
  | endSubKw
  | endFunctionKw
  | endIfKw
  | endWhileKw
  | endForKw
  | andKw
  | orKw
  | notKw
  | modKw
  | trueKw
  | falseKw
  | invalidKw
deriving DecidableEq, Inhabited

namespace Keyword

/-- Every keyword, declarations first and literal words last. -/
def all : List Keyword :=
  [.subKw, .functionKw, .namespaceKw, .classKw, .extendsKw, .interfaceKw, .enumKw, .constKw,
   .importKw, .libraryKw, .publicKw, .protectedKw, .privateKw, .overrideKw, .typecastKw,
   .aliasKw, .asKw, .dimKw, .newKw, .ifKw, .thenKw, .elseKw, .whileKw, .forKw, .eachKw, .inKw,
   .toKw, .stepKw, .nextKw, .exitKw, .continueKw, .returnKw, .tryKw, .catchKw, .throwKw,
   .printKw, .stopKw, .endKw, .endSubKw, .endFunctionKw, .endIfKw, .endWhileKw, .endForKw,
   .andKw, .orKw, .notKw, .modKw, .trueKw, .falseKw, .invalidKw]

/-- The name of a keyword in token listings. -/
def name : Keyword → String
  | .subKw => "Sub"
  | .functionKw => "Function"
  | .namespaceKw => "Namespace"
  | .classKw => "Class"
  | .extendsKw => "Extends"
  | .interfaceKw => "Interface"
  | .enumKw => "Enum"
  | .constKw => "Const"
  | .importKw => "Import"
  | .libraryKw => "Library"
  | .publicKw => "Public"
  | .protectedKw => "Protected"
  | .privateKw => "Private"
  | .overrideKw => "Override"
  | .typecastKw => "Typecast"
  | .aliasKw => "Alias"
  | .asKw => "As"
  | .dimKw => "Dim"
  | .newKw => "New"
  | .ifKw => "If"
  | .thenKw => "Then"
  | .elseKw => "Else"
  | .whileKw => "While"
  | .forKw => "For"
  | .eachKw => "Each"
  | .inKw => "In"
  | .toKw => "To"
  | .stepKw => "Step"
  | .nextKw => "Next"
  | .exitKw => "Exit"
  | .continueKw => "Continue"
  | .returnKw => "Return"
  | .tryKw => "Try"
  | .catchKw => "Catch"
  | .throwKw => "Throw"
  | .printKw => "Print"
  | .stopKw => "Stop"
  | .endKw => "End"
  | .endSubKw => "EndSub"
  | .endFunctionKw => "EndFunction"
  | .endIfKw => "EndIf"
  | .endWhileKw => "EndWhile"
  | .endForKw => "EndFor"
  | .andKw => "And"
  | .orKw => "Or"
  | .notKw => "Not"
  | .modKw => "Mod"
  | .trueKw => "True"
  | .falseKw => "False"
  | .invalidKw => "Invalid"

/-- A keyword as it is written, in small letters. -/
def spelling : Keyword → String
  | .subKw => "sub"
  | .functionKw => "function"
  | .namespaceKw => "namespace"
  | .classKw => "class"
  | .extendsKw => "extends"
  | .interfaceKw => "interface"
  | .enumKw => "enum"
  | .constKw => "const"
  | .importKw => "import"
  | .libraryKw => "library"
  | .publicKw => "public"
  | .protectedKw => "protected"
  | .privateKw => "private"
  | .overrideKw => "override"
  | .typecastKw => "typecast"
  | .aliasKw => "alias"
  | .asKw => "as"
  | .dimKw => "dim"
  | .newKw => "new"
  | .ifKw => "if"
  | .thenKw => "then"
  | .elseKw => "else"
  | .whileKw => "while"
  | .forKw => "for"
  | .eachKw => "each"
  | .inKw => "in"
  | .toKw => "to"
  | .stepKw => "step"
  | .nextKw => "next"
  | .exitKw => "exit"
  | .continueKw => "continue"
  | .returnKw => "return"
  | .tryKw => "try"
  | .catchKw => "catch"
  | .throwKw => "throw"
  | .printKw => "print"
  | .stopKw => "stop"
  | .endKw => "end"
  | .endSubKw => "endsub"
  | .endFunctionKw => "endfunction"
  | .endIfKw => "endif"
  | .endWhileKw => "endwhile"
  | .endForKw => "endfor"
  | .andKw => "and"
  | .orKw => "or"
  | .notKw => "not"
  | .modKw => "mod"
  | .trueKw => "true"
  | .falseKw => "false"
  | .invalidKw => "invalid"

/-- The one-word form of `end` followed by the keyword, for the blocks that have one. -/
def joinedEnd? : Keyword → Option Keyword
  | .subKw => some .endSubKw
  | .functionKw => some .endFunctionKw
  | .ifKw => some .endIfKw
  | .whileKw => some .endWhileKw
  | .forKw => some .endForKw
  | _ => none

end Keyword

end BrighterCheck
