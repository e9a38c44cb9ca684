import BrighterCheck.Program.Basic
import BrighterCheck.Text.Number

/-!
# Command line options

Options start with a dash; everything else, and everything behind two dashes, is a file. Switches
are given at most once; codes can be listed by giving their option several times.
-/

namespace BrighterCheck

/-- What the command line asks for. -/
structure Options where
  config : Config := {}
  verbose : Bool := false
  warningsAsErrors : Bool := false
  files : List String := []

/-- The options that are given or not. -/
inductive Switch where
  | dumpTokens
  | dumpTree
  | dumpSymbols
  | verbose
  | warningsAsErrors
deriving DecidableEq

/-- The options that take a code. -/
inductive CodeOption where
  | ignore
  | warn
deriving DecidableEq

/-- One argument of the command line, or an option together with its value. -/
inductive Argument where
  | switch (which : Switch)
  | code (which : CodeOption) (value : Nat)
  | file (name : String)
deriving DecidableEq

namespace Options

/-- The switch with the given spelling. -/
def switch? (s : String) : Option Switch :=
  match s with
  | "--dump-tokens" => some .dumpTokens
  | "--dump-ast" => some .dumpTree
  | "--dump-symbols" => some .dumpSymbols
  | "--verbose" => some .verbose
  | "--warnings-as-errors" => some .warningsAsErrors
  | "-v" => some .verbose
  | _ => none

/-- The option with the given spelling that takes a code. -/
def codeOption? (s : String) : Option CodeOption :=
  match s with
  | "--ignore-code" => some .ignore
  | "--warn-code" => some .warn
  | _ => none

/-- An argument up to its first equals sign, and what follows that sign. -/
def splitValue (cs : List Char) : String × Option String :=
  match cs.dropWhile (· != '=') with
  | [] => (String.ofList cs, none)
  | _ :: value => (String.ofList (cs.takeWhile (· != '=')), some (String.ofList value))

/-- An option with its code behind an equals sign. -/
def joinedCode? (which : CodeOption) (value : String) : Option Argument :=
  (signedCode? value.toList).map (.code which)

/-- An option with its code in the next argument, which does not start with a dash. -/
def separateCode? (which : CodeOption) (value : String) : Option Argument :=
  (code? value.toList).map (.code which)

/-- Reads arguments; none if one of them is no valid option or file. -/
def arguments? : List String → Option (List Argument)
  | [] => some []
  | "--" :: rest => if rest.contains "" then none else some (rest.map .file)
  | arg :: rest =>
    match arg.toList with
    | [] => none
    | '-' :: _ :: _ =>
      match switch? arg with
      | some s => (arguments? rest).map (.switch s :: ·)
      | none =>
        match codeOption? (splitValue arg.toList).1, (splitValue arg.toList).2, rest with
        | some which, some value, rest =>
          match joinedCode? which value with
          | some a => (arguments? rest).map (a :: ·)
          | none => none
        | some which, none, value :: rest =>
          match separateCode? which value with
          | some a => (arguments? rest).map (a :: ·)
          | none => none
        | _, _, _ => none
    | _ => (arguments? rest).map (.file arg :: ·)

/-- Takes an argument over; none for a switch that was given before. -/
def set? (o : Options) : Argument → Option Options
  | .switch .dumpTokens =>
    if o.config.dumpTokens then none else some { o with config.dumpTokens := true }
  | .switch .dumpTree =>
    if o.config.dumpTree then none else some { o with config.dumpTree := true }
  | .switch .dumpSymbols =>
    if o.config.dumpSymbols then none else some { o with config.dumpSymbols := true }
  | .switch .verbose => if o.verbose then none else some { o with verbose := true }
  | .switch .warningsAsErrors =>
    if o.warningsAsErrors then none else some { o with warningsAsErrors := true }
  | .code .ignore n => some { o with config.ignore := o.config.ignore ++ [n] }
  | .code .warn n => some { o with config.warn := o.config.warn ++ [n] }
  | .file name => some { o with files := o.files ++ [name] }

/-- The options that a command line gives; none if it is malformed or names no file. -/
def ofArguments? (args : List String) : Option Options := do
  let options ← (← arguments? args).foldlM set? {}
  if options.files.isEmpty then none else some options

end Options

end BrighterCheck
