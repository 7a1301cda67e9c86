import Casework.Token.SyntaxError
import Casework.TypeGraph.Kind

/-!
Failures: everything that can go wrong, as causes, with the texts that report them in one
place.

A failure that a compilation reports has a kind, so a partial match can be told from a
type clash without looking at the text.
-/

namespace Casework

/-! ## Types that clash -/

/-- Two types that cannot be the same, as texts, and what exactly is wrong, if that is
known. -/
structure Mismatch where
  left : String
  right : String
  reason : String
deriving DecidableEq, Repr

def Mismatch.message (mismatch : Mismatch) : String :=
  let sentence := "Type mismatch: " ++ mismatch.left ++ " is not " ++ mismatch.right
  if mismatch.reason.isEmpty then sentence else sentence ++ " (" ++ mismatch.reason ++ ")"

/-! ## Misuse of a type graph -/

/-- An operation on a type graph that its caller must not ask for. -/
inductive Fault where
  | invalidRef (number : Int)
  | notPrimitive (kind : Kind)
  | notUnbound (number : Int)
  | noMembers (kind : Kind)
  | noParameters (kind : Kind)
  | endless
deriving DecidableEq, Repr

def Fault.message : Fault → String
  | invalidRef number => "types: invalid ref " ++ toString number
  | notPrimitive kind => "types: " ++ kind.name ++ " is not a primitive"
  | notUnbound number => "types: bind of non-variable ref " ++ toString number
  | noMembers kind => "types: " ++ kind.name ++ " has no members"
  | noParameters kind => "types: " ++ kind.name ++ " has no parameters"
  | endless => "types: endless reference"

/-! ## Compilation -/

/-- Why a case or an expression is refused. Expressions and types come as texts. -/
inductive CompileCause where
  | useless (pattern : String)
  | badPattern (pattern : String)
  | emptyRecord
  | duplicateField (name : String)
  | literalMismatch (literal expected : String)
  | variantMismatch (tag expected : String)
  | lowercaseTag (tag : String)
  | mismatch (clash : Mismatch)
  | unknownName (name : String)
  | unknownStatic (field : String)
  | notExpression (name : String)
  | unsupportedExpression (expression : String)
  | unsupportedApplication (application : String)
  | noCases
  | noChoices
  | partialMatch (path : String)
  | bodyMismatch (own previous : String)
  | argumentMismatch (inferred given : String)
  | stated (kind message : String)
deriving DecidableEq, Repr

namespace CompileCause

def kind : CompileCause → String
  | useless _ => "UnreachablePattern"
  | badPattern _ => "BadPattern"
  | emptyRecord => "BadPattern"
  | duplicateField _ => "DuplicateField"
  | literalMismatch _ _ => "TypeMismatch"
  | variantMismatch _ _ => "TypeMismatch"
  | lowercaseTag _ => "BadPattern"
  | mismatch _ => "TypeMismatch"
  | unknownName _ => "UnknownName"
  | unknownStatic _ => "UnknownName"
  | notExpression _ => "BadPattern"
  | unsupportedExpression _ => "Unsupported"
  | unsupportedApplication _ => "Unsupported"
  | noCases => "Unsupported"
  | noChoices => "BadPattern"
  | partialMatch _ => "PartialMatch"
  | bodyMismatch _ _ => "BodyTypeMismatch"
  | argumentMismatch _ _ => "TypeMismatch"
  | stated kind _ => kind

def message : CompileCause → String
  | useless pattern => "Useless case " ++ pattern ++ " (any value already matched)"
  | badPattern pattern => "Bad case pattern: " ++ pattern
  | emptyRecord => "No sense in empty struct"
  | duplicateField name => "Duplicate field " ++ name ++ " in the structure"
  | literalMismatch literal expected =>
      "Pattern type mismatch: " ++ literal ++ " is not " ++ expected
  | variantMismatch tag expected => "Variant " ++ tag ++ " ... is not " ++ expected
  | lowercaseTag tag => tag ++ ": Variant constructor must start with upper case"
  | mismatch clash => clash.message
  | unknownName name => "Unknown identifier: " ++ name
  | unknownStatic field => "Unknown field " ++ field
  | notExpression name => name ++ " is not an expression"
  | unsupportedExpression expression => "Unsupported expression: " ++ expression
  | unsupportedApplication application => "Unsupported application: " ++ application
  | noCases => "case expressions are not available here"
  | noChoices => "case expects some option!"
  | partialMatch path => "Partial match: " ++ path
  | bodyMismatch own previous =>
      "This choice has a " ++ own ++ " type, while another was a " ++ previous
  | argumentMismatch inferred given =>
      "Inferred type for case argument is " ++ inferred ++ ", but a " ++
        given ++ " is given"
  | stated _ message => message

end CompileCause

structure CompileError where
  place : Option Position
  cause : CompileCause
  file : String := ""
deriving DecidableEq, Repr

/-! ## Setting up -/

inductive Unreadable where
  | missing
  | isFolder
  | notFolder
  | nameTooLong
  | invalidName
deriving DecidableEq, Repr

def Unreadable.message (path : String) : Unreadable → String
  | missing => "open " ++ path ++ ": no such file or directory"
  | isFolder => "read " ++ path ++ ": is a directory"
  | notFolder => "open " ++ path ++ ": not a directory"
  | nameTooLong => "open " ++ path ++ ": file name too long"
  | invalidName => "open " ++ path ++ ": invalid argument"

/-- What is wrong with a fixture, a configuration, a command or emitted code. -/
inductive SetupCause where
  | undecodable
  | noSource
  | incompleteEntry (name : String)
  | repeatedEntry (name : String)
  | unknownKind (field kind : String)
  | notCase
  | unknownLevel (text : String)
  | unknownListing (text : String)
  | unreadable (path : String) (reason : Unreadable)
  | exactArguments (wanted received : Nat)
  | leastArguments (wanted received : Nat)
  | unbalanced (finding : String)
  | leftover (count : Int)
  | stated (message : String)
deriving DecidableEq, Repr

def SetupCause.message : SetupCause → String
  | undecodable => "decoding yaml"
  | noSource => "fixture has no source"
  | incompleteEntry name => "env entry " ++ Text.quote name ++ " needs a name and a type"
  | repeatedEntry name => "env entry " ++ Text.quote name ++ " declared twice"
  | unknownKind field kind => "interop " ++ field ++ ": unknown kind " ++ Text.quote kind
  | notCase => "source is not a case expression"
  | unknownLevel text => "unknown log level " ++ Text.quote text
  | unknownListing text => "unknown listing mode " ++ Text.quote text
  | unreadable path reason => reason.message path
  | exactArguments wanted received =>
      "accepts " ++ toString wanted ++ " arg(s), received " ++ toString received
  | leastArguments wanted received =>
      "requires at least " ++ toString wanted ++ " arg(s), only received " ++
        toString received
  | unbalanced finding => "verifying emitted code: " ++ finding
  | leftover count => "case left " ++ toString count ++ " values on the stack"
  | stated message => message

/-! ## Failures -/

inductive Failure where
  | fault (misuse : Fault)
  | mismatch (clash : Mismatch)
  | badSyntax (error : SyntaxError)
  | compile (error : CompileError)
  | setup (cause : SetupCause)
  | within (context : String) (inner : Failure)
  | several (failures : List Failure)
deriving Repr, Inhabited

def located (kind file : String) (place : Option Position) (message : String) : String :=
  let heading := "[" ++ kind ++ "] "
  match place with
  | none => heading ++ message
  | some position =>
      if position.line ≤ 0 then heading ++ message
      else if file.isEmpty then heading ++ "line " ++ position.text ++ " " ++ message
      else heading ++ file ++ ":" ++ position.text ++ " " ++ message

namespace Failure

mutual

def message : Failure → String
  | fault misuse => misuse.message
  | mismatch clash => clash.message
  | badSyntax error => located "SyntaxError" "" error.place error.cause.message
  | compile error => located error.cause.kind error.file error.place error.cause.message
  | setup cause => cause.message
  | within context inner => context ++ ": " ++ inner.message
  | several failures => toString failures.length ++ " error(s) occurred:\n" ++
      messages failures

def messages : List Failure → String
  | [] => ""
  | failure :: rest => "- " ++ failure.message ++ "\n" ++ messages rest

end

mutual

def kind : Failure → String
  | fault _ => ""
  | mismatch _ => ""
  | badSyntax _ => "SyntaxError"
  | compile error => error.cause.kind
  | setup _ => ""
  | within _ inner => inner.kind
  | several failures => firstKind failures

def firstKind : List Failure → String
  | [] => "MultiError"
  | failure :: _ => if failure.kind.isEmpty then "MultiError" else failure.kind

end

def heading : Failure → String
  | fault _ => "Panic"
  | mismatch _ => "Mismatch"
  | setup _ => "Error"
  | within _ inner => inner.heading
  | badSyntax error => kind (badSyntax error)
  | compile error => if error.cause.kind.isEmpty then "Error" else error.cause.kind
  | several failures => firstKind failures

def inFile (file : String) : Failure → Failure
  | compile error => if file.isEmpty then compile error else
      compile { error with file := file }
  | failure => failure

end Failure

end Casework
