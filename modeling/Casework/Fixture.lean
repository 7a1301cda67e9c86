import Casework.Document.Basic
import Casework.TypeGraph.Parser
import Casework.Typing.Setting

/-!
Fixtures: a source together with the types of the names it may use.
-/

namespace Casework

/-- A name of the environment and the source of its type. -/
structure EnvEntry where
  name : String
  type : Source
deriving DecidableEq, Repr, Inhabited

/-- A field of a foreign class as a fixture declares it. -/
structure StaticEntry where
  kind : String
  value : Constant
  isConstant : Bool
deriving DecidableEq, Repr, Inhabited

structure Fixture where
  name : String
  env : List EnvEntry
  statics : List (String × StaticEntry)
  source : Source
  path : String := ""
deriving DecidableEq, Repr, Inhabited

/-! ## Constants -/

namespace Number

def readSigned? (text : String) : Option Number :=
  match text.toList with
  | '-' :: rest => (read? (String.ofList rest)).map negate
  | _ => read? text

end Number

def isWhole (numeral : String) : Bool :=
  numeral.toList.all fun c => c.isDigit || c == '-'

namespace Constant

def ofNumeral (numeral : String) : Constant :=
  match Number.readSigned? numeral with
  | none => ofString numeral
  | some value =>
      .number (if isWhole numeral && value = Number.zero.negate then
        Number.zero else value)

end Constant

/-! ## Values that are no constants

A list or an object is no constant of the language. It is carried along as its text. -/

inductive Numerals where
  | exact
  | rounded
deriving DecidableEq, Repr

def Numerals.keeps (numerals : Numerals) (numeral : String) (whole : Int) : Bool :=
  numerals = .exact && isWhole numeral &&
    -9223372036854775808 ≤ whole && whole ≤ 18446744073709551615

def Numerals.printed (numerals : Numerals) (numeral : String) : String :=
  match Number.readSigned? numeral, numeral.toInt? with
  | none, _ => numeral
  | some value, some whole =>
      if numerals.keeps numeral whole then toString whole else value.text
  | some value, none => value.text

mutual

/-- How a value of a document is printed that is no constant of the language. The entries
of an object come in the order of their keys. -/
def Document.printed (numerals : Numerals) : Document → String
  | .null => "<nil>"
  | .boolean value => if value then "true" else "false"
  | .number numeral => numerals.printed numeral
  | .string value => value
  | .list items => "[" ++ " ".intercalate (printedItems numerals items) ++ "]"
  | .object entries =>
      let sorted :=
        (printedEntries numerals entries).mergeSort fun left right => !(right.1 < left.1)
      "map[" ++ " ".intercalate (sorted.map fun (key, item) => key ++ ":" ++ item) ++ "]"

def printedItems (numerals : Numerals) : List Document → List String
  | [] => []
  | item :: rest => item.printed numerals :: printedItems numerals rest

def printedEntries (numerals : Numerals) :
    List (String × Document) → List (String × String)
  | [] => []
  | (key, item) :: rest => (key, item.printed numerals) :: printedEntries numerals rest

end

def Constant.ofDocument : Document → Constant
  | .null => .unit
  | .boolean value => .boolean value
  | .number numeral => ofNumeral numeral
  | .string value => ofString value
  | document => .foreign (document.printed .exact)

/-! ## Decoding -/

namespace Fixture

def decodeEnvEntry? (document : Document) : Option EnvEntry := do
  let entries ← document.entries?
  return ⟨← Document.textOf? entries "name",
    .ofString (← Document.textOf? entries "type")⟩

def decodeStatic? (document : Document) : Option StaticEntry := do
  let entries ← document.entries?
  return {
    kind := ← Document.textOf? entries "kind"
    value := .ofDocument (Document.entry entries "value")
    isConstant := ← (Document.entry entries "const").truth? }

def decodeEnv? (document : Document) : Option (List EnvEntry) := do
  ((← document.items?).filter (!·.isNull)).mapM decodeEnvEntry?

def decode? (document : Document) : Option Fixture := do
  let entries ← document.entries?
  let interop ← (Document.entry entries "interop").entries?
  return {
    name := ← Document.textOf? entries "name"
    env := ← decodeEnv? (Document.entry entries "env")
    statics := ← interop.mapM fun (name, entry) => do
      return (name, ← decodeStatic? entry)
    source := .ofString (← Document.textOf? entries "source") }

def envProblem? : (seen : List String) → List EnvEntry → Option SetupCause
  | _, [] => none
  | seen, entry :: rest =>
      if entry.name.isEmpty || (entry.type : String).isEmpty then
        some (.incompleteEntry entry.name)
      else if seen.contains entry.name then some (.repeatedEntry entry.name)
      else envProblem? (entry.name :: seen) rest

def ofDocument (document : Document) : Except Failure Fixture :=
  match decode? document with
  | none => .error (.setup .undecodable)
  | some fixture =>
      if (fixture.source : String).isEmpty then .error (.setup .noSource)
      else match envProblem? [] fixture.env with
        | some problem => .error (.setup problem)
        | none => .ok fixture

/-! ## Installing -/

def kind? : String → Option Kind
  | "number" => some (.primitive .number)
  | "string" => some (.primitive .text)
  | "boolean" => some (.primitive .boolean)
  | "bool" => some (.primitive .boolean)
  | "()" => some (.primitive .unit)
  | _ => none

def installStatic (entry : String × StaticEntry) :
    Except Failure (String × StaticField) :=
  match kind? entry.2.kind with
  | some kind => .ok (entry.1, ⟨kind, entry.2.value, entry.2.isConstant⟩)
  | none => .error (.setup (.unknownKind entry.1 entry.2.kind))

def setting (fixture : Fixture) : Except Failure Setting := do
  return { statics := ← fixture.statics.mapM installStatic }

/-- Builds the types of environment entries, which take the slots from the given one on.
Later entries come first in the scope. -/
def installEnv : (slot : Nat) → List EnvEntry → (scope : Scope) → Build Scope
  | _, [], scope => return scope
  | slot, entry :: rest, scope => do
      let type ← tryCatch (Build.parseType entry.type) fun failure =>
        throw (.within ("env " ++ entry.name) failure)
      installEnv (slot + 1) rest (⟨entry.name, .absolute slot, type⟩ :: scope)

/-- Builds the types of the environment of a fixture. -/
def scope (fixture : Fixture) : Build Scope :=
  installEnv 0 fixture.env []

end Fixture

end Casework
