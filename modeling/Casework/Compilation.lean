import Casework.Code.Emission
import Casework.Fixture
import Casework.Listing.Target
import Casework.Typing.Expr

/-!
Compilation: from a fixture to the code of its case.
-/

namespace Casework

/-! ## Events -/

inductive Event where
  | elaborated (position : Position) (choices : Nat) (type : String)
  | sealed (type : String)
  | emitted (fixture : String) (choices slots variants instructions : Nat)
    (maxDepth : Int)
deriving DecidableEq, Repr

def Event.text : Event → String
  | elaborated position choices type =>
      "case elaborated pos=" ++ position.text ++ " choices=" ++ toString choices ++
        " type=" ++ type
  | sealed type => "variant sealed type=" ++ type
  | emitted fixture choices slots variants instructions maxDepth =>
      "case emitted fixture=" ++ fixture ++ " case=[choices=" ++
        toString choices ++ " slots=" ++
        toString slots ++ " sealed=" ++ toString variants ++ "] instructions=" ++
        toString instructions ++ " max_depth=" ++ toString maxDepth

def CaseReport.events (report : CaseReport) (choices : Nat) : List Event :=
  .elaborated report.position choices report.matchedType :: report.sealedTypes.map .sealed

mutual

def Code.events : Code → List Event
  | .constant _ _ => []
  | .static _ _ _ => []
  | .name _ => []
  | .tag _ payload _ => payload.events
  | .call _ left right _ => left.events ++ right.events
  | .list items _ => items.events
  | .select record _ _ => record.events
  | .caseOf report value arms =>
      value.events ++ report.events arms.patterns.length ++ arms.events

def Codes.events : Codes → List Event
  | .nil => []
  | .cons head tail => head.events ++ tail.events

def Arms.events : Arms → List Event
  | .nil => []
  | .cons _ body tail => body.events ++ tail.events
  | .rest _ tail => tail.events

end

/-! ## Checking -/

/-- A case that has been checked, with all its types. -/
structure CheckedCase where
  name : String
  graph : TypeGraph
  scope : Scope
  report : CaseReport
  value : Code
  arms : Arms
  type : String
  sealed : List String

namespace CheckedCase

def code (checked : CheckedCase) : Code :=
  .caseOf checked.report checked.value checked.arms

end CheckedCase

namespace Fixture

def build {α : Type} (computation : Build α) : Except Failure (α × TypeGraph) :=
  match computation.on {} with
  | (.ok value, graph) => .ok (value, graph)
  | (.error failure, _) => .error failure

def compileCase (setting : Setting) (scope : Scope) (expression : Expr) :
    Build (Code × String × List String) := do
  let code ← expression.compile setting 0 scope
  let type ← Build.text code.type
  let sealed ← match code with
    | .caseOf report _ _ => report.sealed.mapM Build.text
    | _ => pure []
  return (code, type, sortTexts sealed)

/-- Installs a fixture and compiles its case. The environment comes before the source: a
fixture with faults in both fails for the former. -/
def checkBuild (fixture : Fixture) (setting : Setting) :
    Build (Scope × Code × String × List String) := do
  let scope ← fixture.scope
  match Expr.parse fixture.source with
  | .error error => throw (.badSyntax error)
  | .ok expression =>
      match expression with
      | .caseOf _ _ _ =>
          let (code, type, sealed) ←
            tryCatch (compileCase setting scope expression) fun failure =>
              throw (failure.inFile fixture.path)
          return (scope, code, type, sealed)
      | _ => throw (.within ("fixture " ++ fixture.name) (.setup .notCase))

def check (fixture : Fixture) : Except Failure CheckedCase := do
  let setting ← fixture.setting
  let ((scope, code, type, sealed), graph) ← build (fixture.checkBuild setting)
  match code with
  | .caseOf report value arms =>
      return {
        name := fixture.name, graph := graph, scope := scope, report :=
        report, value := value,
        arms := arms, type := type, sealed := sealed }
  | _ => throw (.within ("fixture " ++ fixture.name) (.setup .notCase))

def checkAll (fixtures : List Fixture) : List CheckedCase × List Failure :=
  fixtures.foldr (fun fixture (checked, failures) =>
    match fixture.check with
    | .ok result => (result :: checked, failures)
    | .error failure => (checked, failure :: failures)) ([], [])

end Fixture

/-! ## Writing code -/

/-- Code that has been found balanced. -/
structure Listing where
  code : List Instruction
  maxDepth : Int
deriving DecidableEq, Repr, Inhabited

/-- Writes the code of an expression, when slots below the given one are taken, and checks
that it leaves exactly one value. -/
def Code.generate (code : Code) (slots : Int) : Except SetupCause Listing :=
  let program := code.program slots
  let recorder := program.record
  match recorder.verdict with
  | some finding => .error (.unbalanced finding.message)
  | none =>
      if recorder.depth = 1 then .ok ⟨program.code, recorder.maxDepth⟩
      else .error (.leftover recorder.depth)

structure CompiledCase where
  checked : CheckedCase
  listing : Listing
  slotBase : Int

def Fixture.compile (fixture : Fixture) : Except Failure CompiledCase := do
  let checked ← fixture.check
  match checked.code.generate fixture.env.length with
  | .ok listing => return ⟨checked, listing, checked.value.slotBase fixture.env.length⟩
  | .error cause => throw (.within ("fixture " ++ fixture.name) (.setup cause))

def CompiledCase.emitted (compiled : CompiledCase) : Event :=
  .emitted compiled.checked.name compiled.checked.arms.patterns.length
    compiled.checked.report.slotCount compiled.checked.report.sealed.length
    compiled.listing.code.length compiled.listing.maxDepth

end Casework
