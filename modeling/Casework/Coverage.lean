import Casework.TypeGraph.Printer
import Casework.TypeGraph.Unfolding

/-!
Coverage: whether the patterns matched against a type leave a value out.

Patterns leave marks on the types they are matched against. The search for a gap goes
through the parts of a type in order and stops at the first place where the marks say that
some value is not matched. It does not enter a type that some pattern covers entirely, nor
one it is already inside of: every type is marked while its parts are searched, so the
search ends on types that contain themselves.
-/

namespace Casework

namespace TypeGraph

def settle (graph : TypeGraph) : (fuel : Nat) → Ref → Except Fault (Option (Ref × Node))
  | 0, _ => .error .endless
  | fuel + 1, ref => do
      let node ← graph.node ref
      if node.walked || node.marks.any then return none
      match node.link with
      | some next => settle graph fuel next
      | none => return some (ref, node)

def missingTag (node : Node) (members : Row) : Option (String × Ref) :=
  if node.matched.isEmpty then none
  else members.entries.find? fun (tag, _) => !node.matched.contains tag

end TypeGraph

namespace Build

def walking (ref : Ref) (inside : Build (Option String)) : Build (Option String) := do
  unless ← enter ref do return none
  try inside finally leave ref

def partialGap (ref : Ref) (node : Node) : Build (Option String) := do
  match node.form with
  | .list _ => return some (if node.marks.emptyForm then "_::_" else "[]")
  | _ =>
      let text ← text ref
      return if text.isEmpty then none else some text

def payloadText (payload : Ref) : Build String := do
  expand payload
  if (← kind payload) = .primitive .unit then return "()"
  else return TypeGraph.parenthesize (← text payload)

/-- The text of the first gap that can be reached from a type. The nodes being walked are
different from each other, so the fuel is never used up. -/
def findGap : (fuel : Nat) → Ref → Build (Option String)
  | 0, _ => throw (.fault .endless)
  | fuel + 1, ref => do
      match ← look fun graph => graph.settle (graph.size + 1) ref with
      | none => return none
      | some (ref, node) =>
          if node.marks.partly then partialGap ref node
          else
            let inner := findGap fuel
            match node.form with
            | .var _ => return none
            | .primitive _ => walking ref (return none)
            | .list element => walking ref do
                return (← inner element).map fun text => "(" ++ text ++ ")::_"
            | .function argument result =>
                walking ref ([argument, result].findSomeM? inner)
            | .row .struct members _ => walking ref do
                members.entries.findSomeM? fun (name, type) => do
                  return (← inner type).map fun text => "." ++ name ++ " (" ++ text ++ ")"
            | .row .variant members _ => walking ref do
                match TypeGraph.missingTag node members with
                | some (tag, payload) =>
                    return some (tag ++ " " ++ (← payloadText payload))
                | none =>
                    members.entries.findSomeM? fun (tag, type) => do
                      return (← inner type).map fun text => tag ++ " (" ++ text ++ ")"

/-- The text of the first gap of a type, if it has one. -/
def gap? (ref : Ref) : Build (Option String) := do
  findGap ((← get).size + 1) ref

end Build

end Casework
