import Casework.TypeGraph.Basic

/-!
The text of a type, as diagnostics show it.

Type variables are named in the order in which they are met. A type that contains itself
is written once, with a name, and that name stands for it inside.
-/

namespace Casework

def variableName (number : Nat) : String :=
  let letter := Char.ofNat ('a'.toNat + number % 26)
  "'" ++ String.ofList [letter] ++ (if number < 26 then "" else toString (number / 26))

example : (variableName 0, variableName 25, variableName 27) = ("'a", "'z", "'b1") := by
  decide +kernel

namespace TypeGraph

structure Names where
  named : List Ref := []
  recursive : List Ref := []

abbrev Printing := StateT Names (Except Fault)

def nameOf (ref : Ref) : Printing String := do
  let names ← get
  match names.named.findIdx? (· = ref) with
  | some number => return variableName number
  | none =>
      set { names with named := names.named ++ [ref] }
      return variableName names.named.length

/-- The type that is shown for a type: links are followed, and so are positions of an
unfolding that have not been expanded. -/
def shown (graph : TypeGraph) : (fuel : Nat) → Ref → Except Fault (Ref × Form)
  | 0, _ => .error .endless
  | fuel + 1, ref => do
      let ref ← graph.deref ref
      let node ← graph.node ref
      match node.form with
      | .var (some origin) => shown graph fuel origin.copied
      | form => return (ref, form)

def parenthesize (text : String) : String := "(" ++ text ++ ")"

/-- The text of a type inside the types `around`. A nested function or variant is put in
parentheses. The types around are different from each other, so the fuel is never used
up. -/
def print (graph : TypeGraph) :
    (fuel : Nat) → (around : List Ref) → (nested : Bool) → Ref → Printing String
  | 0, _, _, _ => throw .endless
  | fuel + 1, around, nested, ref => do
      let (ref, form) ← graph.shown (graph.size + 1) ref
      match form with
      | .var _ => nameOf ref
      | .primitive primitive => return primitive.name
      | form =>
          if ref ∈ around then
            modify fun names => { names with recursive := ref :: names.recursive }
            nameOf ref
          else
            let inner := graph.print fuel (ref :: around)
            let (text, enclosed) ← match form with
              | .function argument result => do
                  let argument ← inner true argument
                  let result ← inner false result
                  pure (argument ++ " -> " ++ result, nested)
              | .list element => do
                  pure ("list<" ++ (← inner false element) ++ ">", false)
              | .row .struct members bound => do
                  let dot := if bound.isNone then "." else ""
                  let fields ← (bound.getD members).entries.mapM fun (name, type) => do
                    return dot ++ name ++ " is " ++ (← inner false type)
                  pure ("\x7b" ++ ", ".intercalate fields ++ "\x7d", false)
              | .row .variant members bound => do
                  let tags ← (bound.getD members).entries.mapM fun (name, type) => do
                    return name ++ " " ++ (← inner true type)
                  pure (" | ".intercalate tags, nested)
              | _ => pure ("", false)
            if ref ∈ (← get).recursive then
              return parenthesize ((← nameOf ref) ++ " is " ++ text)
            else return if enclosed then parenthesize text else text

def text (graph : TypeGraph) (ref : Ref) : Except Fault String := do
  let (text, _) ← (graph.print (graph.size + 2) [] false ref).run {}
  return text

end TypeGraph

def Build.text (ref : Ref) : Build String := look (·.text ref)

end Casework
