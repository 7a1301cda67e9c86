/-!
Documents: the data that fixtures and configurations are written in.

A scalar of a document keeps its spelling, because a field that wants text takes any
scalar as it is written.
-/

namespace Casework

inductive Document where
  | null
  | boolean (value : Bool)
  | number (text : String)
  | string (value : String)
  | list (items : List Document)
  | object (entries : List (String × Document))
deriving Repr, Inhabited

namespace Document

/-- The entry of an object under a key; the last one counts. Missing entries are null. -/
def entry (entries : List (String × Document)) (key : String) : Document :=
  match entries.reverse.find? (·.1 == key) with
  | some (_, document) => document
  | none => .null

def field (document : Document) (key : String) : Document :=
  match document with
  | .object entries => entry entries key
  | _ => .null

/-! ## Shapes

A document that does not have the shape asked for is `none`; null has every shape. -/

def scalarText? : Document → Option String
  | null => some ""
  | boolean value => some (if value then "true" else "false")
  | number text => some text
  | string value => some value
  | list _ => none
  | object _ => none

/-- The words that stand for a truth value: in small letters, in capitals or with one
capital. -/
def affirmations : List String :=
  ["y", "Y", "yes", "Yes", "YES", "on", "On", "ON"]

def negations : List String :=
  ["n", "N", "no", "No", "NO", "off", "Off", "OFF"]

def truth? : Document → Option Bool
  | null => some false
  | boolean value => some value
  | string word =>
      if word ∈ affirmations then some true
      else if word ∈ negations then some false
      else none
  | _ => none

def isNull : Document → Bool
  | null => true
  | _ => false

def items? : Document → Option (List Document)
  | null => some []
  | list items => some items
  | _ => none

def entries? : Document → Option (List (String × Document))
  | null => some []
  | object entries => some entries
  | _ => none

def textOf? (entries : List (String × Document)) (key : String) : Option String :=
  (entry entries key).scalarText?

end Document

end Casework
