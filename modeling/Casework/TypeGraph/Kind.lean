/-!
Kinds of types.
-/

namespace Casework

/-- Types without parts. -/
inductive Primitive where
  | unit
  | text
  | number
  | boolean
deriving DecidableEq, Repr, Inhabited

/-- What a type is, its parts left out. Kinds also have numeric codes, and a code may
stand for no kind at all. -/
inductive Kind where
  | var
  | primitive (primitive : Primitive)
  | function
  | list
  | struct
  | variant
  | unknown (code : UInt8)
deriving DecidableEq, Repr, Inhabited

def Primitive.name : Primitive → String
  | unit => "()"
  | text => "string"
  | number => "number"
  | boolean => "boolean"

namespace Kind

def name : Kind → String
  | var => "var"
  | primitive own => own.name
  | function => "function"
  | list => "list"
  | struct => "struct"
  | variant => "variant"
  | unknown code => "kind(" ++ toString code.toNat ++ ")"

def ofCode (code : UInt8) : Kind :=
  match code.toNat with
  | 0 => var
  | 1 => primitive .unit
  | 2 => primitive .text
  | 3 => primitive .number
  | 4 => primitive .boolean
  | 5 => function
  | 6 => list
  | 7 => struct
  | 8 => variant
  | _ => unknown code

example : (ofCode 3).name = "number" := by decide +kernel

example : (ofCode 9).name = "kind(9)" := by decide +kernel

end Kind

end Casework
