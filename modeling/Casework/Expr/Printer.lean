import Casework.Expr.Basic
import Casework.Text.Quoted

/-!
The text of an expression, as diagnostics show it. An operand that is itself an
application or an operation is put in parentheses, so the text can be read back.
-/

namespace Casework

def Expr.isCompound : Expr → Bool
  | .apply .. => true
  | .binary .. => true
  | _ => false

/-- Puts the text of an operand in parentheses if it needs them. -/
def enclose (compound : Bool) (text : String) : String :=
  if compound then "(" ++ text ++ ")" else text

def Expr.isShorthandFor (name : String) : Expr → Bool
  | .symbol _ own => own == name
  | _ => false

mutual

/-- The text of an expression. -/
def Expr.text : Expr → String
  | .symbol _ name => name
  | .number _ text _ => text
  | .string _ value => Text.quoteBytes value
  | .unit _ => "()"
  | .static _ owner field => owner ++ "#" ++ field
  | .list _ items => "[" ++ items.text ++ "]"
  | .apply _ name argument => name ++ " " ++ enclose argument.isCompound argument.text
  | .binary _ operator left right =>
      enclose left.isCompound left.text ++ " " ++ operator.text ++ " " ++
        enclose right.isCompound right.text
  | .record _ fields => "\x7b" ++ fields.text ++ "\x7d"
  | .select _ record field => enclose record.isCompound record.text ++ "." ++ field
  | .caseOf _ value choices => "case " ++ value.text ++ " of " ++ choices.text ++ "esac"

def Exprs.text : Exprs → String
  | .nil => ""
  | .cons head .nil => head.text
  | .cons head tail => head.text ++ ", " ++ tail.text

def Fields.text : Fields → String
  | .nil => ""
  | .cons _ name value .nil =>
      if value.isShorthandFor name then name else name ++ " = " ++ value.text
  | .cons _ name value tail =>
      (if value.isShorthandFor name then name else name ++ " = " ++ value.text) ++
        ", " ++ tail.text

def Choices.text : Choices → String
  | .nil => ""
  | .cons _ pattern body tail => pattern.text ++ ": " ++ body.text ++ "; " ++ tail.text
  | .rest _ tail => "...; " ++ tail.text

end

example :
    let symbol := Expr.symbol .first
    (Expr.binary .first .multiply (.binary .first .add (symbol "a") (symbol "b"))
      (symbol "c")).text =
      "(a + b) * c" := by decide +kernel

example :
    (Expr.record .first (.cons .first "a" (.symbol .first "a")
      (.cons .first "b" (.unit .first) .nil))).text =
        "\x7ba, b = ()\x7d" := by decide +kernel

end Casework
