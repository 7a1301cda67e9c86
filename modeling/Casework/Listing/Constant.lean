import Casework.Number.Written
import Casework.Text.Quoted

/-!
Constants: values known at compile time.
-/

namespace Casework

/-- A value known at compile time. Texts are bytes, because a string literal can spell
any. -/
inductive Constant where
  | unit
  | number (value : Number)
  | text (bytes : List UInt8)
  | boolean (value : Bool)
  /-- A value of no type of the language, by its printed form. -/
  | foreign (printed : String)
deriving DecidableEq, Repr, Inhabited

namespace Constant

def ofString (value : String) : Constant := .text (Text.bytes value)

def written : Constant → String
  | unit => "()"
  | number value => value.text
  | text bytes => Text.quoteBytes bytes
  | boolean value => if value then "true" else "false"
  | foreign printed => printed

example : (ofString "a\n").written = "\"a\\n\"" := by decide +kernel

end Constant

end Casework
