import Casework.Source

/-!
Tokens: names, numbers, strings and marks, each at the place where it starts.
-/

namespace Casework

/-- What a token is. Numbers and strings keep the text they were written with. -/
inductive Lexeme where
  | name (text : String)
  | number (text : String)
  | quoted (text : String)
  | mark (text : String)
  | finish
deriving DecidableEq, Repr, Inhabited

structure Token where
  lexeme : Lexeme
  position : Position
deriving DecidableEq, Repr, Inhabited

namespace Lexeme

/-- The text a token was written with, empty at the end of the source. -/
def text : Lexeme → String
  | name text => text
  | number text => text
  | quoted text => text
  | mark text => text
  | finish => ""

def shown : Lexeme → String
  | quoted text => text
  | finish => "end of input"
  | lexeme => "'" ++ lexeme.text ++ "'"

def isWord (lexeme : Lexeme) (text : String) : Bool :=
  match lexeme with
  | name own => own == text
  | mark own => own == text
  | _ => false

end Lexeme

end Casework
