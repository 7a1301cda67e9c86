import Casework.Text.Quoted

/-!
Refusals: why a text holds no document.

A text is refused at the first character that cannot stand where it stands, or because it
ends too early.
-/

namespace Casework.Document

inductive Stage where
  | value
  | key
  | afterKey
  | afterEntry
  | afterItem
  | inString
  | escape
  | unicodeEscape
  | numeral
  | fraction
  | exponent
  | inWord (word : String) (letter : Char)
  | afterDocument
deriving DecidableEq, Repr

def Stage.text : Stage → String
  | value => "looking for beginning of value"
  | key => "looking for beginning of object key string"
  | afterKey => "after object key"
  | afterEntry => "after object key:value pair"
  | afterItem => "after array element"
  | inString => "in string literal"
  | escape => "in string escape code"
  | unicodeEscape => "in \\u hexadecimal character escape"
  | numeral => "in numeric literal"
  | fraction => "after decimal point in numeric literal"
  | exponent => "in exponent of numeric literal"
  | inWord word letter =>
      "in literal " ++ word ++ " (expecting " ++ Text.quoteChar letter ++ ")"
  | afterDocument => "after top-level value"

inductive Refusal where
  | unexpected (character : Char) (stage : Stage)
  | unfinished
deriving DecidableEq, Repr

/-- The character that the first byte of a character stands for when bytes are taken for
code points. -/
def firstByte (character : Char) : Char :=
  match String.utf8EncodeChar character with
  | byte :: _ => Char.ofNat byte.toNat
  | [] => character

/-- The text that reports a refusal. Of a character it shows the first byte. -/
def Refusal.message : Refusal → String
  | unexpected character stage =>
      "invalid character " ++ Text.quoteChar (firstByte character) ++ " " ++ stage.text
  | unfinished => "unexpected end of JSON input"

end Casework.Document
