import Casework.Text.Quoted
import Casework.Token.Basic

/-!
Syntax errors: why a source could not be read, and where.
-/

namespace Casework

inductive Radix where
  | decimal
  | octal
  | binary
  | hexadecimal
deriving DecidableEq, Repr

def Radix.name : Radix → String
  | decimal => "decimal literal"
  | octal => "octal literal"
  | binary => "binary literal"
  | hexadecimal => "hexadecimal literal"

inductive SyntaxCause where
  | malformedText
  | nulCharacter
  | unterminatedComment
  | unterminatedLiteral
  | invalidEscape
  | noDigits (radix : Radix)
  | radixPoint (radix : Radix)
  | decimalExponent (letter : Char)
  | hexadecimalExponent (letter : Char)
  | noExponentDigits
  | missingExponent
  | invalidDigit (digit : Char) (radix : Radix)
  | misplacedSeparator
  | unexpectedCharacter (character : Char)
  | twoDots
  | badNumber (text : String)
  | badString (text : String)
  | unexpected (found : Lexeme)
  | expected (text : String) (found : Lexeme)
  | expectedField (found : Lexeme)
  | expectedStatic (found : Lexeme)
  | expectedChoiceEnd (found : Lexeme)
  | afterExpression (found : Lexeme)
  | expectedTag (found : Lexeme)
  | expectedVariable (found : Lexeme)
  | unexpectedInType (found : Lexeme)
  | afterType (found : Lexeme)
  /-- A token after the end of the source has been asked for. -/
  | pastEnd
  | endless
  | stated (message : String)
deriving DecidableEq, Repr

namespace SyntaxCause

def message : SyntaxCause → String
  | malformedText => "invalid UTF-8 encoding"
  | nulCharacter => "invalid character NUL"
  | unterminatedComment => "comment not terminated"
  | unterminatedLiteral => "literal not terminated"
  | invalidEscape => "invalid char escape"
  | noDigits radix => radix.name ++ " has no digits"
  | radixPoint radix => "invalid radix point in " ++ radix.name
  | decimalExponent letter => Text.quoteChar letter ++
      " exponent requires decimal mantissa"
  | hexadecimalExponent letter =>
      Text.quoteChar letter ++ " exponent requires hexadecimal mantissa"
  | noExponentDigits => "exponent has no digits"
  | missingExponent => "hexadecimal mantissa requires a 'p' exponent"
  | invalidDigit digit radix => "invalid digit " ++ Text.quoteChar digit ++
      " in " ++ radix.name
  | misplacedSeparator => "'_' must separate successive digits"
  | unexpectedCharacter character => "unexpected character " ++ Text.quoteChar character
  | twoDots => "unexpected '..'"
  | badNumber text => "bad number " ++ text
  | badString text => "bad string " ++ text
  | unexpected found => "unexpected " ++ found.shown
  | expected text found => "expected '" ++ text ++ "', found " ++ found.shown
  | expectedField found => "expected field name, found " ++ found.shown
  | expectedStatic found => "expected field name after '#', found " ++ found.shown
  | expectedChoiceEnd found => "expected ';' or 'esac', found " ++ found.shown
  | afterExpression found => "unexpected " ++ found.shown ++ " after expression"
  | expectedTag found => "expected variant tag, found " ++ found.shown
  | expectedVariable found => "expected type variable name, found " ++ found.shown
  | unexpectedInType found => "unexpected " ++ found.shown ++ " in type"
  | afterType found => "unexpected " ++ found.shown ++ " after type"
  | pastEnd => "no token after the end of input"
  | endless => "endless input"
  | stated message => message

end SyntaxCause

/-- A cause, and the place it is reported at if that is known. -/
structure SyntaxError where
  place : Option Position
  cause : SyntaxCause
deriving DecidableEq, Repr

end Casework
