import Casework.Document.Basic
import Casework.Text.Quoted

/-!
Writing documents as JSON text.
-/

namespace Casework.Document

/-- A character as it stands between the quotes of a string. Only what must be escaped
is. -/
def escaped (character : Char) : List Char :=
  if character = '"' || character = '\\' then ['\\', character]
  else if character = '\n' then ['\\', 'n']
  else if character = '\t' then ['\\', 't']
  else if character = '\r' then ['\\', 'r']
  else if character.toNat < 0x20 then '\\' :: 'u' :: Text.hex 4 character.toNat
  else [character]

def writeString (text : String) : String :=
  String.ofList ('"' :: text.toList.flatMap escaped ++ ['"'])

mutual

def write : Document → String
  | null => "null"
  | boolean value => if value then "true" else "false"
  | number text => text
  | string value => writeString value
  | list items => "[" ++ writeItems items ++ "]"
  | object entries => "\x7b" ++ writeEntries entries ++ "\x7d"

def writeItems : List Document → String
  | [] => ""
  | [item] => write item
  | item :: rest => write item ++ "," ++ writeItems rest

def writeEntries : List (String × Document) → String
  | [] => ""
  | [(key, item)] => writeString key ++ ":" ++ write item
  | (key, item) :: rest => writeString key ++ ":" ++ write item ++ "," ++
      writeEntries rest

end

example : write (.list [.number "1", .string "a\"b"]) = "[1,\"a\\\"b\"]" := by
  decide +kernel

end Casework.Document
