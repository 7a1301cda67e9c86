import Casework.Text.Utf8

/-!
Source text: characters with their positions.

A source is given as bytes, which need not spell a text, so a place may hold no character.
Columns count characters, not bytes, and every malformed byte counts as one.
-/

namespace Casework

/-- A place in a source, counted from one. Places that a caller reports are not checked,
so the numbers are integers; a line that is not positive means that the place is
unknown. -/
structure Position where
  line : Int
  column : Int
deriving DecidableEq, Repr, Inhabited

namespace Position

def first : Position := ⟨1, 1⟩

def next (position : Position) (character? : Option Char) : Position :=
  if character? = some '\n' then ⟨position.line + 1, 1⟩
  else ⟨position.line, position.column + 1⟩

def text (position : Position) : String :=
  toString position.line ++ ":" ++ toString position.column

end Position

structure Glyph where
  character? : Option Char
  position : Position
deriving DecidableEq, Repr

/-- A source: its characters, and the place after the last one. -/
structure Source where
  glyphs : List Glyph
  finish : Position
deriving DecidableEq, Repr, Inhabited

namespace Source

def place : Position → List (Option Char) → Source
  | position, [] => ⟨[], position⟩
  | position, character? :: rest =>
      let source := place (position.next character?) rest
      ⟨⟨character?, position⟩ :: source.glyphs, source.finish⟩

def ofString (text : String) : Source :=
  place .first (text.toList.map some)

def ofBytes (bytes : List UInt8) : Source :=
  place .first ((Text.decode bytes).map Prod.fst)

def text (source : Source) : String :=
  String.ofList (source.glyphs.map fun glyph => glyph.character?.getD '\uFFFD')

instance : Coe Source String := ⟨text⟩

example : (ofString "a\nb").glyphs.map Glyph.position = [⟨1, 1⟩, ⟨1, 2⟩, ⟨2, 1⟩] := by
  decide

example : (ofString "").finish = ⟨1, 1⟩ := by decide

end Source

end Casework
