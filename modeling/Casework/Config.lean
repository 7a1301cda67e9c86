import Casework.Document.Basic
import Casework.Failure
import Casework.Listing.Target

/-!
Configurations: the names of the target's library, and what is printed.
-/

namespace Casework

/-- What the compile command prints: the code alone, or also the type and the sealed
variants. -/
inductive ListingMode where
  | code
  | full
deriving DecidableEq, Repr, Inhabited

def ListingMode.name : ListingMode → String
  | code => "code"
  | full => "full"

def ListingMode.ofName? : String → Option ListingMode
  | "code" => some .code
  | "full" => some .full
  | _ => none

/-! ## Levels -/

namespace LogLevel

/-- The upper-case letter of a letter. Outside ASCII only the dotless i matters, because
no other letter becomes one that the name of a level has. -/
def upper (character : Char) : Char :=
  if character = 'ı' then 'I' else character.toUpper

def ofName? : String → Option Int
  | "DEBUG" => some (-4)
  | "INFO" => some 0
  | "WARN" => some 4
  | "ERROR" => some 8
  | _ => none

def offset? (text : List Char) : Option Int := do
  let (negative, digits) := match text with
    | '-' :: rest => (true, rest)
    | '+' :: rest => (false, rest)
    | text => (false, text)
  if digits.isEmpty || !digits.all Char.isDigit then none
  else
    let magnitude : Int :=
      digits.foldl (fun value c => value * 10 + (c.toNat - '0'.toNat)) 0
    let value := if negative then -magnitude else magnitude
    if -9223372036854775808 ≤ value && value ≤ 9223372036854775807 then
      some value else none

def ofText? (text : String) : Option Int := do
  let characters := text.toList.map upper
  let isSign (character : Char) : Bool := character == '+' || character == '-'
  let name := characters.takeWhile (!isSign ·)
  let rest := characters.dropWhile (!isSign ·)
  let offset ← if rest.isEmpty then some 0 else offset? rest
  let level ← ofName? (String.ofList name)
  return Int.bmod (level + offset) 18446744073709551616

example : ofText? "debug+3" = some (-1) := by decide +kernel

example : ofText? "info++1" = none := by decide +kernel

end LogLevel

/-! ## Configurations -/

structure Config where
  target : Target
  levelText : String
  level : Int
  listing : ListingMode
deriving DecidableEq, Repr, Inhabited

namespace Config

def standard : Config := ⟨.standard, "warn", 4, .code⟩

def decodeTarget? (document : Document) : Option Target := do
  let entries ← document.entries?
  let name (key : String) : Option String := Document.textOf? entries key
  return {
    isEmpty := ← name "is_empty"
    first := ← name "first"
    rest := ← name "rest"
    cons := ← name "cons"
    noMatch := ← name "no_match"
    add := ← name "add"
    subtract := ← name "sub"
    multiply := ← name "mul"
    listClass := ← name "list_class"
    structClass := ← name "struct_class"
    tagClass := ← name "tag_class" }

def decode? (document : Document) : Option (Target × String × String) := do
  let entries ← document.entries?
  let target ← decodeTarget? (Document.entry entries "runtime")
  return (target, ← Document.textOf? entries "log_level",
    ← Document.textOf? entries "listing")

def ofDocument (document : Document) : Except Failure Config :=
  match decode? document with
  | none => .error (.setup .undecodable)
  | some (target, levelText, listingText) =>
      let levelText := Target.choose levelText standard.levelText
      let listingText := Target.choose listingText standard.listing.name
      match LogLevel.ofText? levelText with
      | none => .error (.setup (.unknownLevel levelText))
      | some level =>
          match ListingMode.ofName? listingText with
          | none => .error (.setup (.unknownListing listingText))
          | some listing => .ok ⟨target.orElse .standard, levelText, level, listing⟩

end Config

end Casework
