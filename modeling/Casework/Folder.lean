import Casework.Document.Basic
import Casework.Failure

/-!
Folders: the files that a command can read, found by their paths.

A path is followed name by name. It can leave the folder, but nothing is known of what
lies outside, so no file is found there.
-/

namespace Casework

/-- A folder: the files in it and in its subfolders, each with the names that lead to
it. -/
structure Folder where
  files : List (List String × Document)
deriving Repr, Inhabited

namespace Folder

/-- Splits a path at its slashes. The characters of the first name read so far come in
reverse. -/
def splitNames : (read : List Char) → List Char → List String
  | read, [] => [String.ofList read.reverse]
  | read, '/' :: rest => String.ofList read.reverse :: splitNames [] rest
  | read, character :: rest => splitNames (character :: read) rest

def split (path : String) : List String :=
  splitNames [] path.toList

example : split ".//case.json" = [".", "", "case.json"] := by decide +kernel

def isHere (name : String) : Bool :=
  name = "" || name = "."

def names (path : String) : List String :=
  (split path).filter (!isHere ·)

example : names ".//sub/case.json" = ["sub", "case.json"] := by decide +kernel

def ofFiles (files : List (String × Document)) : Folder :=
  ⟨files.map fun (path, document) => (names path, document)⟩

inductive Place where
  | inside (names : List String)
  | outside
  | file (document : Document)
deriving Repr

def longestName : Nat := 255

def tooLongPath : Nat := 4096

/-- What the given names lead to. A file is found before a folder of the same name. -/
def place (folder : Folder) (names : List String) : Except Unreadable Place :=
  match folder.files.find? (·.1 == names) with
  | some (_, document) => .ok (.file document)
  | none =>
      if folder.files.any (names.isPrefixOf ·.1) then
        .ok (.inside names) else .error .missing

def parent : Place → Place
  | .inside [] => .outside
  | .inside names => .inside names.dropLast
  | place => place

def step (folder : Folder) (place : Place) (name : String) : Except Unreadable Place :=
  match place with
  | .file _ => .error .notFolder
  | place =>
      if isHere name then .ok place
      else if name = ".." then .ok (parent place)
      else if longestName < name.utf8ByteSize then .error .nameTooLong
      else match place with
        | .inside names => folder.place (names ++ [name])
        | _ => .error .missing

def read (folder : Folder) (path : String) : Except Unreadable Document := do
  if path.toList.contains '\x00' then throw .invalidName
  if path.isEmpty then throw .missing
  if tooLongPath ≤ path.utf8ByteSize then throw .nameTooLong
  let start := if path.toList.head? = some '/' then Place.outside else .inside []
  match ← (split path).foldlM folder.step start with
  | .file document => return document
  | _ => throw .isFolder

example : ((ofFiles []).read ".").isOk = false := by decide +kernel

end Folder

end Casework
