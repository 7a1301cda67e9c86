/-!
UTF-8: the bytes of a text, and the characters that bytes spell.

Bytes need not spell a text. A byte that starts no well-formed sequence is read on its
own, as no character, and reading goes on with the byte after it.
-/

namespace Casework.Text

def bytes (text : String) : List UInt8 :=
  text.toList.flatMap String.utf8EncodeChar

/-! ## Reading bytes -/

def continuation? (byte : UInt8) : Option Nat :=
  if 0x80 ≤ byte && byte < 0xC0 then some (byte.toNat - 0x80) else none

/-- A character from its code point, unless the code point is a surrogate, is too large,
or needs fewer bytes than it was spelled with (`least` is the first that needs them
all). -/
def codePoint? (least code : Nat) : Option Char :=
  if least ≤ code && code.isValidChar then some (Char.ofNat code) else none

/-- The character that starts at a byte, and how many of the bytes after it belong to
it. -/
def leading (first : UInt8) (rest : List UInt8) : Option Char × Nat :=
  let sequence? : Option (Char × Nat) := do
    if first < 0x80 then
      some (Char.ofNat first.toNat, 0)
    else if 0xC0 ≤ first && first < 0xE0 then
      let second ← rest[0]? >>= continuation?
      let character ← codePoint? 0x80 ((first.toNat - 0xC0) * 64 + second)
      some (character, 1)
    else if 0xE0 ≤ first && first < 0xF0 then
      let second ← rest[0]? >>= continuation?
      let third ← rest[1]? >>= continuation?
      let character ← codePoint? 0x800 (((first.toNat - 0xE0) * 64 + second) * 64 + third)
      some (character, 2)
    else if 0xF0 ≤ first && first < 0xF8 then
      let second ← rest[0]? >>= continuation?
      let third ← rest[1]? >>= continuation?
      let fourth ← rest[2]? >>= continuation?
      let character ← codePoint? 0x10000
        ((((first.toNat - 0xF0) * 64 + second) * 64 + third) * 64 + fourth)
      some (character, 3)
    else
      none
  match sequence? with
  | some (character, count) => (some character, count)
  | none => (none, 0)

def decodeAfter : Nat → List UInt8 → List (Option Char × UInt8)
  | _, [] => []
  | skip + 1, _ :: rest => decodeAfter skip rest
  | 0, first :: rest =>
      let (character, count) := leading first rest
      (character, first) :: decodeAfter count rest

def decode (bytes : List UInt8) : List (Option Char × UInt8) :=
  decodeAfter 0 bytes

example :
    (decode [0x61, 0xC3, 0xA9, 0x62]).map Prod.fst = [some 'a', some 'é', some 'b'] := by
  decide

example : (decode [0x61, 0xFF, 0x62]).map Prod.fst = [some 'a', none, some 'b'] := by
  decide

example : (decode [0xC0, 0x80]).map Prod.fst = [none, none] := by decide

end Casework.Text
