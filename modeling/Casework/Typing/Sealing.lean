import Casework.Typing.Pattern

/-!
Sealing: fixing the tags of the variants that a case enumerates.
-/

namespace Casework

def sortTexts (texts : List String) : List String :=
  texts.mergeSort fun left right => !(right < left)

namespace Build

def variantRoots : List Ref → (found : List Ref) → Build (List Ref)
  | [], found => return found
  | ref :: rest, found => do
      let root ← deref ref
      if (← kind root) = .variant && !found.contains root then
        variantRoots rest (found ++ [root])
      else variantRoots rest found

def copyTags (target source : Ref) : Build Unit := do
  for (tag, type) in (← members source).entries do
    if (← member? target tag).isNone then
      if ← allows target tag then putMember target tag type

/-- Gives every variant that copies one type variable the tags matched at the other
positions that copy it. They will be one type, so a tag matched at one of them must be
matched at all. -/
def shareTags (unfolding : Nat) : Build Unit := do
  for positions in ← sharedPositions unfolding do
    let roots ← variantRoots positions []
    for target in roots do
      for source in roots do
        copyTags target source

/-- Seals the variants that no pattern covers entirely, and gives those that were open. -/
def sealAll : List Ref → Build (List Ref)
  | [] => return []
  | ref :: rest => do
      let root ← deref ref
      let skipped := (← kind root) != .variant || (← hasAny ref) || (← hasAny root)
      let wasOpen ← if skipped then pure false else sealVariant root
      let others ← sealAll rest
      return if wasOpen then root :: others else others

end Build

end Casework
