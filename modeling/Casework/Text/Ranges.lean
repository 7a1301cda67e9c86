/-!
Sets of characters given by ranges of code points.

The character classes of the source language reach beyond ASCII, so each is a table of
ranges. A table is only consulted for characters outside ASCII: below that the classes
have closed forms.
-/

namespace Casework.Text

/-- Whether `code` lies in one of the closed ranges. -/
def inRanges (ranges : List (Nat × Nat)) (code : Nat) : Bool :=
  ranges.any fun (first, last) => first ≤ code && code ≤ last

/-- Whether `code` is reached from the start of a range by whole steps without passing its
end. -/
def inSteppedRanges (ranges : List (Nat × Nat × Nat)) (code : Nat) : Bool :=
  ranges.any fun (first, last, step) =>
    first ≤ code && code ≤ last && (code - first) % step == 0

example : inRanges [(2, 4), (8, 8)] 3 = true := rfl

example : inRanges [(2, 4), (8, 8)] 5 = false := rfl

example : inSteppedRanges [(10, 14, 2)] 12 = true := rfl

example : inSteppedRanges [(10, 14, 2)] 13 = false := rfl

end Casework.Text
