/-!
Marks: what the patterns of a case have left on the types they matched.
-/

namespace Casework

/-- What patterns have left on a node: whether some pattern matches every value there,
whether only patterns that can fail have been seen, whether tags are still being
collected, and which forms of a list have been matched: the empty one, all with a head as
far as their tail is concerned, one of a given length. Marks also have a numeric code of
sixteen bits; the bits that mean nothing are kept. -/
structure Marks where
  any : Bool := false
  partly : Bool := false
  collecting : Bool := false
  emptyForm : Bool := false
  consForm : Bool := false
  fixedForm : Bool := false
  spare : UInt16 := 0
deriving DecidableEq, Repr, Inhabited

namespace Marks

def none : Marks := {}

def union (left right : Marks) : Marks where
  any := left.any || right.any
  partly := left.partly || right.partly
  collecting := left.collecting || right.collecting
  emptyForm := left.emptyForm || right.emptyForm
  consForm := left.consForm || right.consForm
  fixedForm := left.fixedForm || right.fixedForm
  spare := left.spare ||| right.spare

def without (left right : Marks) : Marks where
  any := left.any && !right.any
  partly := left.partly && !right.partly
  collecting := left.collecting && !right.collecting
  emptyForm := left.emptyForm && !right.emptyForm
  consForm := left.consForm && !right.consForm
  fixedForm := left.fixedForm && !right.fixedForm
  spare := left.spare &&& ~~~right.spare

def includes (marks wanted : Marks) : Bool :=
  wanted.without marks == none

/-! ## Codes -/

def bit (set : Bool) (value : UInt16) : UInt16 :=
  if set then value else 0

def code (marks : Marks) : UInt16 :=
  bit marks.any 1 ||| bit marks.partly 2 ||| bit marks.collecting 4 ||| bit
    marks.emptyForm 8 |||
    bit marks.consForm 16 ||| bit marks.fixedForm 32 ||| marks.spare

def ofCode (code : UInt16) : Marks where
  any := code &&& 1 != 0
  partly := code &&& 2 != 0
  collecting := code &&& 4 != 0
  emptyForm := code &&& 8 != 0
  consForm := code &&& 16 != 0
  fixedForm := code &&& 32 != 0
  spare := code &&& 0xFFC0

example : (ofCode 0xFFFF).code = 0xFFFF := by decide

/-! ## Forms of lists -/

def forms (marks : Marks) : Marks where
  emptyForm := marks.emptyForm
  consForm := marks.consForm
  fixedForm := marks.fixedForm

def withoutForms (marks : Marks) : Marks :=
  { marks with emptyForm := false, consForm := false, fixedForm := false }

/-- A list is matched partly when some form of it has been matched, but not both the empty
one and the one with a head. -/
def settleForms (marks : Marks) : Marks :=
  { marks with
    partly := (marks.emptyForm || marks.consForm || marks.fixedForm) &&
      !(marks.emptyForm && marks.consForm) }

/-- The marks that move to the surviving type when two types become one. -/
def moving (marks : Marks) : Marks :=
  { marks.forms with partly := marks.partly, collecting := marks.collecting }

def staying (marks : Marks) : Marks :=
  { marks.withoutForms with partly := false }

end Marks

end Casework
