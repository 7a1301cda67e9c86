import Casework.Listing.Constant

/-!
Values: what compiled code computes with.

Null is no object at all. It is the unit value and also one of the two forms of the empty
list; the other one is a list object without items.
-/

namespace Casework

mutual

inductive Value where
  | null
  | number (value : Number)
  | text (bytes : List UInt8)
  | boolean (value : Bool)
  | foreign (printed : String)
  | list (items : Values)
  | struct (fields : Members)
  | tagged (tag : String) (payload : Value)
  | function (number : Nat)

inductive Values where
  | nil
  | cons (head : Value) (tail : Values)

/-- The fields of a struct; the first one of a name counts. -/
inductive Members where
  | nil
  | cons (name : String) (value : Value) (tail : Members)

end

deriving instance DecidableEq for Value
deriving instance DecidableEq for Values
deriving instance DecidableEq for Members
deriving instance Repr for Value
deriving instance Repr for Values
deriving instance Repr for Members

instance : Inhabited Value := ⟨.null⟩

def Values.toList : Values → List Value
  | nil => []
  | cons head tail => head :: tail.toList

def Members.get? (name : String) : Members → Option Value
  | nil => none
  | cons own value tail => if own = name then some value else tail.get? name

def Members.names : Members → List String
  | nil => []
  | cons name _ tail => name :: tail.names

namespace Value

/-- The items of a value that is a list. Null is a list without items. -/
def items? : Value → Option Values
  | null => some .nil
  | list items => some items
  | _ => none

def ofConstant : Constant → Value
  | .unit => null
  | .number value => number value
  | .text bytes => text bytes
  | .boolean value => boolean value
  | .foreign printed => foreign printed

def ofString (value : String) : Value := text (Text.bytes value)

@[simp] theorem ofConstant_ofString (value : String) :
    ofConstant (.ofString value) = ofString value := rfl

@[simp] theorem items?_null : null.items? = some .nil := rfl

@[simp] theorem items?_list (items : Values) : (list items).items? = some items := rfl

theorem items?_eq_some_iff (value : Value) (items : Values) :
    value.items? = some items ↔ value = list items ∨ value = null ∧ items = .nil := by
  cases value <;> simp [items?, eq_comm]

theorem ofString_injective {left right : String}
    (equal : ofString left = ofString right) :
    left = right := by
  have bytesEqual : Text.bytes left = Text.bytes right := by
    simpa [ofString] using equal
  have encoded : left.toList.utf8Encode = right.toList.utf8Encode := by
    simpa [List.utf8Encode, Text.bytes] using congrArg List.toByteArray bytesEqual
  rw [String.utf8Encode_toList, String.utf8Encode_toList] at encoded
  exact String.toByteArray_inj.1 encoded

@[simp] theorem ofString_eq_iff (left right : String) :
    ofString left = ofString right ↔ left = right :=
  ⟨ofString_injective, congrArg ofString⟩

end Value

end Casework
