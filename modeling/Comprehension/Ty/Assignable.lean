import Comprehension.Ty.Basic

/-! # Items of a type, and assignability

`Ty.element?` answers what the items of a type are, if it is a sequence in any sense.
`Ty.accepts expected found` answers whether a value of type `found` may stand where `expected` is
asked for. -/
namespace Comprehension

mutual

/-- The type of the items. Sequences and groupings have items, a string has characters, and a class
has the items of the first type it implements that has any. -/
def Ty.element? : Ty → Option Ty
  | .sequence _ e => some e
  | .grouping _ e => some e
  | .primitive .string => some .char
  | .primitive _ => none
  | .function _ _ => none
  | .classType c => c.element?

/-- The items of the first implemented type that has items. -/
def ClassType.element? : ClassType → Option Ty
  | ⟨_, _, _, interfaces⟩ => Ty.firstElement? interfaces

/-- The items of the first type in a list that has items. -/
def Ty.firstElement? : List Ty → Option Ty
  | [] => none
  | t :: ts => t.element?.or (Ty.firstElement? ts)

end

mutual

/-- Whether a value of this type fits where `expected` is asked for. It does when the types are
equal, when anything fits, or when a class implements a type that fits. Otherwise an enumerable
takes whatever has exactly its items, and a function takes a function with the same parameters
whose result fits. -/
def Ty.fits : (found : Ty) → (expected : Ty) → Bool
  | .classType c, expected =>
    expected == .classType c || expected == .object || c.interfacesFit expected ||
      match expected with
      | .enumerable e => c.element? == some e
      | _ => false
  | .function ps r, expected =>
    expected == .function ps r || expected == .object ||
      match expected with
      | .function qs s => qs == ps && r.fits s
      | _ => false
  | found, expected =>
    expected == found || expected == .object ||
      match expected with
      | .enumerable e => found.element? == some e
      | _ => false
termination_by structural found => found

/-- Whether some type that the class implements fits. -/
def ClassType.interfacesFit : ClassType → (expected : Ty) → Bool
  | ⟨_, _, _, interfaces⟩, expected => Ty.anyFits interfaces expected
termination_by structural c => c

/-- Whether some type of the list fits. -/
def Ty.anyFits : List Ty → (expected : Ty) → Bool
  | [], _ => false
  | t :: ts, expected => t.fits expected || Ty.anyFits ts expected
termination_by structural ts => ts

end

/-- Whether a value of type `found` may stand where `expected` is asked for. -/
def Ty.accepts (expected found : Ty) : Bool := found.fits expected

end Comprehension
