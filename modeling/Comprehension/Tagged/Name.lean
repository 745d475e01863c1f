import Comprehension.Expr.Text
import Comprehension.Json.Record

/-! # Names of alternatives

The alternatives without content are known by their names. Each such type lists its members, and a
name is read by looking for the member that has it. -/
namespace Comprehension

/-- The member of a list that has the given name. -/
def named? {α : Type} (members : List α) (nameOf : α → String) (name : String) : Option α :=
  members.find? fun a => nameOf a == name

namespace Primitive

def tag : Primitive → String
  | .void => "Void"
  | .object => "Object"
  | .boolean => "Boolean"
  | .char => "Char"
  | .int32 => "Int32"
  | .int64 => "Int64"
  | .double => "Double"
  | .string => "String"

def all : List Primitive := [.void, .object, .boolean, .char, .int32, .int64, .double, .string]

def ofTag? (name : String) : Option Primitive := named? all tag name

end Primitive

namespace SequenceKind

def tag : SequenceKind → String
  | .enumerable => "Enumerable"
  | .queryable => "Queryable"
  | .list => "List"
  | .array => "Array"

def all : List SequenceKind := [.enumerable, .queryable, .list, .array]

def ofTag? (name : String) : Option SequenceKind := named? all tag name

def toJson (k : SequenceKind) : Json := .text k.tag

def ofJson? (j : Json) : Option SequenceKind := j.bare? ofTag?

end SequenceKind

namespace MemberKind

def tag : MemberKind → String
  | .property => "Property"
  | .field => "Field"
  | .getter => "Getter"

def all : List MemberKind := [.property, .field, .getter]

def ofTag? (name : String) : Option MemberKind := named? all tag name

def toJson (k : MemberKind) : Json := .text k.tag

def ofJson? (j : Json) : Option MemberKind := j.bare? ofTag?

end MemberKind

namespace UnaryOp

def tag : UnaryOp → String
  | .convert => "Convert"
  | .convertChecked => "ConvertChecked"
  | .negate => "Negate"
  | .plus => "UnaryPlus"
  | .not => "Not"
  | .quote => "Quote"

def all : List UnaryOp := [.convert, .convertChecked, .negate, .plus, .not, .quote]

def ofTag? (name : String) : Option UnaryOp := named? all tag name

def toJson (op : UnaryOp) : Json := .text op.tag

def ofJson? (j : Json) : Option UnaryOp := j.bare? ofTag?

end UnaryOp

namespace BinaryOp

def tag : BinaryOp → String
  | .add => "Add"
  | .subtract => "Subtract"
  | .multiply => "Multiply"
  | .divide => "Divide"
  | .modulo => "Modulo"
  | .equal => "Equal"
  | .notEqual => "NotEqual"
  | .lessThan => "LessThan"
  | .lessThanOrEqual => "LessThanOrEqual"
  | .greaterThan => "GreaterThan"
  | .greaterThanOrEqual => "GreaterThanOrEqual"
  | .andAlso => "AndAlso"
  | .orElse => "OrElse"

def all : List BinaryOp :=
  [.add, .subtract, .multiply, .divide, .modulo, .equal, .notEqual, .lessThan, .lessThanOrEqual,
    .greaterThan, .greaterThanOrEqual, .andAlso, .orElse]

def ofTag? (name : String) : Option BinaryOp := named? all tag name

def toJson (op : BinaryOp) : Json := .text op.tag

def ofJson? (j : Json) : Option BinaryOp := j.bare? ofTag?

end BinaryOp

namespace Direction

def tag : Direction → String
  | .ascending => "Asc"
  | .descending => "Desc"

def all : List Direction := [.ascending, .descending]

def ofTag? (name : String) : Option Direction := named? all tag name

def toJson (d : Direction) : Json := .text d.tag

def ofJson? (j : Json) : Option Direction := j.bare? ofTag?

end Direction

def Aggregate.all : List Aggregate := [.count, .longCount, .any, .sum, .min, .max, .average]

def Aggregate.ofName? (name : String) : Option Aggregate := named? Aggregate.all Aggregate.name name

def Pick.all : List Pick := [.first, .single, .last]

def Pick.ofName? (name : String) : Option Pick := named? Pick.all Pick.name name

end Comprehension
