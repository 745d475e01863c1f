import Comprehension.Ty.Basic

/-! # The written form of types and members

Types are written the way a reader of query code expects: `List<Int32>`, `Int32[]`,
`IGrouping<String, Cook>`, `Func<Cook, Boolean>`. -/
namespace Comprehension

/-- Joins texts with a comma and a blank. -/
def commaSeparated (texts : List String) : String := String.intercalate ", " texts

def Primitive.text : Primitive → String
  | .void => "Void"
  | .object => "Object"
  | .boolean => "Boolean"
  | .char => "Char"
  | .int32 => "Int32"
  | .int64 => "Int64"
  | .double => "Double"
  | .string => "String"

mutual

/-- The written form of a type. The parameters of a function come before its result. -/
def Ty.text : Ty → String
  | .primitive p => p.text
  | .sequence .enumerable e => "IEnumerable<" ++ e.text ++ ">"
  | .sequence .queryable e => "IQueryable<" ++ e.text ++ ">"
  | .sequence .list e => "List<" ++ e.text ++ ">"
  | .sequence .array e => e.text ++ "[]"
  | .grouping k e => "IGrouping<" ++ k.text ++ ", " ++ e.text ++ ">"
  | .function ps r => "Func<" ++ commaSeparated (Ty.texts ps ++ [r.text]) ++ ">"
  | .classType c => c.text

/-- The name of a class, followed by the types it is applied to, if any. -/
def ClassType.text : ClassType → String
  | ⟨name, [], _, _⟩ => name
  | ⟨name, a :: as, _, _⟩ => name ++ "<" ++ commaSeparated (a.text :: Ty.texts as) ++ ">"

/-- The written forms of several types. -/
def Ty.texts : List Ty → List String
  | [] => []
  | t :: ts => t.text :: Ty.texts ts

end

theorem Ty.texts_eq_map : (ts : List Ty) → Ty.texts ts = ts.map Ty.text
  | [] => rfl
  | t :: ts => by rw [Ty.texts, Ty.texts_eq_map ts, List.map_cons]

/-- A getter is written with `get_` in front of the name of its property. -/
def Member.text (m : Member) : String :=
  match m.kind with
  | .getter => "get_" ++ m.name
  | _ => m.name

end Comprehension
