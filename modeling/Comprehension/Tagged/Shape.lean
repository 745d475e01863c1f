import Comprehension.Model.Shape
import Comprehension.Tagged.Ty

/-! # Shapes in JSON -/
namespace Comprehension
open Json (required)

namespace Shape

def toJson : Shape → Json
  | .sequence itemType => .tag "Sequence" (.object [("item_type", itemType.toJson)])
  | .single dataType orDefault =>
    .tag "SingleValue"
      (.object [("data_type", dataType.toJson), ("return_default_when_empty", .bool orDefault)])
  | .scalar dataType => .tag "ScalarValue" (.object [("data_type", dataType.toJson)])

def ofJson? (j : Json) : Option Shape :=
  match j.tagged? with
  | some ("Sequence", content) =>
    match content.record? [required "item_type"] with
    | some [itemType] => do return .sequence (← Ty.ofJson? itemType)
    | _ => none
  | some ("SingleValue", content) =>
    match content.record? [required "data_type", required "return_default_when_empty"] with
    | some [dataType, orDefault] => do
      return .single (← Ty.ofJson? dataType) (← orDefault.bool?)
    | _ => none
  | some ("ScalarValue", content) =>
    match content.record? [required "data_type"] with
    | some [dataType] => do return .scalar (← Ty.ofJson? dataType)
    | _ => none
  | _ => none

end Shape

end Comprehension
