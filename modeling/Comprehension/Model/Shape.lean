import Comprehension.Error
import Comprehension.Model.Basic

/-! # What a query gives

A query gives a sequence of items, a single item, or a scalar. The selected items are a sequence of
the selector's type, and each operator changes the shape in turn. Every operator needs a sequence,
so one that gives a single item or a scalar has to be the last. -/
namespace Comprehension

/-- The shape of what a query or a part of it gives. -/
inductive Shape where
  | sequence (itemType : Ty)
  | single (dataType : Ty) (orDefault : Bool)
  | scalar (dataType : Ty)
deriving DecidableEq

namespace Shape

/-- The type of a value of this shape. -/
def type : Shape → Ty
  | .sequence t => .enumerable t
  | .single t _ => t
  | .scalar t => t

def text : Shape → String
  | .sequence t => "sequence of " ++ t.text
  | .single t _ => "single value of " ++ t.text
  | .scalar t => "scalar value of " ++ t.text

end Shape

/-- The type of an aggregate of items of the given type. -/
def Aggregate.type (itemType : Ty) : Aggregate → Ty
  | .count => .int32
  | .longCount => .int64
  | .any => .boolean
  | .average => .double
  | .sum => itemType
  | .min => itemType
  | .max => itemType

/-- The shape that an operator gives when applied to a sequence of the given items. -/
def ResultOperator.shapeOver (itemType : Ty) : ResultOperator → Shape
  | .aggregate a => .scalar (a.type itemType)
  | .pick _ orDefault => .single itemType orDefault
  | .contains _ => .scalar .boolean
  | .distinct => .sequence itemType
  | .take _ => .sequence itemType
  | .skip _ => .sequence itemType
  | .group _ k e => .sequence (.grouping k.type e.type)

/-- The shape after an operator. Only a sequence can be operated on. -/
def ResultOperator.shapeAfter (operator : ResultOperator) : Shape → Except ModelError Shape
  | .sequence t => .ok (operator.shapeOver t)
  | input => .error (.invalidOperatorInput operator.name input.text)

/-- The shape of what a query gives. -/
def Model.shape (model : Model) : Except ModelError Shape :=
  model.operators.foldlM (fun shape operator => operator.shapeAfter shape)
    (.sequence model.selector.type)

/-- A query as an expression, typed by what it gives. -/
def Model.toExpr (model : Model) : Except ModelError Expr := do
  let shape ← model.shape
  return .subQuery model shape.type

end Comprehension
