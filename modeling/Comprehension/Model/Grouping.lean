import Comprehension.Expr.Accessor
import Comprehension.Model.Basic

/-! # Groups as functions of the item

A grouping operator holds its key and its element as expressions over query sources. Read back over
the item that the query selects, both are functions of that item. -/
namespace Comprehension

/-- What a grouping operator groups by, and what it keeps of each item. -/
structure Grouping where
  key : Expr
  element : Expr

namespace Grouping

/-- The type of one group. -/
def type (g : Grouping) : Ty := .grouping g.key.type g.element.type

/-- The key as a function of the item. -/
def keyOf (g : Grouping) (item : Expr) : Except ModelError Lambda := reverseResolve item g.key

/-- The element as a function of the item. -/
def elementOf (g : Grouping) (item : Expr) : Except ModelError Lambda :=
  reverseResolve item g.element

end Grouping

/-- The grouping that an operator does, if it groups. -/
def ResultOperator.grouping? : ResultOperator → Option Grouping
  | .group _ k e => some ⟨k, e⟩
  | _ => none

end Comprehension
