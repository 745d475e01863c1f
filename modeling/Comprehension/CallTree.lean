import Comprehension.Expr.Anonymous

/-! # Writing call trees

A `CallTree` is a tree of query operator calls being written from its source outwards. It knows the
type of its items, and whether it is written for queryables, which take their lambdas quoted, or for
enumerables. Each operator with lambdas takes the names of their parameters and the bodies; a body
may mention the parameters that `CallTree.parameter` gives. -/
namespace Comprehension

/-- For which sequences a call tree is written. -/
inductive Flavor where
  | queryable
  | enumerable
deriving DecidableEq, Repr

namespace Flavor

def declaringType : Flavor → String
  | .queryable => "Queryable"
  | .enumerable => "Enumerable"

def sequenceOf : Flavor → Ty → Ty
  | .queryable => .queryable
  | .enumerable => .enumerable

/-- A lambda as an argument. -/
def argument : Flavor → Lambda → Expr
  | .queryable => Lambda.quote
  | .enumerable => Lambda.toExpr

end Flavor

/-- A call tree whose value is a sequence of items. -/
structure CallTree where
  expression : Expr
  itemType : Ty
  flavor : Flavor

/-- The items of the collection that a lambda gives. -/
def Lambda.collectionItems (l : Lambda) : Except WritingError Ty :=
  match l.body.type.element? with
  | some t => .ok t
  | none => .error (.collectionNotASequence l.text)

namespace CallTree

/-- Starts with a source, which has to be a sequence. -/
def ofSource (flavor : Flavor) (source : Expr) : Except WritingError CallTree :=
  match source.type.element? with
  | some t => .ok ⟨source, t, flavor⟩
  | none => .error (.notASequence source.text)

/-- A parameter for the items. -/
def parameter (tree : CallTree) (name : String) : Parameter := ⟨name, tree.itemType⟩

/-- A function of the items. -/
def itemLambda (tree : CallTree) (name : String) (body : Expr) : Lambda :=
  ⟨[tree.parameter name], body⟩

/-- A call of a query operator on the tree. -/
def callOperator (tree : CallTree) (name : String) (genericArguments : List Ty)
    (arguments : List Expr) (returnType : Ty) : Except WritingError Expr :=
  let method := Method.extensionMethod tree.flavor.declaringType name genericArguments
    (tree.flavor.sequenceOf tree.itemType :: arguments.map Expr.type) returnType
  orWritingError (.callFailed name) (Expr.call none method (tree.expression :: arguments))

/-- A call that gives a sequence again. -/
def thenCall (tree : CallTree) (name : String) (genericArguments : List Ty) (arguments : List Expr)
    (itemType : Ty) : Except WritingError CallTree := do
  let e ← tree.callOperator name genericArguments arguments (tree.flavor.sequenceOf itemType)
  return ⟨e, itemType, tree.flavor⟩

/-- A call that ends the tree. -/
def finish (tree : CallTree) (name : String) (arguments : List Expr) (returnType : Ty) :
    Except WritingError Expr :=
  tree.callOperator name [tree.itemType] arguments returnType

/-- A lambda that gives a collection, as an argument. A quoted one is typed as giving an enumerable
of the items. -/
def collectionArgument (tree : CallTree) (l : Lambda) (element : Ty) : Expr :=
  match tree.flavor with
  | .queryable => .unary .quote l.toExpr (.function [tree.itemType] (.enumerable element))
  | .enumerable => l.toExpr

/-! ### Operators that give a sequence -/

def filter (tree : CallTree) (name : String) (body : Expr) : Except WritingError CallTree :=
  let argument := tree.flavor.argument (tree.itemLambda name body)
  tree.thenCall "Where" [tree.itemType] [argument] tree.itemType

def select (tree : CallTree) (name : String) (body : Expr) : Except WritingError CallTree :=
  let argument := tree.flavor.argument (tree.itemLambda name body)
  tree.thenCall "Select" [tree.itemType, body.type] [argument] body.type

def selectMany (tree : CallTree) (name : String) (body : Expr) : Except WritingError CallTree := do
  let collection := tree.itemLambda name body
  let element ← collection.collectionItems
  tree.thenCall "SelectMany" [tree.itemType, element] [tree.collectionArgument collection element]
    element

/-- The parameters of the result selector of `selectManyWith`. -/
def resultParameters (tree : CallTree) (name : String) (body : Expr) (outer inner : String) :
    Except WritingError (Parameter × Parameter) := do
  let element ← (tree.itemLambda name body).collectionItems
  return (tree.parameter outer, ⟨inner, element⟩)

def selectManyWith (tree : CallTree) (name : String) (body : Expr) (outer inner : String)
    (result : Expr) : Except WritingError CallTree := do
  let (o, i) ← tree.resultParameters name body outer inner
  let collection := tree.collectionArgument (tree.itemLambda name body) i.type
  tree.thenCall "SelectMany" [tree.itemType, i.type, result.type]
    [collection, tree.flavor.argument ⟨[o, i], result⟩] result.type

/-- The four sorting operators. -/
def sortBy (tree : CallTree) (operator name : String) (body : Expr) :
    Except WritingError CallTree :=
  let argument := tree.flavor.argument (tree.itemLambda name body)
  tree.thenCall operator [tree.itemType, body.type] [argument] tree.itemType

def orderBy (tree : CallTree) : String → Expr → Except WritingError CallTree :=
  tree.sortBy "OrderBy"

def orderByDescending (tree : CallTree) : String → Expr → Except WritingError CallTree :=
  tree.sortBy "OrderByDescending"

def thenBy (tree : CallTree) : String → Expr → Except WritingError CallTree :=
  tree.sortBy "ThenBy"

def thenByDescending (tree : CallTree) : String → Expr → Except WritingError CallTree :=
  tree.sortBy "ThenByDescending"

def groupBy (tree : CallTree) (name : String) (key : Expr) : Except WritingError CallTree :=
  let argument := tree.flavor.argument (tree.itemLambda name key)
  tree.thenCall "GroupBy" [tree.itemType, key.type] [argument] (.grouping key.type tree.itemType)

def groupByWithElement (tree : CallTree) (name : String) (key element : Expr) :
    Except WritingError CallTree :=
  let arguments := [tree.flavor.argument (tree.itemLambda name key),
    tree.flavor.argument (tree.itemLambda name element)]
  tree.thenCall "GroupBy" [tree.itemType, key.type, element.type] arguments
    (.grouping key.type element.type)

def distinct (tree : CallTree) : Except WritingError CallTree :=
  tree.thenCall "Distinct" [tree.itemType] [] tree.itemType

def take (tree : CallTree) (count : Int32) : Except WritingError CallTree :=
  tree.thenCall "Take" [tree.itemType] [.constant (.int32 count) .int32] tree.itemType

def skip (tree : CallTree) (count : Int32) : Except WritingError CallTree :=
  tree.thenCall "Skip" [tree.itemType] [.constant (.int32 count) .int32] tree.itemType

/-! ### Operators that end the tree -/

def count (tree : CallTree) : Except WritingError Expr := tree.finish "Count" [] .int32

def longCount (tree : CallTree) : Except WritingError Expr := tree.finish "LongCount" [] .int64

def any (tree : CallTree) : Except WritingError Expr := tree.finish "Any" [] .boolean

def anyWhere (tree : CallTree) (name : String) (body : Expr) : Except WritingError Expr :=
  tree.finish "Any" [tree.flavor.argument (tree.itemLambda name body)] .boolean

def contains (tree : CallTree) (item : Expr) : Except WritingError Expr :=
  tree.finish "Contains" [item] .boolean

def first (tree : CallTree) : Except WritingError Expr := tree.finish "First" [] tree.itemType

def firstOrDefault (tree : CallTree) : Except WritingError Expr :=
  tree.finish "FirstOrDefault" [] tree.itemType

def single (tree : CallTree) : Except WritingError Expr := tree.finish "Single" [] tree.itemType

def lastOrDefault (tree : CallTree) : Except WritingError Expr :=
  tree.finish "LastOrDefault" [] tree.itemType

def sum (tree : CallTree) : Except WritingError Expr := tree.finish "Sum" [] tree.itemType

def max (tree : CallTree) : Except WritingError Expr := tree.finish "Max" [] tree.itemType

def average (tree : CallTree) : Except WritingError Expr := tree.finish "Average" [] .double

end CallTree

end Comprehension
