import Comprehension.Source
import Comprehension.Ty.Signature
import Comprehension.Value

/-! # Expressions and query models

Expressions and query models are defined together, because an expression can hold a whole query
(`Expr.subQuery`) and the clauses of a query hold expressions.

A member access or a call without a target is a node of its own (`staticMember`, `staticCall`).
A construction may say which member each argument initialises, and may be followed by bindings of
further members (`memberInit`).

A query model reads like a comprehension: a main source, clauses that add sources, filter or sort,
a selector, and operators applied to the result. -/
namespace Comprehension

/-- A named, typed lambda parameter. -/
structure Parameter where
  name : String
  type : Ty
deriving DecidableEq

inductive UnaryOp where
  | convert
  | convertChecked
  | negate
  | plus
  | not
  | quote
deriving DecidableEq, Repr

/-- Whether the operator only changes the type of its operand. -/
def UnaryOp.isConversion : UnaryOp → Bool
  | .convert => true
  | .convertChecked => true
  | _ => false

inductive BinaryOp where
  | add
  | subtract
  | multiply
  | divide
  | modulo
  | equal
  | notEqual
  | lessThan
  | lessThanOrEqual
  | greaterThan
  | greaterThanOrEqual
  | andAlso
  | orElse
deriving DecidableEq, Repr

namespace BinaryOp

def symbol : BinaryOp → String
  | .add => "+"
  | .subtract => "-"
  | .multiply => "*"
  | .divide => "/"
  | .modulo => "%"
  | .equal => "=="
  | .notEqual => "!="
  | .lessThan => "<"
  | .lessThanOrEqual => "<="
  | .greaterThan => ">"
  | .greaterThanOrEqual => ">="
  | .andAlso => "AndAlso"
  | .orElse => "OrElse"

def isLogical : BinaryOp → Bool
  | .andAlso => true
  | .orElse => true
  | _ => false

def isArithmetic : BinaryOp → Bool
  | .add => true
  | .subtract => true
  | .multiply => true
  | .divide => true
  | .modulo => true
  | _ => false

end BinaryOp

/-- The direction of a sort key. -/
inductive Direction where
  | ascending
  | descending
deriving DecidableEq, Repr

/-- Operators that turn a whole sequence into one value. -/
inductive Aggregate where
  | count
  | longCount
  | any
  | sum
  | min
  | max
  | average
deriving DecidableEq, Repr

/-- Which item an operator picks. -/
inductive Pick where
  | first
  | single
  | last
deriving DecidableEq, Repr

mutual

/-- Expressions. The type of a node is stored in it where its parts do not determine it. -/
inductive Expr where
  | constant (value : Value) (type : Ty)
  | parameter (p : Parameter)
  | staticMember (member : Member)
  | memberAccess (target : Expr) (member : Member)
  | unary (op : UnaryOp) (operand : Expr) (type : Ty)
  | binary (op : BinaryOp) (left right : Expr) (type : Ty)
  | staticCall (method : Method) (arguments : List Expr)
  | methodCall (target : Expr) (method : Method) (arguments : List Expr)
  /-- A construction. With `members`, argument `i` initialises member `i`. -/
  | new (ctor : Constructor) (arguments : List Expr) (members : Option (List Member))
  /-- A construction followed by bindings. -/
  | memberInit (ctor : Constructor) (arguments : List Expr) (members : Option (List Member))
      (bindings : List Binding)
  | lambda (parameters : List Parameter) (body : Expr)
  | conditional (test ifTrue ifFalse : Expr) (type : Ty)
  /-- The current item of a query source. -/
  | reference (source : Source)
  /-- A query inside an expression. -/
  | subQuery (model : Model) (type : Ty)

/-- What follows a construction: a member is assigned, filled with elements, or has its own members
bound. -/
inductive Binding where
  | assignment (member : Member) (value : Expr)
  | list (member : Member) (initializers : List ElementInit)
  | nested (member : Member) (bindings : List Binding)

/-- One element added to a collection member. -/
structure ElementInit where
  addMethod : Method
  arguments : List Expr

/-- A source and the expression that its items come from. -/
structure FromClause where
  source : Source
  expression : Expr

/-- A sort key. -/
structure SortKey where
  expression : Expr
  direction : Direction

/-- The clauses between the main source and the selector. Later orderings of a clause break the
ties of earlier ones. -/
inductive BodyClause where
  | additionalFrom (clause : FromClause)
  | filter (predicate : Expr)
  | orderBy (orderings : List SortKey)

/-- Operators applied to the selected items. -/
inductive ResultOperator where
  | aggregate (a : Aggregate)
  | pick (which : Pick) (orDefault : Bool)
  | distinct
  | take (count : Expr)
  | skip (count : Expr)
  | contains (item : Expr)
  | group (itemName : String) (key element : Expr)

/-- A query: from a main source, through its clauses, select an item, then apply the operators. -/
structure Model where
  mainFrom : FromClause
  body : List BodyClause
  selector : Expr
  operators : List ResultOperator

end

/-- A lambda on its own. -/
structure Lambda where
  parameters : List Parameter
  body : Expr

def Parameter.toExpr (p : Parameter) : Expr := .parameter p

def Lambda.toExpr (l : Lambda) : Expr := .lambda l.parameters l.body

/-- The expression for the current item of the clause's source. -/
def FromClause.reference (c : FromClause) : Expr := .reference c.source

/-! ### Static types -/

/-- The static type of an expression. -/
def Expr.type : Expr → Ty
  | .constant _ t => t
  | .parameter p => p.type
  | .staticMember m => m.type
  | .memberAccess _ m => m.type
  | .unary _ _ t => t
  | .binary _ _ _ t => t
  | .staticCall m _ => m.returnType
  | .methodCall _ m _ => m.returnType
  | .new c _ _ => c.declaringType
  | .memberInit c _ _ _ => c.declaringType
  | .lambda ps b => .function (ps.map Parameter.type) b.type
  | .conditional _ _ _ t => t
  | .reference s => s.itemType
  | .subQuery _ t => t

/-- The function type of a lambda. -/
def Lambda.type (l : Lambda) : Ty := .function (l.parameters.map Parameter.type) l.body.type

/-- The name of the kind of a node, for messages. -/
def Expr.kindName : Expr → String
  | .constant .. => "Constant"
  | .parameter .. => "Parameter"
  | .staticMember .. => "MemberAccess"
  | .memberAccess .. => "MemberAccess"
  | .unary .. => "Unary"
  | .binary .. => "Binary"
  | .staticCall .. => "MethodCall"
  | .methodCall .. => "MethodCall"
  | .new .. => "New"
  | .memberInit .. => "MemberInit"
  | .lambda .. => "Lambda"
  | .conditional .. => "Conditional"
  | .reference .. => "QuerySourceReference"
  | .subQuery .. => "SubQuery"

/-- The lambda that an expression is, under any number of quotes. -/
def Expr.asLambda? : Expr → Option Lambda
  | .lambda ps b => some ⟨ps, b⟩
  | .unary .quote e _ => e.asLambda?
  | _ => none

/-- A quoted lambda, as passed to the operators of a queryable. -/
def Lambda.quote (l : Lambda) : Expr := .unary .quote l.toExpr l.type

end Comprehension
