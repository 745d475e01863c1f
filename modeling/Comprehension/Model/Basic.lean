import Comprehension.Expr.Text

/-! # Query models and their clauses

What the clauses and operators of a query declare and hold, and how a query is built up. -/
namespace Comprehension

/-- The source that a clause adds, if it adds one. -/
def BodyClause.source? : BodyClause → Option Source
  | .additionalFrom c => some c.source
  | _ => none

/-- The expressions of a clause. -/
def BodyClause.expressions : BodyClause → List Expr
  | .additionalFrom c => [c.expression]
  | .filter p => [p]
  | .orderBy os => os.map SortKey.expression

/-- The expressions of an operator. -/
def ResultOperator.expressions : ResultOperator → List Expr
  | .take e => [e]
  | .skip e => [e]
  | .contains e => [e]
  | .group _ k e => [k, e]
  | _ => []

namespace Model

/-- A query that selects from one source, without further clauses. -/
def select (mainFrom : FromClause) (selector : Expr) : Model := ⟨mainFrom, [], selector, []⟩

def addClause (model : Model) (clause : BodyClause) : Model :=
  { model with body := model.body ++ [clause] }

def addOperator (model : Model) (operator : ResultOperator) : Model :=
  { model with operators := model.operators ++ [operator] }

/-- The sources of a query, in the order of their clauses. -/
def sources (model : Model) : List Source :=
  model.mainFrom.source :: model.body.filterMap BodyClause.source?

end Model

end Comprehension
