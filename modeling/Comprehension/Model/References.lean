import Comprehension.Error
import Comprehension.Expr.Subterms
import Comprehension.Model.Basic

/-! # References point back

A clause may refer only to sources that clauses before it have declared. The main source comes
first and its expression may refer to nothing; each further source can be used from the next clause
on; the selector and the operators can use all sources. `Model.checkReferences` reports the first
reference that breaks this, with the clause that holds it. -/
namespace Comprehension

/-- The first reference in the expressions to a source that is not declared. -/
def firstUndeclared (declared : List Nat) (expressions : List Expr) : Option Source :=
  (expressions.flatMap Expr.references).find? fun s => !declared.contains s.id

/-- Fails if the expressions of a clause refer to a source that is not declared. -/
def checkClause (declared : List Nat) (clause : String) (expressions : List Expr) :
    Except ModelError Unit :=
  match firstUndeclared declared expressions with
  | some s => .error (.forwardReference clause s.itemName)
  | none => .ok ()

/-- Checks body clauses in order and gives the sources declared after them. -/
def checkBody (declared : List Nat) : List BodyClause → Except ModelError (List Nat)
  | [] => .ok declared
  | c :: cs => do
    checkClause declared c.text c.expressions
    checkBody (declared ++ (c.source?.map Source.id).toList) cs

/-- Checks operators in order. -/
def checkOperators (declared : List Nat) : List ResultOperator → Except ModelError Unit
  | [] => .ok ()
  | o :: os => do
    checkClause declared o.text o.expressions
    checkOperators declared os

/-- Fails at the first reference to a source that is not declared before its clause. -/
def Model.checkReferences (model : Model) : Except ModelError Unit := do
  checkClause [] "main from clause" [model.mainFrom.expression]
  let declared ← checkBody [model.mainFrom.source.id] model.body
  checkClause declared model.selector.selectText [model.selector]
  checkOperators declared model.operators

end Comprehension
