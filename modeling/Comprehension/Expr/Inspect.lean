import Comprehension.Expr.Subterms

/-! # Questions about expressions -/
namespace Comprehension

namespace Expr

/-- Whether the expression is a reference to the source. -/
def refersTo (source : Source) : Expr → Bool
  | .reference s => s.same source
  | _ => false

/-- Whether the parameter does not occur, not even bound. -/
def lacks (e : Expr) (p : Parameter) : Bool := !p.toExpr.occursIn e

/-- Whether all references are to the given sources. -/
def refersOnlyTo (e : Expr) (sources : List Source) : Bool :=
  e.references.all fun s => sources.any fun t => t.same s

end Expr

/-- Whether the lambda takes the parameter and gives it back. -/
def Lambda.isIdentity (l : Lambda) (p : Parameter) : Bool :=
  l.parameters == [p] && l.body.equal p.toExpr

end Comprehension
