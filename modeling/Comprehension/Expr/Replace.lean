import Comprehension.Expr.Equal
import Comprehension.Expr.Rewrite

/-! # Substitution

`Expr.replace search replacement e` puts `replacement` wherever `search` occurs in `e`. What has
been put in is not searched again. When `search` is a parameter, a lambda that declares the same
parameter binds its own variable, and nothing is replaced inside it. -/
namespace Comprehension

namespace Expr

/-- Whether the node is a lambda that declares the searched parameter anew. -/
def shadows (search : Expr) : Expr → Bool
  | .lambda ps _ =>
    match search with
    | .parameter p => ps.contains p
    | _ => false
  | _ => false

/-- What substitution puts in the place of a node without looking below it, if anything. -/
def substitute? (search replacement : Expr) (e : Expr) : Option Expr :=
  if e.equal search then some replacement
  else if search.shadows e then some e
  else none

/-- Replaces every free occurrence of `search` in `e`. -/
def replace (search replacement : Expr) (e : Expr) : Expr :=
  e.rewrite (substitute? search replacement) id

end Expr

end Comprehension
