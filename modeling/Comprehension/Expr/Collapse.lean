import Comprehension.Expr.Rewrite

/-! # Reading a member of a fresh construction

Reading a member of an object that is constructed on the spot gives the expression that initialises
the member:

```text
new AnonymousType(c = [c], a = [a]).a   becomes   [a]
```

Operators that work on two variables at once pack them into such an object and unpack them later.
`Expr.collapse` removes all these pairs from the bottom up, so that nested ones vanish too. -/
namespace Comprehension

/-- The argument that initialises the first member referring to the same thing as `member`. -/
def initialArgument? (member : Member) : List Member → List Expr → Option Expr
  | f :: ms, as => if f.refersToSame member then as.head? else initialArgument? member ms as.tail
  | [], _ => none

/-- The value of the first assignment to a member that refers to the same thing as `member`. -/
def assignedValue? (member : Member) : List Binding → Option Expr
  | .assignment f e :: bs => if f.refersToSame member then some e else assignedValue? member bs
  | _ :: bs => assignedValue? member bs
  | [] => none

namespace Expr

/-- The expression that initialises a member, if the node is a construction that says so. After a
construction with bindings, only the bindings count. -/
def initialValue? (member : Member) : Expr → Option Expr
  | .new _ as (some ms) => initialArgument? member ms as
  | .memberInit _ _ _ bs => assignedValue? member bs
  | _ => none

/-- Reads a member of a construction at the top of an expression, if there is one to read. -/
def collapseTop : Expr → Expr
  | .memberAccess target member =>
    match target.initialValue? member with
    | some value => value
    | none => .memberAccess target member
  | e => e

/-- Removes all reads of members of fresh constructions. -/
def collapse (e : Expr) : Expr := e.rewrite (fun _ => none) collapseTop

end Expr

end Comprehension
