import Comprehension.Expr.Checked
import Comprehension.Expr.Equal
import Comprehension.Expr.Rewrite

/-! # Finding the way to a part of an item

An item is often constructed from other things. `findAccessor` looks for an expression inside the
construction of an item and gives the function that reads it back from the item:

```text
searched in new AnonymousType(a = 1, b = new AnonymousType(a = [c], b = 2)):   [c]
found:                                                                          input => input.b.a
```

The search goes through the arguments of constructions with known members, through assignments
after a construction, and through conversions, where the way back converts to the type of the
operand. Everything else is closed to it. It goes in order and keeps the ways that it has found so
far. A member that cannot be read ends it with an error. `findAccessor` is done as soon as a way is
found; `findUniqueAccessor` goes through the whole item, and wants exactly one way.

`reverseResolve` uses this to turn an expression over query sources back into a function of the
item. -/
namespace Comprehension

/-- How far a search goes. -/
inductive SearchMode where
  | firstMatch
  | allMatches
deriving DecidableEq, Repr

/-- Whether a search that has found these ways stops looking. -/
def SearchMode.isDone (mode : SearchMode) (found : List Expr) : Bool :=
  mode == .firstMatch && !found.isEmpty

mutual

/-- Searches an expression. `accessor` is the way to it, and `found` are the ways to places that
equal `searched`, as far as they are found. A match is not searched further. -/
def Expr.search (mode : SearchMode) (searched : Expr) :
    Expr → (accessor : Expr) → (found : List Expr) → Except ModelError (List Expr)
  | .unary op e t, accessor, found =>
    if (Expr.unary op e t).equal searched then .ok (found ++ [accessor])
    else if op.isConversion then Expr.search mode searched e (accessor.convert e.type) found
    else .ok found
  | .new c as ms, accessor, found =>
    if (Expr.new c as ms).equal searched then .ok (found ++ [accessor])
    else match ms with
      | some ms => Expr.searchArguments mode searched accessor as ms found
      | none => .ok found
  | .memberInit c as ms bs, accessor, found =>
    if (Expr.memberInit c as ms bs).equal searched then .ok (found ++ [accessor])
    else Binding.searchAssignments mode searched accessor bs found
  | e, accessor, found => if e.equal searched then .ok (found ++ [accessor]) else .ok found
termination_by structural e => e

/-- Searches arguments in order, each read by the member at its position, until the search is
done. -/
def Expr.searchArguments (mode : SearchMode) (searched accessor : Expr) :
    List Expr → List Member → (found : List Expr) → Except ModelError (List Expr)
  | a :: as, m :: ms, found => do
    let inner ← accessor.accessMember m
    let found ← Expr.search mode searched a inner found
    if mode.isDone found then return found
    Expr.searchArguments mode searched accessor as ms found
  | _, _, found => .ok found
termination_by structural as => as

/-- Searches what is assigned, in order, each read by its member, until the search is done. Other
bindings are passed over. -/
def Binding.searchAssignments (mode : SearchMode) (searched accessor : Expr) :
    List Binding → (found : List Expr) → Except ModelError (List Expr)
  | [], found => .ok found
  | .assignment m e :: bs, found => do
    let inner ← accessor.accessMember m
    let found ← Expr.search mode searched e inner found
    if mode.isDone found then return found
    Binding.searchAssignments mode searched accessor bs found
  | .list .. :: bs, found => Binding.searchAssignments mode searched accessor bs found
  | .nested .. :: bs, found => Binding.searchAssignments mode searched accessor bs found
termination_by structural bs => bs

end

/-- The function of `input` that reads `searched` back from an item constructed by `full`: the first
way that the search comes to. -/
def findAccessor (searched full : Expr) (input : Parameter) : Except ModelError Lambda := do
  match ← Expr.search .firstMatch searched full input.toExpr [] with
  | [] => throw (.accessorNotFound full.text searched.text)
  | body :: _ => return ⟨[input], body⟩

/-- Like `findAccessor`, but the way has to be the only one. -/
def findUniqueAccessor (searched full : Expr) (input : Parameter) : Except ModelError Lambda := do
  match ← Expr.search .allMatches searched full input.toExpr [] with
  | [] => throw (.accessorNotFound full.text searched.text)
  | [body] => return ⟨[input], body⟩
  | _ => throw (.ambiguousAccessor full.text searched.text)

/-- Puts the way back from the item in the place of a reference. -/
def readBack? (item : Expr) (input : Parameter) : Expr → Except ModelError (Option Expr)
  | .reference s => do
    let accessor ← findAccessor (.reference s) item input
    return some accessor.body
  | _ => return none

/-- The function of the item that an expression over query sources stands for: every reference
becomes the way from the item to it. -/
def reverseResolve (item resolved : Expr) : Except ModelError Lambda := do
  let input : Parameter := ⟨"input", item.type⟩
  let body ← resolved.rewriteM (readBack? item input) pure
  return ⟨[input], body⟩

end Comprehension
