import Comprehension.Chain.Basic
import Comprehension.Expr.Collapse
import Comprehension.Expr.Replace

/-! # Resolving lambdas to query sources

A lambda is written for the items that flow into its node. Resolving it puts in what those items
are, in terms of query sources:

```text
value(Cooks).Select(c => new { c, n = c.Name }).Where(x => x.n != "")

body of the filter:           (x.n != "")
with the item put in:         (new AnonymousType(c = [c], n = [c].Name).n != "")
with the member read:         ([c].Name != "")
```

At a source the item is a reference to it. A projection puts in its own selector, resolved in turn.
All other nodes pass on what they get, except that groups cannot be taken apart again. -/
namespace Comprehension

/-- The query sources made for nodes so far. No node occurs twice. -/
structure SourceMap where
  entries : List (Nat × Source)

namespace SourceMap

def empty : SourceMap := ⟨[]⟩

def find? (map : SourceMap) (id : Nat) : Option Source :=
  (map.entries.find? fun entry => entry.1 == id).map Prod.snd

def contains (map : SourceMap) (id : Nat) : Bool := (map.find? id).isSome

/-- The source made for a node. -/
def sourceOf (map : SourceMap) (node : Node) : Except ParseError Source :=
  match map.find? node.id with
  | some s => .ok s
  | none => .error (.unresolvedSource node.typeName)

/-- Adds the source made for a node that has none yet. -/
def add (map : SourceMap) (node : Node) (source : Source) : Except ParseError SourceMap :=
  if map.contains node.id then .error (.duplicateMapping node.typeName node.id)
  else .ok ⟨map.entries ++ [(node.id, source)]⟩

end SourceMap

/-- Puts a projected item in the place of a parameter and reads the members that this exposes. -/
def putProjection (input : Parameter) (projection : Expr) (e : Expr) : Expr :=
  (Expr.replace input.toExpr projection e).collapse

/-- The sources made so far, and how many nodes the chain has. -/
structure Resolver where
  sources : SourceMap
  chainSize : Nat

namespace Resolver

/-- An error at a node, with its distance from the outermost call. -/
def unsupported (resolver : Resolver) (node : Node) (text : String) (reason : Unsupported) :
    ParseError :=
  .unsupportedExpression text (resolver.chainSize - (node.id + 1)) reason

/-- The first parameter of a lambda of a node. -/
def firstParameter (resolver : Resolver) (node : Node) (l : Lambda) : Except ParseError Parameter :=
  match l.parameters with
  | p :: _ => .ok p
  | [] => .error (resolver.unsupported node l.text .noParameter)

/-- Puts in what the items of a node are. `input` is the parameter that stands for them in `e`. -/
def resolve (resolver : Resolver) : Lineage → (input : Parameter) → (e : Expr) →
    Except ParseError Expr
  | .broken error, _, _ => .error error
  | .step node before, input, e =>
    match node.kind with
    | .constant _ => do
      let source ← resolver.sources.sourceOf node
      return Expr.replace input.toExpr (.reference source) e
    | .subQuery _ => do
      let source ← resolver.sources.sourceOf node
      return Expr.replace input.toExpr (.reference source) e
    | .select selector => do
      let p ← resolver.firstParameter node selector
      let projection ← resolver.resolve before p selector.body
      return putProjection input projection e
    | .selectMany _ none => do
      let source ← resolver.sources.sourceOf node
      return putProjection input (.reference source) e
    | .selectMany _ (some result) => do
      let source ← resolver.sources.sourceOf node
      match result.parameters with
      | [outer, inner] => do
        let withInner := Expr.replace inner.toExpr (.reference source) result.body
        let projection ← resolver.resolve before outer withInner
        return putProjection input projection e
      | _ => throw (resolver.unsupported node result.text .resultSelectorParameters)
    | .groupBy .. => .error (resolver.unsupported node e.text .groupsConsumed)
    | _ => resolver.resolve before input e

/-- Resolves the body of a lambda of a node through the nodes before it. -/
def resolveLambda (resolver : Resolver) (lineage : Lineage) (l : Lambda) :
    Except ParseError Expr := do
  let node ← lineage.head
  let p ← resolver.firstParameter node l
  resolver.resolve lineage.before p l.body

/-- The item that flows out of a node. -/
def resolveItem (resolver : Resolver) (lineage : Lineage) : Except ParseError Expr := do
  let p ← lineage.parameter
  resolver.resolve lineage p p.toExpr

/-- The selector of a query that ends with a node: the item that flows out of the last projection
or source. -/
def selector (resolver : Resolver) : Lineage → Except ParseError Expr
  | .broken error => .error error
  | .step node before =>
    match node.kind with
    | .select s => resolver.resolveLambda (.step node before) s
    | .constant _ => resolver.resolveItem (.step node before)
    | .subQuery _ => resolver.resolveItem (.step node before)
    | .selectMany .. => resolver.resolveItem (.step node before)
    | _ => resolver.selector before

end Resolver

end Comprehension
