import Comprehension.Chain.Error
import Comprehension.Expr.Text
import Comprehension.Ty.Assignable

/-! # Chains of operator applications

A chain has one node for each operator application, and one for the source at its start:

```text
value(Cooks).Where(c => c.Age > 18).Select(c => c.Name).Count()

0  ConstantSource  c              no source
1  Where           c              source 0
2  Select          <generated>_0  source 1
3  Count           <generated>_1  source 2
```

The identifier of a node names the items that flow out of it. A chain can also be put together by
hand, with any sources; what can be followed back from a node is its `Lineage`. -/
namespace Comprehension

/-- A constant collection at the start of a chain. -/
structure ConstantSource where
  value : Value
  /-- The declared type of the collection. -/
  sequenceType : Ty
  elementType : Ty

/-- A query at the start of a chain. -/
structure SubQuerySource where
  model : Model
  /-- The type of what the query gives. -/
  sequenceType : Ty
  elementType : Ty

/-- The items of a type, or an error if it has none. -/
def itemsOf (type : Ty) : Except ParseError Ty :=
  match type.element? with
  | some t => .ok t
  | none => .error (.typeMismatch type.text)

def ConstantSource.ofValue (value : Value) (type : Ty) : Except ParseError ConstantSource := do
  return ⟨value, type, ← itemsOf type⟩

def ConstantSource.toExpr (s : ConstantSource) : Expr := .constant s.value s.sequenceType

def SubQuerySource.ofModel (model : Model) (type : Ty) : Except ParseError SubQuerySource := do
  return ⟨model, type, ← itemsOf type⟩

def SubQuerySource.toExpr (s : SubQuerySource) : Expr := .subQuery s.model s.sequenceType

/-- What a node does. -/
inductive NodeKind where
  | constant (source : ConstantSource)
  | subQuery (source : SubQuerySource)
  | filter (predicate : Lambda)
  | select (selector : Lambda)
  | selectMany (collection : Lambda) (result : Option Lambda)
  | orderBy (key : Lambda) (direction : Direction)
  | thenBy (key : Lambda) (direction : Direction)
  | groupBy (key : Lambda) (element : Option Lambda)
  | operator (op : ResultOperator)

namespace NodeKind

/-- The name of the kind, for messages. -/
def name : NodeKind → String
  | .constant _ => "ConstantSource"
  | .subQuery _ => "SubQuerySource"
  | .filter _ => "Where"
  | .select _ => "Select"
  | .selectMany .. => "SelectMany"
  | .orderBy .. => "OrderBy"
  | .thenBy .. => "ThenBy"
  | .groupBy .. => "GroupBy"
  | .operator op => op.name

/-- The lambdas of a node, in argument order. -/
def lambdas : NodeKind → List Lambda
  | .constant _ => []
  | .subQuery _ => []
  | .filter p => [p]
  | .select s => [s]
  | .selectMany c r => c :: r.toList
  | .orderBy k _ => [k]
  | .thenBy k _ => [k]
  | .groupBy k e => k :: e.toList
  | .operator _ => []

/-- Whether a node of this kind starts a chain. -/
def isSource : NodeKind → Bool
  | .constant _ => true
  | .subQuery _ => true
  | _ => false

end NodeKind

/-- One step of a chain. `source` is the node whose items it takes. -/
structure Node where
  id : Nat
  source : Option Nat
  identifier : String
  kind : NodeKind

def Node.typeName (n : Node) : String := n.kind.name

/-- Nodes from the source on; a node's identity is its position. -/
structure Chain where
  nodes : List Node

namespace Chain

def empty : Chain := ⟨[]⟩

/-- Appends a node and gives its identity. -/
def push (chain : Chain) (source : Option Nat) (identifier : String) (kind : NodeKind) :
    Nat × Chain :=
  let id := chain.nodes.length
  (id, ⟨chain.nodes ++ [⟨id, source, identifier, kind⟩]⟩)

def node? (chain : Chain) (id : Nat) : Option Node := chain.nodes[id]?

def node (chain : Chain) (id : Nat) : Except ParseError Node :=
  match chain.node? id with
  | some n => .ok n
  | none => .error (.unknownNode id)

/-- How far a node is from the outermost call. -/
def positionOf (chain : Chain) (id : Nat) : Nat := chain.nodes.length - (id + 1)

/-- The outermost call. -/
def last? (chain : Chain) : Option Node := chain.nodes.getLast?

end Chain

/-! ### Lineages -/

/-- A node and everything before it: the node whose items it takes, the one before that, and so on,
until a node has no source that can be followed. The error says why. -/
inductive Lineage where
  | step (node : Node) (before : Lineage)
  | broken (error : ParseError)

namespace Chain

/-- The lineage of a node, followed for at most `fuel` nodes. -/
def lineageUpTo (chain : Chain) : (fuel : Nat) → Node → Lineage
  | 0, node => .broken (.circularSource node.id)
  | fuel + 1, node => .step node <|
    match node.source with
    | none => .broken (.missingSource node.typeName)
    | some id =>
      match chain.node? id with
      | none => .broken (.unknownNode id)
      | some source => chain.lineageUpTo fuel source

/-- The lineage of a node. Following sources without repetition meets each node of the chain at most
once, so a longer way runs in a circle. -/
def lineage (chain : Chain) (node : Node) : Lineage :=
  chain.lineageUpTo (chain.nodes.length + 1) node

end Chain

namespace Lineage

/-- The node that a lineage belongs to. -/
def head : Lineage → Except ParseError Node
  | .step node _ => .ok node
  | .broken e => .error e

/-- The lineage of the node before. -/
def before : Lineage → Lineage
  | .step _ rest => rest
  | .broken e => .broken e

/-- The type of the items that flow out. Projections set it, grouping wraps it, and all other nodes
pass on the items they get. -/
def itemType : Lineage → Except ParseError Ty
  | .broken e => .error e
  | .step node rest =>
    match node.kind with
    | .constant s => .ok s.elementType
    | .subQuery s => .ok s.elementType
    | .select s => .ok s.body.type
    | .selectMany _ (some r) => .ok r.body.type
    | .selectMany c none => itemsOf c.body.type
    | .groupBy k (some e) => .ok (.grouping k.body.type e.body.type)
    | .groupBy k none => do return .grouping k.body.type (← rest.itemType)
    | _ => rest.itemType

/-- The parameter that stands for the items that flow out. -/
def parameter (lineage : Lineage) : Except ParseError Parameter := do
  let node ← lineage.head
  return ⟨node.identifier, ← lineage.itemType⟩

end Lineage

end Comprehension
