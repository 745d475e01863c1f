import Comprehension.Chain.Resolve
import Comprehension.Model.Basic

/-! # The clause that a node contributes

Each node contributes at most one clause to the model. A source gives the main from clause, a
projection to many items a further from clause; both make a new query source, which is remembered
for the node. A selection gives no clause, since it only shapes what is selected. -/
namespace Comprehension

/-- A clause made by one node. A `sortKey` belongs to the sorting clause before it. -/
inductive Clause where
  | mainFrom (clause : FromClause)
  | body (clause : BodyClause)
  | sortKey (key : SortKey)
  | operator (op : ResultOperator)

namespace Clause

def kindName : Clause → String
  | .mainFrom _ => "MainFromClause"
  | .body (.additionalFrom _) => "AdditionalFromClause"
  | .body (.filter _) => "WhereClause"
  | .body (.orderBy _) => "OrderByClause"
  | .sortKey _ => "Ordering"
  | .operator _ => "ResultOperator"

def text : Clause → String
  | .mainFrom c => c.text
  | .body c => c.text
  | .sortKey k => k.text
  | .operator op => op.text

end Clause

/-- What making clauses changes: the sources made so far, and the next identity. -/
structure Context where
  sources : SourceMap
  nextId : Nat

/-- Clause making: it can fail, and what it has changed by then stays changed. -/
abbrev Build := EStateM ParseError Context

namespace Build

def ofExcept {α : Type} : Except ParseError α → Build α
  | .ok a => pure a
  | .error e => throw e

/-- A new query source. -/
def newSource (itemName : String) (itemType : Ty) : Build Source := do
  let context ← get
  let (source, nextId) := Source.fresh context.nextId itemName itemType
  set { context with nextId := nextId }
  return source

/-- Remembers the source made for a node. -/
def remember (node : Node) (source : Source) : Build Unit := do
  let context ← get
  let sources ← ofExcept (context.sources.add node source)
  set { context with sources := sources }

/-- A new query source that is remembered for a node. -/
def newSourceFor (node : Node) (itemName : String) (itemType : Ty) : Build Source := do
  let source ← newSource itemName itemType
  remember node source
  return source

end Build

namespace Chain

/-- The resolver for a chain with the sources made so far. -/
def resolver (chain : Chain) (sources : SourceMap) : Resolver := ⟨sources, chain.nodes.length⟩

/-- The main from clause of a source. -/
def mainFromClause (node : Node) (elementType : Ty) (expression : Expr) :
    Build (Option Clause) := do
  let source ← Build.newSourceFor node node.identifier elementType
  return some (.mainFrom ⟨source, expression⟩)

/-- The clause of a node that is no source. -/
def laterClause (chain : Chain) (node : Node) : Build (Option Clause) := do
  let resolver := chain.resolver (← get).sources
  let lineage := chain.lineage node
  match node.kind with
  | .constant _ => return none
  | .subQuery _ => return none
  | .select _ => return none
  | .filter predicate => do
    let e ← Build.ofExcept (resolver.resolveLambda lineage predicate)
    return some (.body (.filter e))
  | .orderBy key direction => do
    let e ← Build.ofExcept (resolver.resolveLambda lineage key)
    return some (.body (.orderBy [⟨e, direction⟩]))
  | .thenBy key direction => do
    let e ← Build.ofExcept (resolver.resolveLambda lineage key)
    return some (.sortKey ⟨e, direction⟩)
  | .selectMany collection result => do
    let e ← Build.ofExcept (resolver.resolveLambda lineage collection)
    let itemType ← Build.ofExcept (itemsOf e.type)
    -- The items are called what the result selector calls them, if there is one.
    let itemName :=
      ((result.bind fun r => r.parameters[1]?).map Parameter.name).getD node.identifier
    let source ← Build.newSourceFor node itemName itemType
    return some (.body (.additionalFrom ⟨source, e⟩))
  | .groupBy key element => do
    let k ← Build.ofExcept (resolver.resolveLambda lineage key)
    let e ← Build.ofExcept <| match element with
      | some l => resolver.resolveLambda lineage l
      | none => resolver.resolveItem lineage.before
    return some (.operator (.group node.identifier k e))
  | .operator op => return some (.operator op)

/-- The clause of a node. `previous` is the clause before it: a source has none, and every other
node has one. -/
def createClause (chain : Chain) (node : Node) (previous : Option Clause) :
    Build (Option Clause) :=
  match node.kind, previous with
  | .constant s, none => mainFromClause node s.elementType s.toExpr
  | .subQuery s, none => mainFromClause node s.elementType s.toExpr
  | .constant _, some _ =>
    throw (.invalidClauseChaining node.typeName (.sourceNotFirst node.typeName))
  | .subQuery _, some _ =>
    throw (.invalidClauseChaining node.typeName (.sourceNotFirst node.typeName))
  | _, none => throw (.invalidClauseChaining node.typeName .noSourceFirst)
  | _, some _ => chain.laterClause node

end Chain

end Comprehension
