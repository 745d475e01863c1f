import Comprehension.Chain.Clause
import Comprehension.Chain.Reading
import Comprehension.Model.References
import Comprehension.Model.Shape

/-! # Assembling the model of a chain

The clauses of a chain are put together in chain order, under these rules:

* there is exactly one main from clause;
* no clause and no projection follows a result operator;
* a further sort key extends a sorting clause that is still the last clause.

The selector comes last. The finished model must give something, and its references must point
back. -/
namespace Comprehension

/-- A model being put together. -/
structure Draft where
  mainFrom : Option FromClause
  body : List BodyClause
  operators : List ResultOperator

namespace Draft

def empty : Draft := ⟨none, [], []⟩

/-- Fails if there is a result operator already. -/
def checkNoOperators (draft : Draft) (nodeType : String) : Except ParseError Unit :=
  match draft.operators.getLast? with
  | some op => .error (.invalidClauseChaining nodeType (.afterOperator op.name))
  | none => .ok ()

/-- The sort keys of the last clause, if that sorts. -/
def lastSorting? (body : List BodyClause) : Option (List SortKey) :=
  match body.getLast? with
  | some (.orderBy keys) => some keys
  | _ => none

/-- Adds a sort key to the last clause, if that sorts. -/
def extendSorting (body : List BodyClause) (key : SortKey) : Option (List BodyClause) :=
  (lastSorting? body).map fun keys => body.dropLast ++ [.orderBy (keys ++ [key])]

/-- Adds the clause of a node. -/
def add (draft : Draft) (nodeType : String) : Clause → Except ParseError Draft
  | .mainFrom clause =>
    match draft.mainFrom with
    | some _ => .error (.invalidClauseChaining nodeType .secondMainFrom)
    | none => .ok { draft with mainFrom := some clause }
  | .body clause => do
    draft.checkNoOperators nodeType
    return { draft with body := draft.body ++ [clause] }
  | .sortKey key => do
    draft.checkNoOperators nodeType
    match extendSorting draft.body key with
    | some body => return { draft with body := body }
    | none => throw (.invalidClauseChaining nodeType .detachedThenBy)
  | .operator op => .ok { draft with operators := draft.operators ++ [op] }

/-- The finished model. It must have a shape, and its references must point back. -/
def finish (draft : Draft) (selector : Expr) : Except ParseError Model :=
  match draft.mainFrom with
  | none => .error (.invalidClauseChaining "QueryModel" .noMainFrom)
  | some mainFrom => do
    let model : Model := ⟨mainFrom, draft.body, selector, draft.operators⟩
    let _ ← liftModelError model.shape
    liftModelError model.checkReferences
    return model

end Draft

namespace Chain

/-- Makes the clauses of the nodes in order and adds them to the draft. `previous` is the clause
made last. -/
def addClauses (chain : Chain) : List Node → Draft → Option Clause → Build Draft
  | [], draft, _ => return draft
  | node :: nodes, draft, previous => do
    match ← chain.createClause node previous with
    | some clause => do
      let draft ← Build.ofExcept (draft.add node.typeName clause)
      chain.addClauses nodes draft (some clause)
    | none => do
      -- Only a selection makes no clause.
      Build.ofExcept (draft.checkNoOperators node.typeName)
      chain.addClauses nodes draft previous

/-- The draft and the selector of a chain whose last node is given. -/
def draftAndSelector (chain : Chain) (last : Node) : Build (Draft × Expr) := do
  let draft ← chain.addClauses chain.nodes .empty none
  let sources := (← get).sources
  let selector ← Build.ofExcept ((chain.resolver sources).selector (chain.lineage last))
  return (draft, selector)

/-- The model of a chain, made in a context. -/
def assemble (chain : Chain) : Build Model :=
  match chain.last? with
  | none => throw .emptyChain
  | some last => do
    let (draft, selector) ← chain.draftAndSelector last
    Build.ofExcept (draft.finish selector)

/-- The model of a chain, with identities from `nextId` on; also the identity after the last one
given out. -/
def toModel (chain : Chain) (nextId : Nat) : Except ParseError Model × Nat :=
  match chain.assemble.run ⟨.empty, nextId⟩ with
  | .ok model context => (.ok model, context.nextId)
  | .error e context => (.error e, context.nextId)

end Chain

/-- The model of a call tree, with identities from `nextId` on; also the identity after the last one
given out. -/
def Reader.parse (reader : Reader) (e : Expr) (nextId : Nat) : Except ParseError Model × Nat :=
  match reader.read e with
  | .ok chain => chain.toModel nextId
  | .error error => (.error error, nextId)

end Comprehension
