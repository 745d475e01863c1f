import Comprehension.Model.Shape

/-! # Running a query

An executor can produce the items of a query, its single item or its scalar. `Model.execute` asks
for the one that the query's shape calls for, and for nothing when the query has no shape. -/
namespace Comprehension

/-- Something that can run queries, with effects in `m`. -/
structure Executor (m : Type → Type) where
  scalar : Model → m Value
  /-- The flag says whether no item gives a default value. -/
  single : Model → Bool → m Value
  collection : Model → m (List Value)

/-- What running a query gives. -/
inductive Output where
  | value (v : Value)
  | sequence (items : List Value)

variable {m : Type → Type} [Monad m]

/-- Asks an executor for what a shape calls for. -/
def Executor.run (executor : Executor m) (model : Model) : Shape → m Output
  | .sequence _ => return .sequence (← executor.collection model)
  | .single _ orDefault => return .value (← executor.single model orDefault)
  | .scalar _ => return .value (← executor.scalar model)

/-- Runs a query, and gives its shape and its output. -/
def Model.execute [MonadExceptOf ModelError m] (model : Model) (executor : Executor m) :
    m (Shape × Output) := do
  match model.shape with
  | .ok shape => return (shape, ← executor.run model shape)
  | .error e => throw e

end Comprehension
