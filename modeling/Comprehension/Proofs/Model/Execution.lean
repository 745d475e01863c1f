import Comprehension.Model.Execution
import Comprehension.Proofs.Model.Shape
import Comprehension.Sample

/-! # What an executor is asked for

Running a query makes at most one request to the executor.  To see its requests, an executor is
replaced by one that keeps a list of them and is otherwise the same (`Executor.recorded`).  A query
without a shape makes no request.  Any other query makes one, which its shape calls for, and what
the executor answers is passed on, errors included.  The executor can have any effects besides. -/
namespace Comprehension

/-- A call of an executor, with what is passed to it. -/
inductive Request where
  | scalar (model : Model)
  | single (model : Model) (orDefault : Bool)
  | collection (model : Model)

/-- The request that a shape calls for. -/
def Shape.request (model : Model) : Shape → Request
  | .sequence _ => .collection model
  | .single _ orDefault => .single model orDefault
  | .scalar _ => .scalar model

namespace Executor

/-- What an executor answers to a request. -/
def answer {m : Type → Type} [Monad m] (executor : Executor m) : Request → m Output
  | .scalar model => return .value (← executor.scalar model)
  | .single model orDefault => return .value (← executor.single model orDefault)
  | .collection model => return .sequence (← executor.collection model)

theorem run_eq_answer {m : Type → Type} [Monad m] (executor : Executor m) (model : Model)
    (shape : Shape) : executor.run model shape = executor.answer (shape.request model) := by
  cases shape <;> rfl

variable {n : Type → Type} [Monad n]

/-- Adds a request to those made so far, and then has it answered. -/
def noting {α : Type} (request : Request) (answer : ExceptT ModelError n α) :
    ExceptT ModelError (StateT (List Request) n) α :=
  ExceptT.mk do
    modify (· ++ [request])
    StateT.lift answer.run

/-- The executor, with a list of the requests that it gets. -/
def recorded (executor : Executor (ExceptT ModelError n)) :
    Executor (ExceptT ModelError (StateT (List Request) n)) where
  scalar model := noting (.scalar model) (executor.scalar model)
  single model orDefault := noting (.single model orDefault) (executor.single model orDefault)
  collection model := noting (.collection model) (executor.collection model)

theorem run_noting [LawfulMonad n] {α : Type} (request : Request) (answer : ExceptT ModelError n α)
    (requests : List Request) :
    (noting request answer).run.run requests = do
      let result ← answer.run
      return (result, requests ++ [request]) := by
  simp [noting]

/-- A request is answered as before, and noted. -/
theorem run_answer_recorded [LawfulMonad n] (executor : Executor (ExceptT ModelError n))
    (request : Request) (requests : List Request) :
    (executor.recorded.answer request).run.run requests = do
      let result ← (executor.answer request).run
      return (result, requests ++ [request]) := by
  cases request <;> simp [answer, recorded, run_noting]

end Executor

namespace Model

variable {n : Type → Type} [Monad n] {model : Model}

/-- Without a shape nothing is asked for. -/
theorem run_execute_of_error {error : ModelError} (h : model.shape = .error error)
    (executor : Executor (ExceptT ModelError n)) (requests : List Request) :
    (model.execute executor.recorded).run.run requests = pure (.error error, requests) := by
  unfold execute
  rw [h]
  rfl

/-- With a shape, what it calls for is asked for, and the answer is passed on. -/
theorem run_execute_of_ok [LawfulMonad n] {shape : Shape} (h : model.shape = .ok shape)
    (executor : Executor (ExceptT ModelError n)) (requests : List Request) :
    (model.execute executor.recorded).run.run requests = do
      let answer ← (executor.answer (shape.request model)).run
      return (answer.map fun output => (shape, output), requests ++ [shape.request model]) := by
  unfold execute
  rw [h]
  simp [Executor.run_eq_answer, Executor.run_answer_recorded]

/-- **The operators decide the shape, and the shape decides the execution.**  A query has a shape
exactly when all its operators but the last keep the sequence, and it is the shape that the last one
gives.  Otherwise the operator right after the first one that does not keep the sequence is at
fault.  Running a query without a shape asks the executor for nothing; with a shape, it asks once,
for what the shape calls for, and passes the answer on. -/
theorem shape_decides_execution (model : Model) :
    ((∃ shape, model.shape = .ok shape) ↔ ∀ op ∈ model.operators.dropLast, op.keepsSequence) ∧
    (∀ shape, model.shape = .ok shape → shape = model.lastShape) ∧
    (∀ error, model.shape = .error error ↔
      ∃ before op next, StuckAt model.operators before op next ∧
        error = .invalidOperatorInput next.name
          (op.shapeOver (itemTypeAfter before model.selector.type)).text) ∧
    ∀ {n : Type → Type} [Monad n] [LawfulMonad n] (executor : Executor (ExceptT ModelError n))
      (requests : List Request),
      (∀ error, model.shape = .error error →
        (model.execute executor.recorded).run.run requests = pure (.error error, requests)) ∧
      ∀ shape, model.shape = .ok shape →
        (model.execute executor.recorded).run.run requests = do
          let answer ← (executor.answer (shape.request model)).run
          return (answer.map fun output => (shape, output),
            requests ++ [shape.request model]) := by
  refine ⟨shape_isOk_iff, ?_, fun _ => shape_eq_error, ?_⟩
  · intro shape hshape
    have hkeeps := shape_isOk_iff.mp ⟨shape, hshape⟩
    rw [shape_of_keeps hkeeps] at hshape
    exact (Except.ok.inj hshape).symm
  · intro n _ _ executor requests
    exact ⟨fun _ herror => run_execute_of_error herror executor requests,
      fun _ hshape => run_execute_of_ok hshape executor requests⟩

end Model

namespace Sample

def number : Source := ⟨1, "n", .int32⟩

def groupedNumbers : ResultOperator := .group "n" (.reference number) (.reference number)

/-- The first group of some numbers, if there is one. -/
def firstNumberGroup : Model :=
  ⟨⟨number, numbers [1, 2, 3]⟩, [], .reference number,
    [groupedNumbers, .distinct, .pick .first true]⟩

/-- Numbers that are counted before they are grouped. -/
def countedTooEarly : Model :=
  ⟨⟨number, numbers [1, 2, 3]⟩, [], .reference number,
    [.distinct, .aggregate .count, groupedNumbers, .distinct]⟩

/-- An executor that cannot be reached. -/
def offline : Executor (ExceptT ModelError Id) where
  scalar _ := throw (.execution "connection closed")
  single _ _ := throw (.execution "connection closed")
  collection _ := throw (.execution "connection closed")

end Sample

open Sample in
/-- The first group is a single item, and the failure to get it is passed on.  Nothing can be done
with a count, and then nothing is asked for. -/
theorem Model.shape_decides_execution_offline :
    firstNumberGroup.shape = .ok (.single (.grouping .int32 .int32) true) ∧
    (firstNumberGroup.execute offline.recorded).run.run [] =
      pure (.error (.execution "connection closed"), [.single firstNumberGroup true]) ∧
    countedTooEarly.shape =
      .error (.invalidOperatorInput "GroupBy" "scalar value of Int32") ∧
    (countedTooEarly.execute offline.recorded).run.run [] =
      pure (.error (.invalidOperatorInput "GroupBy" "scalar value of Int32"), []) := by
  obtain ⟨-, -, -, hfirst⟩ := shape_decides_execution firstNumberGroup
  obtain ⟨-, -, -, hcounted⟩ := shape_decides_execution countedTooEarly
  exact ⟨rfl, (hfirst offline []).2 _ rfl, rfl, (hcounted offline []).1 _ rfl⟩

end Comprehension
