/-! # What can go wrong with expressions and models

Each way in which building an expression, searching it or checking a model fails is a constructor,
with the texts that its message needs. `ModelError.message` is the only place where their messages
are worded. Writing query code by hand fails in ways of its own, most of which wrap one of these. -/
namespace Comprehension

inductive ModelError where
  | argumentCountMismatch (target : String) (expected found : Nat)
  | argumentTypeMismatch (target : String) (position : Nat) (expected found : String)
  | memberTypeMismatch (member memberType found : String)
  | memberNotFound (member typeName : String)
  | operandTypeMismatch (op left right : String)
  | accessorNotFound (full searched : String)
  | ambiguousAccessor (full searched : String)
  | forwardReference (clause sourceName : String)
  | invalidOperatorInput (operator input : String)
  | execution (reason : String)
deriving DecidableEq, Repr

/-- A text in single quotes. -/
def quoted (text : String) : String := "'" ++ text ++ "'"

def ModelError.message : ModelError → String
  | .argumentCountMismatch target expected found =>
    "Argument count mismatch for " ++ quoted target ++ ": expected " ++ toString expected ++
      ", found " ++ toString found
  | .argumentTypeMismatch target position expected found =>
    "Argument type mismatch for " ++ quoted target ++ " at position " ++ toString position ++
      ": expected " ++ quoted expected ++ ", found " ++ quoted found
  | .memberTypeMismatch member memberType found =>
    "Member " ++ quoted member ++ " of type " ++ quoted memberType ++
      " cannot be bound to a value of type " ++ quoted found
  | .memberNotFound member typeName =>
    "Member " ++ quoted member ++ " is not declared on type " ++ quoted typeName
  | .operandTypeMismatch op left right =>
    "Operator " ++ quoted op ++ " is not defined for operands of type " ++ quoted left ++ " and " ++
      quoted right
  | .accessorNotFound full searched =>
    "The given expression " ++ quoted full ++ " does not contain the searched expression " ++
      quoted searched ++
      " in a nested NewExpression with member assignments or a MemberBindingExpression."
  | .ambiguousAccessor full searched =>
    "The searched expression " ++ quoted searched ++
      " is reachable through more than one path in " ++ quoted full
  | .forwardReference clause sourceName =>
    "Clause " ++ quoted clause ++ " references query source " ++ quoted sourceName ++
      " which is not declared before it"
  | .invalidOperatorInput operator input =>
    "Result operator " ++ quoted operator ++ " cannot be applied to " ++ input
  | .execution reason => "Query execution failed: " ++ reason

/-- What can go wrong while query code is being written. -/
inductive WritingError where
  | notASequence (source : String)
  | callFailed (method : String) (error : ModelError)
  | collectionNotASequence (lambda : String)
  | noSuchMember (type name : String)
  | memberAccessFailed (name : String) (error : ModelError)
  | constructionFailed (error : ModelError)
  | defaultConstructionFailed (error : ModelError)
  | bindingFailed (name : String) (error : ModelError)
deriving DecidableEq, Repr

def WritingError.message : WritingError → String
  | .notASequence source => "Query source " ++ quoted source ++ " is not a sequence"
  | .callFailed method error => "Failed to build call to " ++ quoted method ++ ": " ++ error.message
  | .collectionNotASequence lambda =>
    "Collection selector " ++ quoted lambda ++ " does not produce a sequence"
  | .noSuchMember type name => "Type " ++ quoted type ++ " declares no member " ++ quoted name
  | .memberAccessFailed name error =>
    "Failed to build member access " ++ quoted name ++ ": " ++ error.message
  | .constructionFailed error => "Failed to build anonymous construction: " ++ error.message
  | .defaultConstructionFailed error => "Failed to build default construction: " ++ error.message
  | .bindingFailed name error => "Failed to bind " ++ quoted name ++ ": " ++ error.message

/-- Takes an error of the model as a writing error. -/
def orWritingError {α : Type} (wrap : ModelError → WritingError) :
    Except ModelError α → Except WritingError α
  | .ok a => .ok a
  | .error e => .error (wrap e)

end Comprehension
