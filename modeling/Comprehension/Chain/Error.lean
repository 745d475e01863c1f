import Comprehension.Error

/-! # What can go wrong between a call tree and its model

Reading a tree of operator calls as a chain, resolving its lambdas and assembling the model can fail
in the ways listed here. Reasons are constructors too, so that a statement about which of them can
arise need not speak about texts. A registry can hold recognizers from elsewhere, which refuse calls
in words of their own: for these there is a reason that carries any text. -/
namespace Comprehension

/-- Why an expression has no place in a chain. -/
inductive Unsupported where
  /-- The method lacks the argument of this number, counted from one behind the source. -/
  | missingArgument (method : String) (number : Nat)
  | notALambda (method : String) (number : Nat)
  | parameterCount (method : String) (expected : Nat) (lambda : String)
  | notAnOperator (key : String)
  | noSource
  | notAQuery (kind : String)
  | resultSelectorParameters
  | noParameter
  | groupsConsumed
  /-- A reason in the words of a recognizer from elsewhere. -/
  | other (reason : String)
deriving DecidableEq, Repr

def Unsupported.text : Unsupported → String
  | .missingArgument method number => quoted method ++ " is missing argument " ++ toString number
  | .notALambda method number =>
    "argument " ++ toString number ++ " of " ++ quoted method ++ " is not a lambda expression"
  | .parameterCount method expected lambda =>
    quoted method ++ " expects a lambda with " ++ toString expected ++ " parameter(s), found " ++
      quoted lambda
  | .notAnOperator key => "method " ++ quoted key ++ " is not a registered query operator"
  | .noSource => "operator call has no source argument"
  | .notAQuery kind => kind ++ " is neither a query operator call nor a query source"
  | .resultSelectorParameters => "result selector must take two parameters"
  | .noParameter => "lambda takes no parameter"
  | .groupsConsumed => "items produced by GroupBy cannot be consumed by further operators"
  | .other reason => reason

/-- Why a clause cannot stand where it was produced. -/
inductive Misplaced where
  | sourceNotFirst (nodeType : String)
  | noSourceFirst
  | secondMainFrom
  | detachedThenBy
  | afterOperator (operator : String)
  | noMainFrom
  /-- A fault in the words of a recognizer from elsewhere. -/
  | other (message : String)
deriving DecidableEq, Repr

def Misplaced.text : Misplaced → String
  | .sourceNotFirst nodeType =>
    nodeType ++ " represents the end of a query call chain. Set previous to None."
  | .noSourceFirst => "only a query source can start a clause sequence"
  | .secondMainFrom => "a query model has exactly one main from clause"
  | .detachedThenBy => "ThenBy must directly follow OrderBy, OrderByDescending or another ThenBy"
  | .afterOperator operator => "cannot be applied after the result operator " ++ quoted operator
  | .noMainFrom => "no main from clause was created"
  | .other message => message

inductive ParseError where
  /-- A source of items has a type without items. -/
  | typeMismatch (found : String)
  | unsupportedExpression (expression : String) (position : Nat) (reason : Unsupported)
  /-- A source was asked for its clause before it had one. -/
  | unresolvedSource (nodeType : String)
  | invalidClauseChaining (nodeType : String) (fault : Misplaced)
  | missingSource (nodeType : String)
  | unknownNode (id : Nat)
  /-- The sources of a node never end. -/
  | circularSource (id : Nat)
  | duplicateMapping (nodeType : String) (id : Nat)
  | emptyChain
  | recursionLimitExceeded (depth limit : Nat)
  | model (error : ModelError)
deriving DecidableEq, Repr

def ParseError.message : ParseError → String
  | .typeMismatch found =>
    "Query source type " ++ quoted found ++ " does not implement IEnumerable<T>"
  | .unsupportedExpression expression position reason =>
    "Unsupported expression " ++ quoted expression ++ " at chain position " ++ toString position ++
      ": " ++ reason.text
  | .unresolvedSource nodeType =>
    "Cannot resolve with a " ++ nodeType ++ " for which no clause was created. Be sure to call " ++
      "create_clause before calling resolve, and pass in the same clause generation context to " ++
      "both methods."
  | .invalidClauseChaining nodeType fault =>
    "Invalid clause chaining at " ++ nodeType ++ ": " ++ fault.text
  | .missingSource nodeType => nodeType ++ " node has no source node"
  | .unknownNode id => "Node " ++ toString id ++ " does not exist in this chain"
  | .circularSource id => "The sources of node " ++ toString id ++ " run in a circle"
  | .duplicateMapping nodeType id =>
    "A clause is already registered for " ++ nodeType ++ " node " ++ toString id
  | .emptyChain => "Cannot create a query model from an empty node chain"
  | .recursionLimitExceeded depth limit =>
    "Recursion limit exceeded while building the node chain (depth: " ++ toString depth ++
      ", limit: " ++ toString limit ++ ")"
  | .model error => error.message

/-- Takes an error of the model for an error of the chain. -/
def liftModelError {α : Type} : Except ModelError α → Except ParseError α
  | .ok a => .ok a
  | .error e => .error (.model e)

end Comprehension
