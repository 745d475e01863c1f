import Comprehension.Chain.Basic

/-! # Query operators

A recognizer turns a call of a query operator into what the node for it does. A registry says which
methods are query operators: it maps the declaring type, name and parameter count of a method to a
recognizer, so that overloads that differ in their number of parameters can do different things. -/
namespace Comprehension

/-- A call that is being turned into a node. `arguments` are those behind the source, and `position`
is the distance from the outermost call. -/
structure CallSite where
  expression : Expr
  method : Method
  arguments : List Expr
  position : Nat

namespace CallSite

def unsupported (call : CallSite) (reason : Unsupported) : ParseError :=
  .unsupportedExpression call.expression.text call.position reason

/-- The argument at an index, not counting the source. -/
def argument (call : CallSite) (index : Nat) : Except ParseError Expr :=
  match call.arguments[index]? with
  | some e => .ok e
  | none => .error (call.unsupported (.missingArgument call.method.name (index + 1)))

/-- The lambda at an index, quoted or not, which has to take the given number of parameters. -/
def lambda (call : CallSite) (index parameterCount : Nat) : Except ParseError Lambda := do
  let e ← call.argument index
  match e.asLambda? with
  | none => throw (call.unsupported (.notALambda call.method.name (index + 1)))
  | some l =>
    if l.parameters.length = parameterCount then return l
    else throw (call.unsupported (.parameterCount call.method.name parameterCount l.text))

end CallSite

/-- Turns a call into what its node does. -/
abbrev Recognizer := CallSite → Except ParseError NodeKind

namespace Recognizer

/-- Keeps the lambda behind the source, which takes one parameter. -/
def ofLambda (make : Lambda → NodeKind) : Recognizer := fun call => do
  return make (← call.lambda 0 1)

/-- Keeps two lambdas, of which the second takes the given number of parameters. -/
def ofLambdas (parameterCount : Nat) (make : Lambda → Lambda → NodeKind) : Recognizer :=
  fun call => do
  return make (← call.lambda 0 1) (← call.lambda 1 parameterCount)

def filter : Recognizer := ofLambda .filter

def select : Recognizer := ofLambda .select

def selectMany : Recognizer := ofLambda (.selectMany · none)

def selectManyWithResult : Recognizer := ofLambdas 2 fun c r => .selectMany c (some r)

def orderBy (direction : Direction) : Recognizer := ofLambda (.orderBy · direction)

def thenBy (direction : Direction) : Recognizer := ofLambda (.thenBy · direction)

def groupBy : Recognizer := ofLambda (.groupBy · none)

def groupByWithElement : Recognizer := ofLambdas 1 fun k e => .groupBy k (some e)

/-- An operator without arguments. -/
def operator (op : ResultOperator) : Recognizer := fun _ => .ok (.operator op)

/-- An operator that takes its first argument as it is. -/
def operatorOf (op : Expr → ResultOperator) : Recognizer := fun call => do
  return .operator (op (← call.argument 0))

end Recognizer

/-- The query operators by name, number of parameters (the source included) and recognizer. -/
def operatorCatalog : List (String × Nat × Recognizer) := [
  ("Where", 2, .filter),
  ("Select", 2, .select),
  ("SelectMany", 2, .selectMany),
  ("SelectMany", 3, .selectManyWithResult),
  ("OrderBy", 2, .orderBy .ascending),
  ("OrderByDescending", 2, .orderBy .descending),
  ("ThenBy", 2, .thenBy .ascending),
  ("ThenByDescending", 2, .thenBy .descending),
  ("GroupBy", 2, .groupBy),
  ("GroupBy", 3, .groupByWithElement),
  ("Count", 1, .operator (.aggregate .count)),
  ("LongCount", 1, .operator (.aggregate .longCount)),
  ("First", 1, .operator (.pick .first false)),
  ("FirstOrDefault", 1, .operator (.pick .first true)),
  ("Single", 1, .operator (.pick .single false)),
  ("SingleOrDefault", 1, .operator (.pick .single true)),
  ("Last", 1, .operator (.pick .last false)),
  ("LastOrDefault", 1, .operator (.pick .last true)),
  ("Any", 1, .operator (.aggregate .any)),
  ("Distinct", 1, .operator .distinct),
  ("Sum", 1, .operator (.aggregate .sum)),
  ("Min", 1, .operator (.aggregate .min)),
  ("Max", 1, .operator (.aggregate .max)),
  ("Average", 1, .operator (.aggregate .average)),
  ("Take", 2, .operatorOf .take),
  ("Skip", 2, .operatorOf .skip),
  ("Contains", 2, .operatorOf .contains)]

/-- The methods that are query operators. No key occurs twice. -/
structure Registry where
  entries : List (MethodKey × Recognizer)

namespace Registry

def empty : Registry := ⟨[]⟩

def find? (registry : Registry) (key : MethodKey) : Option Recognizer :=
  (registry.entries.find? fun entry => entry.1 == key).map Prod.snd

/-- Adds a method, or replaces its recognizer. -/
def register (registry : Registry) (key : MethodKey) (recognizer : Recognizer) : Registry :=
  ⟨registry.entries.filter (fun entry => entry.1 != key) ++ [(key, recognizer)]⟩

/-- The recognizer for a method. -/
def recognizer? (registry : Registry) (method : Method) : Option Recognizer :=
  registry.find? method.key

def isRegistered (registry : Registry) (method : Method) : Bool :=
  (registry.recognizer? method).isSome

/-- Registers every operator of the catalog for a declaring type. -/
def registerAll (registry : Registry) (declaringType : String) : Registry :=
  operatorCatalog.foldl
    (fun r (name, count, recognizer) => r.register ⟨declaringType, name, count⟩ recognizer) registry

/-- The catalog for queryables and for enumerables. -/
def default : Registry := (empty.registerAll "Queryable").registerAll "Enumerable"

end Registry

end Comprehension
