import Comprehension.Chain.Error
import Comprehension.Json.Record

/-! # Errors in JSON

An error is written as its kind with the details of its message. -/
namespace Comprehension

namespace ModelError

/-- The kind of the error, and its details. -/
def parts : ModelError → String × Json
  | .argumentCountMismatch target expected found =>
    ("ArgumentCountMismatch",
      .object [("target", .text target), ("expected", .integer expected),
        ("found", .integer found)])
  | .argumentTypeMismatch target position expected found =>
    ("ArgumentTypeMismatch",
      .object [("target", .text target), ("position", .integer position),
        ("expected", .text expected), ("found", .text found)])
  | .memberTypeMismatch member memberType found =>
    ("MemberTypeMismatch",
      .object [("member", .text member), ("member_type", .text memberType),
        ("found", .text found)])
  | .memberNotFound member typeName =>
    ("MemberNotFound", .object [("member", .text member), ("type_name", .text typeName)])
  | .operandTypeMismatch op left right =>
    ("OperandTypeMismatch",
      .object [("op", .text op), ("left", .text left), ("right", .text right)])
  | .accessorNotFound full searched =>
    ("AccessorNotFound", .object [("full", .text full), ("searched", .text searched)])
  | .ambiguousAccessor full searched =>
    ("AmbiguousAccessor", .object [("full", .text full), ("searched", .text searched)])
  | .forwardReference clause sourceName =>
    ("ForwardReference", .object [("clause", .text clause), ("source_name", .text sourceName)])
  | .invalidOperatorInput operator input =>
    ("InvalidResultOperatorInput", .object [("operator", .text operator), ("input", .text input)])
  | .execution reason => ("Execution", .text reason)

def kind (e : ModelError) : String := e.parts.1

def toJson (e : ModelError) : Json := .tag e.parts.1 e.parts.2

end ModelError

namespace ParseError

/-- The kind of the error. An error of the model says so. -/
def kind : ParseError → String
  | .typeMismatch .. => "TypeMismatch"
  | .unsupportedExpression .. => "UnsupportedExpression"
  | .unresolvedSource .. => "UnresolvedQuerySource"
  | .invalidClauseChaining .. => "InvalidClauseChaining"
  | .missingSource .. => "MissingSource"
  | .unknownNode .. => "UnknownNode"
  | .circularSource .. => "CircularSource"
  | .duplicateMapping .. => "DuplicateMapping"
  | .emptyChain => "EmptyChain"
  | .recursionLimitExceeded .. => "RecursionLimitExceeded"
  | .model e => "Ir:" ++ e.kind

def toJson : ParseError → Json
  | .typeMismatch found => .tag "TypeMismatch" (.object [("found", .text found)])
  | .unsupportedExpression expression position reason =>
    .tag "UnsupportedExpression"
      (.object [("expression", .text expression), ("position", .integer position),
        ("reason", .text reason.text)])
  | .unresolvedSource nodeType =>
    .tag "UnresolvedQuerySource" (.object [("node_type", .text nodeType)])
  | .invalidClauseChaining nodeType fault =>
    .tag "InvalidClauseChaining"
      (.object [("node_type", .text nodeType), ("message", .text fault.text)])
  | .missingSource nodeType => .tag "MissingSource" (.object [("node_type", .text nodeType)])
  | .unknownNode id => .tag "UnknownNode" (.object [("id", .integer id)])
  | .circularSource id => .tag "CircularSource" (.object [("id", .integer id)])
  | .duplicateMapping nodeType id =>
    .tag "DuplicateMapping" (.object [("node_type", .text nodeType), ("id", .integer id)])
  | .emptyChain => .text "EmptyChain"
  | .recursionLimitExceeded depth limit =>
    .tag "RecursionLimitExceeded"
      (.object [("depth", .integer depth), ("limit", .integer limit)])
  | .model e => .tag "Ir" e.toJson

end ParseError

end Comprehension
