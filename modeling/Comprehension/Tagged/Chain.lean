import Comprehension.Chain.Basic
import Comprehension.Tagged.Expr

/-! # Chains in JSON -/
namespace Comprehension

def ConstantSource.toJson (s : ConstantSource) : Json :=
  .object [("value", s.value.toJson), ("query_source_type", s.sequenceType.toJson),
    ("element_type", s.elementType.toJson)]

def SubQuerySource.toJson (s : SubQuerySource) : Json :=
  .object [("sub_query", .object [("model", s.model.toJson), ("ty", s.sequenceType.toJson)]),
    ("element_type", s.elementType.toJson)]

def NodeKind.toJson : NodeKind → Json
  | .constant s => .tag "Constant" s.toJson
  | .subQuery s => .tag "SubQuery" s.toJson
  | .filter predicate => .tag "Where" (.object [("predicate", predicate.toJson)])
  | .select selector => .tag "Select" (.object [("selector", selector.toJson)])
  | .selectMany collection result =>
    .tag "SelectMany"
      (.object [("collection_selector", collection.toJson),
        ("result_selector", Json.ofOption Lambda.toJson result)])
  | .orderBy key direction =>
    .tag "OrderBy" (.object [("key_selector", key.toJson), ("direction", direction.toJson)])
  | .thenBy key direction =>
    .tag "ThenBy" (.object [("key_selector", key.toJson), ("direction", direction.toJson)])
  | .groupBy key element =>
    .tag "GroupBy"
      (.object [("key_selector", key.toJson),
        ("element_selector", Json.ofOption Lambda.toJson element)])
  | .operator op => .tag "ResultOperator" op.toJson

def Node.toJson (n : Node) : Json :=
  .object [("id", .integer n.id),
    ("source", Json.ofOption (fun (id : Nat) => .integer id) n.source),
    ("associated_identifier", .text n.identifier), ("kind", n.kind.toJson)]

def Chain.toJson (c : Chain) : Json := .object [("nodes", Json.ofList Node.toJson c.nodes)]

end Comprehension
