import Comprehension.Tagged.Value

/-! # Expressions and models in JSON

Members and calls without a target have the target `null`. -/
namespace Comprehension

def Parameter.toJson (p : Parameter) : Json :=
  .object [("name", .text p.name), ("ty", p.type.toJson)]

/-- A construction with its arguments already written. -/
def constructionToJson (ctor : Constructor) (arguments : List Json)
    (members : Option (List Member)) : Json :=
  .object [("constructor", ctor.toJson), ("arguments", .array arguments),
    ("members", Json.ofOption (fun ms => .array (Member.toJsonList ms)) members)]

mutual

def Expr.toJson : Expr → Json
  | .constant value type =>
    .tag "Constant" (.object [("value", value.toJson), ("ty", type.toJson)])
  | .parameter p => .tag "Parameter" p.toJson
  | .staticMember member =>
    .tag "MemberAccess" (.object [("target", .null), ("member", member.toJson)])
  | .memberAccess target member =>
    .tag "MemberAccess" (.object [("target", target.toJson), ("member", member.toJson)])
  | .unary op operand type =>
    .tag "Unary"
      (.object [("op", op.toJson), ("operand", operand.toJson), ("ty", type.toJson)])
  | .binary op left right type =>
    .tag "Binary"
      (.object [("op", op.toJson), ("left", left.toJson), ("right", right.toJson),
        ("ty", type.toJson)])
  | .staticCall method arguments =>
    .tag "MethodCall"
      (.object [("target", .null), ("method", method.toJson),
        ("arguments", .array (Expr.toJsonList arguments))])
  | .methodCall target method arguments =>
    .tag "MethodCall"
      (.object [("target", target.toJson), ("method", method.toJson),
        ("arguments", .array (Expr.toJsonList arguments))])
  | .new ctor arguments members =>
    .tag "New" (constructionToJson ctor (Expr.toJsonList arguments) members)
  | .memberInit ctor arguments members bindings =>
    .tag "MemberInit"
      (.object [("new_expr", constructionToJson ctor (Expr.toJsonList arguments) members),
        ("bindings", .array (Binding.toJsonList bindings))])
  | .lambda parameters body =>
    .tag "Lambda"
      (.object [("parameters", Json.ofList Parameter.toJson parameters), ("body", body.toJson)])
  | .conditional test ifTrue ifFalse type =>
    .tag "Conditional"
      (.object [("test", test.toJson), ("if_true", ifTrue.toJson), ("if_false", ifFalse.toJson),
        ("ty", type.toJson)])
  | .reference source => .tag "QuerySourceReference" source.toJson
  | .subQuery model type =>
    .tag "SubQuery" (.object [("model", model.toJson), ("ty", type.toJson)])

def Expr.toJsonList : List Expr → List Json
  | [] => []
  | e :: es => e.toJson :: Expr.toJsonList es

def Binding.toJson : Binding → Json
  | .assignment member value =>
    .tag "Assignment" (.object [("member", member.toJson), ("expression", value.toJson)])
  | .list member initializers =>
    .tag "List"
      (.object [("member", member.toJson),
        ("initializers", .array (ElementInit.toJsonList initializers))])
  | .nested member bindings =>
    .tag "Member"
      (.object [("member", member.toJson), ("bindings", .array (Binding.toJsonList bindings))])

def Binding.toJsonList : List Binding → List Json
  | [] => []
  | b :: bs => b.toJson :: Binding.toJsonList bs

def ElementInit.toJson : ElementInit → Json
  | ⟨addMethod, arguments⟩ =>
    .object [("add_method", addMethod.toJson), ("arguments", .array (Expr.toJsonList arguments))]

def ElementInit.toJsonList : List ElementInit → List Json
  | [] => []
  | i :: is => i.toJson :: ElementInit.toJsonList is

def FromClause.toJson : FromClause → Json
  | ⟨source, expression⟩ =>
    .object [("source", source.toJson), ("from_expression", expression.toJson)]

def SortKey.toJson : SortKey → Json
  | ⟨expression, direction⟩ =>
    .object [("expression", expression.toJson), ("direction", direction.toJson)]

def SortKey.toJsonList : List SortKey → List Json
  | [] => []
  | k :: ks => k.toJson :: SortKey.toJsonList ks

def BodyClause.toJson : BodyClause → Json
  | .additionalFrom clause => .tag "AdditionalFrom" clause.toJson
  | .filter predicate => .tag "Where" (.object [("predicate", predicate.toJson)])
  | .orderBy orderings =>
    .tag "OrderBy" (.object [("orderings", .array (SortKey.toJsonList orderings))])

def BodyClause.toJsonList : List BodyClause → List Json
  | [] => []
  | c :: cs => c.toJson :: BodyClause.toJsonList cs

def ResultOperator.toJson : ResultOperator → Json
  | .aggregate a => .text a.name
  | .pick which orDefault =>
    .tag which.name (.object [("return_default_when_empty", .bool orDefault)])
  | .distinct => .text "Distinct"
  | .take count => .tag "Take" (.object [("count", count.toJson)])
  | .skip count => .tag "Skip" (.object [("count", count.toJson)])
  | .contains item => .tag "Contains" (.object [("item", item.toJson)])
  | .group itemName key element =>
    .tag "Group"
      (.object [("item_name", .text itemName), ("key_selector", key.toJson),
        ("element_selector", element.toJson)])

def ResultOperator.toJsonList : List ResultOperator → List Json
  | [] => []
  | o :: os => o.toJson :: ResultOperator.toJsonList os

def Model.toJson : Model → Json
  | ⟨mainFrom, body, selector, operators⟩ =>
    .object [("main_from_clause", mainFrom.toJson),
      ("body_clauses", .array (BodyClause.toJsonList body)),
      ("select_clause", .object [("selector", selector.toJson)]),
      ("result_operators", .array (ResultOperator.toJsonList operators))]

end

def Lambda.toJson (l : Lambda) : Json :=
  .object [("parameters", Json.ofList Parameter.toJson l.parameters), ("body", l.body.toJson)]

end Comprehension
