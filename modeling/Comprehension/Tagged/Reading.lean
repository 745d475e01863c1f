import Comprehension.Tagged.Expr

/-! # Expressions and models from JSON

Reading checks the form of a value and nothing else: types need not fit, and sources need not be
declared. Each step goes into a part of the value, so its depth is fuel enough. -/
namespace Comprehension
open Json (required optional)

def Parameter.ofJson? (j : Json) : Option Parameter :=
  match j.record? [required "name", required "ty"] with
  | some [name, type] => do return ⟨← name.text?, ← Ty.ofJson? type⟩
  | _ => none

mutual

def Expr.readUpTo : (fuel : Nat) → Json → Option Expr
  | 0, _ => none
  | fuel + 1, j =>
    match j.tagged? with
    | some ("Constant", content) =>
      match content.record? [required "value", required "ty"] with
      | some [value, type] => do return .constant (← Value.ofJson? value) (← Ty.ofJson? type)
      | _ => none
    | some ("Parameter", content) => (Parameter.ofJson? content).map .parameter
    | some ("MemberAccess", content) =>
      match content.record? [optional "target", required "member"] with
      | some [.null, member] => do return .staticMember (← Member.ofJson? member)
      | some [target, member] => do
        return .memberAccess (← Expr.readUpTo fuel target) (← Member.ofJson? member)
      | _ => none
    | some ("Unary", content) =>
      match content.record? [required "op", required "operand", required "ty"] with
      | some [op, operand, type] => do
        return .unary (← UnaryOp.ofJson? op) (← Expr.readUpTo fuel operand) (← Ty.ofJson? type)
      | _ => none
    | some ("Binary", content) =>
      match content.record?
        [required "op", required "left", required "right", required "ty"] with
      | some [op, left, right, type] => do
        return .binary (← BinaryOp.ofJson? op) (← Expr.readUpTo fuel left)
          (← Expr.readUpTo fuel right) (← Ty.ofJson? type)
      | _ => none
    | some ("MethodCall", content) =>
      match content.record? [optional "target", required "method", required "arguments"] with
      | some [.null, method, arguments] => do
        return .staticCall (← Method.ofJson? method) (← arguments.list? (Expr.readUpTo fuel))
      | some [target, method, arguments] => do
        return .methodCall (← Expr.readUpTo fuel target) (← Method.ofJson? method)
          (← arguments.list? (Expr.readUpTo fuel))
      | _ => none
    | some ("New", content) => do
      let (ctor, arguments, members) ← readConstruction fuel content
      return .new ctor arguments members
    | some ("MemberInit", content) =>
      match content.record? [required "new_expr", required "bindings"] with
      | some [construction, bindings] => do
        let (ctor, arguments, members) ← readConstruction fuel construction
        return .memberInit ctor arguments members (← bindings.list? (Binding.readUpTo fuel))
      | _ => none
    | some ("Lambda", content) => do
      let (parameters, body) ← readLambda fuel content
      return .lambda parameters body
    | some ("Conditional", content) =>
      match content.record?
        [required "test", required "if_true", required "if_false", required "ty"] with
      | some [test, ifTrue, ifFalse, type] => do
        return .conditional (← Expr.readUpTo fuel test) (← Expr.readUpTo fuel ifTrue)
          (← Expr.readUpTo fuel ifFalse) (← Ty.ofJson? type)
      | _ => none
    | some ("QuerySourceReference", content) => (Source.ofJson? content).map .reference
    | some ("SubQuery", content) =>
      match content.record? [required "model", required "ty"] with
      | some [model, type] => do
        return .subQuery (← Model.readUpTo fuel model) (← Ty.ofJson? type)
      | _ => none
    | _ => none

/-- The constructor, the arguments and the members of a construction. -/
def readConstruction : (fuel : Nat) → Json →
    Option (Constructor × List Expr × Option (List Member))
  | 0, _ => none
  | fuel + 1, j =>
    match j.record? [required "constructor", required "arguments", optional "members"] with
    | some [ctor, arguments, members] => do
      return (← Constructor.ofJson? ctor, ← arguments.list? (Expr.readUpTo fuel),
        ← members.nullable? fun ms => ms.list? Member.ofJson?)
    | _ => none

/-- The parameters and the body of a lambda. -/
def readLambda : (fuel : Nat) → Json → Option (List Parameter × Expr)
  | 0, _ => none
  | fuel + 1, j =>
    match j.record? [required "parameters", required "body"] with
    | some [parameters, body] => do
      return (← parameters.list? Parameter.ofJson?, ← Expr.readUpTo fuel body)
    | _ => none

def Binding.readUpTo : (fuel : Nat) → Json → Option Binding
  | 0, _ => none
  | fuel + 1, j =>
    match j.tagged? with
    | some ("Assignment", content) =>
      match content.record? [required "member", required "expression"] with
      | some [member, value] => do
        return .assignment (← Member.ofJson? member) (← Expr.readUpTo fuel value)
      | _ => none
    | some ("List", content) =>
      match content.record? [required "member", required "initializers"] with
      | some [member, initializers] => do
        return .list (← Member.ofJson? member)
          (← initializers.list? (ElementInit.readUpTo fuel))
      | _ => none
    | some ("Member", content) =>
      match content.record? [required "member", required "bindings"] with
      | some [member, bindings] => do
        return .nested (← Member.ofJson? member) (← bindings.list? (Binding.readUpTo fuel))
      | _ => none
    | _ => none

def ElementInit.readUpTo : (fuel : Nat) → Json → Option ElementInit
  | 0, _ => none
  | fuel + 1, j =>
    match j.record? [required "add_method", required "arguments"] with
    | some [addMethod, arguments] => do
      return ⟨← Method.ofJson? addMethod, ← arguments.list? (Expr.readUpTo fuel)⟩
    | _ => none

def FromClause.readUpTo : (fuel : Nat) → Json → Option FromClause
  | 0, _ => none
  | fuel + 1, j =>
    match j.record? [required "source", required "from_expression"] with
    | some [source, expression] => do
      return ⟨← Source.ofJson? source, ← Expr.readUpTo fuel expression⟩
    | _ => none

def SortKey.readUpTo : (fuel : Nat) → Json → Option SortKey
  | 0, _ => none
  | fuel + 1, j =>
    match j.record? [required "expression", required "direction"] with
    | some [expression, direction] => do
      return ⟨← Expr.readUpTo fuel expression, ← Direction.ofJson? direction⟩
    | _ => none

def BodyClause.readUpTo : (fuel : Nat) → Json → Option BodyClause
  | 0, _ => none
  | fuel + 1, j =>
    match j.tagged? with
    | some ("AdditionalFrom", content) => (FromClause.readUpTo fuel content).map .additionalFrom
    | some ("Where", content) =>
      match content.record? [required "predicate"] with
      | some [predicate] => do return .filter (← Expr.readUpTo fuel predicate)
      | _ => none
    | some ("OrderBy", content) =>
      match content.record? [required "orderings"] with
      | some [orderings] => do return .orderBy (← orderings.list? (SortKey.readUpTo fuel))
      | _ => none
    | _ => none

def ResultOperator.readUpTo : (fuel : Nat) → Json → Option ResultOperator
  | 0, _ => none
  | fuel + 1, j =>
    match j.tagged? with
    | some ("Distinct", .null) => some .distinct
    | some ("Take", content) =>
      match content.record? [required "count"] with
      | some [count] => do return .take (← Expr.readUpTo fuel count)
      | _ => none
    | some ("Skip", content) =>
      match content.record? [required "count"] with
      | some [count] => do return .skip (← Expr.readUpTo fuel count)
      | _ => none
    | some ("Contains", content) =>
      match content.record? [required "item"] with
      | some [item] => do return .contains (← Expr.readUpTo fuel item)
      | _ => none
    | some ("Group", content) =>
      match content.record?
        [required "item_name", required "key_selector", required "element_selector"] with
      | some [itemName, key, element] => do
        return .group (← itemName.text?) (← Expr.readUpTo fuel key)
          (← Expr.readUpTo fuel element)
      | _ => none
    | some (name, .null) => (Aggregate.ofName? name).map .aggregate
    | some (name, content) =>
      match content.record? [required "return_default_when_empty"] with
      | some [orDefault] => do return .pick (← Pick.ofName? name) (← orDefault.bool?)
      | _ => none
    | none => none

def Model.readUpTo : (fuel : Nat) → Json → Option Model
  | 0, _ => none
  | fuel + 1, j =>
    match j.record? [required "main_from_clause", required "body_clauses",
      required "select_clause", required "result_operators"] with
    | some [mainFrom, body, select, operators] =>
      match select.record? [required "selector"] with
      | some [selector] => do
        return ⟨← FromClause.readUpTo fuel mainFrom, ← body.list? (BodyClause.readUpTo fuel),
          ← Expr.readUpTo fuel selector, ← operators.list? (ResultOperator.readUpTo fuel)⟩
      | _ => none
    | _ => none

end

def Expr.ofJson? (j : Json) : Option Expr := Expr.readUpTo j.depth j

def Lambda.ofJson? (j : Json) : Option Lambda := do
  let (parameters, body) ← readLambda j.depth j
  return ⟨parameters, body⟩

def BodyClause.ofJson? (j : Json) : Option BodyClause := BodyClause.readUpTo j.depth j

def ResultOperator.ofJson? (j : Json) : Option ResultOperator := ResultOperator.readUpTo j.depth j

def Model.ofJson? (j : Json) : Option Model := Model.readUpTo j.depth j

end Comprehension
