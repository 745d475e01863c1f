import Comprehension.Tagged.Name

/-! # Types, members and methods in JSON

Reading descends with fuel: each step goes into a part of the value, so the depth of the value is
fuel enough. -/
namespace Comprehension
open Json (required)

/-! ### Writing -/

mutual

def Ty.toJson : Ty → Json
  | .primitive p => .text p.tag
  | .sequence kind element =>
    .tag "Sequence" (.object [("kind", kind.toJson), ("element", element.toJson)])
  | .grouping key element =>
    .tag "Grouping" (.object [("key", key.toJson), ("element", element.toJson)])
  | .function parameters result =>
    .tag "Function"
      (.object [("parameters", .array (Ty.toJsonList parameters)), ("result", result.toJson)])
  | .classType c => .tag "Class" c.toJson

def ClassType.toJson : ClassType → Json
  | ⟨name, typeArguments, members, interfaces⟩ =>
    .object [("name", .text name), ("type_arguments", .array (Ty.toJsonList typeArguments)),
      ("members", .array (Member.toJsonList members)),
      ("interfaces", .array (Ty.toJsonList interfaces))]

def Member.toJson : Member → Json
  | ⟨declaringType, name, type, kind⟩ =>
    .object [("declaring_type", .text declaringType), ("name", .text name),
      ("member_type", type.toJson), ("kind", kind.toJson)]

def Ty.toJsonList : List Ty → List Json
  | [] => []
  | t :: ts => t.toJson :: Ty.toJsonList ts

def Member.toJsonList : List Member → List Json
  | [] => []
  | m :: ms => m.toJson :: Member.toJsonList ms

end

def Constructor.toJson (c : Constructor) : Json :=
  .object [("declaring_type", c.declaringType.toJson),
    ("parameters", .array (Ty.toJsonList c.parameters))]

def Method.toJson (m : Method) : Json :=
  .object [("declaring_type", .text m.declaringType), ("name", .text m.name),
    ("generic_arguments", .array (Ty.toJsonList m.genericArguments)),
    ("parameters", .array (Ty.toJsonList m.parameters)), ("return_type", m.returnType.toJson),
    ("is_static", .bool m.isStatic), ("is_extension", .bool m.isExtension)]

def MethodKey.toJson (k : MethodKey) : Json :=
  .object [("declaring_type", .text k.declaringType), ("name", .text k.name),
    ("parameter_count", .integer k.parameterCount)]

/-! ### Reading -/

mutual

def Ty.readUpTo : (fuel : Nat) → Json → Option Ty
  | 0, _ => none
  | fuel + 1, j =>
    match j.tagged? with
    | some ("Sequence", content) =>
      match content.record? [required "kind", required "element"] with
      | some [kind, element] => do
        return .sequence (← SequenceKind.ofJson? kind) (← Ty.readUpTo fuel element)
      | _ => none
    | some ("Grouping", content) =>
      match content.record? [required "key", required "element"] with
      | some [key, element] => do
        return .grouping (← Ty.readUpTo fuel key) (← Ty.readUpTo fuel element)
      | _ => none
    | some ("Function", content) =>
      match content.record? [required "parameters", required "result"] with
      | some [parameters, result] => do
        return .function (← parameters.list? (Ty.readUpTo fuel)) (← Ty.readUpTo fuel result)
      | _ => none
    | some ("Class", content) => (ClassType.readUpTo fuel content).map .classType
    | some (name, .null) => (Primitive.ofTag? name).map .primitive
    | _ => none

def ClassType.readUpTo : (fuel : Nat) → Json → Option ClassType
  | 0, _ => none
  | fuel + 1, j =>
    match j.record?
      [required "name", required "type_arguments", required "members", required "interfaces"] with
    | some [name, typeArguments, members, interfaces] => do
      return ⟨← name.text?, ← typeArguments.list? (Ty.readUpTo fuel),
        ← members.list? (Member.readUpTo fuel), ← interfaces.list? (Ty.readUpTo fuel)⟩
    | _ => none

def Member.readUpTo : (fuel : Nat) → Json → Option Member
  | 0, _ => none
  | fuel + 1, j =>
    match j.record?
      [required "declaring_type", required "name", required "member_type", required "kind"] with
    | some [declaringType, name, type, kind] => do
      return ⟨← declaringType.text?, ← name.text?, ← Ty.readUpTo fuel type,
        ← MemberKind.ofJson? kind⟩
    | _ => none

end

def Ty.ofJson? (j : Json) : Option Ty := Ty.readUpTo j.depth j

def ClassType.ofJson? (j : Json) : Option ClassType := ClassType.readUpTo j.depth j

def Member.ofJson? (j : Json) : Option Member := Member.readUpTo j.depth j

def Constructor.ofJson? (j : Json) : Option Constructor :=
  match j.record? [required "declaring_type", required "parameters"] with
  | some [declaringType, parameters] => do
    return ⟨← Ty.ofJson? declaringType, ← parameters.list? Ty.ofJson?⟩
  | _ => none

def Method.ofJson? (j : Json) : Option Method :=
  match j.record? [required "declaring_type", required "name", required "generic_arguments",
    required "parameters", required "return_type", required "is_static",
    required "is_extension"] with
  | some [declaringType, name, genericArguments, parameters, returnType, isStatic,
      isExtension] => do
    return ⟨← declaringType.text?, ← name.text?, ← genericArguments.list? Ty.ofJson?,
      ← parameters.list? Ty.ofJson?, ← Ty.ofJson? returnType, ← isStatic.bool?,
      ← isExtension.bool?⟩
  | _ => none

end Comprehension
