import Comprehension.Error
import Comprehension.Expr.Text
import Comprehension.Ty.Assignable

/-! # Expressions whose parts agree

Nodes whose parts have to agree are built here: arguments fit their parameters, values fit the
members they are bound to, operands have matching types, and a member read from an object of class
type is declared on that class. Each function gives the node, or says which part does not fit. -/
namespace Comprehension

/-- Checks argument types one by one, counting positions from `position`. -/
def checkTypes (target : String) (position : Nat) : List Ty → List Expr → Except ModelError Unit
  | p :: ps, a :: as =>
    if p.accepts a.type then checkTypes target (position + 1) ps as
    else .error (.argumentTypeMismatch target position p.text a.type.text)
  | _, _ => .ok ()

/-- Checks the number of arguments, then their types. -/
def checkArguments (target : String) (parameters : List Ty) (arguments : List Expr) :
    Except ModelError Unit :=
  if parameters.length = arguments.length then checkTypes target 0 parameters arguments
  else .error (.argumentCountMismatch target parameters.length arguments.length)

/-- Checks that a value fits the member it is bound to. -/
def checkMember (member : Member) (value : Expr) : Except ModelError Unit :=
  if member.type.accepts value.type then .ok ()
  else .error (.memberTypeMismatch member.name member.type.text value.type.text)

/-- Checks members against values, position by position. -/
def checkMembers : List Member → List Expr → Except ModelError Unit
  | m :: ms, v :: vs => do
    checkMember m v
    checkMembers ms vs
  | _, _ => .ok ()

/-! ### Members, operators, calls -/

namespace Expr

/-- Reads a member in its property form. If the target is an object of a class, the class must
declare a member of that name. -/
def accessMember (target : Expr) (member : Member) : Except ModelError Expr :=
  match target.type with
  | .classType c =>
    if (c.member? member.name).isSome then .ok (.memberAccess target member.asProperty)
    else .error (.memberNotFound member.name c.text)
  | _ => .ok (.memberAccess target member.asProperty)

/-- A static member, in its property form. -/
def static (member : Member) : Expr := .staticMember member.asProperty

def convert (operand : Expr) (type : Ty) : Expr := .unary .convert operand type

def convertChecked (operand : Expr) (type : Ty) : Expr := .unary .convertChecked operand type

def unaryPlus (operand : Expr) : Expr := .unary .plus operand operand.type

def negate (operand : Expr) : Expr := .unary .negate operand operand.type

def not (operand : Expr) : Expr := .unary .not operand .boolean

/-- Logical operators take booleans, all others two operands of one type. Arithmetic keeps that type
and everything else gives a boolean. -/
def applyBinary (op : BinaryOp) (left right : Expr) : Except ModelError Expr :=
  let agree :=
    if op.isLogical then left.type == .boolean && right.type == .boolean
    else left.type == right.type
  if agree then .ok (.binary op left right (if op.isArithmetic then left.type else .boolean))
  else .error (.operandTypeMismatch op.symbol left.type.text right.type.text)

/-- The test is a boolean and both branches have one type. -/
def choose (test ifTrue ifFalse : Expr) : Except ModelError Expr :=
  if test.type = .boolean then
    if ifTrue.type = ifFalse.type then .ok (.conditional test ifTrue ifFalse ifTrue.type)
    else .error (.operandTypeMismatch "?:" ifTrue.type.text ifFalse.type.text)
  else .error (.argumentTypeMismatch "conditional" 0 Ty.boolean.text test.type.text)

/-- A call whose arguments fit the method's parameters. -/
def call (target : Option Expr) (method : Method) (arguments : List Expr) :
    Except ModelError Expr := do
  checkArguments method.name method.parameters arguments
  match target with
  | some t => return .methodCall t method arguments
  | none => return .staticCall method arguments

end Expr

/-! ### Constructions -/

/-- A construction on its own: constructor, arguments, and possibly the member that each argument
initialises. -/
structure Construction where
  ctor : Constructor
  arguments : List Expr
  members : Option (List Member)

namespace Construction

/-- A construction by position. -/
def positional (ctor : Constructor) (arguments : List Expr) : Except ModelError Construction := do
  checkArguments ("new " ++ ctor.declaringType.text) ctor.parameters arguments
  return ⟨ctor, arguments, none⟩

/-- A construction in which each argument initialises a member that it fits. -/
def mapped (ctor : Constructor) (arguments : List Expr) (members : List Member) :
    Except ModelError Construction := do
  let _ ← positional ctor arguments
  if members.length = arguments.length then
    checkMembers members arguments
    return ⟨ctor, arguments, some members⟩
  else
    throw (.argumentCountMismatch ("members of new " ++ ctor.declaringType.text) arguments.length
      members.length)

/-- The construction as an expression. -/
def toExpr (c : Construction) : Expr := .new c.ctor c.arguments c.members

/-- The construction followed by bindings. -/
def withBindings (c : Construction) (bindings : List Binding) : Expr :=
  .memberInit c.ctor c.arguments c.members bindings

end Construction

/-- Assigns a value to a member that it fits. -/
def Binding.assign (member : Member) (value : Expr) : Except ModelError Binding := do
  checkMember member value
  return .assignment member value

/-- Adds an element by a method that the arguments fit. -/
def ElementInit.checked (addMethod : Method) (arguments : List Expr) :
    Except ModelError ElementInit := do
  checkArguments addMethod.name addMethod.parameters arguments
  return ⟨addMethod, arguments⟩

end Comprehension
