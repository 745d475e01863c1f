import Comprehension.Ty.Text

/-! # Constructors and methods

What an expression needs to know about the things it calls. A method is looked up by its key: the
type that declares it, its name and how many parameters it takes. -/
namespace Comprehension

/-- A constructor: the type it builds and the types of its parameters. -/
structure Constructor where
  declaringType : Ty
  parameters : List Ty
deriving DecidableEq

/-- The constructor without parameters. -/
def Constructor.default (declaringType : Ty) : Constructor := ⟨declaringType, []⟩

/-- A method. An extension method is static and takes what it extends as its first argument. -/
structure Method where
  declaringType : String
  name : String
  genericArguments : List Ty
  parameters : List Ty
  returnType : Ty
  isStatic : Bool
  isExtension : Bool
deriving DecidableEq

/-- What identifies a method, apart from the types of its parameters. -/
structure MethodKey where
  declaringType : String
  name : String
  parameterCount : Nat
deriving DecidableEq

namespace Method

/-- A method of an object. -/
def instanceMethod (declaringType name : String) (parameters : List Ty) (returnType : Ty) :
    Method :=
  ⟨declaringType, name, [], parameters, returnType, false, false⟩

/-- A static method that extends its first parameter. -/
def extensionMethod (declaringType name : String) (genericArguments parameters : List Ty)
    (returnType : Ty) : Method :=
  ⟨declaringType, name, genericArguments, parameters, returnType, true, true⟩

def key (m : Method) : MethodKey := ⟨m.declaringType, m.name, m.parameters.length⟩

/-- Result, name and parameter types, as in `Void Add(Int32)`. -/
def text (m : Method) : String :=
  m.returnType.text ++ " " ++ m.name ++ "(" ++ commaSeparated (m.parameters.map Ty.text) ++ ")"

end Method

/-- As in `Queryable.Where/2`. -/
def MethodKey.text (k : MethodKey) : String :=
  k.declaringType ++ "." ++ k.name ++ "/" ++ toString k.parameterCount

end Comprehension
