import Comprehension.Expr.Checked

/-! # Objects without a declared class

Query code packs values into objects whose class is made up on the spot: it is called
`AnonymousType` and has one property per value. Such an object can be constructed from arguments,
one per member, or empty with its members assigned afterwards. -/
namespace Comprehension

/-- The declared member of the given name. -/
def Ty.declaredMember (type : Ty) (name : String) : Except WritingError Member :=
  match type.asClass?.bind fun c => c.member? name with
  | some m => .ok m
  | none => .error (.noSuchMember type.text name)

/-- Reads a member by its name. -/
def Expr.member (target : Expr) (name : String) : Except WritingError Expr := do
  let m ← target.type.declaredMember name
  orWritingError (.memberAccessFailed name) (target.accessMember m)

namespace Anonymous

def typeName : String := "AnonymousType"

/-- The class with one property per member. -/
def classOf (members : List (String × Ty)) : Ty :=
  .classType (members.foldl (fun c (name, type) => c.withProperty name type) (.ofName typeName))

/-- An object constructed from one argument per member. -/
def construct (values : List (String × Expr)) : Except WritingError Expr := do
  let typed := values.map fun (name, e) => (name, e.type)
  let ctor : Constructor := ⟨classOf typed, typed.map Prod.snd⟩
  let getters := typed.map fun (name, type) => (⟨typeName, name, type, .getter⟩ : Member)
  let construction ← orWritingError .constructionFailed
    (Construction.mapped ctor (values.map Prod.snd) getters)
  return construction.toExpr

/-- Assigns each value to the property of its name. -/
def assignments : List (String × Expr) → Except WritingError (List Binding)
  | [] => .ok []
  | (name, e) :: rest => do
    let binding ← orWritingError (.bindingFailed name)
      (Binding.assign ⟨typeName, name, e.type, .property⟩ e)
    return binding :: (← assignments rest)

/-- An empty object whose members are assigned one by one. -/
def assigned (values : List (String × Expr)) : Except WritingError Expr := do
  let type := classOf (values.map fun (name, e) => (name, e.type))
  let construction ← orWritingError .defaultConstructionFailed
    (Construction.positional (.default type) [])
  return construction.withBindings (← assignments values)

end Anonymous

end Comprehension
