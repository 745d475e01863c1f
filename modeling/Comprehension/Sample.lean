import Comprehension.Expr.Basic

/-! # A sample domain

Cooks with their assistants, and kitchens with their cooks. -/
namespace Comprehension.Sample

def assistant : Ty :=
  .classType ((ClassType.ofName "Assistant" |>.withProperty "Name" .string)
    |>.withProperty "Age" .int32)

def cook : Ty :=
  .classType (ClassType.ofName "Cook"
    |>.withProperty "FirstName" .string
    |>.withProperty "Name" .string
    |>.withProperty "Age" .int32
    |>.withProperty "IsStarredCook" .boolean
    |>.withField "Specialty" .string
    |>.withProperty "Assistants" (.list assistant))

def kitchen : Ty :=
  .classType (ClassType.ofName "Kitchen"
    |>.withProperty "Name" .string
    |>.withProperty "RoomNumber" .int32
    |>.withProperty "Cook" cook)

/-- A table class that is a queryable of cooks. -/
def cookTable : Ty := .classType (ClassType.ofName "CookTable" |>.implementing (.queryable cook))

def cooks : Expr := .constant (.source "Cooks") (.queryable cook)

def kitchens : Expr := .constant (.source "Kitchens") (.queryable kitchen)

def numbers (ns : List Int32) : Expr := .constant (.sequence (ns.map .int32)) (.array .int32)

end Comprehension.Sample
