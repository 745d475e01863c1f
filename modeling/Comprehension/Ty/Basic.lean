/-! # Static types

Every expression has a static type. A type is a primitive, a sequence of items, a grouping (items
that share a key), a function, or a class. A class lists its own members and the types it
implements, so types, classes and members are defined together.

Equality of types is decided by comparing structure: `Ty.same_iff` says that the comparison answers
`true` exactly on equal types. -/
namespace Comprehension

/-- Types without parts. `object` is the type of every value. -/
inductive Primitive where
  | void
  | object
  | boolean
  | char
  | int32
  | int64
  | double
  | string
deriving DecidableEq, Repr

/-- The four ways in which a sequence of items can be offered. -/
inductive SequenceKind where
  | enumerable
  | queryable
  | list
  | array
deriving DecidableEq, Repr

/-- What a member is: a property, a field, or the reading half of a property. -/
inductive MemberKind where
  | property
  | field
  | getter
deriving DecidableEq, Repr

mutual

/-- Static types. -/
inductive Ty where
  | primitive (p : Primitive)
  | sequence (kind : SequenceKind) (element : Ty)
  | grouping (key element : Ty)
  | function (parameters : List Ty) (result : Ty)
  | classType (c : ClassType)

/-- A class: its name, the types its name is applied to, its members and the types it
implements. -/
structure ClassType where
  name : String
  typeArguments : List Ty
  members : List Member
  interfaces : List Ty

/-- A member, with the name of the type that declares it. -/
structure Member where
  declaringType : String
  name : String
  type : Ty
  kind : MemberKind

end

namespace Ty

@[match_pattern] abbrev void : Ty := .primitive .void
@[match_pattern] abbrev object : Ty := .primitive .object
@[match_pattern] abbrev boolean : Ty := .primitive .boolean
@[match_pattern] abbrev char : Ty := .primitive .char
@[match_pattern] abbrev int32 : Ty := .primitive .int32
@[match_pattern] abbrev int64 : Ty := .primitive .int64
@[match_pattern] abbrev double : Ty := .primitive .double
@[match_pattern] abbrev string : Ty := .primitive .string
@[match_pattern] abbrev enumerable (element : Ty) : Ty := .sequence .enumerable element
@[match_pattern] abbrev queryable (element : Ty) : Ty := .sequence .queryable element
@[match_pattern] abbrev list (element : Ty) : Ty := .sequence .list element
@[match_pattern] abbrev array (element : Ty) : Ty := .sequence .array element

end Ty

/-! ### Equality -/

mutual

/-- Whether two types have the same structure. -/
def Ty.same : Ty → Ty → Bool
  | .primitive p, .primitive q => p == q
  | .sequence k e, .sequence l f => k == l && e.same f
  | .grouping k e, .grouping l f => k.same l && e.same f
  | .function ps r, .function qs s => Ty.sameList ps qs && r.same s
  | .classType c, .classType d => c.same d
  | _, _ => false
termination_by structural a => a

/-- Whether two classes have the same structure. -/
def ClassType.same : ClassType → ClassType → Bool
  | ⟨n, as, ms, is⟩, ⟨n', as', ms', is'⟩ =>
    n == n' && Ty.sameList as as' && Member.sameList ms ms' && Ty.sameList is is'
termination_by structural a => a

/-- Whether two members have the same structure. -/
def Member.same : Member → Member → Bool
  | ⟨d, n, t, k⟩, ⟨d', n', t', k'⟩ => d == d' && n == n' && t.same t' && k == k'
termination_by structural a => a

/-- `Ty.same`, position by position. -/
def Ty.sameList : List Ty → List Ty → Bool
  | [], [] => true
  | a :: as, b :: bs => a.same b && Ty.sameList as bs
  | _, _ => false
termination_by structural a => a

/-- `Member.same`, position by position. -/
def Member.sameList : List Member → List Member → Bool
  | [], [] => true
  | a :: as, b :: bs => a.same b && Member.sameList as bs
  | _, _ => false
termination_by structural a => a

end

mutual

theorem Ty.same_iff : (a b : Ty) → (a.same b = true ↔ a = b)
  | .primitive _, b => by cases b <;> simp [Ty.same]
  | .sequence _ e, b => by cases b <;> simp [Ty.same, Ty.same_iff e]
  | .grouping k e, b => by cases b <;> simp [Ty.same, Ty.same_iff k, Ty.same_iff e]
  | .function ps r, b => by cases b <;> simp [Ty.same, Ty.sameList_iff ps, Ty.same_iff r]
  | .classType c, b => by cases b <;> simp [Ty.same, ClassType.same_iff c]

theorem ClassType.same_iff : (a b : ClassType) → (a.same b = true ↔ a = b)
  | ⟨_, as, ms, is⟩, ⟨_, _, _, _⟩ => by
    simp [ClassType.same, Ty.sameList_iff as, Ty.sameList_iff is, Member.sameList_iff ms, and_assoc]

theorem Member.same_iff : (a b : Member) → (a.same b = true ↔ a = b)
  | ⟨_, _, t, _⟩, ⟨_, _, _, _⟩ => by simp [Member.same, Ty.same_iff t, and_assoc]

theorem Ty.sameList_iff : (as bs : List Ty) → (Ty.sameList as bs = true ↔ as = bs)
  | [], bs => by cases bs <;> simp [Ty.sameList]
  | a :: as, bs => by cases bs <;> simp [Ty.sameList, Ty.same_iff a, Ty.sameList_iff as]

theorem Member.sameList_iff : (as bs : List Member) → (Member.sameList as bs = true ↔ as = bs)
  | [], bs => by cases bs <;> simp [Member.sameList]
  | a :: as, bs => by cases bs <;> simp [Member.sameList, Member.same_iff a, Member.sameList_iff as]

end

instance : DecidableEq Ty := fun a b => decidable_of_iff _ (Ty.same_iff a b)
instance : DecidableEq ClassType := fun a b => decidable_of_iff _ (ClassType.same_iff a b)
instance : DecidableEq Member := fun a b => decidable_of_iff _ (Member.same_iff a b)

/-! ### Members and classes -/

namespace Member

/-- The property that a getter reads; every other member is its own property form. -/
def asProperty (m : Member) : Member :=
  match m.kind with
  | .getter => { m with kind := .property }
  | _ => m

/-- Two members refer to the same thing when their property forms are equal. -/
def refersToSame (m n : Member) : Bool := m.asProperty == n.asProperty

end Member

namespace ClassType

/-- A class with the given name and nothing else. -/
def ofName (name : String) : ClassType := ⟨name, [], [], []⟩

/-- Adds a property declared by the class itself. -/
def withProperty (c : ClassType) (name : String) (type : Ty) : ClassType :=
  { c with members := c.members ++ [⟨c.name, name, type, .property⟩] }

/-- Adds a field declared by the class itself. -/
def withField (c : ClassType) (name : String) (type : Ty) : ClassType :=
  { c with members := c.members ++ [⟨c.name, name, type, .field⟩] }

/-- Adds a type to those the class implements. -/
def implementing (c : ClassType) (interface : Ty) : ClassType :=
  { c with interfaces := c.interfaces ++ [interface] }

/-- The first member of the given name. -/
def member? (c : ClassType) (name : String) : Option Member :=
  c.members.find? fun m => m.name == name

end ClassType

/-- The class behind a type, if it is one. -/
def Ty.asClass? : Ty → Option ClassType
  | .classType c => some c
  | _ => none

end Comprehension
