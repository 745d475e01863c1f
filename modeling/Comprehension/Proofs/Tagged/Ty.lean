import Comprehension.Tagged.Ty

/-! # Reading back types

What is written as JSON can be read back.  A reader goes into a value with fuel, and spends one unit
where it goes into a part.  A part lies deeper in the value than the whole, so the depth of the
value is fuel enough.  Here this is carried through types, classes and members, which hold each
other, and then through constructors and methods. -/
namespace Comprehension

/-! ### Depth as fuel -/

namespace Json

theorem one_le_depth (j : Json) : 1 ≤ j.depth := by
  cases j <;> simp [depth]

/-- Fuel that suffices is not used up. -/
theorem exists_fuel {j : Json} {fuel : Nat} (h : j.depth ≤ fuel) : ∃ n, fuel = n + 1 := by
  have := j.one_le_depth
  exact ⟨fuel - 1, by omega⟩

/-! ### Records and lists -/

@[simp] theorem tagged?_tag (name : String) (content : Json) :
    (tag name content).tagged? = some (name, content) := rfl

@[simp] theorem text?_text (s : String) : (text s).text? = some s := rfl

@[simp] theorem bool?_bool (b : Bool) : (bool b).bool? = some b := rfl

@[simp] theorem record?_object (fields : List Field) (entries : List (String × Json)) :
    record? fields (.object entries) = fields.mapM fun field => field.value? entries := rfl

@[simp] theorem required_eq (name : String) : required name = ⟨name, false⟩ := rfl

@[simp] theorem optional_eq (name : String) : optional name = ⟨name, true⟩ := rfl

/-- The value of a field that is given once. -/
@[simp] theorem Field.value?_cons_self {name : String} {optional : Bool} {j : Json}
    {rest : List (String × Json)} (hrest : ∀ entry ∈ rest, entry.1 ≠ name) :
    Field.value? ⟨name, optional⟩ ((name, j) :: rest) = some j := by
  have hnone : rest.filter (fun entry => entry.1 == name) = [] := by
    simpa using hrest
  simp [Field.value?, hnone]

/-- A field of another name is passed over. -/
@[simp] theorem Field.value?_cons_of_ne {name other : String} {optional : Bool} {j : Json}
    {rest : List (String × Json)} (h : other ≠ name) :
    Field.value? ⟨name, optional⟩ ((other, j) :: rest) = Field.value? ⟨name, optional⟩ rest := by
  simp [Field.value?, h]

/-- A list is read back item by item. -/
theorem list?_cons {α : Type} {read : Json → Option α} {j : Json} {js : List Json} {a : α}
    {as : List α} (hj : read j = some a) (hjs : list? read (.array js) = some as) :
    list? read (.array (j :: js)) = some (a :: as) := by
  rw [list?] at hjs
  rw [list?, List.mapM_cons, hj, hjs]
  rfl

end Json

/-! ### Names -/

@[simp] theorem SequenceKind.ofJson?_toJson (k : SequenceKind) : ofJson? k.toJson = some k := by
  cases k <;> rfl

@[simp] theorem MemberKind.ofJson?_toJson (k : MemberKind) : ofJson? k.toJson = some k := by
  cases k <;> rfl

@[simp] theorem UnaryOp.ofJson?_toJson (op : UnaryOp) : ofJson? op.toJson = some op := by
  cases op <;> rfl

@[simp] theorem BinaryOp.ofJson?_toJson (op : BinaryOp) : ofJson? op.toJson = some op := by
  cases op <;> rfl

@[simp] theorem Direction.ofJson?_toJson (d : Direction) : ofJson? d.toJson = some d := by
  cases d <;> rfl

/-! ### Types, classes and members -/

mutual

/-- A type is read back with fuel for its depth. -/
theorem Ty.readUpTo_toJson : (t : Ty) → (fuel : Nat) → t.toJson.depth ≤ fuel →
    Ty.readUpTo fuel t.toJson = some t
  | .primitive p, fuel, h => by
    obtain ⟨n, rfl⟩ := Json.exists_fuel h
    cases p <;> rfl
  | .sequence kind element, fuel, h => by
    obtain ⟨n, rfl⟩ := Json.exists_fuel h
    simp only [Ty.toJson, Json.tag, Json.depth, Json.depthFields] at h
    have helement := Ty.readUpTo_toJson element n (by omega)
    rw [Ty.toJson, Ty.readUpTo, Json.tagged?_tag]
    simp [helement]
  | .grouping key element, fuel, h => by
    obtain ⟨n, rfl⟩ := Json.exists_fuel h
    simp only [Ty.toJson, Json.tag, Json.depth, Json.depthFields] at h
    have hkey := Ty.readUpTo_toJson key n (by omega)
    have helement := Ty.readUpTo_toJson element n (by omega)
    rw [Ty.toJson, Ty.readUpTo, Json.tagged?_tag]
    simp [hkey, helement]
  | .function parameters result, fuel, h => by
    obtain ⟨n, rfl⟩ := Json.exists_fuel h
    simp only [Ty.toJson, Json.tag, Json.depth, Json.depthFields] at h
    have hparameters := Ty.list?_toJson parameters n (by omega)
    have hresult := Ty.readUpTo_toJson result n (by omega)
    rw [Ty.toJson, Ty.readUpTo, Json.tagged?_tag]
    simp [hparameters, hresult]
  | .classType c, fuel, h => by
    obtain ⟨n, rfl⟩ := Json.exists_fuel h
    simp only [Ty.toJson, Json.tag, Json.depth, Json.depthFields] at h
    have hc := ClassType.readUpTo_toJson c n (by omega)
    rw [Ty.toJson, Ty.readUpTo, Json.tagged?_tag]
    simp [hc]

theorem ClassType.readUpTo_toJson : (c : ClassType) → (fuel : Nat) → c.toJson.depth ≤ fuel →
    ClassType.readUpTo fuel c.toJson = some c
  | ⟨name, typeArguments, members, interfaces⟩, fuel, h => by
    obtain ⟨n, rfl⟩ := Json.exists_fuel h
    simp only [ClassType.toJson, Json.depth, Json.depthFields] at h
    have harguments := Ty.list?_toJson typeArguments n (by omega)
    have hmembers := Member.list?_toJson members n (by omega)
    have hinterfaces := Ty.list?_toJson interfaces n (by omega)
    rw [ClassType.toJson, ClassType.readUpTo]
    simp [harguments, hmembers, hinterfaces]

theorem Member.readUpTo_toJson : (m : Member) → (fuel : Nat) → m.toJson.depth ≤ fuel →
    Member.readUpTo fuel m.toJson = some m
  | ⟨declaringType, name, type, kind⟩, fuel, h => by
    obtain ⟨n, rfl⟩ := Json.exists_fuel h
    simp only [Member.toJson, Json.depth, Json.depthFields] at h
    have htype := Ty.readUpTo_toJson type n (by omega)
    rw [Member.toJson, Member.readUpTo]
    simp [htype]

theorem Ty.list?_toJson : (ts : List Ty) → (fuel : Nat) →
    Json.depthList (Ty.toJsonList ts) ≤ fuel →
    Json.list? (Ty.readUpTo fuel) (.array (Ty.toJsonList ts)) = some ts
  | [], _, _ => rfl
  | t :: ts, fuel, h => by
    simp only [Ty.toJsonList, Json.depthList] at h
    exact Json.list?_cons (Ty.readUpTo_toJson t fuel (by omega))
      (Ty.list?_toJson ts fuel (by omega))

theorem Member.list?_toJson : (ms : List Member) → (fuel : Nat) →
    Json.depthList (Member.toJsonList ms) ≤ fuel →
    Json.list? (Member.readUpTo fuel) (.array (Member.toJsonList ms)) = some ms
  | [], _, _ => rfl
  | m :: ms, fuel, h => by
    simp only [Member.toJsonList, Json.depthList] at h
    exact Json.list?_cons (Member.readUpTo_toJson m fuel (by omega))
      (Member.list?_toJson ms fuel (by omega))

end

@[simp] theorem Ty.ofJson?_toJson (t : Ty) : Ty.ofJson? t.toJson = some t :=
  Ty.readUpTo_toJson t _ (Nat.le_refl _)

@[simp] theorem Member.ofJson?_toJson (m : Member) : Member.ofJson? m.toJson = some m :=
  Member.readUpTo_toJson m _ (Nat.le_refl _)

theorem Ty.toJsonList_eq_map (ts : List Ty) : Ty.toJsonList ts = ts.map Ty.toJson := by
  induction ts with
  | nil => rfl
  | cons t ts ih => rw [Ty.toJsonList, ih, List.map_cons]

theorem Member.toJsonList_eq_map (ms : List Member) :
    Member.toJsonList ms = ms.map Member.toJson := by
  induction ms with
  | nil => rfl
  | cons m ms ih => rw [Member.toJsonList, ih, List.map_cons]

@[simp] theorem Ty.list?_ofJson? (ts : List Ty) :
    Json.list? Ty.ofJson? (.array (Ty.toJsonList ts)) = some ts := by
  rw [Ty.toJsonList_eq_map]
  exact Json.list?_array_map fun t _ => t.ofJson?_toJson

@[simp] theorem Member.list?_ofJson? (ms : List Member) :
    Json.list? Member.ofJson? (.array (Member.toJsonList ms)) = some ms := by
  rw [Member.toJsonList_eq_map]
  exact Json.list?_array_map fun m _ => m.ofJson?_toJson

/-! ### Constructors and methods -/

@[simp] theorem Constructor.ofJson?_toJson (c : Constructor) :
    Constructor.ofJson? c.toJson = some c := by
  simp [Constructor.toJson, Constructor.ofJson?]

@[simp] theorem Method.ofJson?_toJson (m : Method) : Method.ofJson? m.toJson = some m := by
  simp [Method.toJson, Method.ofJson?]

end Comprehension
