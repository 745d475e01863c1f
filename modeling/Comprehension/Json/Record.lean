import Comprehension.Json.Basic

/-! # Records and tagged values

How structured data look in JSON. A choice between alternatives is an object with one field: the
name of the alternative and its content; an alternative without content can be its bare name. A
record is an object with its fields, in any order and among others, or an array of exactly its
fields in order. In an object, a field that may be absent counts as `null` when it is. -/
namespace Comprehension.Json

/-- A choice with its content. -/
def tag (name : String) (content : Json) : Json := .object [(name, content)]

/-- The name of the alternative and its content; a bare name has no content. -/
def tagged? : Json → Option (String × Json)
  | .text name => some (name, .null)
  | .object [(name, content)] => some (name, content)
  | _ => none

/-- The alternative without content that a value names. -/
def bare? {α : Type} (ofName? : String → Option α) (j : Json) : Option α :=
  match j.tagged? with
  | some (name, .null) => ofName? name
  | _ => none

/-- A field of a record, and whether it may be absent. -/
structure Field where
  name : String
  optional : Bool

/-- A field that must be there. -/
def required (name : String) : Field := ⟨name, false⟩

/-- A field that may be absent. -/
def optional (name : String) : Field := ⟨name, true⟩

/-- The value of a field, which must not be given twice. -/
def Field.value? (field : Field) (fields : List (String × Json)) : Option Json :=
  match fields.filter fun entry => entry.1 == field.name with
  | [] => if field.optional then some .null else none
  | [(_, j)] => some j
  | _ => none

/-- The values of the fields of a record, in order. -/
def record? (fields : List Field) : Json → Option (List Json)
  | .array items => if items.length = fields.length then some items else none
  | .object entries => fields.mapM fun field => field.value? entries
  | _ => none

def bool? : Json → Option Bool
  | .bool b => some b
  | _ => none

def text? : Json → Option String
  | .text s => some s
  | _ => none

/-- A natural number below a bound. -/
def nat? (bound : Nat) : Json → Option Nat
  | .integer n => if 0 ≤ n ∧ n < bound then some n.toNat else none
  | _ => none

/-- A list, each item read by `read`. -/
def list? {α : Type} (read : Json → Option α) : Json → Option (List α)
  | .array items => items.mapM read
  | _ => none

/-- A list is read back when each of its items is. -/
theorem list?_array_map {α : Type} {read : Json → Option α} {write : α → Json} {items : List α}
    (h : ∀ a ∈ items, read (write a) = some a) :
    list? read (.array (items.map write)) = some items := by
  unfold list?
  induction items with
  | nil => rfl
  | cons a rest ih =>
    have hrest := ih fun b hb => h b (List.mem_cons_of_mem a hb)
    simp only [List.map_cons, List.mapM_cons, h a List.mem_cons_self, hrest]
    rfl

/-- A value that may be `null`. -/
def nullable? {α : Type} (read : Json → Option α) : Json → Option (Option α)
  | .null => some none
  | j => (read j).map some

/-- A list of values. -/
def ofList {α : Type} (write : α → Json) (items : List α) : Json := .array (items.map write)

/-- A value, or `null`. -/
def ofOption {α : Type} (write : α → Json) : Option α → Json
  | some a => write a
  | none => .null

end Comprehension.Json
