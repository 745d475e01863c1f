import Comprehension.Json.Record
import Comprehension.Source
import Comprehension.Tagged.Ty
import Comprehension.Value

/-! # Constant values and sources in JSON

A double that is not a number or infinite has no JSON form: it is written as `null` and cannot be
read back. -/
namespace Comprehension
open Json (required)

namespace Value

mutual

def toJson : Value → Json
  | .null => .text "Null"
  | .boolean b => .tag "Boolean" (.bool b)
  | .char c => .tag "Char" (.text (String.singleton c))
  | .int32 n => .tag "Int32" (.integer n.toInt)
  | .int64 n => .tag "Int64" (.integer n.toInt)
  | .double x => .tag "Double" (if x.isFinite then .real x else .null)
  | .string s => .tag "String" (.text s)
  | .sequence items => .tag "Sequence" (.array (toJsonList items))
  | .source name => .tag "Source" (.text name)

def toJsonList : List Value → List Json
  | [] => []
  | v :: vs => v.toJson :: toJsonList vs

end

/-- A whole number of the given width in bits, sign included. -/
def signed? (width : Nat) : Json → Option Int
  | .integer n => if -Int.pow 2 (width - 1) ≤ n ∧ n < Int.pow 2 (width - 1) then some n else none
  | _ => none

/-- A double. Whole numbers are rounded to the nearest one. -/
def double? : Json → Option Binary64
  | .integer n => some (Binary64.ofInt n)
  | .real x => some x
  | _ => none

/-- A text of one character. -/
def char? : Json → Option Char
  | .text s =>
    match s.toList with
    | [c] => some c
    | _ => none
  | _ => none

def readUpTo : (fuel : Nat) → Json → Option Value
  | 0, _ => none
  | fuel + 1, j =>
    match j.tagged? with
    | some ("Null", .null) => some .null
    | some ("Boolean", content) => content.bool?.map .boolean
    | some ("Char", content) => (char? content).map .char
    | some ("Int32", content) => (signed? 32 content).map fun n => .int32 (Int32.ofInt n)
    | some ("Int64", content) => (signed? 64 content).map fun n => .int64 (Int64.ofInt n)
    | some ("Double", content) => (double? content).map .double
    | some ("String", content) => content.text?.map .string
    | some ("Sequence", content) => (content.list? (readUpTo fuel)).map .sequence
    | some ("Source", content) => content.text?.map .source
    | _ => none

def ofJson? (j : Json) : Option Value := readUpTo j.depth j

end Value

namespace Source

def toJson (s : Source) : Json :=
  .object [("id", .integer s.id), ("item_name", .text s.itemName),
    ("item_type", s.itemType.toJson)]

/-- Reads a source, whose identity is a number of 64 bits. -/
def ofJson? (j : Json) : Option Source :=
  match j.record? [required "id", required "item_name", required "item_type"] with
  | some [id, itemName, itemType] => do
    return ⟨← id.nat? (Nat.pow 2 64), ← itemName.text?, ← Ty.ofJson? itemType⟩
  | _ => none

end Source

end Comprehension
