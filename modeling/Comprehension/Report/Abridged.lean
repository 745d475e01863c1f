import Comprehension.Json.Traverse
import Comprehension.Tagged.Value

/-! # Abridged JSON

In a report, JSON forms are shortened for the reader: a class stands as its written form instead of
its whole definition, a double as decimal text, and query sources are numbered from one in the order
of their identities. -/
namespace Comprehension

/-- A double, as decimal text. -/
def doubleAsText? : List (String × Json) → Option Json
  | [("Double", .real x)] => some (.tag "Double" (.text x.text))
  | _ => none

/-- A class, as its written form. -/
def classAsText? : List (String × Json) → Option Json
  | [("Class", definition)] =>
    (ClassType.ofJson? definition).map fun c => .tag "Class" (.text c.text)
  | _ => none

/-- Doubles as decimal text. -/
def Json.withDoublesAsText (j : Json) : Json := j.replaceObjects doubleAsText?

/-- Doubles and classes in their written forms. -/
def Json.abridged (j : Json) : Json :=
  j.replaceObjects fun fields => (doubleAsText? fields).or (classAsText? fields)

/-- A double that is given as decimal text. -/
def doubleFromText? : List (String × Json) → Option Json
  | [("Double", .text s)] => (Binary64.ofText? s).map fun x => .tag "Double" (.real x)
  | _ => none

/-- A value whose doubles are given as decimal text, infinities and NaN among them. -/
def Value.ofAbridged? (j : Json) : Option Value :=
  Value.ofJson? (j.replaceObjects doubleFromText?)

/-! ### Numbering sources -/

/-- The identity of the query source that an object stands for: it has these three fields and no
other. -/
def sourceId? (fields : List (String × Json)) : Option Int :=
  match fields.length, fields.lookup "id", fields.lookup "item_name", fields.lookup "item_type" with
  | 3, some (.integer id), some _, some _ => some id
  | _, _, _, _ => none

/-- The position of an identity among all of them, from one. -/
def rankOf (ids : List Int) (id : Int) : Nat := (ids.filter fun other => other ≤ id).length

/-- A query source with its rank for its identity. -/
def withRank? (ids : List Int) (fields : List (String × Json)) : Option Json :=
  (sourceId? fields).map fun id =>
    .object (fields.map fun (name, j) =>
      (name, if name = "id" then .integer (rankOf ids id) else j))

/-- Numbers the query sources of a value from one, in the order of their identities. -/
def Json.withRankedSources (j : Json) : Json :=
  let ids := (j.collectObjects sourceId?).eraseDups
  j.replaceObjects (withRank? ids)

end Comprehension
