import Comprehension.Binary64.Nearest

/-! # JSON values

A JSON value as read from text or about to be written. Objects keep their fields in order, repeated
ones included. Whole numbers are kept apart from all other numbers.

`unusable` stands for a value that is well formed as text but cannot be used: it is nested too
deep, it is a text with half a surrogate pair, or a number out of range. Such a value does no harm
where nobody looks at it. -/
namespace Comprehension

inductive Json where
  | null
  | bool (b : Bool)
  | integer (n : Int)
  | real (x : Binary64)
  | text (s : String)
  | array (items : List Json)
  | object (fields : List (String × Json))
  | unusable

namespace Json

mutual

/-- One more than the number of containers around the innermost value. -/
def depth : Json → Nat
  | .array items => depthList items + 1
  | .object fields => depthFields fields + 1
  | _ => 1

/-- The greatest depth in a list. -/
def depthList : List Json → Nat
  | [] => 1
  | j :: js => max j.depth (depthList js)

/-- The greatest depth among fields. -/
def depthFields : List (String × Json) → Nat
  | [] => 1
  | (_, j) :: rest => max j.depth (depthFields rest)

end

end Json

end Comprehension
