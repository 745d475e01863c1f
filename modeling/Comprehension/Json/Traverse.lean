import Comprehension.Json.Basic

/-! # Objects inside a value

Replacing and collecting the objects of a value, wherever they stand. -/
namespace Comprehension.Json

mutual

/-- Replaces every object for which `f` has something else. What is put in is not searched again. -/
def replaceObjects (f : List (String × Json) → Option Json) : Json → Json
  | .object fields =>
    match f fields with
    | some j => j
    | none => .object (replaceInFields f fields)
  | .array items => .array (replaceInList f items)
  | .null => .null
  | .bool b => .bool b
  | .integer n => .integer n
  | .real x => .real x
  | .text s => .text s
  | .unusable => .unusable

def replaceInList (f : List (String × Json) → Option Json) : List Json → List Json
  | [] => []
  | j :: js => replaceObjects f j :: replaceInList f js

def replaceInFields (f : List (String × Json) → Option Json) :
    List (String × Json) → List (String × Json)
  | [] => []
  | (name, j) :: rest => (name, replaceObjects f j) :: replaceInFields f rest

end

mutual

/-- What `f` finds in the objects of a value, from the outside in. -/
def collectObjects {α : Type} (f : List (String × Json) → Option α) : Json → List α
  | .object fields => (f fields).toList ++ collectInFields f fields
  | .array items => collectInList f items
  | _ => []

def collectInList {α : Type} (f : List (String × Json) → Option α) : List Json → List α
  | [] => []
  | j :: js => collectObjects f j ++ collectInList f js

def collectInFields {α : Type} (f : List (String × Json) → Option α) :
    List (String × Json) → List α
  | [] => []
  | (_, j) :: rest => collectObjects f j ++ collectInFields f rest

end

/-- The value of a field. -/
def field? (j : Json) (name : String) : Option Json :=
  match j with
  | .object fields => fields.lookup name
  | _ => none

end Comprehension.Json
