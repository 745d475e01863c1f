import Comprehension.Json.Reader
import Comprehension.Json.Record
import Comprehension.Settings

/-! # Settings in JSON

What is not given keeps its default, in an object as well as at the end of an array. -/
namespace Comprehension

namespace Settings

def toJson (s : Settings) : Json :=
  .object [("max_chain_depth", .integer s.maxChainDepth),
    ("generated_identifier_prefix", .text s.identifierStem)]

/-- Settings from the depth and the stem, as far as they are given. -/
def ofParts? (depth stem : Option Json) : Option Settings := do
  let depth ← match depth with
    | some j => j.nat? (Nat.pow 2 64)
    | none => some default.maxChainDepth
  let stem ← match stem with
    | some j => j.text?
    | none => some default.identifierStem
  return ⟨depth, stem⟩

/-- The value of a field that is given at most once; none at all is no failure. -/
def givenOnce? (name : String) (fields : List (String × Json)) : Option (Option Json) :=
  match fields.filter fun entry => entry.1 == name with
  | [] => some none
  | [(_, j)] => some (some j)
  | _ => none

def ofJson? : Json → Option Settings
  | .array [] => ofParts? none none
  | .array [depth] => ofParts? (some depth) none
  | .array [depth, stem] => ofParts? (some depth) (some stem)
  | .object fields => do
    ofParts? (← givenOnce? "max_chain_depth" fields)
      (← givenOnce? "generated_identifier_prefix" fields)
  | _ => none

/-- Settings from JSON text. -/
def ofText? (s : String) : Option Settings := do
  ofJson? (← Json.ofText? Json.nestingLimit s)

end Settings

end Comprehension
