import Comprehension.Binary64.Text
import Comprehension.Ty.Text

/-! # Constant values

The values that a constant expression can hold: nothing, scalars, sequences given item by item, and
named sources whose items are elsewhere. -/
namespace Comprehension

inductive Value where
  | null
  | boolean (b : Bool)
  | char (c : Char)
  | int32 (n : Int32)
  | int64 (n : Int64)
  | double (x : Binary64)
  | string (s : String)
  | sequence (items : List Value)
  | source (name : String)

namespace Value

/-- Whether the value stands for a collection of items. -/
def isCollection : Value → Bool
  | .sequence _ => true
  | .source _ => true
  | _ => false

mutual

/-- Whether two values are equal; doubles are compared as numbers. -/
def equal : Value → Value → Bool
  | .null, .null => true
  | .boolean b, .boolean c => b == c
  | .char c, .char d => c == d
  | .int32 n, .int32 m => n == m
  | .int64 n, .int64 m => n == m
  | .double x, .double y => x.equal y
  | .string s, .string t => s == t
  | .sequence vs, .sequence ws => equalList vs ws
  | .source s, .source t => s == t
  | _, _ => false
termination_by structural v => v

/-- `equal`, position by position. -/
def equalList : List Value → List Value → Bool
  | [], [] => true
  | v :: vs, w :: ws => equal v w && equalList vs ws
  | _, _ => false
termination_by structural vs => vs

end

instance : BEq Value := ⟨equal⟩

mutual

/-- The written form. Strings are quoted but not escaped, and the items of a sequence stand in
braces. -/
def text : Value → String
  | .null => "null"
  | .boolean true => "True"
  | .boolean false => "False"
  | .char c => String.singleton c
  | .int32 n => toString n.toInt
  | .int64 n => toString n.toInt
  | .double x => x.text
  | .string s => "\"" ++ s ++ "\""
  | .sequence vs => "\x7b" ++ commaSeparated (texts vs) ++ "\x7d"
  | .source name => name

/-- The written forms of several values. -/
def texts : List Value → List String
  | [] => []
  | v :: vs => text v :: texts vs

end

end Value

end Comprehension
