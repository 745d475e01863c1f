import Comprehension.Json.Number

/-! # Writing JSON text

Values are written without blanks. In texts, quotes, backslashes and control characters are escaped
and nothing else. -/
namespace Comprehension.Json

def hexDigit (n : Nat) : Char := (Nat.digitChar n)

/-- A character of a text. -/
def escape (c : Char) : List Char :=
  match c with
  | '"' => ['\\', '"']
  | '\\' => ['\\', '\\']
  | '\n' => ['\\', 'n']
  | '\r' => ['\\', 'r']
  | '\t' => ['\\', 't']
  | '\x08' => ['\\', 'b']
  | '\x0c' => ['\\', 'f']
  | c =>
    if c.toNat < 0x20 then ['\\', 'u', '0', '0', hexDigit (c.toNat / 16), hexDigit (c.toNat % 16)]
    else [c]

def quotedText (s : String) : String := "\"" ++ String.ofList (s.toList.flatMap escape) ++ "\""

mutual

/-- The text of a value. What cannot be written as such becomes `null`. -/
def render : Json → String
  | .null => "null"
  | .bool true => "true"
  | .bool false => "false"
  | .integer n => toString n
  | .real x => if x.isFinite then x.jsonText else "null"
  | .text s => quotedText s
  | .array items => "[" ++ renderList items ++ "]"
  | .object fields => "\x7b" ++ renderFields fields ++ "\x7d"
  | .unusable => "null"

def renderList : List Json → String
  | [] => ""
  | [j] => render j
  | j :: js => render j ++ "," ++ renderList js

def renderFields : List (String × Json) → String
  | [] => ""
  | [(k, j)] => quotedText k ++ ":" ++ render j
  | (k, j) :: rest => quotedText k ++ ":" ++ render j ++ "," ++ renderFields rest

end

end Comprehension.Json
