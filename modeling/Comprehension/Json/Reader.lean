import Comprehension.Json.Number

/-! # Reading JSON text

Reading is strict: no trailing commas, no leading zeros, no raw control characters in texts, and
nothing but blanks after the value. The text is first cut into tokens and then read as a value.
Containers nested deeper than a given limit, and texts with half a surrogate pair, are read as
`Json.unusable`; an object with such a text as a key is unusable as a whole. -/
namespace Comprehension.Json

/-- Pieces of JSON text. A text with half a surrogate pair has no string. -/
inductive Token where
  | openBracket
  | closeBracket
  | openBrace
  | closeBrace
  | comma
  | colon
  | scalar (value : Json)
  | text (s : Option String)

/-! ### Tokens -/

def isBlank (c : Char) : Bool := c = ' ' || c = '\n' || c = '\t' || c = '\r'

/-- The value of a hexadecimal digit. -/
def hexDigit? (c : Char) : Option Nat :=
  if '0' ≤ c ∧ c ≤ '9' then some (c.toNat - '0'.toNat)
  else if 'a' ≤ c ∧ c ≤ 'f' then some (c.toNat - 'a'.toNat + 10)
  else if 'A' ≤ c ∧ c ≤ 'F' then some (c.toNat - 'A'.toNat + 10)
  else none

/-- The value of four hexadecimal digits. -/
def hexFour? (a b c d : Char) : Option Nat := do
  return ((← hexDigit? a) * 16 + (← hexDigit? b)) * 256 + (← hexDigit? c) * 16 + (← hexDigit? d)

def isHighSurrogate (n : Nat) : Bool := 0xD800 ≤ n && n < 0xDC00

def isLowSurrogate (n : Nat) : Bool := 0xDC00 ≤ n && n < 0xE000

/-- The character after a backslash, if it stands for one. -/
def escaped? : Char → Option Char
  | '"' => some '"'
  | '\\' => some '\\'
  | '/' => some '/'
  | 'b' => some '\x08'
  | 'f' => some '\x0c'
  | 'n' => some '\n'
  | 'r' => some '\r'
  | 't' => some '\t'
  | _ => none

/-- A text as far as it has been read: its characters in reverse, and the first half of a surrogate
pair if the second is still to come. -/
structure Partial where
  done : List Char
  pending : Option Nat

namespace Partial

/-- Adds a character, which must not stand where half a pair is expected. -/
def push (p : Partial) (c : Char) : Option Partial :=
  match p.pending with
  | none => some ⟨c :: p.done, none⟩
  | some _ => none

/-- Adds a sixteen-bit unit: a character, or half a pair. -/
def pushUnit (p : Partial) (unit : Nat) : Option Partial :=
  match p.pending with
  | none =>
    if isHighSurrogate unit then some ⟨p.done, some unit⟩
    else if isLowSurrogate unit then none
    else some ⟨Char.ofNat unit :: p.done, none⟩
  | some high =>
    if isLowSurrogate unit then
      let c := Char.ofNat (0x10000 + (high - 0xD800) * 0x400 + (unit - 0xDC00))
      some ⟨c :: p.done, none⟩
    else none

/-- The text, if no half of a pair is missing. -/
def toString? (p : Partial) : Option String :=
  match p.pending with
  | none => some (String.ofList p.done.reverse)
  | some _ => none

end Partial

/-- Reads a text up to its closing quote. Once half a surrogate pair is found alone there is no
string any more, but reading goes on to the end of the text. -/
def readText (read : Option Partial) : List Char → Option (Option String × List Char)
  | '"' :: rest => some (read.bind Partial.toString?, rest)
  | '\\' :: 'u' :: a :: b :: c :: d :: rest =>
    match hexFour? a b c d with
    | some unit => readText (read.bind fun p => p.pushUnit unit) rest
    | none => none
  | '\\' :: c :: rest =>
    match escaped? c with
    | some e => readText (read.bind fun p => p.push e) rest
    | none => none
  | c :: rest => if c.toNat < 0x20 then none else readText (read.bind fun p => p.push c) rest
  | [] => none

/-- Digits, at least one. -/
def readDigits (cs : List Char) : Option (List Char × List Char) :=
  match cs.takeWhile Char.isDigit with
  | [] => none
  | ds => some (ds, cs.dropWhile Char.isDigit)

/-- The digits before the point. Zero has no digit after it. -/
def readWhole : List Char → Option (List Char × List Char)
  | '0' :: rest => some (['0'], rest)
  | cs => readDigits cs

/-- A point with digits, if there is one. -/
def readFraction : List Char → Option (List Char × List Char)
  | '.' :: rest => readDigits rest
  | cs => some ([], cs)

/-- An exponent, if there is one. -/
def readExponent : List Char → Option (Option Int × List Char)
  | c :: rest =>
    if c = 'e' ∨ c = 'E' then
      let (negative, rest) : Bool × List Char :=
        match rest with
        | '-' :: more => (true, more)
        | '+' :: more => (false, more)
        | more => (false, more)
      match readDigits rest with
      | some (ds, rest) =>
        let n : Int := digitsValue 0 ds
        some (some (if negative then -n else n), rest)
      | none => none
    else some (none, c :: rest)
  | [] => some (none, [])

/-- Reads a number. -/
def readNumber (cs : List Char) : Option (Json × List Char) := do
  let (negative, cs) : Bool × List Char :=
    match cs with
    | '-' :: rest => (true, rest)
    | cs => (false, cs)
  let (whole, cs) ← readWhole cs
  let (fraction, cs) ← readFraction cs
  let (exponent, cs) ← readExponent cs
  return (ofNumeral negative whole fraction exponent, cs)

/-- Reads one token. -/
def readToken : List Char → Option (Token × List Char)
  | '[' :: rest => some (.openBracket, rest)
  | ']' :: rest => some (.closeBracket, rest)
  | '\x7b' :: rest => some (.openBrace, rest)
  | '\x7d' :: rest => some (.closeBrace, rest)
  | ',' :: rest => some (.comma, rest)
  | ':' :: rest => some (.colon, rest)
  | 'n' :: 'u' :: 'l' :: 'l' :: rest => some (.scalar .null, rest)
  | 't' :: 'r' :: 'u' :: 'e' :: rest => some (.scalar (.bool true), rest)
  | 'f' :: 'a' :: 'l' :: 's' :: 'e' :: rest => some (.scalar (.bool false), rest)
  | '"' :: rest => (readText (some ⟨[], none⟩) rest).map fun (s, rest) => (.text s, rest)
  | cs => (readNumber cs).map fun (j, rest) => (.scalar j, rest)

/-- Cuts a text into tokens. Each token has a character, so the length of the text is fuel
enough. -/
def tokensUpTo : (fuel : Nat) → List Char → Option (List Token)
  | _, [] => some []
  | 0, _ :: _ => none
  | fuel + 1, c :: cs =>
    if isBlank c then tokensUpTo fuel cs
    else do
      let (token, rest) ← readToken (c :: cs)
      return token :: (← tokensUpTo fuel rest)

/-! ### Values -/

/-- A container that is not nested too deep, and whose keys are all usable. -/
def container (room : Nat) (usable : Bool) (j : Json) : Json :=
  if room = 0 ∨ usable = false then .unusable else j

mutual

/-- Reads a value. `room` says how many containers may still be nested here. -/
def readValue (room : Nat) : (fuel : Nat) → List Token → Option (Json × List Token)
  | 0, _ => none
  | _ + 1, .scalar j :: rest => some (j, rest)
  | _ + 1, .text (some s) :: rest => some (.text s, rest)
  | _ + 1, .text none :: rest => some (.unusable, rest)
  | _ + 1, .openBracket :: .closeBracket :: rest => some (container room true (.array []), rest)
  | _ + 1, .openBrace :: .closeBrace :: rest => some (container room true (.object []), rest)
  | fuel + 1, .openBracket :: rest => do
    let (items, rest) ← readItems (room - 1) fuel rest
    return (container room true (.array items), rest)
  | fuel + 1, .openBrace :: rest => do
    let (fields, usable, rest) ← readFields (room - 1) fuel rest
    return (container room usable (.object fields), rest)
  | _ + 1, _ => none

/-- Reads items up to the closing bracket, at least one. -/
def readItems (room : Nat) : (fuel : Nat) → List Token → Option (List Json × List Token)
  | 0, _ => none
  | fuel + 1, tokens => do
    match ← readValue room fuel tokens with
    | (j, .comma :: rest) => do
      let (js, rest) ← readItems room fuel rest
      return (j :: js, rest)
    | (j, .closeBracket :: rest) => return ([j], rest)
    | _ => none

/-- Reads fields up to the closing brace, at least one, and whether all keys are usable. -/
def readFields (room : Nat) : (fuel : Nat) → List Token →
    Option (List (String × Json) × Bool × List Token)
  | 0, _ => none
  | fuel + 1, .text key :: .colon :: tokens => do
    match ← readValue room fuel tokens with
    | (j, .comma :: rest) => do
      let (fields, usable, rest) ← readFields room fuel rest
      return ((key.getD "", j) :: fields, usable && key.isSome, rest)
    | (j, .closeBrace :: rest) => return ([(key.getD "", j)], key.isSome, rest)
    | _ => none
  | _ + 1, _ => none

end

/-- The value of a JSON text in which at most `limit` containers are nested. -/
def ofText? (limit : Nat) (s : String) : Option Json := do
  let cs := s.toList
  let tokens ← tokensUpTo cs.length cs
  match ← readValue limit (2 * tokens.length + 1) tokens with
  | (j, []) => some j
  | _ => none

/-- How deep containers may be nested in a text that is read on its own. -/
def nestingLimit : Nat := 127

end Comprehension.Json
