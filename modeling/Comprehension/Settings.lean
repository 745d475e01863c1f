/-! # Settings for reading call trees -/
namespace Comprehension

/-- How deep a chain of calls may be, and how generated identifiers begin. -/
structure Settings where
  maxChainDepth : Nat
  identifierStem : String
deriving DecidableEq, Repr

namespace Settings

/-- A hundred calls, and identifiers `<generated>_0`, `<generated>_1`, … -/
def default : Settings := ⟨100, "<generated>"⟩

def withMaxChainDepth (s : Settings) (depth : Nat) : Settings := { s with maxChainDepth := depth }

/-- The generated identifier with the given number. -/
def generatedIdentifier (s : Settings) (n : Nat) : String := s.identifierStem ++ "_" ++ toString n

end Settings

end Comprehension
