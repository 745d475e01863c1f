import Comprehension.Ty.Basic

/-! # Query sources

A query source is something whose items flow through a query: it has an identity, a name for its
items and their type. Two sources are the same when their identities are, whatever they are called.

Identities come from a counter that only grows. It is a natural number, where a counter of 64 bits
begins again behind its last identity. What is said about identities rests on room for them below
`2 ^ 64`: reading one query takes no more of them than its chain of calls may be long. -/
namespace Comprehension

/-- A query source. -/
structure Source where
  id : Nat
  itemName : String
  itemType : Ty
deriving DecidableEq

namespace Source

/-- Whether two sources have the same identity. -/
def same (s t : Source) : Bool := s.id == t.id

/-- A source with a fresh identity, and the counter after it, which never begins again. -/
def fresh (next : Nat) (itemName : String) (itemType : Ty) : Source × Nat :=
  (⟨next, itemName, itemType⟩, next + 1)

/-- So many fresh identities, in the order in which they are given out. -/
def freshIds (next count : Nat) : List Nat := List.range' next count

end Source

end Comprehension
