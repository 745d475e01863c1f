import Comprehension.Chain.Operator
import Comprehension.Settings

/-! # Reading a call tree as a chain

The outermost call is looked at first, but its source is read before its own node is appended, so
that the chain begins with the source. The identifier of a node is the first parameter of the first
lambda that the call consuming it brings along; a node without such a consumer gets a generated
identifier. -/
namespace Comprehension

/-- Reads call trees, with the operators and the settings it knows. -/
structure Reader where
  registry : Registry
  settings : Settings

/-- A chain read so far, the identity of its last node, and how many identifiers were generated. -/
structure Reading where
  chain : Chain
  last : Nat
  generated : Nat

/-- The name for the items that flow into a call: the first parameter of its first lambda that has
one. -/
def sourceIdentifier? (arguments : List Expr) : Option String :=
  (arguments.filterMap Expr.asLambda?).findSome? fun l => l.parameters.head?.map Parameter.name

namespace Reader

/-- The usual operators with the given settings. -/
def ofSettings (settings : Settings) : Reader := ⟨.default, settings⟩

def default : Reader := ofSettings .default

/-- Appends a node to what was read, with a generated identifier unless one is given. -/
def append (reader : Reader) (chain : Chain) (source : Option Nat) (identifier : Option String)
    (generated : Nat) (kind : NodeKind) : Reading :=
  match identifier with
  | some name =>
    let (id, chain) := chain.push source name kind
    ⟨chain, id, generated⟩
  | none =>
    let (id, chain) := chain.push source (reader.settings.generatedIdentifier generated) kind
    ⟨chain, id, generated + 1⟩

/-- Reads the call at a position, counted from the outermost call, with the identifier that its
consumer has for it. The call itself is recognized before its source is read. -/
def readFrom (reader : Reader) : Expr → (position : Nat) → (identifier : Option String) →
    Except ParseError Reading
  | e, position, identifier =>
    if reader.settings.maxChainDepth ≤ position then
      .error (.recursionLimitExceeded (position + 1) reader.settings.maxChainDepth)
    else
      match e with
      | .staticCall method arguments =>
        match reader.registry.recognizer? method with
        | none =>
          .error (.unsupportedExpression (Expr.staticCall method arguments).text position
            (.notAnOperator method.key.text))
        | some recognize =>
          match arguments with
          | [] =>
            .error (.unsupportedExpression (Expr.staticCall method []).text position .noSource)
          | source :: rest => do
            let kind ← recognize ⟨.staticCall method (source :: rest), method, rest, position⟩
            let read ← reader.readFrom source (position + 1) (sourceIdentifier? rest)
            return reader.append read.chain (some read.last) identifier read.generated kind
      | .constant value type => do
        let source ← ConstantSource.ofValue value type
        return reader.append .empty none identifier 0 (.constant source)
      | .subQuery model type => do
        let source ← SubQuerySource.ofModel model type
        return reader.append .empty none identifier 0 (.subQuery source)
      | e => .error (.unsupportedExpression e.text position (.notAQuery e.kindName))
termination_by structural e => e

/-- Reads a call tree as a chain. -/
def read (reader : Reader) (e : Expr) : Except ParseError Chain :=
  (reader.readFrom e 0 none).map Reading.chain

end Reader

end Comprehension
