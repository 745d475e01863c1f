import Comprehension.Chain.Clause
import Comprehension.Report.Basic
import Comprehension.Tagged.Chain

/-! # Reports on chains -/
namespace Comprehension

def Node.report (chain : Chain) (n : Node) : Json :=
  let lineage := chain.lineage n
  .object [("id", .integer n.id), ("node_type", .text n.typeName),
    ("identifier", .text n.identifier), ("is_query_source", .bool n.kind.isSource),
    ("source", reportOn ParseError.report (fun (s : Node) => .integer s.id) lineage.before.head),
    ("output", reportOn ParseError.report
      (fun (p : Parameter) => textsToJson [p.name, p.type.text]) lineage.parameter),
    ("position", .integer (chain.positionOf n.id)),
    ("lambdas", textsToJson (n.kind.lambdas.map Lambda.text))]

def Chain.report (c : Chain) (wanted : Bool) : Json :=
  .object ([("nodes", Json.ofList (Node.report c) c.nodes)] ++ structureField wanted c.toJson)

/-- A clause; for the main from clause also the reference to its source. -/
def Clause.report (c : Clause) : Json :=
  let reference := match c with
    | .mainFrom f => [("reference", f.reference.toJson.abridged)]
    | _ => []
  .object ([("kind", .text c.kindName), ("text", .text c.text)] ++ reference)

end Comprehension
