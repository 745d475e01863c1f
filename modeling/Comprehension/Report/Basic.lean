import Comprehension.Expr.Subterms
import Comprehension.Model.Execution
import Comprehension.Model.Grouping
import Comprehension.Model.References
import Comprehension.Report.Abridged
import Comprehension.Tagged.Error
import Comprehension.Tagged.Expr
import Comprehension.Tagged.Shape

/-! # Reports on expressions and models

A report says in JSON what there is to know about something: its written form, its type, its whole
structure in abridged form, and for a model also what can be derived from it. Where a derivation
fails, the report of its error takes the place of its value. -/
namespace Comprehension

/-- The form of a report on an error. -/
def errorReport (kind message : String) (detail : Json) : Json :=
  .object [("error", .text kind), ("message", .text message), ("detail", detail)]

def ModelError.report (e : ModelError) : Json := errorReport e.kind e.message e.toJson

def ParseError.report (e : ParseError) : Json := errorReport e.kind e.message e.toJson

/-- A report on a value or on the error in its place. -/
def reportOn {ε α : Type} (onError : ε → Json) (onValue : α → Json) : Except ε α → Json
  | .ok a => onValue a
  | .error e => onError e

/-- Several texts. -/
def textsToJson (texts : List String) : Json := .array (texts.map .text)

/-- The abridged structure, if it is wanted. -/
def structureField (wanted : Bool) (j : Json) : List (String × Json) :=
  if wanted then [("tree", j.abridged)] else []

/-- The fields of a report on an expression. -/
def Expr.reportFields (e : Expr) (wanted : Bool) : List (String × Json) :=
  [("text", .text e.text), ("type", .text e.type.text)] ++ structureField wanted e.toJson

def Expr.report (e : Expr) (wanted : Bool) : Json := .object (e.reportFields wanted)

/-- A report that also says what kind of node stands at the top and what is below it. -/
def Expr.detailedReport (e : Expr) (wanted : Bool) : Json :=
  .object (e.reportFields wanted ++ [("kind", .text e.kindName),
    ("lambda", Json.ofOption (fun (l : Lambda) => .text l.text) e.asLambda?),
    ("children", textsToJson (e.children.map Expr.text))])

def Lambda.report (l : Lambda) (wanted : Bool) : Json :=
  .object ([("text", .text l.text), ("type", .text l.type.text)] ++
    structureField wanted l.toJson)

def Shape.report (s : Shape) : Json :=
  .object [("text", .text s.text), ("output_type", .text s.type.text), ("tree", s.toJson.abridged)]

/-- A grouping, with its key and element as functions of the selected item. -/
def Grouping.report (g : Grouping) (item : Expr) : Json :=
  let text := reportOn ModelError.report fun (l : Lambda) => .text l.text
  .object [("type", .text g.type.text), ("key", text (g.keyOf item)),
    ("element", text (g.elementOf item))]

def Model.report (m : Model) (wanted : Bool) : Json :=
  let groupings := m.operators.filterMap ResultOperator.grouping?
  .object ([("text", .text m.text),
    ("sources", .array (m.sources.map fun s => s.toJson.abridged)),
    ("info", reportOn ModelError.report Shape.report m.shape),
    ("references", reportOn ModelError.report (fun _ => .text "ok") m.checkReferences),
    ("groups", .array (groupings.map fun g => g.report m.selector))] ++
    structureField wanted m.toJson)

def BodyClause.report (c : BodyClause) : Json :=
  .object [("text", .text c.text),
    ("source", Json.ofOption (fun (s : Source) => .text s.itemName) c.source?),
    ("reference", Json.ofOption (fun (s : Source) => .text (Expr.reference s).text) c.source?),
    ("expressions", textsToJson (c.expressions.map Expr.text))]

def Output.report : Output → Json
  | .value v => .tag "Value" v.toJson.abridged
  | .sequence vs => .tag "Sequence" (Json.ofList (fun v => v.toJson.abridged) vs)

/-- What applying an operator to something of the given shape means. -/
def ResultOperator.report (op : ResultOperator) (input : Shape) : Json :=
  .object [("name", .text op.name), ("text", .text op.text),
    ("expressions", textsToJson (op.expressions.map Expr.text)),
    ("info", reportOn ModelError.report Shape.report (op.shapeAfter input))]

end Comprehension
