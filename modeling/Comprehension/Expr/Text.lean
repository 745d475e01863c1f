import Comprehension.Expr.Basic

/-! # The written form of expressions and query models

Expressions are written close to the code they come from:

```text
new AnonymousType(a = [c], b = 1)
new AnonymousType() {a = 3, b = 1}
input => input.b.a
value(Cooks).Where(c => ([c].Age > 18))
```

A reference to a query source stands in brackets, a collection constant is `value(…)`, a query
inside an expression stands in braces, and quotes are not shown. -/
namespace Comprehension

/-- One parameter stands alone, any other number of them in parentheses. -/
def Parameter.listText : List Parameter → String
  | [p] => p.name
  | ps => "(" ++ commaSeparated (ps.map Parameter.name) ++ ")"

def Direction.text : Direction → String
  | .ascending => "asc"
  | .descending => "desc"

def Aggregate.name : Aggregate → String
  | .count => "Count"
  | .longCount => "LongCount"
  | .any => "Any"
  | .sum => "Sum"
  | .min => "Min"
  | .max => "Max"
  | .average => "Average"

def Pick.name : Pick → String
  | .first => "First"
  | .single => "Single"
  | .last => "Last"

/-- The name of the operator in query code. -/
def ResultOperator.name : ResultOperator → String
  | .aggregate a => a.name
  | .pick which false => which.name
  | .pick which true => which.name ++ "OrDefault"
  | .distinct => "Distinct"
  | .take _ => "Take"
  | .skip _ => "Skip"
  | .contains _ => "Contains"
  | .group .. => "GroupBy"

/-- How a constant is written: collections by their source name or their type. -/
def Value.constantText (type : Ty) : Value → String
  | .sequence _ => "value(" ++ type.text ++ ")"
  | .source name => "value(" ++ name ++ ")"
  | v => v.text

/-- Texts in braces. -/
def braced (text : String) : String := "\x7b" ++ text ++ "\x7d"

/-- Arguments, each behind the member it initialises if the members are known. Arguments without a
member are then left out. -/
def argumentTexts (members : Option (List Member)) (arguments : List String) : List String :=
  match members with
  | none => arguments
  | some ms => List.zipWith (fun m a => m.name ++ " = " ++ a) ms arguments

/-- `new T(…)`. -/
def constructionText (ctor : Constructor) (members : Option (List Member))
    (arguments : List String) : String :=
  "new " ++ ctor.declaringType.text ++ "(" ++ commaSeparated (argumentTexts members arguments) ++
    ")"

/-- A call without a target. An extension method is written behind its first argument. -/
def staticCallText (method : Method) (arguments : List String) : String :=
  match method.isExtension, arguments with
  | true, a :: as => a ++ "." ++ method.name ++ "(" ++ commaSeparated as ++ ")"
  | _, as => method.declaringType ++ "." ++ method.name ++ "(" ++ commaSeparated as ++ ")"

mutual

/-- The written form of an expression. -/
def Expr.text : Expr → String
  | .constant v t => v.constantText t
  | .parameter p => p.name
  | .staticMember m => m.declaringType ++ "." ++ m.name
  | .memberAccess e m => e.text ++ "." ++ m.name
  | .unary .convert e _ => "Convert(" ++ e.text ++ ")"
  | .unary .convertChecked e _ => "Convert(" ++ e.text ++ ")"
  | .unary .negate e _ => "-" ++ e.text
  | .unary .plus e _ => "+" ++ e.text
  | .unary .not e _ => "Not(" ++ e.text ++ ")"
  | .unary .quote e _ => e.text
  | .binary o l r _ => "(" ++ l.text ++ " " ++ o.symbol ++ " " ++ r.text ++ ")"
  | .staticCall m as => staticCallText m (Expr.texts as)
  | .methodCall e m as => e.text ++ "." ++ m.name ++ "(" ++ commaSeparated (Expr.texts as) ++ ")"
  | .new c as ms => constructionText c ms (Expr.texts as)
  | .memberInit c as ms bs =>
    constructionText c ms (Expr.texts as) ++ " " ++ braced (commaSeparated (Binding.texts bs))
  | .lambda ps b => Parameter.listText ps ++ " => " ++ b.text
  | .conditional c t f _ => "IIF(" ++ c.text ++ ", " ++ t.text ++ ", " ++ f.text ++ ")"
  | .reference s => "[" ++ s.itemName ++ "]"
  | .subQuery m _ => braced m.text

def Expr.texts : List Expr → List String
  | [] => []
  | e :: es => e.text :: Expr.texts es

/-- `member = value`, `member = {elements}` or `member = {bindings}`. -/
def Binding.text : Binding → String
  | .assignment m e => m.name ++ " = " ++ e.text
  | .list m is => m.name ++ " = " ++ braced (commaSeparated (ElementInit.texts is))
  | .nested m bs => m.name ++ " = " ++ braced (commaSeparated (Binding.texts bs))

def Binding.texts : List Binding → List String
  | [] => []
  | b :: bs => b.text :: Binding.texts bs

/-- The adding method and its arguments. -/
def ElementInit.text : ElementInit → String
  | ⟨m, as⟩ => m.text ++ "(" ++ commaSeparated (Expr.texts as) ++ ")"

def ElementInit.texts : List ElementInit → List String
  | [] => []
  | i :: is => i.text :: ElementInit.texts is

/-- `from T item in …`. -/
def FromClause.text : FromClause → String
  | ⟨s, e⟩ => "from " ++ s.itemType.text ++ " " ++ s.itemName ++ " in " ++ e.text

def SortKey.text : SortKey → String
  | ⟨e, d⟩ => e.text ++ " " ++ d.text

def SortKey.texts : List SortKey → List String
  | [] => []
  | o :: os => o.text :: SortKey.texts os

def BodyClause.text : BodyClause → String
  | .additionalFrom c => c.text
  | .filter p => "where " ++ p.text
  | .orderBy os => "orderby " ++ commaSeparated (SortKey.texts os)

def BodyClause.texts : List BodyClause → List String
  | [] => []
  | c :: cs => c.text :: BodyClause.texts cs

def ResultOperator.text : ResultOperator → String
  | .aggregate a => a.name ++ "()"
  | .pick which orDefault => (ResultOperator.pick which orDefault).name ++ "()"
  | .distinct => "Distinct()"
  | .take e => "Take(" ++ e.text ++ ")"
  | .skip e => "Skip(" ++ e.text ++ ")"
  | .contains e => "Contains(" ++ e.text ++ ")"
  | .group _ k e => "GroupBy(" ++ k.text ++ ", " ++ e.text ++ ")"

def ResultOperator.texts : List ResultOperator → List String
  | [] => []
  | o :: os => o.text :: ResultOperator.texts os

/-- The clauses in order, then the selector, then the operators behind arrows. -/
def Model.text : Model → String
  | ⟨f, b, s, os⟩ =>
    String.intercalate " => "
      (String.intercalate " " (f.text :: (BodyClause.texts b ++ ["select " ++ s.text])) ::
        ResultOperator.texts os)

end

/-- The select clause of a query with this selector. -/
def Expr.selectText (selector : Expr) : String := "select " ++ selector.text

def Lambda.text (l : Lambda) : String := Parameter.listText l.parameters ++ " => " ++ l.body.text

end Comprehension
