import Comprehension.CallTree
import Comprehension.Proofs.Chain.Shape
import Mathlib.Data.List.Nodup

/-! # What is written has the type of what it gives

A call tree is written from a source by a sequence of operators, and an ending.  Each operator types
its call by the lambdas as they are written, before anything is resolved.  The model types the query
by its resolved selector and the operators behind it.  The two agree.

A stage of a script is read as one node, which holds the lambdas as they were written
(`CallTree.Stage.spec`).  The node takes the items of the tree so far and gives those of the new
tree, so the whole chain is exactly typed, and its last node tells the shape. -/
namespace Comprehension

/-! ### Scripts -/

namespace CallTree

/-- An operator that gives a sequence again, with what is written for it. -/
inductive Stage where
  | filter (name : String) (body : Expr)
  | select (name : String) (body : Expr)
  | selectMany (name : String) (body : Expr)
  | selectManyWith (name : String) (body : Expr) (outer inner : String) (result : Expr)
  | orderBy (name : String) (key : Expr)
  | orderByDescending (name : String) (key : Expr)
  | thenBy (name : String) (key : Expr)
  | thenByDescending (name : String) (key : Expr)
  | groupBy (name : String) (key : Expr)
  | groupByWithElement (name : String) (key element : Expr)
  | distinct
  | take (count : Int32)
  | skip (count : Int32)

def Stage.apply (tree : CallTree) : Stage → Except WritingError CallTree
  | .filter name body => tree.filter name body
  | .select name body => tree.select name body
  | .selectMany name body => tree.selectMany name body
  | .selectManyWith name body outer inner result => tree.selectManyWith name body outer inner result
  | .orderBy name key => tree.orderBy name key
  | .orderByDescending name key => tree.orderByDescending name key
  | .thenBy name key => tree.thenBy name key
  | .thenByDescending name key => tree.thenByDescending name key
  | .groupBy name key => tree.groupBy name key
  | .groupByWithElement name key element => tree.groupByWithElement name key element
  | .distinct => tree.distinct
  | .take count => tree.take count
  | .skip count => tree.skip count

/-- The bodies of the lambdas of a stage. -/
def Stage.bodies : Stage → List Expr
  | .filter _ body => [body]
  | .select _ body => [body]
  | .selectMany _ body => [body]
  | .selectManyWith _ body _ _ result => [body, result]
  | .orderBy _ key => [key]
  | .orderByDescending _ key => [key]
  | .thenBy _ key => [key]
  | .thenByDescending _ key => [key]
  | .groupBy _ key => [key]
  | .groupByWithElement _ key element => [key, element]
  | .distinct => []
  | .take _ => []
  | .skip _ => []

/-- How a tree is ended: as it is, or with an operator that gives something else than a sequence. -/
inductive Ending where
  | build
  | count
  | longCount
  | any
  | anyWhere (name : String) (body : Expr)
  | contains (item : Expr)
  | first
  | firstOrDefault
  | single
  | lastOrDefault
  | sum
  | max
  | average

def Ending.apply (tree : CallTree) : Ending → Except WritingError Expr
  | .build => .ok tree.expression
  | .count => tree.count
  | .longCount => tree.longCount
  | .any => tree.any
  | .anyWhere name body => tree.anyWhere name body
  | .contains item => tree.contains item
  | .first => tree.first
  | .firstOrDefault => tree.firstOrDefault
  | .single => tree.single
  | .lastOrDefault => tree.lastOrDefault
  | .sum => tree.sum
  | .max => tree.max
  | .average => tree.average

end CallTree

open CallTree

/-- What a query can start with. -/
inductive Start where
  | constant (value : Value) (type : Ty)
  | subQuery (model : Model) (type : Ty)

def Start.toExpr : Start → Expr
  | .constant value type => .constant value type
  | .subQuery model type => .subQuery model type

/-- All that is written for a call tree. -/
structure Script where
  flavor : Flavor
  start : Start
  stages : List Stage
  ending : Ending

def Script.write (script : Script) : Except WritingError Expr := do
  let tree ← CallTree.ofSource script.flavor script.start.toExpr
  let tree ← script.stages.foldlM (fun tree stage => stage.apply tree) tree
  script.ending.apply tree

/-! ### How calls are read -/

/-- A node without lambdas is typed for any items. -/
theorem NodeKind.typed_of_lambdas_nil {kind : NodeKind} (h : kind.lambdas = [])
    (item : Except ParseError Ty) : kind.Typed item := by
  refine ⟨by simp [h], ?_, by simp [h]⟩
  cases kind with
  | selectMany _ _ => cases h
  | _ => simp [NodeKind.inner?]

/-- No operator is in the catalog twice. -/
theorem operatorCatalog_unique {name : String} {count : Nat} {recognize recognize' : Recognizer}
    (h : (name, count, recognize) ∈ operatorCatalog)
    (h' : (name, count, recognize') ∈ operatorCatalog) : recognize = recognize' := by
  have hnodup : (operatorCatalog.map fun entry => (entry.1, entry.2.1)).Nodup := by decide
  have hentry := List.inj_on_of_nodup_map hnodup h h' rfl
  cases hentry
  rfl

/-- The expression is a call on a source, and can be read as a node of one kind only. -/
def CallFor (source : Expr) (kind : NodeKind) (e : Expr) : Prop :=
  ∃ method arguments, e = .staticCall method (source :: arguments) ∧
    ∀ recognize call kind', (method.name, method.parameters.length, recognize) ∈ operatorCatalog →
      call.arguments = arguments → recognize call = .ok kind' → kind' = kind

/-- A call is read as the node of its operator, behind the nodes of its source. -/
theorem Reader.readFrom_call {settings : Settings} {method : Method} {source : Expr}
    {arguments : List Expr} {position : Nat} {identifier : Option String} {reading : Reading}
    (h : (ofSettings settings).readFrom (.staticCall method (source :: arguments)) position
      identifier = .ok reading) :
    ∃ recognize call before node,
      (method.name, method.parameters.length, recognize) ∈ operatorCatalog ∧
      call.arguments = arguments ∧ recognize call = .ok node.kind ∧
      (ofSettings settings).readFrom source (position + 1) (sourceIdentifier? arguments) =
        .ok before ∧
      reading.chain.nodes = before.chain.nodes ++ [node] := by
  rw [readFrom] at h
  split at h
  · cases h
  · split at h
    · cases h
    · rename_i recognize hrecognize
      obtain ⟨kind, hkind, h⟩ := bind_eq_ok.mp h
      obtain ⟨before, hbefore, h⟩ := bind_eq_ok.mp h
      cases h
      obtain ⟨name, hchain, -⟩ := append_chain (ofSettings settings) before.chain
        (some before.last) identifier before.generated kind
      refine ⟨recognize, ⟨_, method, arguments, position⟩, before,
        ⟨before.chain.nodes.length, some before.last, name, kind⟩,
        Registry.mem_catalog_of_default hrecognize, rfl, hkind, hbefore, ?_⟩
      rw [hchain]
      rfl

namespace CallTree

variable {tree tree' : CallTree} {name : String} {genericArguments : List Ty}
  {arguments : List Expr} {type : Ty} {e : Expr}

theorem callOperator_eq_ok (h : tree.callOperator name genericArguments arguments type = .ok e) :
    ∃ method, e = .staticCall method (tree.expression :: arguments) ∧
      method.Is name (arguments.length + 1) ∧ e.type = type := by
  rw [callOperator] at h
  generalize hmethod : Method.extensionMethod tree.flavor.declaringType name genericArguments
    (tree.flavor.sequenceOf tree.itemType :: arguments.map Expr.type) type = method at h
  cases hcall : Expr.call none method (tree.expression :: arguments) with
  | error error =>
    rw [hcall] at h
    cases h
  | ok written =>
    rw [hcall] at h
    cases h
    obtain ⟨-, -, hwritten⟩ := bind_eq_ok.mp hcall
    cases hwritten
    subst hmethod
    exact ⟨_, rfl, ⟨rfl, by simp [Method.extensionMethod]⟩, rfl⟩

/-- A call of an operator in the catalog is read as the recognizer of the operator says. -/
theorem callOperator_callFor (h : tree.callOperator name genericArguments arguments type = .ok e)
    {recognize : Recognizer} {kind : NodeKind}
    (hmem : (name, arguments.length + 1, recognize) ∈ operatorCatalog)
    (hkind : ∀ call : CallSite, call.arguments = arguments → recognize call = .ok kind) :
    CallFor tree.expression kind e ∧ e.type = type := by
  obtain ⟨method, rfl, ⟨hname, hcount⟩, htype⟩ := callOperator_eq_ok h
  refine ⟨⟨method, arguments, rfl, ?_⟩, htype⟩
  intro recognize' call kind' hmem' hcall hkind'
  rw [hname, hcount] at hmem'
  rw [operatorCatalog_unique hmem' hmem, hkind call hcall] at hkind'
  exact (Except.ok.inj hkind').symm

/-- A call that gives a sequence again. -/
theorem thenCall_callFor (h : tree.thenCall name genericArguments arguments type = .ok tree')
    {recognize : Recognizer} {kind : NodeKind}
    (hmem : (name, arguments.length + 1, recognize) ∈ operatorCatalog)
    (hkind : ∀ call : CallSite, call.arguments = arguments → recognize call = .ok kind) :
    tree'.itemType = type ∧ CallFor tree.expression kind tree'.expression ∧
      tree'.expression.type.element? = some type := by
  obtain ⟨e, he, h⟩ := bind_eq_ok.mp h
  cases h
  obtain ⟨hcall, htype⟩ := callOperator_callFor he hmem hkind
  refine ⟨rfl, hcall, ?_⟩
  rw [htype]
  cases tree.flavor <;> rfl

@[simp] theorem asLambda?_argument (flavor : Flavor) (l : Lambda) :
    (flavor.argument l).asLambda? = some l := by
  cases flavor <;> rfl

@[simp] theorem asLambda?_collectionArgument (tree : CallTree) (l : Lambda) (t : Ty) :
    (tree.collectionArgument l t).asLambda? = some l := by
  rw [collectionArgument]
  cases tree.flavor <;> rfl

theorem collectionItems_eq_ok {l : Lambda} {t : Ty} :
    l.collectionItems = .ok t ↔ l.body.type.element? = some t := by
  rw [Lambda.collectionItems]
  cases l.body.type.element? <;> simp

/-! ### What a stage gives -/

/-- The node that a stage stands for, and the type of the items that it gives. -/
inductive Stage.Gives (tree : CallTree) : Stage → NodeKind → Ty → Prop
  | filter {name : String} {body : Expr} :
    Gives tree (.filter name body) (.filter (tree.itemLambda name body)) tree.itemType
  | select {name : String} {body : Expr} :
    Gives tree (.select name body) (.select (tree.itemLambda name body)) body.type
  | selectMany {name : String} {body : Expr} {t : Ty} (items : body.type.element? = some t) :
    Gives tree (.selectMany name body) (.selectMany (tree.itemLambda name body) none) t
  | selectManyWith {name outer inner : String} {body result : Expr} {t : Ty}
      (items : body.type.element? = some t) :
    Gives tree (.selectManyWith name body outer inner result)
      (.selectMany (tree.itemLambda name body)
        (some ⟨[tree.parameter outer, ⟨inner, t⟩], result⟩)) result.type
  | orderBy {name : String} {key : Expr} :
    Gives tree (.orderBy name key) (.orderBy (tree.itemLambda name key) .ascending) tree.itemType
  | orderByDescending {name : String} {key : Expr} :
    Gives tree (.orderByDescending name key) (.orderBy (tree.itemLambda name key) .descending)
      tree.itemType
  | thenBy {name : String} {key : Expr} :
    Gives tree (.thenBy name key) (.thenBy (tree.itemLambda name key) .ascending) tree.itemType
  | thenByDescending {name : String} {key : Expr} :
    Gives tree (.thenByDescending name key) (.thenBy (tree.itemLambda name key) .descending)
      tree.itemType
  | groupBy {name : String} {key : Expr} :
    Gives tree (.groupBy name key) (.groupBy (tree.itemLambda name key) none)
      (.grouping key.type tree.itemType)
  | groupByWithElement {name : String} {key element : Expr} :
    Gives tree (.groupByWithElement name key element)
      (.groupBy (tree.itemLambda name key) (some (tree.itemLambda name element)))
      (.grouping key.type element.type)
  | distinct : Gives tree .distinct (.operator .distinct) tree.itemType
  | take {count : Int32} :
    Gives tree (.take count) (.operator (.take (.constant (.int32 count) .int32))) tree.itemType
  | skip {count : Int32} :
    Gives tree (.skip count) (.operator (.skip (.constant (.int32 count) .int32))) tree.itemType

/-- A recognizer that keeps one lambda keeps the one that was written. -/
theorem keeps_lambda {l : Lambda} {a : Expr} {n : Nat} (ha : a.asLambda? = some l)
    (hn : l.parameters.length = n) {f : Lambda → NodeKind} {call : CallSite}
    (hcall : call.arguments = [a]) : (call.lambda 0 n >>= fun l => return f l) = .ok (f l) :=
  bind_eq_ok.mpr ⟨l, CallSite.lambda_eq_ok.mpr ⟨a, by rw [hcall]; rfl, ha, hn⟩, rfl⟩

theorem keeps_lambdas {l l' : Lambda} {a a' : Expr} {n n' : Nat} (ha : a.asLambda? = some l)
    (hn : l.parameters.length = n) (ha' : a'.asLambda? = some l') (hn' : l'.parameters.length = n')
    {f : Lambda → Lambda → NodeKind} {call : CallSite} (hcall : call.arguments = [a, a']) :
    (call.lambda 0 n >>= fun l => call.lambda 1 n' >>= fun l' => return f l l') = .ok (f l l') := by
  have hfirst : call.lambda 0 n = .ok l :=
    CallSite.lambda_eq_ok.mpr ⟨a, by rw [hcall]; rfl, ha, hn⟩
  have hsecond : call.lambda 1 n' = .ok l' :=
    CallSite.lambda_eq_ok.mpr ⟨a', by rw [hcall]; rfl, ha', hn'⟩
  exact bind_eq_ok.mpr ⟨l, hfirst, bind_eq_ok.mpr ⟨l', hsecond, rfl⟩⟩

theorem keeps_argument {a : Expr} {op : Expr → ResultOperator} {call : CallSite}
    (hcall : call.arguments = [a]) : Recognizer.operatorOf op call = .ok (.operator (op a)) :=
  bind_eq_ok.mpr ⟨a, CallSite.argument_eq_ok.mpr (by rw [hcall]; rfl), rfl⟩

/-- **A stage is read as the node that it stands for.** -/
theorem Stage.spec {stage : Stage} (h : stage.apply tree = .ok tree') :
    ∃ kind, stage.Gives tree kind tree'.itemType ∧ CallFor tree.expression kind tree'.expression ∧
      tree'.expression.type.element? = some tree'.itemType := by
  -- It is enough to look at the call, once the kind and the items are known.
  have hthen : ∀ (recognize : Recognizer) {name genericArguments arguments type kind},
      tree.thenCall name genericArguments arguments type = .ok tree' →
      (name, arguments.length + 1, recognize) ∈ operatorCatalog →
      (∀ call : CallSite, call.arguments = arguments → recognize call = .ok kind) →
      stage.Gives tree kind type →
      ∃ kind, stage.Gives tree kind tree'.itemType ∧
        CallFor tree.expression kind tree'.expression ∧
        tree'.expression.type.element? = some tree'.itemType := by
    intro recognize name genericArguments arguments type kind hcall hmem hkind hgives
    obtain ⟨hitem, hfor, helement⟩ := thenCall_callFor hcall hmem hkind
    rw [hitem]
    exact ⟨kind, hgives, hfor, helement⟩
  cases stage with
  | filter name body =>
    exact hthen Recognizer.filter h (by simp [operatorCatalog])
      (fun _ => keeps_lambda (asLambda?_argument ..) rfl) .filter
  | select name body =>
    exact hthen Recognizer.select h (by simp [operatorCatalog])
      (fun _ => keeps_lambda (asLambda?_argument ..) rfl) .select
  | selectMany name body =>
    obtain ⟨t, ht, h⟩ := bind_eq_ok.mp h
    exact hthen Recognizer.selectMany h (by simp [operatorCatalog])
      (fun _ => keeps_lambda (asLambda?_collectionArgument ..) rfl)
      (.selectMany (collectionItems_eq_ok.mp ht))
  | selectManyWith name body outer inner result =>
    obtain ⟨⟨o, i⟩, hparameters, h⟩ := bind_eq_ok.mp h
    obtain ⟨t, ht, hparameters⟩ := bind_eq_ok.mp hparameters
    cases hparameters
    exact hthen Recognizer.selectManyWithResult h (by simp [operatorCatalog])
      (fun _ => keeps_lambdas (asLambda?_collectionArgument ..) rfl (asLambda?_argument ..) rfl)
      (.selectManyWith (collectionItems_eq_ok.mp ht))
  | orderBy name key =>
    exact hthen (Recognizer.orderBy .ascending) h (by simp [operatorCatalog])
      (fun _ => keeps_lambda (asLambda?_argument ..) rfl) .orderBy
  | orderByDescending name key =>
    exact hthen (Recognizer.orderBy .descending) h (by simp [operatorCatalog])
      (fun _ => keeps_lambda (asLambda?_argument ..) rfl) .orderByDescending
  | thenBy name key =>
    exact hthen (Recognizer.thenBy .ascending) h (by simp [operatorCatalog])
      (fun _ => keeps_lambda (asLambda?_argument ..) rfl) .thenBy
  | thenByDescending name key =>
    exact hthen (Recognizer.thenBy .descending) h (by simp [operatorCatalog])
      (fun _ => keeps_lambda (asLambda?_argument ..) rfl) .thenByDescending
  | groupBy name key =>
    exact hthen Recognizer.groupBy h (by simp [operatorCatalog])
      (fun _ => keeps_lambda (asLambda?_argument ..) rfl) .groupBy
  | groupByWithElement name key element =>
    exact hthen Recognizer.groupByWithElement h (by simp [operatorCatalog])
      (fun _ => keeps_lambdas (asLambda?_argument ..) rfl (asLambda?_argument ..) rfl)
      .groupByWithElement
  | distinct =>
    exact hthen (.operator .distinct) h (by simp [operatorCatalog]) (fun _ _ => rfl) .distinct
  | take count =>
    exact hthen (.operatorOf .take) h (by simp [operatorCatalog]) (fun _ => keeps_argument) .take
  | skip count =>
    exact hthen (.operatorOf .skip) h (by simp [operatorCatalog]) (fun _ => keeps_argument) .skip

/-- The node takes the items of the tree, and is exactly typed when the bodies of its lambdas
are. -/
theorem Stage.Gives.typed {stage : Stage} {kind : NodeKind} {t : Ty} (h : stage.Gives tree kind t)
    (hexact : ∀ body ∈ stage.bodies, body.Exact) : kind.Typed (.ok tree.itemType) := by
  cases h with
  | selectManyWith items =>
    refine ⟨?_, ?_, ?_⟩
    · simp [NodeKind.lambdas, itemLambda, parameter]
    · simpa [NodeKind.inner?, itemLambda] using items
    · simpa [NodeKind.lambdas, itemLambda, bodies] using hexact
  | distinct | take | skip => exact NodeKind.typed_of_lambdas_nil rfl _
  | _ =>
    refine ⟨?_, by simp [NodeKind.inner?], ?_⟩
    · simp [NodeKind.lambdas, itemLambda, parameter]
    · simpa [NodeKind.lambdas, itemLambda, bodies] using hexact

/-- The node gives the items of the new tree. -/
theorem Stage.Gives.itemType {stage : Stage} {kind : NodeKind} {t : Ty}
    (h : stage.Gives tree kind t) {node : Node} {before : Lineage} (hkind : node.kind = kind)
    (hbefore : before.itemType = .ok tree.itemType) :
    (Lineage.step node before).itemType = .ok t := by
  rw [Lineage.itemType, hkind]
  cases h with
  | filter | orderBy | orderByDescending | thenBy | thenByDescending | distinct | take | skip =>
    exact hbefore
  | selectMany items => exact itemsOf_eq_ok.mpr items
  | groupBy => exact bind_eq_ok.mpr ⟨tree.itemType, hbefore, rfl⟩
  | select | selectManyWith _ | groupByWithElement => rfl

theorem Stage.Gives.shapeOver {stage : Stage} {kind : NodeKind} {t : Ty}
    (h : stage.Gives tree kind t) : kind.shapeOver t = .sequence t := by
  cases h <;> rfl

/-! ### What an ending gives -/

/-- The operator that an ending stands for. -/
def Ending.operator? : Ending → Option ResultOperator
  | .build => none
  | .count => some (.aggregate .count)
  | .longCount => some (.aggregate .longCount)
  | .any => some (.aggregate .any)
  | .anyWhere _ _ => none
  | .contains item => some (.contains item)
  | .first => some (.pick .first false)
  | .firstOrDefault => some (.pick .first true)
  | .single => some (.pick .single false)
  | .lastOrDefault => some (.pick .last true)
  | .sum => some (.aggregate .sum)
  | .max => some (.aggregate .max)
  | .average => some (.aggregate .average)

end CallTree

/-- A static type tells the same as a shape: a sequence has these items, and everything else is of
this type. -/
def Shape.Agrees (type : Ty) : Shape → Prop
  | .sequence t => type.element? = some t
  | shape => type = shape.type

namespace CallTree

variable {tree tree' : CallTree} {e : Expr}

/-- **An ending is read as the operator that it stands for**, and has the type of what it gives. -/
theorem Ending.spec {ending : Ending} {op : ResultOperator} (hop : ending.operator? = some op)
    (h : ending.apply tree = .ok e) :
    CallFor tree.expression (.operator op) e ∧ (op.shapeOver tree.itemType).Agrees e.type := by
  have hfinish : ∀ {name arguments type recognize},
      (name, arguments.length + 1, recognize) ∈ operatorCatalog →
      (∀ call : CallSite, call.arguments = arguments → recognize call = .ok (.operator op)) →
      tree.finish name arguments type = .ok e → (op.shapeOver tree.itemType).Agrees type →
      CallFor tree.expression (.operator op) e ∧ (op.shapeOver tree.itemType).Agrees e.type := by
    intro name arguments type recognize hmem hkind hcall hagrees
    obtain ⟨hfor, htype⟩ := callOperator_callFor hcall hmem hkind
    rw [htype]
    exact ⟨hfor, hagrees⟩
  have hplain : ∀ {name type}, (name, 1, Recognizer.operator op) ∈ operatorCatalog →
      tree.finish name [] type = .ok e → (op.shapeOver tree.itemType).Agrees type →
      CallFor tree.expression (.operator op) e ∧ (op.shapeOver tree.itemType).Agrees e.type :=
    fun hmem => hfinish hmem fun _ _ => rfl
  cases ending with
  | build | anyWhere _ _ => cases hop
  | contains item =>
    cases hop
    have hmem : ("Contains", 2, Recognizer.operatorOf .contains) ∈ operatorCatalog := by
      simp [operatorCatalog]
    exact hfinish hmem (fun _ => keeps_argument) h rfl
  | count | longCount | any | first | firstOrDefault | single | lastOrDefault | sum | max
  | average =>
    cases hop
    exact hplain (by simp [operatorCatalog]) h rfl

/-- The catalog has no operator for a condition on some item. -/
theorem anyWhere_unread {name : String} {body : Expr} (h : tree.anyWhere name body = .ok e)
    {settings : Settings} {position : Nat} {identifier : Option String} {reading : Reading} :
    (Reader.ofSettings settings).readFrom e position identifier ≠ .ok reading := by
  intro hread
  obtain ⟨method, rfl, ⟨hname, hcount⟩, -⟩ := callOperator_eq_ok h
  obtain ⟨recognize, -, -, -, hmem, -⟩ := Reader.readFrom_call hread
  rw [hname, hcount] at hmem
  simp [operatorCatalog] at hmem

end CallTree

/-! ### What is read -/

/-- Nodes are exactly typed, items of a type flow out of the last one, and it gives a shape. -/
structure TypedNodes (nodes : List Node) (t : Ty) (shape : Shape) : Prop where
  lambdas : ∀ error before node after, nodes = before ++ node :: after →
    node.kind.Typed (Lineage.back error before).itemType
  items : ∀ error, (Lineage.back error nodes).itemType = .ok t
  last : ∀ last, nodes.getLast? = some last → last.kind.shapeOver t = shape

/-- However an expression is read, it is read as typed nodes. -/
def Expr.ReadsTyped (e : Expr) (t : Ty) (shape : Shape) : Prop :=
  ∀ settings position identifier reading,
    (Reader.ofSettings settings).readFrom e position identifier = .ok reading →
    TypedNodes reading.chain.nodes t shape

theorem TypedNodes.source {node : Node} {t : Ty} (hlambdas : node.kind.lambdas = [])
    (hitem : ∀ before, (Lineage.step node before).itemType = .ok t)
    (hshape : node.kind.shapeOver t = .sequence t) : TypedNodes [node] t (.sequence t) := by
  refine ⟨?_, fun error => hitem (.broken error), ?_⟩
  · intro error before n after hsplit
    rcases split_concat (l := []) hsplit with ⟨after', hnil, -⟩ | ⟨-, rfl, -⟩
    · exact absurd hnil (by simp)
    · exact NodeKind.typed_of_lambdas_nil hlambdas _
  · intro last hlast
    cases hlast
    exact hshape

theorem TypedNodes.concat {nodes : List Node} {node : Node} {t t' : Ty} {shape : Shape}
    (h : TypedNodes nodes t shape) (hnode : node.kind.Typed (.ok t))
    (hitem : ∀ before : Lineage, before.itemType = .ok t →
      (Lineage.step node before).itemType = .ok t') :
    TypedNodes (nodes ++ [node]) t' (node.kind.shapeOver t') := by
  refine ⟨?_, ?_, ?_⟩
  · intro error before n after hsplit
    rcases split_concat hsplit with ⟨after', rfl, -⟩ | ⟨rfl, rfl, -⟩
    · exact h.lambdas error before n after' rfl
    · rw [h.items error]
      exact hnode
  · intro error
    rw [Lineage.back_concat]
    exact hitem _ (h.items error)
  · intro last hlast
    rw [List.getLast?_concat] at hlast
    rw [Option.some.inj hlast]

/-- One more call is one more node. -/
theorem Expr.ReadsTyped.call {source e : Expr} {kind : NodeKind} {t t' : Ty} {shape : Shape}
    (h : source.ReadsTyped t shape) (hcall : CallFor source kind e) (hkind : kind.Typed (.ok t))
    (hitem : ∀ (node : Node) (before : Lineage), node.kind = kind → before.itemType = .ok t →
      (Lineage.step node before).itemType = .ok t') : e.ReadsTyped t' (kind.shapeOver t') := by
  intro settings position identifier reading hread
  obtain ⟨method, arguments, rfl, honly⟩ := hcall
  obtain ⟨recognize, call, before, node, hmem, harguments, hrecognize, hbefore, hnodes⟩ :=
    Reader.readFrom_call hread
  obtain rfl := honly recognize call node.kind hmem harguments hrecognize
  rw [hnodes]
  exact (h settings _ _ before hbefore).concat hkind fun before => hitem node before rfl

/-- A source is a node on its own. -/
theorem Start.readsTyped {start : Start} {t : Ty} (hitems : start.toExpr.type.element? = some t) :
    start.toExpr.ReadsTyped t (.sequence t) := by
  intro settings position identifier reading hread
  have hnode : ∀ kind : NodeKind, kind.lambdas = [] →
      (∀ node before, node.kind = kind → (Lineage.step node before).itemType = .ok t) →
      kind.shapeOver t = .sequence t →
      TypedNodes ((Reader.ofSettings settings).append .empty none identifier 0 kind).chain.nodes t
        (.sequence t) := by
    intro kind hlambdas hitem hshape
    obtain ⟨name, hchain, -⟩ :=
      Reader.append_chain (Reader.ofSettings settings) .empty none identifier 0 kind
    rw [hchain]
    exact .source hlambdas (fun before => hitem _ before rfl) hshape
  have hitem : ∀ {item}, itemsOf start.toExpr.type = .ok item → item = t := fun h =>
    Option.some.inj ((itemsOf_eq_ok.mp h).symm.trans hitems)
  cases start with
  | constant value type =>
    rw [toExpr, Reader.readFrom] at hread
    split at hread
    · cases hread
    · obtain ⟨source, hsource, hread⟩ := bind_eq_ok.mp hread
      obtain ⟨item, htype, hsource⟩ := bind_eq_ok.mp hsource
      cases hread
      cases hsource
      obtain rfl := hitem htype
      exact hnode _ rfl (fun _ _ h => by rw [Lineage.itemType, h]) rfl
  | subQuery model type =>
    rw [toExpr, Reader.readFrom] at hread
    split at hread
    · cases hread
    · obtain ⟨source, hsource, hread⟩ := bind_eq_ok.mp hread
      obtain ⟨item, htype, hsource⟩ := bind_eq_ok.mp hsource
      cases hread
      cases hsource
      obtain rfl := hitem htype
      exact hnode _ rfl (fun _ _ h => by rw [Lineage.itemType, h]) rfl

/-- The shape of a query that is read as typed nodes. -/
theorem Expr.ReadsTyped.shape {e : Expr} {t : Ty} {shape : Shape} (h : e.ReadsTyped t shape)
    {settings : Settings} {nextId : Nat} {model : Model}
    (hparse : ((Reader.ofSettings settings).parse e nextId).1 = .ok model) :
    model.shape = .ok shape := by
  obtain ⟨chain, hread, hmodel⟩ := Reader.parse_eq_ok.mp hparse
  obtain ⟨reading, hreading, rfl⟩ := Reader.read_eq_ok.mp hread
  obtain ⟨hlambdas, hitems, hlast⟩ := h settings 0 none reading hreading
  obtain ⟨error, hback⟩ := (Reader.read_regular hread).linear.lineage_eq
  have htyped : reading.chain.ExactlyTyped := by
    intro node hnode
    obtain ⟨before, after, hsplit⟩ := List.append_of_mem hnode
    rw [hback before node after hsplit]
    exact hlambdas error before node after hsplit
  obtain ⟨last, t', hfound, hitem, hshape⟩ := Chain.ExactlyTyped.shape hread htyped hmodel
  rw [Chain.lineage_last_eq hback hfound, hitems error] at hitem
  cases hitem
  rw [hshape, hlast last hfound]

/-! ### What is written -/

namespace CallTree

/-- A tree is read as typed nodes that give its items, and its type says so too. -/
structure Typed (tree : CallTree) : Prop where
  reads : tree.expression.ReadsTyped tree.itemType (.sequence tree.itemType)
  element : tree.expression.type.element? = some tree.itemType

theorem ofSource_typed {flavor : Flavor} {start : Start} {tree : CallTree}
    (h : CallTree.ofSource flavor start.toExpr = .ok tree) : tree.Typed := by
  rw [ofSource] at h
  cases hitems : start.toExpr.type.element? with
  | none =>
    rw [hitems] at h
    cases h
  | some t =>
    rw [hitems] at h
    cases h
    exact ⟨Start.readsTyped hitems, hitems⟩

theorem Typed.stage {tree tree' : CallTree} {stage : Stage} (h : tree.Typed)
    (hexact : ∀ body ∈ stage.bodies, body.Exact) (hstage : stage.apply tree = .ok tree') :
    tree'.Typed := by
  obtain ⟨kind, hgives, hcall, helement⟩ := stage.spec hstage
  refine ⟨?_, helement⟩
  rw [← hgives.shapeOver]
  exact h.reads.call hcall (hgives.typed hexact) fun _ _ => hgives.itemType

/-- **Every tree that is written is typed.** -/
theorem Typed.stages {stages : List Stage} {tree tree' : CallTree} (h : tree.Typed)
    (hexact : ∀ stage ∈ stages, ∀ body ∈ stage.bodies, body.Exact)
    (hstages : stages.foldlM (fun tree stage => stage.apply tree) tree = .ok tree') :
    tree'.Typed := by
  induction stages generalizing tree with
  | nil =>
    cases hstages
    exact h
  | cons stage stages ih =>
    obtain ⟨next, hnext, hstages⟩ := bind_eq_ok.mp hstages
    refine ih (h.stage (hexact stage (List.mem_cons_self ..)) hnext) ?_ hstages
    exact fun s hs => hexact s (List.mem_cons_of_mem _ hs)

end CallTree

/-- **What is written has the type of what it gives.**  When the bodies of its lambdas are exactly
typed and its call tree has a model, the static type of the tree agrees with the shape of the
model. -/
theorem Script.parse_shape {script : Script} {e : Expr} {settings : Settings} {nextId : Nat}
    {model : Model} (hexact : ∀ stage ∈ script.stages, ∀ body ∈ stage.bodies, body.Exact)
    (hwrite : script.write = .ok e)
    (hparse : ((Reader.ofSettings settings).parse e nextId).1 = .ok model) :
    ∃ shape, model.shape = .ok shape ∧ shape.Agrees e.type := by
  obtain ⟨first, hfirst, hwrite⟩ := bind_eq_ok.mp hwrite
  obtain ⟨tree, htree, hending⟩ := bind_eq_ok.mp hwrite
  have htyped := (CallTree.ofSource_typed hfirst).stages hexact htree
  cases hop : script.ending.operator? with
  | some op =>
    obtain ⟨hcall, hagrees⟩ := CallTree.Ending.spec hop hending
    have hreads : e.ReadsTyped tree.itemType (op.shapeOver tree.itemType) := by
      refine htyped.reads.call hcall (NodeKind.typed_of_lambdas_nil rfl _) ?_
      intro node before hkind hbefore
      rw [Lineage.itemType_pass (by rw [hkind]; rfl), hbefore]
    exact ⟨_, hreads.shape hparse, hagrees⟩
  | none =>
    cases hkind : script.ending with
    | build =>
      rw [hkind] at hending
      cases hending
      exact ⟨_, htyped.reads.shape hparse, htyped.element⟩
    | anyWhere name body =>
      rw [hkind] at hending
      obtain ⟨chain, hread, -⟩ := Reader.parse_eq_ok.mp hparse
      obtain ⟨reading, hreading, -⟩ := Reader.read_eq_ok.mp hread
      exact absurd hreading (CallTree.anyWhere_unread hending)
    | _ =>
      rw [hkind] at hop
      cases hop

/-- The first group of pairs of starred cooks and their assistants, by the name of the cook. -/
def Sample.firstGroup : Script where
  flavor := .queryable
  start := .constant (.source "Cooks") (.queryable cook)
  stages := [
    .filter "c" (property "Cook" "IsStarredCook" .boolean (.parameter c)),
    .selectManyWith "c" (property "Cook" "Assistants" (.list assistant) (.parameter c)) "c" "a"
      (.new ⟨pair, [cook, assistant]⟩ [.parameter c, .parameter a]
        (some [⟨"AnonymousType", "c", cook, .getter⟩, ⟨"AnonymousType", "a", assistant, .getter⟩])),
    .groupBy "c" cookName,
    .take 10]
  ending := .first

theorem Script.parse_shape_firstGroup :
    (∀ stage ∈ Sample.firstGroup.stages, ∀ body ∈ stage.bodies, body.Exact) ∧
      ∃ e model, Sample.firstGroup.write = .ok e ∧
        ((Reader.ofSettings .default).parse e 0).1 = .ok model ∧
        ∃ shape, model.shape = .ok shape ∧ shape.Agrees e.type := by
  have hexact : ∀ stage ∈ Sample.firstGroup.stages, ∀ body ∈ stage.bodies, body.Exact := by decide
  obtain ⟨e, model, hwrite, hparse⟩ : ∃ e model, Sample.firstGroup.write = .ok e ∧
      ((Reader.ofSettings .default).parse e 0).1 = .ok model := ⟨_, _, rfl, rfl⟩
  exact ⟨hexact, e, model, hwrite, hparse, Script.parse_shape hexact hwrite hparse⟩

end Comprehension
