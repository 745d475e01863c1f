import Comprehension.Proofs.Chain.Projection
import Comprehension.Proofs.Chain.Scope
import Comprehension.Proofs.Expr.Meaning
import Mathlib.Data.List.Basic

/-! # Parsing preserves meaning

A call tree of filters, selections, projections to many items and sorts can be run directly, as
functions on lists (`Interpretation.items`).  Its model can be read as a comprehension: the rows of
the main source go through the clauses one by one, and what is left of them is selected
(`Interpretation.comprehend`).  Both give the same list.

The two sides are kept together along the assembly (`Simulates`): after each node, the items of the
call tree so far are what the item that flows out of the nodes so far means in each row. -/
namespace Comprehension

namespace Interpretation

variable {V : Type} (I : Interpretation V)

/-! ### Running the operators -/

/-- What a lambda gives for some arguments. -/
def apply (env : Env V) (l : Lambda) (arguments : List V) : V :=
  I.eval (env.bindAll l.parameters arguments) l.body

/-- Whether a sort key may stand before another in a direction. -/
def mayPrecede : Direction → V → V → Bool
  | .ascending, v, w => I.le v w
  | .descending, v, w => I.le w v

/-- The items for which a predicate holds. -/
def filterBy (env : Env V) (predicate : Lambda) (items : List V) : List V :=
  items.filter fun v => I.holds (I.apply env predicate [v])

/-- The items after a selection. -/
def mapBy (env : Env V) (selector : Lambda) (items : List V) : List V :=
  items.map fun v => I.apply env selector [v]

/-- For each item, the elements of a collection, with what is made of the item and the element. -/
def expandBy (env : Env V) (collection : Lambda) (result : V → V → V) (items : List V) : List V :=
  items.flatMap fun v => (I.elements (I.apply env collection [v])).map (result v)

/-- A stable sort by a key. -/
def sortBy (env : Env V) (key : Lambda) (direction : Direction) (items : List V) : List V :=
  items.mergeSort fun v w => I.mayPrecede direction (I.apply env key [v]) (I.apply env key [w])

/-- The items after a call of an operator, which is known by its name and number of parameters. -/
def operatorItems (env : Env V) (method : Method) (arguments : List Expr) (items : List V) :
    Option (List V) :=
  let lambda (index : Nat) : Option Lambda := arguments[index]?.bind Expr.asLambda?
  match method.name, method.parameters.length with
  | "Where", 2 => return I.filterBy env (← lambda 0) items
  | "Select", 2 => return I.mapBy env (← lambda 0) items
  | "SelectMany", 2 => return I.expandBy env (← lambda 0) (fun _ w => w) items
  | "SelectMany", 3 => do
    let result ← lambda 1
    return I.expandBy env (← lambda 0) (fun v w => I.apply env result [v, w]) items
  | "OrderBy", 2 => return I.sortBy env (← lambda 0) .ascending items
  | "OrderByDescending", 2 => return I.sortBy env (← lambda 0) .descending items
  | _, _ => none

/-- The items of a call tree: the operators are run on the elements of its source. -/
def items (env : Env V) : Expr → Option (List V)
  | .staticCall method arguments =>
    match arguments with
    | [] => none
    | source :: rest => do I.operatorItems env method rest (← items env source)
  | e => some (I.elements (I.eval env e))
termination_by structural e => e

/-! ### Reading a model as a comprehension -/

/-- Whether a row may stand before another by some sort keys, of which the first counts most. -/
def rowPrecedes : List SortKey → Env V → Env V → Bool
  | [], _, _ => true
  | key :: keys, row, row' =>
    let v := I.eval row key.expression
    let w := I.eval row' key.expression
    I.mayPrecede key.direction v w &&
      (!I.mayPrecede key.direction w v || rowPrecedes keys row row')

/-- The rows of a main source: one for each of its items. -/
def mainRows (env : Env V) (clause : FromClause) : List (Env V) :=
  (I.elements (I.eval env clause.expression)).map (env.withItem clause.source)

/-- The rows after a clause. -/
def clauseRows (rows : List (Env V)) : BodyClause → List (Env V)
  | .additionalFrom c =>
    rows.flatMap fun row => (I.elements (I.eval row c.expression)).map (row.withItem c.source)
  | .filter p => rows.filter fun row => I.holds (I.eval row p)
  | .orderBy keys => rows.mergeSort (I.rowPrecedes keys)

/-- A model as a comprehension: the rows of the main source go through the clauses, and the selector
is taken in each row that is left. -/
def comprehend (env : Env V) (model : Model) : List V :=
  (model.body.foldl I.clauseRows (I.mainRows env model.mainFrom)).map fun row =>
    I.eval row model.selector

end Interpretation

/-! ### Call trees that can be run -/

/-- The operators that give their items one by one or sorted. -/
def listOperators : List String := ["Where", "Select", "SelectMany", "OrderBy", "OrderByDescending"]

/-- A lambda whose body mentions nothing but its own parameters. -/
structure Lambda.SelfContained (l : Lambda) : Prop where
  own : ∀ q ∈ l.body.freeParameters, q ∈ l.parameters
  unreferring : l.body.references = []
  tidy : l.body.Tidy

instance (l : Lambda) : Decidable l.SelfContained :=
  decidable_of_iff ((∀ q ∈ l.body.freeParameters, q ∈ l.parameters) ∧ l.body.references = [] ∧
      l.body.Tidy)
    ⟨fun ⟨own, unreferring, tidy⟩ => ⟨own, unreferring, tidy⟩,
      fun ⟨own, unreferring, tidy⟩ => ⟨own, unreferring, tidy⟩⟩

/-- A call tree of operators on lists, with self-contained lambdas. -/
inductive ListQuery : Expr → Prop
  | source {e : Expr} (uncalled : ∀ method arguments, e ≠ .staticCall method arguments) :
    ListQuery e
  | call {method : Method} {source : Expr} {arguments : List Expr}
      (operator : method.name ∈ listOperators)
      (lambdas : ∀ l ∈ arguments.filterMap Expr.asLambda?, l.SelfContained)
      (before : ListQuery source) :
    ListQuery (.staticCall method (source :: arguments))

/-- The lambdas of a node are arguments of its call. -/
theorem Recognized.selfContained {method : Method} {arguments : List Expr} {kind : NodeKind}
    (h : Recognized method arguments kind)
    (hlambdas : ∀ l ∈ arguments.filterMap Expr.asLambda?, l.SelfContained) :
    ∀ l ∈ kind.lambdas, l.SelfContained := by
  have hat : ∀ {index count : Nat} {l : Lambda}, LambdaAt arguments index count l →
      l.SelfContained := fun ⟨a, ha, hl, _⟩ =>
    hlambdas _ (List.mem_filterMap.mpr ⟨a, List.mem_of_getElem? ha, hl⟩)
  intro l hl
  cases h with
  | operator _ _ _ => cases hl
  | selectManyWithResult _ first second | groupByWithElement _ first second =>
    rcases List.mem_cons.mp hl with rfl | hl
    · exact hat first
    · rw [List.mem_singleton.mp hl]
      exact hat second
  | filter _ held | select _ held | selectMany _ held | orderBy _ held | orderByDescending _ held
  | thenBy _ held | groupBy _ held =>
    rw [List.mem_singleton.mp hl]
    exact hat held

/-! ### What putting in an item means -/

section Put

variable {V : Type} {I : Interpretation V} (hI : I.Lawful) {lineage : Lineage} {p : Parameter}
  {x e : Expr}

theorem Expr.Tidy.put (he : e.Tidy) (hx : x.Tidy) : (lineage.put p x e).Tidy := by
  rw [Lineage.put]
  split
  · exact (he.replace hx).collapse
  · exact he.replace hx

theorem Lineage.references_put {s : Source} (h : s ∈ (lineage.put p x e).references) :
    s ∈ e.references ∨ s ∈ x.references := by
  rw [Lineage.put] at h
  split at h
  · exact Expr.references_replace (Expr.references_collapse h)
  · exact Expr.references_replace h

include hI

/-- **Putting in an item lets the parameter stand for the item.** -/
theorem Interpretation.Lawful.eval_put (he : e.Tidy) (hx : x.Tidy) (row : Env V) :
    I.eval row (lineage.put p x e) = I.eval (row.bind p (I.eval row x)) e := by
  rw [Lineage.put]
  split
  · rw [putProjection, Parameter.toExpr, hI.eval_collapse (he.replace hx),
      Interpretation.eval_replace he]
  · exact Interpretation.eval_replace he

/-- With an item put in, a self-contained lambda gives what it gives for the item. -/
theorem Interpretation.Lawful.eval_put_lambda {l : Lambda} (hl : l.SelfContained)
    (hp : l.parameters = [p]) (hx : x.Tidy) (env row : Env V) :
    I.eval row (lineage.put p x l.body) = I.apply env l [I.eval row x] := by
  rw [hI.eval_put hl.tidy hx, Interpretation.apply, hp, Env.bindAll_singleton]
  refine Interpretation.eval_congr hl.tidy (fun q hq => ?_) fun s hs => ?_
  · have hq := hl.own q hq
    rw [hp, List.mem_singleton] at hq
    rw [hq, Env.bind_parameter_self, Env.bind_parameter_self]
  · rw [hl.unreferring] at hs
    cases hs

/-- With an item and a reference put in, a self-contained lambda of two parameters gives what it
gives for the item and the current item of the source. -/
theorem Interpretation.Lawful.eval_put_result {l : Lambda} {q : Parameter} {s : Source}
    (hl : l.SelfContained) (hp : l.parameters = [p, q]) (hx : x.Tidy) (env row : Env V) :
    I.eval row (lineage.put p x (Expr.replace (.parameter q) (.reference s) l.body)) =
      I.apply env l [I.eval row x, row.item s.id] := by
  rw [hI.eval_put (hl.tidy.replace Expr.tidy_reference) hx, Interpretation.eval_replace hl.tidy,
    Interpretation.apply, hp, Env.bindAll_pair]
  refine Interpretation.eval_congr hl.tidy (fun r hr => ?_) fun t ht => ?_
  · have hr := hl.own r hr
    rw [hp, List.mem_cons, List.mem_singleton] at hr
    -- When both parameters are the same, the second counts.
    by_cases hrq : r = q
    · rw [hrq, Env.bind_parameter_self, Env.bind_parameter_self]
      rfl
    · rw [Env.bind_parameter_of_ne _ hrq, Env.bind_parameter_of_ne _ hrq, hr.resolve_right hrq,
        Env.bind_parameter_self, Env.bind_parameter_self]
  · rw [hl.unreferring] at ht
    cases ht

end Put

/-! ### Operators by the kinds of their nodes -/

namespace Interpretation

variable {V : Type} (I : Interpretation V) (env : Env V)

/-- The items after a node. -/
def kindItems (items : List V) : NodeKind → Option (List V)
  | .filter p => some (I.filterBy env p items)
  | .select l => some (I.mapBy env l items)
  | .selectMany c none => some (I.expandBy env c (fun _ w => w) items)
  | .selectMany c (some r) => some (I.expandBy env c (fun v w => I.apply env r [v, w]) items)
  | .orderBy k direction => some (I.sortBy env k direction items)
  | _ => none

/-- What a call of an operator on lists does to the items is known by the kind of its node. -/
theorem operatorItems_eq {method : Method} {arguments : List Expr} {kind : NodeKind}
    (hoperator : method.name ∈ listOperators) (h : Recognized method arguments kind)
    (items : List V) :
    I.operatorItems env method arguments items = I.kindItems env items kind ∧
      (I.kindItems env items kind).isSome := by
  have hlambda : ∀ {index count : Nat} {l : Lambda}, LambdaAt arguments index count l →
      arguments[index]?.bind Expr.asLambda? = some l := by
    rintro index count l ⟨a, ha, hl, -⟩
    rw [ha]
    exact hl
  cases h with
  | filter is l | select is l | selectMany is l | orderBy is l | orderByDescending is l =>
    simp [operatorItems, kindItems, is.1, is.2, hlambda l]
  | selectManyWithResult is c r =>
    simp [operatorItems, kindItems, is.1, is.2, hlambda c, hlambda r]
  | thenBy is _ =>
    rcases is with ⟨hname, -⟩ | ⟨hname, -⟩
    · rw [hname] at hoperator
      exact absurd hoperator (by decide)
    · rw [hname] at hoperator
      exact absurd hoperator (by decide)
  | groupBy is _ | groupByWithElement is _ _ =>
    rw [is.1] at hoperator
    exact absurd hoperator (by decide)
  | operator isNot _ _ =>
    have hsubset : ∀ name ∈ listOperators, name ∈ lambdaOperators := by decide
    exact absurd (hsubset _ hoperator) isNot

/-- The rows of a draft. -/
def rows (draft : Draft) : List (Env V) :=
  draft.body.foldl I.clauseRows ((draft.mainFrom.map (I.mainRows env)).getD [])

theorem rows_concat (draft : Draft) (clause : BodyClause) :
    I.rows env { draft with body := draft.body ++ [clause] } =
      I.clauseRows (I.rows env draft) clause :=
  List.foldl_append

end Interpretation

/-! ### Items and rows together -/

open Chain (Progress Step Run)

/-- **Items and rows stand together.**  The items are what the item `x` that flows out of the
lineage means in the rows so far.  `x` refers to no source that is still to be made. -/
structure Simulates {V : Type} (I : Interpretation V) (env : Env V) (lineage : Lineage)
    (s : Progress) (items : List V) (x : Expr) : Prop where
  projects : Projects s.context.sources lineage x
  tidy : x.Tidy
  older : ∀ r ∈ x.references, r.id < s.context.nextId
  unended : s.draft.operators = []
  items_eq : items = (I.rows env s.draft).map fun row => I.eval row x

namespace Simulates

variable {V : Type} {I : Interpretation V} {env : Env V} {chain : Chain} {node : Node}
  {before : Lineage} {s t : Progress} {items : List V} {x : Expr}

/-- The current item of a source yet to be made means nothing to `x`. -/
theorem eval_withItem (h : Simulates I env before s items x) {source : Source}
    (hsource : source.id = s.context.nextId) (row : Env V) (v : V) :
    I.eval (row.withItem source v) x = I.eval row x := by
  refine Interpretation.eval_congr h.tidy (fun q _ => rfl) fun r hr => ?_
  -- Identities only grow, and `x` refers to sources made before.
  refine Env.withItem_item_of_ne row (fun heq => ?_) v
  have hlt := h.older r hr
  omega

/-- A node that hands on its items adds a clause for the rows only. -/
theorem pass (h : Simulates I env before s items x) (hkind : node.kind.passes)
    {clause : BodyClause} {items' : List V}
    (hitems : items' = (I.clauseRows (I.rows env s.draft) clause).map fun row => I.eval row x) :
    Simulates I env (.step node before)
      ⟨{ s.draft with body := s.draft.body ++ [clause] }, s.context⟩ items' x where
  projects := (Projects.pass_iff hkind).mpr h.projects
  tidy := h.tidy
  older := h.older
  unended := h.unended
  items_eq := by rw [hitems, Interpretation.rows_concat]

/-- A node that expands its items adds a clause with a source of its own. -/
theorem expand (h : Simulates I env before s items x) {source : Source} {c : Lambda} {e y : Expr}
    {result : V → V → V} (hnew : source.id = s.context.nextId)
    (hc : ∀ row, I.eval row e = I.apply env c [I.eval row x])
    (hprojects : Projects (s.context.withSource node source).sources (.step node before) y)
    (htidy : y.Tidy) (holder : ∀ r ∈ y.references, r = source ∨ r ∈ x.references)
    (hy : ∀ row v, I.eval (row.withItem source v) y = result (I.eval row x) v) :
    Simulates I env (.step node before)
      ⟨{ s.draft with body := s.draft.body ++ [.additionalFrom ⟨source, e⟩] },
        s.context.withSource node source⟩ (I.expandBy env c result items) y where
  projects := hprojects
  tidy := htidy
  older := by
    intro r hr
    show r.id < s.context.nextId + 1
    rcases holder r hr with rfl | hold
    · omega
    · exact Nat.lt_succ_of_lt (h.older r hold)
  unended := h.unended
  items_eq := by
    rw [Interpretation.rows_concat, Interpretation.clauseRows, List.map_flatMap, h.items_eq,
      Interpretation.expandBy, List.flatMap_map]
    refine congrArg (List.flatMap · (I.rows env s.draft)) (funext fun row => ?_)
    rw [List.map_map, hc]
    exact List.map_congr_left fun v _ => (hy row v).symm

variable (h : Simulates I env before s items x)
include h

theorem filter {l : Lambda} {y : Expr} (hkind : node.kind = .filter l)
    (hy : ∀ row, I.eval row y = I.apply env l [I.eval row x]) :
    Simulates I env (.step node before)
      ⟨{ s.draft with body := s.draft.body ++ [.filter y] }, s.context⟩
      (I.filterBy env l items) x := by
  refine h.pass (by rw [hkind]; rfl) ?_
  rw [h.items_eq, Interpretation.filterBy, List.filter_map, Interpretation.clauseRows]
  simp only [hy, Function.comp_def]

theorem orderBy {l : Lambda} {direction : Direction} {y : Expr}
    (hkind : node.kind = .orderBy l direction)
    (hy : ∀ row, I.eval row y = I.apply env l [I.eval row x]) :
    Simulates I env (.step node before)
      ⟨{ s.draft with body := s.draft.body ++ [.orderBy [⟨y, direction⟩]] }, s.context⟩
      (I.sortBy env l direction items) x := by
  refine h.pass (by rw [hkind]; rfl) ?_
  rw [h.items_eq, Interpretation.sortBy, Interpretation.clauseRows]
  -- With one key alone the rows are compared as the items are, so both sorts make the same moves.
  refine (List.map_mergeSort fun row _ row' _ => ?_).symm
  simp only [Interpretation.rowPrecedes, hy, Bool.or_true, Bool.and_true]

/-- A projection to many items without a result selector goes on with the items of the new
source. -/
theorem selectMany {c : Lambda} {e : Expr} {source : Source}
    (hkind : node.kind = .selectMany c none) (hnew : source.id = s.context.nextId)
    (hunmapped : s.context.sources.contains node.id = false)
    (he : ∀ row, I.eval row e = I.apply env c [I.eval row x]) :
    ∃ y, Simulates I env (.step node before)
      ⟨{ s.draft with body := s.draft.body ++ [.additionalFrom ⟨source, e⟩] },
        s.context.withSource node source⟩ (I.expandBy env c (fun _ w => w) items) y := by
  refine ⟨.reference source, h.expand hnew he ?_ ?_ ?_ ?_⟩
  · rw [Projects]
    simp only [hkind]
    exact ⟨source, Context.find?_withSource_self hunmapped, rfl⟩
  · exact Expr.tidy_reference
  · intro r hr
    exact Or.inl (Expr.mem_references_reference.mp hr)
  · intro row v
    exact Env.withItem_item_self row source v

variable (hI : I.Lawful)
include hI

/-- A resolved lambda gives in each row what the lambda gives for the item of the row. -/
theorem eval_resolved {sourceCount : Nat} {l : Lambda} {y : Expr} (hl : l.SelfContained)
    (hcount : l.parameters.length = 1)
    (hresolved :
      Resolver.resolveLambda ⟨s.context.sources, sourceCount⟩ (.step node before) l = .ok y)
    (row : Env V) : I.eval row y = I.apply env l [I.eval row x] := by
  obtain ⟨p, hp, hresolves⟩ := Resolver.resolveLambda_eq_ok.mp hresolved
  obtain ⟨x', hx', rfl⟩ := resolves_iff.mp hresolves
  obtain ⟨p', hp'⟩ := List.length_eq_one_iff.mp hcount
  rw [hp'] at hp
  cases hp
  rw [hx'.unique h.projects]
  exact hI.eval_put_lambda hl hp' h.tidy env row

/-- A selection changes the item, and the rows not at all. -/
theorem select {l : Lambda} (hkind : node.kind = .select l) (hl : l.SelfContained)
    (hcount : l.parameters.length = 1) :
    ∃ y, Simulates I env (.step node before) s (I.mapBy env l items) y := by
  obtain ⟨p, hp⟩ := List.length_eq_one_iff.mp hcount
  refine ⟨before.put p x l.body, ?_, hl.tidy.put h.tidy, ?_, h.unended, ?_⟩
  · rw [Projects]
    simp only [hkind]
    exact ⟨p, by rw [hp]; rfl, resolves_iff.mpr ⟨x, h.projects, rfl⟩⟩
  · intro r hr
    rcases Lineage.references_put hr with hr | hr
    · rw [hl.unreferring] at hr
      cases hr
    · exact h.older r hr
  · rw [h.items_eq, Interpretation.mapBy, List.map_map]
    exact List.map_congr_left fun row _ => (hI.eval_put_lambda hl hp h.tidy env row).symm

/-- A result selector makes the item that goes on of the item before and of the new source. -/
theorem selectManyWithResult {c r : Lambda} {e : Expr} {source : Source}
    (hkind : node.kind = .selectMany c (some r)) (hnew : source.id = s.context.nextId)
    (hunmapped : s.context.sources.contains node.id = false)
    (he : ∀ row, I.eval row e = I.apply env c [I.eval row x])
    (hr : r.SelfContained) (hcount : r.parameters.length = 2) :
    ∃ y, Simulates I env (.step node before)
      ⟨{ s.draft with body := s.draft.body ++ [.additionalFrom ⟨source, e⟩] },
        s.context.withSource node source⟩
      (I.expandBy env c (fun v w => I.apply env r [v, w]) items) y := by
  obtain ⟨outer, inner, hp⟩ := List.length_eq_two.mp hcount
  let inserted := Expr.replace (.parameter inner) (.reference source) r.body
  refine ⟨before.put outer x inserted, h.expand hnew he ?_ ?_ ?_ ?_⟩
  · rw [Projects]
    simp only [hkind]
    exact ⟨source, outer, inner, Context.find?_withSource_self hunmapped, hp,
      resolves_iff.mpr ⟨x, h.projects.mono fun _ _ => Context.find?_withSource_of_some, rfl⟩⟩
  · exact (hr.tidy.replace Expr.tidy_reference).put h.tidy
  · intro t ht
    rcases Lineage.references_put ht with ht | ht
    · rcases Expr.references_replace ht with ht | ht
      · rw [hr.unreferring] at ht
        cases ht
      · exact Or.inl (Expr.mem_references_reference.mp ht)
    · exact Or.inr ht
  · intro row v
    -- The item before does not see the new source, so it means what it meant.
    rw [hI.eval_put_result hr hp h.tidy env, h.eval_withItem hnew, Env.withItem_item_self]

/-- **One step keeps items and rows together.** -/
theorem step {items' : List V} (hlineage : chain.lineage node = .step node before)
    (hwell : node.kind.WellFormed) (hself : ∀ l ∈ node.kind.lambdas, l.SelfContained)
    (hitems : I.kindItems env items node.kind = some items') (hstep : Step chain node s t) :
    ∃ y, Simulates I env (.step node before) t items' y := by
  cases hstep with
  | source kind _ _ =>
    cases hkind : node.kind with
    | constant _ | subQuery _ =>
      rw [hkind] at hitems
      cases hitems
    | _ =>
      rw [hkind] at kind
      cases kind
  | thenBy kind _ _ _ _ | groupBy kind _ _ _ | operator kind _ =>
    rw [kind] at hitems
    cases hitems
  | filter kind _ resolved _ =>
    rw [kind] at hitems hwell hself
    cases hitems
    rw [hlineage] at resolved
    have hl := hself _ (List.mem_singleton.mpr rfl)
    exact ⟨x, h.filter kind (h.eval_resolved hI hl hwell resolved)⟩
  | orderBy kind _ resolved _ =>
    rw [kind] at hitems hwell hself
    cases hitems
    rw [hlineage] at resolved
    have hl := hself _ (List.mem_singleton.mpr rfl)
    exact ⟨x, h.orderBy kind (h.eval_resolved hI hl hwell resolved)⟩
  | select kind _ _ =>
    rw [kind] at hitems hwell hself
    cases hitems
    exact h.select hI kind (hself _ (List.mem_singleton.mpr rfl)) hwell
  | @selectMany draft context c result e itemType kind _ resolved _ unmapped _ =>
    rw [kind] at hitems hwell hself
    rw [hlineage] at resolved
    have he := h.eval_resolved hI (hself c (List.mem_cons_self ..)) hwell.1 resolved
    cases result with
    | none =>
      cases hitems
      exact h.selectMany kind rfl unmapped he
    | some r =>
      cases hitems
      have hr := hself r (List.mem_cons_of_mem _ (List.mem_singleton.mpr rfl))
      exact h.selectManyWithResult hI kind rfl unmapped he hr (hwell.2 r rfl)

end Simulates

/-! ### Whole call trees -/

section Whole

variable {V : Type} {I : Interpretation V} (hI : I.Lawful) {env : Env V} {chain : Chain}
include hI

omit hI in
/-- Items and rows start together. -/
theorem Simulates.start {node : Node} {nextId : Nat} {type : Ty} {e : Expr} {t : Progress}
    (before : Lineage) (hkind : node.kind.origin? = some (type, e))
    (hstep : Step chain node (.start nextId) t) :
    ∃ x, Simulates I env (.step node before) t (I.elements (I.eval env e)) x := by
  cases hstep with
  | source kind _ unmapped =>
    cases hkind.symm.trans kind
    let source : Source := ⟨nextId, node.identifier, type⟩
    refine ⟨.reference source, ?_, Expr.tidy_reference, ?_, rfl, ?_⟩
    · have hmapped : (Context.withSource ⟨.empty, nextId⟩ node source).sources.find? node.id =
          some source := Context.find?_withSource_self unmapped
      rw [Projects]
      cases h : node.kind with
      | constant _ | subQuery _ => exact ⟨source, hmapped, rfl⟩
      | _ =>
        rw [h] at hkind
        cases hkind
    · intro r hr
      rw [Expr.mem_references_reference.mp hr]
      exact Nat.lt_succ_self nextId
    · have hvalue : (fun row => I.eval row (.reference source)) ∘ env.withItem source = id :=
        funext fun v => Env.withItem_item_self env source v
      show I.elements (I.eval env e) = ((I.elements (I.eval env e)).map (env.withItem source)).map _
      rw [List.map_map, hvalue, List.map_id]
  | filter kind _ _ _ | orderBy kind _ _ _ | thenBy kind _ _ _ _ | selectMany kind _ _ _ _ _
  | select kind _ _ | groupBy kind _ _ _ | operator kind _ =>
    rw [kind] at hkind
    cases hkind

/-- **A run keeps items and rows together.**  The induction is on the calls of the tree: each of
them has its node, and the step at the node follows the operator of the call. -/
theorem Reads.simulates (env : Env V) {error : ParseError}
    (hlineage : ∀ before node after, chain.nodes = before ++ node :: after →
      chain.lineage node = .step node (Lineage.back error before))
    {e : Expr} {kinds : List NodeKind} (hreads : Reads e kinds) (hquery : ListQuery e)
    {nodes rest : List Node} {nextId : Nat} {t : Progress} (hsplit : chain.nodes = nodes ++ rest)
    (hkinds : nodes.map Node.kind = kinds) (hrun : Run chain nodes (.start nextId) t) :
    ∃ items x, I.items env e = some items ∧
      Simulates I env (Lineage.back error nodes) t items x := by
  induction hreads generalizing nodes rest t with
  | constant _ | subQuery _ =>
    obtain ⟨node, rfl, hkind⟩ := List.map_eq_singleton_iff.mp hkinds
    cases hrun with
    | cons step rest =>
      cases rest
      obtain ⟨x, hx⟩ := Simulates.start (.broken error) (by rw [hkind]; rfl) step
      exact ⟨_, x, rfl, hx⟩
  | @call method source arguments kinds kind _ recognized ih =>
    obtain ⟨done, last, rfl, hdone, hlast⟩ := List.map_eq_append_iff.mp hkinds
    obtain ⟨node, rfl, rfl⟩ := List.map_eq_singleton_iff.mp hlast
    obtain ⟨s, hrun, hstep⟩ := Chain.run_concat_iff.mp hrun
    have hsplit' : chain.nodes = done ++ node :: rest := by
      rw [hsplit, List.append_assoc]
      rfl
    cases hquery with
    | source uncalled => exact absurd rfl (uncalled _ _)
    | call operator lambdas before =>
      -- The nodes done belong to the source of the call, the last node to the call itself.
      obtain ⟨items, x, hitems, hx⟩ := ih before hsplit' hdone hrun
      obtain ⟨hsame, hsome⟩ := I.operatorItems_eq env operator recognized items
      obtain ⟨items', hitems'⟩ := Option.isSome_iff_exists.mp hsome
      obtain ⟨y, hy⟩ := hx.step hI (hlineage _ _ _ hsplit') recognized.wellFormed
        (recognized.selfContained lambdas) hitems' hstep
      refine ⟨items', y, ?_, by rwa [Lineage.back_concat]⟩
      rw [Interpretation.items, hitems]
      exact hsame.trans hitems'

/-- A selector means the item that flows out of the last node. -/
theorem Resolver.eval_selector {resolver : Resolver} {lineage : Lineage} {selector x : Expr}
    (h : resolver.selector lineage = .ok selector) (hx : Projects resolver.sources lineage x)
    (htidy : x.Tidy) (row : Env V) : I.eval row selector = I.eval row x := by
  induction lineage with
  | broken error => cases h
  | step node before ih =>
    rw [Resolver.selector] at h
    cases hkind : node.kind with
    | select l =>
      rw [hkind] at h
      simp only [Projects, hkind] at hx
      obtain ⟨p, hp, hresolves⟩ := Resolver.resolveLambda_eq_ok.mp h
      obtain ⟨q, hq, hitem⟩ := hx
      cases hp.symm.trans hq
      rw [hresolves.unique hitem]
    | constant _ | subQuery _ | selectMany _ _ =>
      -- The selector is a parameter with the item put in for it.
      rw [hkind] at h
      obtain ⟨p, -, hresolves⟩ := Resolver.resolveItem_eq_ok.mp h
      obtain ⟨x', hx', rfl⟩ := resolves_iff.mp hresolves
      rw [hx'.unique hx, hI.eval_put Expr.tidy_parameter htidy, Interpretation.eval,
        Env.bind_parameter_self]
    | groupBy _ _ => simp only [Projects, hkind] at hx
    | filter _ | orderBy _ _ | thenBy _ _ | operator _ =>
      have hpass : node.kind.passes := by
        rw [hkind]
        rfl
      rw [hkind] at h
      exact ih h ((Projects.pass_iff hpass).mp hx)

/-- **Parsing preserves meaning.**  A call tree of operators on lists gives the same list when its
operators are run one after the other and when its model is read as a comprehension. -/
theorem Reader.parse_preserves_meaning (env : Env V) {settings : Settings} {e : Expr} {nextId : Nat}
    {model : Model} (hquery : ListQuery e)
    (hparse : ((ofSettings settings).parse e nextId).1 = .ok model) :
    model.operators = [] ∧ I.items env e = some (I.comprehend env model) := by
  obtain ⟨chain, hread, hmodel⟩ := Reader.parse_eq_ok.mp hparse
  obtain ⟨last, draft, context, selector, hlast, hrun, hselector, hfinish⟩ :=
    Chain.toModel_eq_ok.mp hmodel
  obtain ⟨mainFrom, hmain, rfl, -, -⟩ := Chain.finish_eq_ok.mp hfinish
  obtain ⟨hlinear, hreads⟩ := Reader.read_reads hread
  obtain ⟨error, hlineage⟩ := hlinear.lineage_eq
  obtain ⟨items, x, hitems, hx⟩ :=
    hreads.simulates hI env hlineage hquery (List.append_nil _).symm rfl hrun
  refine ⟨hx.unended, ?_⟩
  obtain ⟨before, hsplit⟩ := List.getLast?_eq_some_iff.mp hlast
  rw [hlineage before last [] hsplit, ← Lineage.back_concat, ← hsplit] at hselector
  rw [hitems, hx.items_eq, Interpretation.rows, hmain, Interpretation.comprehend]
  exact congrArg some (List.map_congr_left fun row _ =>
    (Resolver.eval_selector hI hselector hx.projects hx.tidy row).symm)

end Whole

namespace Sample

/-- `value(Cooks).Where(c => c.IsStarredCook).SelectMany(c => c.Assistants, (c, a) => new { c, a })
.OrderByDescending(c => c.a.Age).Select(c => c.c.Name)` -/
def cooksByAssistantAge : Expr :=
  let starred := call cooks "Where"
    [Lambda.quote ⟨[c], property "Cook" "IsStarredCook" .boolean (.parameter c)⟩] (.queryable cook)
  let byAge := call (pairs starred) "OrderByDescending" [Lambda.quote ⟨[both], assistantAge⟩]
    (.queryable pair)
  call byAge "Select" [Lambda.quote ⟨[both], cookName⟩] (.queryable .string)

theorem listQuery_cooksByAssistantAge : ListQuery cooksByAssistantAge :=
  .call (by decide) (by decide) (.call (by decide) (by decide) (.call (by decide) (by decide)
    (.call (by decide) (by decide) (.source fun _ _ h => nomatch h))))

def assistantOf (age : Int32) : Datum :=
  .record [(⟨"Assistant", "Age", .int32, .property⟩, .plain (.int32 age))]

def cookOf (name : String) (isStarred : Bool) (assistants : List Datum) : Datum :=
  .record [(⟨"Cook", "Name", .string, .property⟩, .plain (.string name)),
    (⟨"Cook", "IsStarredCook", .boolean, .property⟩, .plain (.boolean isStarred)),
    (⟨"Cook", "Assistants", .list assistant, .property⟩, .many assistants)]

/-- Three cooks, two of them starred. -/
def restaurant : Interpretation Datum :=
  Interpretation.withRecords
    { constant := fun value _ => match value with
        | .source "Cooks" => .many [cookOf "Ann" true [assistantOf 20, assistantOf 40],
            cookOf "Ben" false [assistantOf 50], cookOf "Cem" true [assistantOf 30]]
        | value => .plain value
      staticMember := fun _ => .plain .null
      read := fun _ _ => .plain .null
      unary := fun _ _ d => d
      binary := fun _ _ _ _ => .plain .null
      staticCall := fun _ _ => .plain .null
      methodCall := fun _ _ _ => .plain .null
      construct := fun _ _ _ => .plain .null
      constructWith := fun _ _ _ _ => .plain .null
      conditional := fun _ _ d _ => d
      closure := fun _ _ => .plain .null
      elements := fun
        | .many items => items
        | _ => []
      holds := fun
        | .plain (.boolean b) => b
        | _ => false
      le := fun
        | .plain (.int32 a), .plain (.int32 b) => a ≤ b
        | _, _ => true }

/-- Nothing stands for anything yet. -/
def unbound : Env Datum := ⟨fun _ => .plain .null, fun _ => .plain .null⟩

end Sample

theorem Reader.parse_preserves_meaning_cooksByAssistantAge :
    Sample.restaurant.Lawful ∧ ListQuery Sample.cooksByAssistantAge ∧
      ∃ model, ((ofSettings .default).parse Sample.cooksByAssistantAge 0).1 = .ok model ∧
        model.operators = [] ∧
        Sample.restaurant.items Sample.unbound Sample.cooksByAssistantAge =
          some (Sample.restaurant.comprehend Sample.unbound model) := by
  have hlawful : Sample.restaurant.Lawful := Interpretation.withRecords_lawful _
  have hquery := Sample.listQuery_cooksByAssistantAge
  obtain ⟨model, hparse⟩ :
      ∃ model, ((ofSettings .default).parse Sample.cooksByAssistantAge 0).1 = .ok model := ⟨_, rfl⟩
  exact ⟨hlawful, hquery, model, hparse,
    Reader.parse_preserves_meaning hlawful Sample.unbound hquery hparse⟩

end Comprehension
