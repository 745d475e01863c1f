import Comprehension.Chain.Assembly
import Comprehension.Proofs.Chain.Reading

/-! # Assembly, step by step

Clauses are made and added node by node.  `Chain.Step` says once what the assembly can do at a node:
which clause it makes, under which conditions, and what becomes of the draft and of the context.
`Chain.Run` strings the steps together, and `addClauses_eq_ok` says that the assembly of a list of
nodes succeeds exactly along a run.  An invariant of the assembly is then an invariant of single
steps (`Run.invariant`). -/
namespace Comprehension

/-! ### Clause making as a computation -/

/-- The context after a new source was made and remembered for a node. -/
def Context.withSource (context : Context) (node : Node) (source : Source) : Context :=
  ⟨⟨context.sources.entries ++ [(node.id, source)]⟩, context.nextId + 1⟩

/-- A new source is found for its node, unless the node had one before. -/
theorem Context.find?_withSource (context : Context) (node : Node) (source : Source) (id : Nat) :
    (context.withSource node source).sources.find? id =
      (context.sources.find? id).or (if node.id = id then some source else none) := by
  simp only [Context.withSource, SourceMap.find?, List.find?_append]
  cases context.sources.entries.find? (fun entry => entry.1 == id) with
  | some entry => rfl
  | none => by_cases h : node.id = id <;> simp [h]

theorem SourceMap.find?_eq_none_iff {map : SourceMap} {id : Nat} :
    map.find? id = none ↔ map.contains id = false := by
  rw [SourceMap.contains, Option.isSome_eq_false_iff, Option.isNone_iff_eq_none]

theorem Context.find?_withSource_self {context : Context} {node : Node} {source : Source}
    (hnew : context.sources.contains node.id = false) :
    (context.withSource node source).sources.find? node.id = some source := by
  rw [Context.find?_withSource, SourceMap.find?_eq_none_iff.mpr hnew, if_pos rfl]
  rfl

theorem Context.find?_withSource_of_some {context : Context} {node : Node} {source s : Source}
    {id : Nat} (h : context.sources.find? id = some s) :
    (context.withSource node source).sources.find? id = some s := by
  rw [Context.find?_withSource, h]
  rfl

theorem SourceMap.add_eq_ok {map map' : SourceMap} {node : Node} {source : Source} :
    map.add node source = .ok map' ↔
      map.contains node.id = false ∧ map' = ⟨map.entries ++ [(node.id, source)]⟩ := by
  rw [SourceMap.add]
  cases map.contains node.id <;> simp [eq_comm]

theorem Build.run_remember_eq_ok {node : Node} {source : Source} {s t : Context} {u : Unit} :
    (remember node source).run s = .ok u t ↔
      s.sources.contains node.id = false ∧
        t = { s with sources := ⟨s.sources.entries ++ [(node.id, source)]⟩ } := by
  have hrun : (remember node source).run s =
      (ofExcept (s.sources.add node source) >>= fun sources =>
        (set ({ s with sources := sources } : Context) : Build Unit)).run s := rfl
  simp only [hrun, run_bind_eq_ok, run_ofExcept_eq_ok, SourceMap.add_eq_ok, EStateM.run_set,
    EStateM.Result.ok.injEq]
  constructor
  · rintro ⟨map, s', ⟨⟨hnew, rfl⟩, rfl⟩, -, rfl⟩
    exact ⟨hnew, rfl⟩
  · rintro ⟨hnew, rfl⟩
    exact ⟨_, _, ⟨⟨hnew, rfl⟩, rfl⟩, trivial, rfl⟩

/-- A node gets a new source if it has none yet. -/
theorem Build.run_newSourceFor_eq_ok {node : Node} {name : String} {type : Ty} {source : Source}
    {s t : Context} :
    (newSourceFor node name type).run s = .ok source t ↔
      s.sources.contains node.id = false ∧ source = ⟨s.nextId, name, type⟩ ∧
        t = s.withSource node source := by
  have hnew : (newSource name type).run s =
      .ok ⟨s.nextId, name, type⟩ { s with nextId := s.nextId + 1 } := rfl
  simp only [newSourceFor, run_bind_eq_ok, hnew, EStateM.Result.ok.injEq, run_remember_eq_ok,
    run_pure_eq_ok]
  constructor
  · rintro ⟨_, _, ⟨rfl, rfl⟩, _, _, ⟨hfree, rfl⟩, rfl, rfl⟩
    exact ⟨hfree, rfl, rfl⟩
  · rintro ⟨hfree, rfl, rfl⟩
    exact ⟨_, _, ⟨rfl, rfl⟩, (), _, ⟨hfree, rfl⟩, rfl, rfl⟩

namespace Draft

theorem checkNoOperators_eq_ok {draft : Draft} {nodeType : String} {u : Unit} :
    draft.checkNoOperators nodeType = .ok u ↔ draft.operators = [] := by
  rw [checkNoOperators, ← List.getLast?_eq_none_iff]
  cases draft.operators.getLast? <;> simp

theorem extendSorting_eq_some {body body' : List BodyClause} {key : SortKey} :
    extendSorting body key = some body' ↔
      ∃ before keys, body = before ++ [.orderBy keys] ∧
        body' = before ++ [.orderBy (keys ++ [key])] := by
  rw [extendSorting, lastSorting?]
  constructor
  · intro h
    split at h
    · rename_i keys hlast
      obtain ⟨before, rfl⟩ := List.getLast?_eq_some_iff.mp hlast
      refine ⟨before, keys, rfl, ?_⟩
      simpa using h.symm
    · cases h
  · rintro ⟨before, keys, rfl, rfl⟩
    simp

/-- Adds what a node made: a clause, or nothing, as long as there is no result operator. -/
def addMade (draft : Draft) (nodeType : String) : Option Clause → Except ParseError Draft
  | some clause => draft.add nodeType clause
  | none => do
    draft.checkNoOperators nodeType
    return draft

section AddMade

variable {draft draft' : Draft} {nodeType : String}

theorem addMade_none_eq_ok :
    draft.addMade nodeType none = .ok draft' ↔ draft.operators = [] ∧ draft = draft' := by
  rw [addMade, bind_eq_ok]
  simp only [checkNoOperators_eq_ok, exists_const, pure, Except.pure, Except.ok.injEq]

theorem addMade_mainFrom_eq_ok {clause : FromClause} :
    draft.addMade nodeType (some (.mainFrom clause)) = .ok draft' ↔
      draft.mainFrom = none ∧ { draft with mainFrom := some clause } = draft' := by
  rw [addMade, add]
  cases draft.mainFrom <;> simp

theorem addMade_body_eq_ok {clause : BodyClause} :
    draft.addMade nodeType (some (.body clause)) = .ok draft' ↔
      draft.operators = [] ∧ { draft with body := draft.body ++ [clause] } = draft' := by
  rw [addMade, add, bind_eq_ok]
  simp only [checkNoOperators_eq_ok, exists_const, pure, Except.pure, Except.ok.injEq]

theorem addMade_sortKey_eq_ok {key : SortKey} :
    draft.addMade nodeType (some (.sortKey key)) = .ok draft' ↔
      draft.operators = [] ∧ ∃ before keys, draft.body = before ++ [.orderBy keys] ∧
        { draft with body := before ++ [.orderBy (keys ++ [key])] } = draft' := by
  rw [addMade, add, bind_eq_ok]
  simp only [checkNoOperators_eq_ok, exists_const]
  refine and_congr_right fun _ => ?_
  constructor
  · intro h
    split at h
    · rename_i body hbody
      obtain ⟨before, keys, hdraft, rfl⟩ := extendSorting_eq_some.mp hbody
      exact ⟨before, keys, hdraft, Except.ok.inj h⟩
    · cases h
  · rintro ⟨before, keys, hbody, rfl⟩
    rw [extendSorting_eq_some.mpr ⟨before, keys, hbody, rfl⟩]
    rfl

theorem addMade_operator_eq_ok {op : ResultOperator} :
    draft.addMade nodeType (some (.operator op)) = .ok draft' ↔
      { draft with operators := draft.operators ++ [op] } = draft' := by
  rw [addMade, add, Except.ok.injEq]

end AddMade

end Draft

/-! ### Steps -/

/-- The items and the expression of a source, if the kind is one. -/
def NodeKind.origin? : NodeKind → Option (Ty × Expr)
  | .constant s => some (s.elementType, s.toExpr)
  | .subQuery s => some (s.elementType, s.toExpr)
  | _ => none

theorem NodeKind.isSource_of_origin? {kind : NodeKind} {origin : Ty × Expr}
    (h : kind.origin? = some origin) : kind.isSource := by
  cases kind with
  | constant _ | subQuery _ => rfl
  | _ => cases h

theorem NodeKind.origin?_isSome {kind : NodeKind} (h : kind.isSource) : kind.origin?.isSome := by
  cases kind with
  | constant _ | subQuery _ => rfl
  | _ => cases h

/-- The lambda and the clause of a kind that makes its clause of one resolved lambda. -/
def NodeKind.single? : NodeKind → Option (Lambda × (Expr → Clause))
  | .filter l => some (l, fun e => .body (.filter e))
  | .orderBy l direction => some (l, fun e => .body (.orderBy [⟨e, direction⟩]))
  | .thenBy l direction => some (l, fun e => .sortKey ⟨e, direction⟩)
  | _ => none

/-- What the items of a further source are called: as the result selector calls them, if there is
one. -/
def Node.manyName (node : Node) (result : Option Lambda) : String :=
  ((result.bind fun r => r.parameters[1]?).map Parameter.name).getD node.identifier

/-- What a grouping keeps of each item: what its element selector says, or all of it. -/
def Resolver.element (resolver : Resolver) (lineage : Lineage) :
    Option Lambda → Except ParseError Expr
  | some l => resolver.resolveLambda lineage l
  | none => resolver.resolveItem lineage.before

namespace Chain

/-- The state of the assembly between two nodes. -/
structure Progress where
  draft : Draft
  context : Context

/-- What the assembly does at a node. -/
inductive Step (chain : Chain) (node : Node) : Progress → Progress → Prop
  | source {draft : Draft} {context : Context} {type : Ty} {expression : Expr}
      (kind : node.kind.origin? = some (type, expression))
      (first : draft.mainFrom = none)
      (unmapped : context.sources.contains node.id = false) :
    Step chain node ⟨draft, context⟩
      ⟨{ draft with mainFrom := some ⟨⟨context.nextId, node.identifier, type⟩, expression⟩ },
        context.withSource node ⟨context.nextId, node.identifier, type⟩⟩
  | filter {draft : Draft} {context : Context} {l : Lambda} {e : Expr}
      (kind : node.kind = .filter l)
      (later : draft.mainFrom.isSome)
      (resolved : (chain.resolver context.sources).resolveLambda (chain.lineage node) l = .ok e)
      (unended : draft.operators = []) :
    Step chain node ⟨draft, context⟩ ⟨{ draft with body := draft.body ++ [.filter e] }, context⟩
  | orderBy {draft : Draft} {context : Context} {l : Lambda} {direction : Direction} {e : Expr}
      (kind : node.kind = .orderBy l direction)
      (later : draft.mainFrom.isSome)
      (resolved : (chain.resolver context.sources).resolveLambda (chain.lineage node) l = .ok e)
      (unended : draft.operators = []) :
    Step chain node ⟨draft, context⟩
      ⟨{ draft with body := draft.body ++ [.orderBy [⟨e, direction⟩]] }, context⟩
  | thenBy {draft : Draft} {context : Context} {l : Lambda} {direction : Direction} {e : Expr}
      {body : List BodyClause} {keys : List SortKey}
      (kind : node.kind = .thenBy l direction)
      (later : draft.mainFrom.isSome)
      (resolved : (chain.resolver context.sources).resolveLambda (chain.lineage node) l = .ok e)
      (unended : draft.operators = [])
      (sorting : draft.body = body ++ [.orderBy keys]) :
    Step chain node ⟨draft, context⟩
      ⟨{ draft with body := body ++ [.orderBy (keys ++ [⟨e, direction⟩])] }, context⟩
  | selectMany {draft : Draft} {context : Context} {l : Lambda} {result : Option Lambda} {e : Expr}
      {itemType : Ty}
      (kind : node.kind = .selectMany l result)
      (later : draft.mainFrom.isSome)
      (resolved : (chain.resolver context.sources).resolveLambda (chain.lineage node) l = .ok e)
      (items : e.type.element? = some itemType)
      (unmapped : context.sources.contains node.id = false)
      (unended : draft.operators = []) :
    Step chain node ⟨draft, context⟩
      ⟨{ draft with
          body := draft.body ++
            [.additionalFrom ⟨⟨context.nextId, node.manyName result, itemType⟩, e⟩] },
        context.withSource node ⟨context.nextId, node.manyName result, itemType⟩⟩
  | select {draft : Draft} {context : Context} {l : Lambda}
      (kind : node.kind = .select l)
      (later : draft.mainFrom.isSome)
      (unended : draft.operators = []) :
    Step chain node ⟨draft, context⟩ ⟨draft, context⟩
  | groupBy {draft : Draft} {context : Context} {l : Lambda} {element : Option Lambda}
      {key e : Expr}
      (kind : node.kind = .groupBy l element)
      (later : draft.mainFrom.isSome)
      (resolved : (chain.resolver context.sources).resolveLambda (chain.lineage node) l = .ok key)
      (kept : (chain.resolver context.sources).element (chain.lineage node) element = .ok e) :
    Step chain node ⟨draft, context⟩
      ⟨{ draft with operators := draft.operators ++ [.group node.identifier key e] }, context⟩
  | operator {draft : Draft} {context : Context} {op : ResultOperator}
      (kind : node.kind = .operator op)
      (later : draft.mainFrom.isSome) :
    Step chain node ⟨draft, context⟩
      ⟨{ draft with operators := draft.operators ++ [op] }, context⟩

/-- The assembly of a list of nodes, one step after the other. -/
inductive Run (chain : Chain) : List Node → Progress → Progress → Prop
  | nil (s : Progress) : Run chain [] s s
  | cons {node : Node} {nodes : List Node} {s t u : Progress} (step : Step chain node s t)
      (rest : Run chain nodes t u) : Run chain (node :: nodes) s u

/-- **What single steps keep, a run keeps.**  The invariant may speak of the nodes done so far. -/
theorem Run.invariant {chain : Chain} {P : List Node → Progress → Prop}
    (hstep : ∀ {before after : List Node} {node : Node} {s t : Progress},
      chain.nodes = before ++ node :: after → P before s → Step chain node s t →
        P (before ++ [node]) t)
    {s t : Progress} (hrun : Run chain chain.nodes s t) (h : P [] s) : P chain.nodes t := by
  suffices key : ∀ {before nodes : List Node} {s t : Progress}, chain.nodes = before ++ nodes →
      Run chain nodes s t → P before s → P chain.nodes t from key rfl hrun h
  intro before nodes s t hnodes hrun h
  induction hrun generalizing before with
  | nil s =>
    rw [hnodes, List.append_nil]
    exact h
  | @cons node nodes s u t hfirst _ ih =>
    have hnext : chain.nodes = (before ++ [node]) ++ nodes := by
      rw [hnodes, List.append_assoc]
      rfl
    exact ih hnext (hstep hnodes h hfirst)

/-- A run ends with the step at its last node. -/
theorem run_concat_iff {chain : Chain} {node : Node} {nodes : List Node} {s u : Progress} :
    Run chain (nodes ++ [node]) s u ↔ ∃ t, Run chain nodes s t ∧ Step chain node t u := by
  induction nodes generalizing s with
  | nil =>
    constructor
    · intro h
      cases h with
      | cons step rest =>
        cases rest
        exact ⟨s, .nil s, step⟩
    · rintro ⟨t, h, step⟩
      cases h
      exact .cons step (.nil u)
  | cons n nodes ih =>
    constructor
    · intro h
      cases h with
      | cons step rest =>
        obtain ⟨t, hrun, hlast⟩ := ih.mp rest
        exact ⟨t, .cons step hrun, hlast⟩
    · rintro ⟨t, h, hlast⟩
      cases h with
      | cons step rest => exact .cons step (ih.mpr ⟨t, rest, hlast⟩)

/-! ### The assembly takes these steps -/

section Made

variable {chain : Chain} {node : Node} {context context' : Context} {made : Option Clause}

/-- A source makes the main from clause, and a source of its own. -/
theorem run_mainFromClause_eq_ok {type : Ty} {expression : Expr} :
    (mainFromClause node type expression).run context = .ok made context' ↔
      context.sources.contains node.id = false ∧
        made = some (.mainFrom ⟨⟨context.nextId, node.identifier, type⟩, expression⟩) ∧
        context' = context.withSource node ⟨context.nextId, node.identifier, type⟩ := by
  rw [mainFromClause]
  simp only [Build.run_bind_eq_ok, Build.run_newSourceFor_eq_ok, Build.run_pure_eq_ok]
  constructor
  · rintro ⟨_, _, ⟨hfree, rfl, rfl⟩, rfl, rfl⟩
    exact ⟨hfree, rfl, rfl⟩
  · rintro ⟨hfree, rfl, rfl⟩
    exact ⟨_, _, ⟨hfree, rfl, rfl⟩, rfl, rfl⟩

/-- A node with one lambda makes a clause of the resolved lambda. -/
theorem run_resolved_eq_ok {x : Except ParseError Expr} {f : Expr → Clause} :
    (Build.ofExcept x >>= fun e => (pure (some (f e)) : Build (Option Clause))).run context =
        .ok made context' ↔
      ∃ e, x = .ok e ∧ made = some (f e) ∧ context' = context := by
  simp only [Build.run_bind_eq_ok, Build.run_ofExcept_eq_ok, Build.run_pure_eq_ok]
  constructor
  · rintro ⟨e, _, ⟨hx, rfl⟩, rfl, rfl⟩
    exact ⟨e, hx, rfl, rfl⟩
  · rintro ⟨e, hx, rfl, rfl⟩
    exact ⟨e, _, ⟨hx, rfl⟩, rfl, rfl⟩

theorem run_laterClause_single {l : Lambda} {f : Expr → Clause}
    (hkind : node.kind.single? = some (l, f)) :
    (chain.laterClause node).run context = .ok made context' ↔
      ∃ e, (chain.resolver context.sources).resolveLambda (chain.lineage node) l = .ok e ∧
        made = some (f e) ∧ context' = context := by
  rw [← run_resolved_eq_ok, laterClause]
  cases h : node.kind with
  | filter _ | orderBy _ _ | thenBy _ _ =>
    rw [h] at hkind
    cases hkind
    rfl
  | _ =>
    rw [h] at hkind
    cases hkind

theorem run_laterClause_select {l : Lambda} (hkind : node.kind = .select l) :
    (chain.laterClause node).run context = .ok made context' ↔
      made = none ∧ context' = context := by
  rw [laterClause]
  simp only [hkind]
  show (pure none : Build (Option Clause)).run context = _ ↔ _
  rw [Build.run_pure_eq_ok, eq_comm, @eq_comm _ context]

theorem run_laterClause_operator {op : ResultOperator} (hkind : node.kind = .operator op) :
    (chain.laterClause node).run context = .ok made context' ↔
      made = some (.operator op) ∧ context' = context := by
  rw [laterClause]
  simp only [hkind]
  show (pure (some (.operator op)) : Build (Option Clause)).run context = _ ↔ _
  rw [Build.run_pure_eq_ok, eq_comm, @eq_comm _ context]

theorem run_laterClause_selectMany {l : Lambda} {result : Option Lambda}
    (hkind : node.kind = .selectMany l result) :
    (chain.laterClause node).run context = .ok made context' ↔
      ∃ e itemType,
        (chain.resolver context.sources).resolveLambda (chain.lineage node) l = .ok e ∧
        e.type.element? = some itemType ∧ context.sources.contains node.id = false ∧
        made = some (.body (.additionalFrom
          ⟨⟨context.nextId, node.manyName result, itemType⟩, e⟩)) ∧
        context' = context.withSource node ⟨context.nextId, node.manyName result, itemType⟩ := by
  have hrun : (chain.laterClause node).run context =
      (Build.ofExcept ((chain.resolver context.sources).resolveLambda (chain.lineage node) l) >>=
        fun e => Build.ofExcept (itemsOf e.type) >>= fun itemType =>
          Build.newSourceFor node (node.manyName result) itemType >>= fun source =>
            (pure (some (.body (.additionalFrom ⟨source, e⟩))) : Build (Option Clause))).run
        context := by
    rw [laterClause]
    simp only [hkind]
    rfl
  simp only [hrun, Build.run_bind_eq_ok, Build.run_ofExcept_eq_ok, itemsOf_eq_ok,
    Build.run_newSourceFor_eq_ok, Build.run_pure_eq_ok]
  constructor
  · rintro ⟨e, _, ⟨he, rfl⟩, itemType, _, ⟨hitems, rfl⟩, _, _, ⟨hfree, rfl, rfl⟩, rfl, rfl⟩
    exact ⟨e, itemType, he, hitems, hfree, rfl, rfl⟩
  · rintro ⟨e, itemType, he, hitems, hfree, rfl, rfl⟩
    exact ⟨e, _, ⟨he, rfl⟩, itemType, _, ⟨hitems, rfl⟩, _, _, ⟨hfree, rfl, rfl⟩, rfl, rfl⟩

theorem run_laterClause_groupBy {l : Lambda} {element : Option Lambda}
    (hkind : node.kind = .groupBy l element) :
    (chain.laterClause node).run context = .ok made context' ↔
      ∃ key e, (chain.resolver context.sources).resolveLambda (chain.lineage node) l = .ok key ∧
        (chain.resolver context.sources).element (chain.lineage node) element = .ok e ∧
        made = some (.operator (.group node.identifier key e)) ∧ context' = context := by
  have hrun : (chain.laterClause node).run context =
      (Build.ofExcept ((chain.resolver context.sources).resolveLambda (chain.lineage node) l) >>=
        fun key => Build.ofExcept
          ((chain.resolver context.sources).element (chain.lineage node) element) >>= fun e =>
            (pure (some (.operator (.group node.identifier key e))) :
              Build (Option Clause))).run context := by
    rw [laterClause]
    simp only [hkind]
    cases element <;> rfl
  simp only [hrun, Build.run_bind_eq_ok, Build.run_ofExcept_eq_ok, Build.run_pure_eq_ok]
  constructor
  · rintro ⟨key, _, ⟨hkey, rfl⟩, e, _, ⟨he, rfl⟩, rfl, rfl⟩
    exact ⟨key, e, hkey, he, rfl, rfl⟩
  · rintro ⟨key, e, hkey, he, rfl, rfl⟩
    exact ⟨key, _, ⟨hkey, rfl⟩, e, _, ⟨he, rfl⟩, rfl, rfl⟩

variable {previous : Option Clause}

/-- A source makes its clause only when nothing came before it. -/
theorem run_createClause_source {type : Ty} {expression : Expr}
    (hkind : node.kind.origin? = some (type, expression)) :
    (chain.createClause node previous).run context = .ok made context' ↔
      previous = none ∧ context.sources.contains node.id = false ∧
        made = some (.mainFrom ⟨⟨context.nextId, node.identifier, type⟩, expression⟩) ∧
        context' = context.withSource node ⟨context.nextId, node.identifier, type⟩ := by
  rw [createClause.eq_def]
  cases h : node.kind with
  | constant _ | subQuery _ =>
    rw [h] at hkind
    cases hkind
    cases previous with
    | none => simp only [run_mainFromClause_eq_ok, true_and]
    | some _ => exact iff_of_false Build.run_throw_ne_ok fun h => nomatch h.1
  | _ =>
    rw [h] at hkind
    cases hkind

/-- Every other node makes its clause only after something else. -/
theorem run_createClause_later (hkind : node.kind.origin? = none) :
    (chain.createClause node previous).run context = .ok made context' ↔
      previous.isSome ∧ (chain.laterClause node).run context = .ok made context' := by
  rw [createClause.eq_def]
  cases h : node.kind with
  | constant _ | subQuery _ =>
    rw [h] at hkind
    cases hkind
  | _ =>
    cases previous with
    | none => exact iff_of_false Build.run_throw_ne_ok fun h => nomatch h.1
    | some _ => simp

/-- Nothing is made only after something else. -/
theorem isSome_of_run_createClause_none
    (h : (chain.createClause node previous).run context = .ok none context') :
    previous.isSome := by
  cases horigin : node.kind.origin? with
  | none => exact ((run_createClause_later horigin).mp h).1
  | some o =>
    obtain ⟨-, -, hmade, -⟩ := (run_createClause_source horigin).mp h
    cases hmade

end Made

/-- **The assembly at a node is a step.**  `previous` is there exactly when a main from clause
is. -/
theorem step_iff {chain : Chain} {node : Node} {previous : Option Clause} {s t : Progress}
    (hprevious : previous.isSome = s.draft.mainFrom.isSome) :
    (∃ made, (chain.createClause node previous).run s.context = .ok made t.context ∧
      s.draft.addMade node.typeName made = .ok t.draft) ↔ Step chain node s t := by
  obtain ⟨draft, context⟩ := s
  obtain ⟨draft', context'⟩ := t
  constructor
  · rintro ⟨made, hmade, hadd⟩
    -- What was made is known by the kind of the node, and with it what it takes to add it.
    cases hkind : node.kind with
    | constant _ | subQuery _ =>
      obtain ⟨-, hfree, rfl, hcontext⟩ :=
        (run_createClause_source (by rw [hkind]; rfl)).mp hmade
      obtain ⟨hfirst, rfl⟩ := Draft.addMade_mainFrom_eq_ok.mp hadd
      cases hcontext
      exact .source (by rw [hkind]; rfl) hfirst hfree
    | select l =>
      obtain ⟨hsome, hmade⟩ := (run_createClause_later (by rw [hkind]; rfl)).mp hmade
      obtain ⟨rfl, hcontext⟩ := (run_laterClause_select hkind).mp hmade
      obtain ⟨hoperators, rfl⟩ := Draft.addMade_none_eq_ok.mp hadd
      cases hcontext
      exact .select hkind (hprevious ▸ hsome) hoperators
    | filter l =>
      obtain ⟨hsome, hmade⟩ := (run_createClause_later (by rw [hkind]; rfl)).mp hmade
      obtain ⟨e, he, rfl, hcontext⟩ := (run_laterClause_single (by rw [hkind]; rfl)).mp hmade
      obtain ⟨hoperators, rfl⟩ := Draft.addMade_body_eq_ok.mp hadd
      cases hcontext
      exact .filter hkind (hprevious ▸ hsome) he hoperators
    | orderBy l direction =>
      obtain ⟨hsome, hmade⟩ := (run_createClause_later (by rw [hkind]; rfl)).mp hmade
      obtain ⟨e, he, rfl, hcontext⟩ := (run_laterClause_single (by rw [hkind]; rfl)).mp hmade
      obtain ⟨hoperators, rfl⟩ := Draft.addMade_body_eq_ok.mp hadd
      cases hcontext
      exact .orderBy hkind (hprevious ▸ hsome) he hoperators
    | thenBy l direction =>
      obtain ⟨hsome, hmade⟩ := (run_createClause_later (by rw [hkind]; rfl)).mp hmade
      obtain ⟨e, he, rfl, hcontext⟩ := (run_laterClause_single (by rw [hkind]; rfl)).mp hmade
      obtain ⟨hoperators, before, keys, hbody, rfl⟩ := Draft.addMade_sortKey_eq_ok.mp hadd
      cases hcontext
      exact .thenBy hkind (hprevious ▸ hsome) he hoperators hbody
    | selectMany l result =>
      obtain ⟨hsome, hmade⟩ := (run_createClause_later (by rw [hkind]; rfl)).mp hmade
      obtain ⟨e, itemType, he, hitems, hfree, rfl, hcontext⟩ :=
        (run_laterClause_selectMany hkind).mp hmade
      obtain ⟨hoperators, rfl⟩ := Draft.addMade_body_eq_ok.mp hadd
      cases hcontext
      exact .selectMany hkind (hprevious ▸ hsome) he hitems hfree hoperators
    | groupBy l element =>
      obtain ⟨hsome, hmade⟩ := (run_createClause_later (by rw [hkind]; rfl)).mp hmade
      obtain ⟨key, e, hkey, he, rfl, hcontext⟩ := (run_laterClause_groupBy hkind).mp hmade
      cases Draft.addMade_operator_eq_ok.mp hadd
      cases hcontext
      exact .groupBy hkind (hprevious ▸ hsome) hkey he
    | operator op =>
      obtain ⟨hsome, hmade⟩ := (run_createClause_later (by rw [hkind]; rfl)).mp hmade
      obtain ⟨rfl, hcontext⟩ := (run_laterClause_operator hkind).mp hmade
      cases Draft.addMade_operator_eq_ok.mp hadd
      cases hcontext
      exact .operator hkind (hprevious ▸ hsome)
  · intro h
    cases h with
    | source kind first unmapped =>
      have hnone : previous = none := by simpa [first] using hprevious
      exact ⟨_, (run_createClause_source kind).mpr ⟨hnone, unmapped, rfl, rfl⟩,
        Draft.addMade_mainFrom_eq_ok.mpr ⟨first, rfl⟩⟩
    | select kind later unended =>
      exact ⟨_, (run_createClause_later (by rw [kind]; rfl)).mpr
          ⟨hprevious.trans later, (run_laterClause_select kind).mpr ⟨rfl, rfl⟩⟩,
        Draft.addMade_none_eq_ok.mpr ⟨unended, rfl⟩⟩
    | filter kind later resolved unended =>
      exact ⟨_, (run_createClause_later (by rw [kind]; rfl)).mpr
          ⟨hprevious.trans later,
            (run_laterClause_single (by rw [kind]; rfl)).mpr ⟨_, resolved, rfl, rfl⟩⟩,
        Draft.addMade_body_eq_ok.mpr ⟨unended, rfl⟩⟩
    | orderBy kind later resolved unended =>
      exact ⟨_, (run_createClause_later (by rw [kind]; rfl)).mpr
          ⟨hprevious.trans later,
            (run_laterClause_single (by rw [kind]; rfl)).mpr ⟨_, resolved, rfl, rfl⟩⟩,
        Draft.addMade_body_eq_ok.mpr ⟨unended, rfl⟩⟩
    | thenBy kind later resolved unended sorting =>
      exact ⟨_, (run_createClause_later (by rw [kind]; rfl)).mpr
          ⟨hprevious.trans later,
            (run_laterClause_single (by rw [kind]; rfl)).mpr ⟨_, resolved, rfl, rfl⟩⟩,
        Draft.addMade_sortKey_eq_ok.mpr ⟨unended, _, _, sorting, rfl⟩⟩
    | selectMany kind later resolved items unmapped unended =>
      exact ⟨_, (run_createClause_later (by rw [kind]; rfl)).mpr
          ⟨hprevious.trans later,
            (run_laterClause_selectMany kind).mpr ⟨_, _, resolved, items, unmapped, rfl, rfl⟩⟩,
        Draft.addMade_body_eq_ok.mpr ⟨unended, rfl⟩⟩
    | groupBy kind later resolved kept =>
      exact ⟨_, (run_createClause_later (by rw [kind]; rfl)).mpr
          ⟨hprevious.trans later,
            (run_laterClause_groupBy kind).mpr ⟨_, _, resolved, kept, rfl, rfl⟩⟩,
        Draft.addMade_operator_eq_ok.mpr rfl⟩
    | operator kind later =>
      exact ⟨_, (run_createClause_later (by rw [kind]; rfl)).mpr
          ⟨hprevious.trans later, (run_laterClause_operator kind).mpr ⟨rfl, rfl⟩⟩,
        Draft.addMade_operator_eq_ok.mpr rfl⟩

/-- After a step there is a main from clause. -/
theorem Step.mainFrom_isSome {chain : Chain} {node : Node} {s t : Progress}
    (h : Step chain node s t) : t.draft.mainFrom.isSome := by
  cases h with
  | source => rfl
  | _ => assumption

/-- What was made last is there again exactly when a main from clause is. -/
theorem Step.isSome_or {chain : Chain} {node : Node} {previous made : Option Clause}
    {s t : Progress} {context : Context} (h : Step chain node s t)
    (hmade : (chain.createClause node previous).run s.context = .ok made context) :
    (made.or previous).isSome = t.draft.mainFrom.isSome := by
  rw [h.mainFrom_isSome]
  cases made with
  | some clause => rfl
  | none => exact isSome_of_run_createClause_none hmade

/-- The assembly goes through its nodes one by one: it makes what the node gives, adds it, and goes
on. -/
theorem addClauses_cons (chain : Chain) (node : Node) (nodes : List Node) (draft : Draft)
    (previous : Option Clause) :
    chain.addClauses (node :: nodes) draft previous =
      (chain.createClause node previous >>= fun made =>
        Build.ofExcept (draft.addMade node.typeName made) >>= fun next =>
          chain.addClauses nodes next (made.or previous)) := by
  rw [addClauses]
  refine congrArg (chain.createClause node previous >>= ·) (funext fun made => ?_)
  cases made with
  | some clause => rfl
  | none =>
    rw [Draft.addMade]
    cases draft.checkNoOperators node.typeName <;> rfl

theorem addClauses_cons_eq_ok {chain : Chain} {node : Node} {nodes : List Node} {draft : Draft}
    {previous : Option Clause} {context : Context} {draft' : Draft} {context' : Context} :
    (chain.addClauses (node :: nodes) draft previous).run context = .ok draft' context' ↔
      ∃ (made : Option Clause) (u : Progress),
        (chain.createClause node previous).run context = .ok made u.context ∧
        draft.addMade node.typeName made = .ok u.draft ∧
        (chain.addClauses nodes u.draft (made.or previous)).run u.context =
          .ok draft' context' := by
  rw [addClauses_cons, Build.run_bind_eq_ok]
  constructor
  · rintro ⟨made, u, hmade, h⟩
    obtain ⟨d, _, hrun, h⟩ := Build.run_bind_eq_ok.mp h
    obtain ⟨hadd, rfl⟩ := Build.run_ofExcept_eq_ok.mp hrun
    exact ⟨made, ⟨d, u⟩, hmade, hadd, h⟩
  · rintro ⟨made, ⟨d, u⟩, hmade, hadd, h⟩
    exact ⟨made, u, hmade,
      Build.run_bind_eq_ok.mpr ⟨d, u, Build.run_ofExcept_eq_ok.mpr ⟨hadd, rfl⟩, h⟩⟩

/-- **The assembly succeeds exactly along a run.** -/
theorem addClauses_eq_ok {chain : Chain} {nodes : List Node} {previous : Option Clause}
    {s t : Progress} (hprevious : previous.isSome = s.draft.mainFrom.isSome) :
    (chain.addClauses nodes s.draft previous).run s.context = .ok t.draft t.context ↔
      Run chain nodes s t := by
  induction nodes generalizing s previous with
  | nil =>
    rw [addClauses, Build.run_pure_eq_ok]
    constructor
    · rintro ⟨hdraft, hcontext⟩
      obtain rfl : s = t := by
        cases s
        cases t
        cases hdraft
        cases hcontext
        rfl
      exact .nil s
    · intro h
      cases h
      exact ⟨rfl, rfl⟩
  | cons node nodes ih =>
    rw [addClauses_cons_eq_ok]
    constructor
    · rintro ⟨made, u, hmade, hadd, hrest⟩
      have hstep := (step_iff hprevious).mp ⟨made, hmade, hadd⟩
      exact .cons hstep ((ih (hstep.isSome_or hmade)).mp hrest)
    · intro h
      cases h with
      | cons hstep hrest =>
        obtain ⟨made, hmade, hadd⟩ := (step_iff hprevious).mpr hstep
        exact ⟨made, _, hmade, hadd, (ih (hstep.isSome_or hmade)).mpr hrest⟩

/-! ### The finished model -/

/-- The state before the first node. -/
def Progress.start (nextId : Nat) : Progress := ⟨.empty, ⟨.empty, nextId⟩⟩

/-- A chain gives a draft and a selector along a run, when what flows out of its last node can be
resolved. -/
theorem draftAndSelector_eq_ok {chain : Chain} {last : Node} {nextId : Nat} {draft : Draft}
    {selector : Expr} {context : Context} :
    (chain.draftAndSelector last).run ⟨.empty, nextId⟩ = .ok (draft, selector) context ↔
      Run chain chain.nodes (.start nextId) ⟨draft, context⟩ ∧
        (chain.resolver context.sources).selector (chain.lineage last) = .ok selector := by
  have hrun : ∀ {d c}, (chain.addClauses chain.nodes .empty none).run ⟨.empty, nextId⟩ = .ok d c ↔
      Run chain chain.nodes (.start nextId) ⟨d, c⟩ :=
    fun {d c} => addClauses_eq_ok (s := .start nextId) (t := ⟨d, c⟩) rfl
  have hselect : ∀ {d : Draft} {c : Context},
      (do
        let sources := (← get).sources
        let selector ← Build.ofExcept ((chain.resolver sources).selector (chain.lineage last))
        return (d, selector) : Build (Draft × Expr)).run c = .ok (draft, selector) context ↔
      d = draft ∧ c = context ∧
        (chain.resolver c.sources).selector (chain.lineage last) = .ok selector := by
    intro d c
    show (Build.ofExcept _ >>= fun selector => pure (d, selector) : Build (Draft × Expr)).run c = _
      ↔ _
    simp only [Build.run_bind_eq_ok, Build.run_ofExcept_eq_ok, Build.run_pure_eq_ok, Prod.mk.injEq]
    constructor
    · rintro ⟨x, _, ⟨hx, rfl⟩, ⟨rfl, rfl⟩, rfl⟩
      exact ⟨rfl, rfl, hx⟩
    · rintro ⟨rfl, rfl, hx⟩
      exact ⟨selector, c, ⟨hx, rfl⟩, ⟨rfl, rfl⟩, rfl⟩
  rw [draftAndSelector, Build.run_bind_eq_ok]
  simp only [hselect]
  constructor
  · rintro ⟨d, c, hd, rfl, rfl, hs⟩
    exact ⟨hrun.mp hd, hs⟩
  · rintro ⟨hd, hs⟩
    exact ⟨draft, context, hrun.mpr hd, rfl, rfl, hs⟩

/-- A draft is finished when it has a main from clause and the model passes its checks. -/
theorem finish_eq_ok {draft : Draft} {selector : Expr} {model : Model} :
    draft.finish selector = .ok model ↔
      ∃ mainFrom, draft.mainFrom = some mainFrom ∧
        model = ⟨mainFrom, draft.body, selector, draft.operators⟩ ∧
        (∃ shape, model.shape = .ok shape) ∧ model.checkReferences = .ok () := by
  rw [Draft.finish]
  cases draft.mainFrom with
  | none => simp
  | some mainFrom =>
    simp only [bind_eq_ok, liftModelError_eq_ok, pure, Except.pure, Except.ok.injEq,
      Option.some.injEq]
    constructor
    · rintro ⟨shape, hshape, _, hreferences, rfl⟩
      exact ⟨mainFrom, rfl, rfl, ⟨shape, hshape⟩, hreferences⟩
    · rintro ⟨_, rfl, rfl, ⟨shape, hshape⟩, hreferences⟩
      exact ⟨shape, hshape, (), hreferences, rfl⟩

/-- **When a chain has a model.**  All its nodes can be gone through, the item at its end can be
resolved, and the model passes its checks.  The identities given out are those of the run. -/
theorem toModel_eq {chain : Chain} {nextId next : Nat} {model : Model} :
    chain.toModel nextId = (.ok model, next) ↔
      ∃ last draft context selector, chain.last? = some last ∧
        Run chain chain.nodes (.start nextId) ⟨draft, context⟩ ∧
        (chain.resolver context.sources).selector (chain.lineage last) = .ok selector ∧
        draft.finish selector = .ok model ∧ context.nextId = next := by
  have hpair : chain.toModel nextId = (.ok model, next) ↔
      ∃ context, chain.assemble.run ⟨.empty, nextId⟩ = .ok model context ∧
        context.nextId = next := by
    rw [toModel]
    cases chain.assemble.run ⟨.empty, nextId⟩ <;> simp [and_assoc]
  rw [hpair, assemble]
  cases chain.last? with
  | none =>
    constructor
    · rintro ⟨_, h, -⟩
      cases h
    · rintro ⟨_, _, _, _, h, -⟩
      cases h
  | some last =>
    simp only [Option.some.injEq]
    constructor
    · rintro ⟨context, h, hnext⟩
      obtain ⟨⟨draft, selector⟩, c, hdraft, h⟩ := Build.run_bind_eq_ok.mp h
      obtain ⟨hfinish, rfl⟩ := Build.run_ofExcept_eq_ok.mp h
      obtain ⟨hrun, hselector⟩ := draftAndSelector_eq_ok.mp hdraft
      exact ⟨last, draft, c, selector, rfl, hrun, hselector, hfinish, hnext⟩
    · rintro ⟨_, draft, context, selector, rfl, hrun, hselector, hfinish, hnext⟩
      refine ⟨context, Build.run_bind_eq_ok.mpr ⟨(draft, selector), context, ?_, ?_⟩, hnext⟩
      · exact draftAndSelector_eq_ok.mpr ⟨hrun, hselector⟩
      · exact Build.run_ofExcept_eq_ok.mpr ⟨hfinish, rfl⟩

theorem toModel_eq_ok {chain : Chain} {nextId : Nat} {model : Model} :
    (chain.toModel nextId).1 = .ok model ↔
      ∃ last draft context selector, chain.last? = some last ∧
        Run chain chain.nodes (.start nextId) ⟨draft, context⟩ ∧
        (chain.resolver context.sources).selector (chain.lineage last) = .ok selector ∧
        draft.finish selector = .ok model := by
  constructor
  · intro h
    obtain ⟨last, draft, context, selector, hlast, hrun, hselector, hfinish, -⟩ :=
      toModel_eq.mp (Prod.ext h rfl : chain.toModel nextId = (.ok model, (chain.toModel nextId).2))
    exact ⟨last, draft, context, selector, hlast, hrun, hselector, hfinish⟩
  · rintro ⟨last, draft, context, selector, hlast, hrun, hselector, hfinish⟩
    rw [toModel_eq.mpr ⟨last, draft, context, selector, hlast, hrun, hselector, hfinish, rfl⟩]

end Chain

/-- A call tree has a model when it can be read and its chain has one. -/
theorem Reader.parse_eq_ok {reader : Reader} {e : Expr} {nextId : Nat} {model : Model} :
    (reader.parse e nextId).1 = .ok model ↔
      ∃ chain, reader.read e = .ok chain ∧ (chain.toModel nextId).1 = .ok model := by
  rw [Reader.parse]
  cases reader.read e <;> simp

end Comprehension
