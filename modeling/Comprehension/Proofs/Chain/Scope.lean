import Comprehension.Proofs.Chain.Resolution
import Comprehension.Proofs.Chain.Steps
import Comprehension.Sample

/-! # What the expressions of a model mention

The expressions of a model come from the lambdas and arguments of a call tree, with items put in for
parameters.  A step of the assembly adds to the draft only what it makes at its node
(`Chain.Step.adds`), and what it makes is held by the call tree or resolved (`Chain.ResolvedIn`).
So no parameter is left over: what is free in a model was free in the call tree. -/
namespace Comprehension

/-! ### Expressions made at a node -/

/-- The lambdas of a node that take one item. -/
def NodeKind.itemLambdas : NodeKind → List Lambda
  | .selectMany c _ => [c]
  | kind => kind.lambdas

theorem NodeKind.mem_expressions_of_itemLambdas {kind : NodeKind} {l : Lambda}
    (h : l ∈ kind.itemLambdas) : l.toExpr ∈ kind.expressions := by
  cases kind with
  | selectMany c r =>
    rw [List.mem_singleton.mp h]
    exact List.mem_cons_self ..
  | operator op => cases h
  | _ => exact List.mem_map_of_mem h

theorem NodeKind.WellFormed.length_itemLambdas {kind : NodeKind} (h : kind.WellFormed)
    {l : Lambda} (hl : l ∈ kind.itemLambdas) : l.parameters.length = 1 := by
  cases kind with
  | constant _ | subQuery _ | operator _ => cases hl
  | filter _ | select _ | orderBy _ _ | thenBy _ _ =>
    rw [List.mem_singleton.mp hl]
    exact h
  | selectMany _ _ =>
    rw [List.mem_singleton.mp hl]
    exact h.1
  | groupBy k e =>
    rcases List.mem_cons.mp hl with rfl | hl
    · exact h.1
    · exact h.2 l (Option.mem_toList.mp hl)

namespace Chain

/-- The expressions that the assembly makes at a node: the expression of a source, a resolved
lambda, the item that flows in, or an argument as it is. -/
inductive Made (chain : Chain) (node : Node) (sources : SourceMap) : Expr → Prop
  | origin {type : Ty} {x : Expr} (kind : node.kind.origin? = some (type, x)) :
    Made chain node sources x
  | lambda {l : Lambda} {x : Expr} (held : l ∈ node.kind.itemLambdas)
      (resolved : (chain.resolver sources).resolveLambda (chain.lineage node) l = .ok x) :
    Made chain node sources x
  | item {x : Expr}
      (resolved : (chain.resolver sources).resolveItem (chain.lineage node).before = .ok x) :
    Made chain node sources x
  | argument {op : ResultOperator} {x : Expr} (kind : node.kind = .operator op)
      (held : x ∈ op.expressions) :
    Made chain node sources x

/-- What a step adds to the draft. -/
inductive Adds (chain : Chain) (node : Node) : Progress → Progress → Prop
  | mainFrom {draft : Draft} {context : Context} (source : Source) {x : Expr}
      (made : Made chain node context.sources x) (closed : x.references = [])
      (first : draft.mainFrom = none) :
    Adds chain node ⟨draft, context⟩
      ⟨{ draft with mainFrom := some ⟨source, x⟩ }, context.withSource node source⟩
  | additionalFrom {draft : Draft} {context : Context} (source : Source) {x : Expr}
      (made : Made chain node context.sources x) :
    Adds chain node ⟨draft, context⟩
      ⟨{ draft with body := draft.body ++ [.additionalFrom ⟨source, x⟩] },
        context.withSource node source⟩
  | clause {draft : Draft} {context : Context} {c : BodyClause} (sourceless : c.source? = none)
      (made : ∀ x ∈ c.expressions, Made chain node context.sources x) :
    Adds chain node ⟨draft, context⟩ ⟨{ draft with body := draft.body ++ [c] }, context⟩
  | sortKey {draft : Draft} {context : Context} {body : List BodyClause} {keys : List SortKey}
      {key : SortKey} (sorting : draft.body = body ++ [.orderBy keys])
      (made : Made chain node context.sources key.expression) :
    Adds chain node ⟨draft, context⟩
      ⟨{ draft with body := body ++ [.orderBy (keys ++ [key])] }, context⟩
  | operator {draft : Draft} {context : Context} {op : ResultOperator}
      (made : ∀ x ∈ op.expressions, Made chain node context.sources x) :
    Adds chain node ⟨draft, context⟩ ⟨{ draft with operators := draft.operators ++ [op] }, context⟩
  | nothing (s : Progress) : Adds chain node s s

theorem references_origin {kind : NodeKind} {type : Ty} {x : Expr}
    (h : kind.origin? = some (type, x)) : x.references = [] := by
  cases kind with
  | constant _ | subQuery _ =>
    cases h
    rfl
  | _ => cases h

theorem freeParameters_origin {kind : NodeKind} {type : Ty} {x : Expr}
    (h : kind.origin? = some (type, x)) : x.freeParameters = [] := by
  cases kind with
  | constant _ | subQuery _ =>
    cases h
    rfl
  | _ => cases h

/-- **What a step adds** was made at its node. -/
theorem Step.adds {chain : Chain} {node : Node} {s t : Progress} (h : Step chain node s t) :
    Adds chain node s t := by
  cases h with
  | source kind first _ => exact .mainFrom _ (.origin kind) (references_origin kind) first
  | filter kind _ resolved _ =>
    refine .clause rfl fun x hx => ?_
    rw [List.mem_singleton.mp hx]
    exact .lambda (by rw [kind]; exact List.mem_singleton.mpr rfl) resolved
  | orderBy kind _ resolved _ =>
    refine .clause rfl fun x hx => ?_
    rw [List.mem_singleton.mp hx]
    exact .lambda (by rw [kind]; exact List.mem_singleton.mpr rfl) resolved
  | thenBy kind _ resolved _ sorting =>
    exact .sortKey sorting (.lambda (by rw [kind]; exact List.mem_singleton.mpr rfl) resolved)
  | selectMany kind _ resolved _ _ _ =>
    exact .additionalFrom _ (.lambda (by rw [kind]; exact List.mem_singleton.mpr rfl) resolved)
  | select _ _ _ => exact .nothing _
  | @groupBy draft context l element key e kind _ resolved kept =>
    refine .operator fun x hx => ?_
    rcases List.mem_cons.mp hx with rfl | hx
    · exact .lambda (by rw [kind]; exact List.mem_cons_self ..) resolved
    · rw [List.mem_singleton.mp hx]
      cases element with
      | some l' =>
        refine .lambda (l := l') ?_ kept
        rw [kind]
        exact List.mem_cons_of_mem _ (List.mem_singleton.mpr rfl)
      | none => exact .item kept
  | operator kind _ => exact .operator fun x hx => .argument kind hx

/-! ### Chains that were read -/

/-- The chain is linear, and its nodes hold what occurs in a call tree. -/
structure ReadFrom (e : Expr) (chain : Chain) : Prop where
  linear : chain.Linear
  within : ∀ node ∈ chain.nodes, node.kind.Within e

end Chain

theorem Reader.read_readFrom {settings : Settings} {e : Expr} {chain : Chain}
    (h : (ofSettings settings).read e = .ok chain) : chain.ReadFrom e := by
  obtain ⟨hlinear, hreads⟩ := Reader.read_reads h
  exact ⟨hlinear, fun node hnode => hreads.within _ (List.mem_map_of_mem hnode)⟩

namespace Chain

variable {e : Expr} {chain : Chain}

/-- The lineage of a node of a chain that was read goes back through nodes of the chain. -/
theorem ReadFrom.lineage_eq (h : chain.ReadFrom e) {node : Node} (hnode : node ∈ chain.nodes) :
    ∃ before, chain.lineage node = .step node before ∧ ∀ n ∈ before.nodes, n ∈ chain.nodes := by
  obtain ⟨before, after, hsplit⟩ := List.append_of_mem hnode
  obtain ⟨error, hlineage⟩ := h.linear.lineage_eq
  refine ⟨Lineage.back error before, hlineage before node after hsplit, ?_⟩
  intro n hn
  rw [Lineage.nodes_back, List.mem_reverse] at hn
  rw [hsplit]
  exact List.mem_append_left _ hn

/-- `y` is something that the call tree holds, with items put in for its one parameter. -/
def ResolvedIn (e : Expr) (chain : Chain) (sources : SourceMap) (y : Expr) : Prop :=
  ∃ (lineage : Lineage) (p : Parameter) (x : Expr),
    (∀ n ∈ lineage.nodes, n ∈ chain.nodes) ∧ Resolves sources lineage p x y ∧
    (∀ q ∈ x.freeParameters, q = p ∨ q ∈ e.freeParameters) ∧
    (∀ s ∈ x.references, s ∈ e.references)

section Resolved

variable {sources : SourceMap} {y : Expr}

theorem ReadFrom.freeParameters_resolved (h : chain.ReadFrom e)
    (hresolved : chain.ResolvedIn e sources y) : ∀ q ∈ y.freeParameters, q ∈ e.freeParameters := by
  obtain ⟨lineage, p, x, hnodes, hresolves, hfree, -⟩ := hresolved
  exact hresolves.freeParameters (fun n hn => (h.within n (hnodes n hn)).wellFormed)
    (fun n hn => (h.within n (hnodes n hn)).freeParameters) hfree

/-- What is resolved refers to what the call tree referred to, and to sources made so far. -/
theorem ReadFrom.references_resolved (h : chain.ReadFrom e) {declared : List Source}
    (hmade : ∀ id s, sources.find? id = some s → s ∈ declared)
    (hresolved : chain.ResolvedIn e sources y) :
    ∀ s ∈ y.references, s ∈ e.references ∨ s ∈ declared := by
  obtain ⟨lineage, p, x, hnodes, hresolves, -, hrefs⟩ := hresolved
  exact hresolves.references
    (fun n hn z hz s hs => Or.inl ((h.within n (hnodes n hn)).references z hz s hs))
    (fun n _ s hs => Or.inr (hmade n.id s hs)) (fun s hs => Or.inl (hrefs s hs))

variable {node : Node}

/-- A lambda of a node that takes one item is resolved. -/
theorem ReadFrom.resolvedIn_lambda (h : chain.ReadFrom e) (hnode : node ∈ chain.nodes)
    {before : Lineage} (hbefore : ∀ n ∈ before.nodes, n ∈ chain.nodes) {l : Lambda}
    (held : l ∈ node.kind.itemLambdas) {p : Parameter} (hp : l.parameters.head? = some p)
    (hresolves : Resolves sources before p l.body y) : chain.ResolvedIn e sources y := by
  obtain ⟨hwell, hfree, hrefs⟩ := h.within node hnode
  have hl := NodeKind.mem_expressions_of_itemLambdas held
  refine ⟨before, p, l.body, hbefore, hresolves, ?_, ?_⟩
  · exact Lambda.freeParameters_of_first (hwell.length_itemLambdas held) hp (hfree _ hl)
  · exact fun s hs => hrefs _ hl s (Lambda.references_body hs)

theorem resolvedIn_item {lineage : Lineage} (hnodes : ∀ n ∈ lineage.nodes, n ∈ chain.nodes)
    {p : Parameter} (hresolves : Resolves sources lineage p (.parameter p) y) :
    chain.ResolvedIn e sources y :=
  ⟨lineage, p, .parameter p, hnodes, hresolves, fun _ hq => Or.inl (List.mem_singleton.mp hq),
    fun _ hs => nomatch hs⟩

/-- An expression made at a node is the expression of a source, held by the node, or resolved. -/
theorem ReadFrom.made_cases (h : chain.ReadFrom e) (hnode : node ∈ chain.nodes)
    (hmade : Made chain node sources y) :
    (∃ type, node.kind.origin? = some (type, y)) ∨ y ∈ node.kind.expressions ∨
      chain.ResolvedIn e sources y := by
  obtain ⟨before, hlineage, hnodes⟩ := h.lineage_eq hnode
  cases hmade with
  | origin kind => exact Or.inl ⟨_, kind⟩
  | lambda held resolved =>
    rw [hlineage] at resolved
    obtain ⟨p, hp, hresolves⟩ := Resolver.resolveLambda_eq_ok.mp resolved
    exact Or.inr (Or.inr (h.resolvedIn_lambda hnode hnodes held hp hresolves))
  | item resolved =>
    rw [hlineage] at resolved
    obtain ⟨p, -, hresolves⟩ := Resolver.resolveItem_eq_ok.mp resolved
    exact Or.inr (Or.inr (resolvedIn_item hnodes hresolves))
  | argument kind held =>
    rw [kind]
    exact Or.inr (Or.inl held)

/-- The selector of a query is resolved too. -/
theorem ReadFrom.resolvedIn_selector (h : chain.ReadFrom e) (hnode : node ∈ chain.nodes)
    (hselector : (chain.resolver sources).selector (chain.lineage node) = .ok y) :
    chain.ResolvedIn e sources y := by
  obtain ⟨before, hlineage, hbefore⟩ := h.lineage_eq hnode
  have hnodes : ∀ n ∈ (chain.lineage node).nodes, n ∈ chain.nodes := by
    rw [hlineage]
    exact List.forall_mem_cons.mpr ⟨hnode, hbefore⟩
  obtain ⟨origin, p, x, horigin, hresolves, rfl | ⟨n, hn, l, hkind, hp, rfl⟩⟩ :=
    Resolver.selector_resolves hselector
  · exact resolvedIn_item (fun m hm => hnodes m (horigin m hm)) hresolves
  · refine h.resolvedIn_lambda (hnodes n hn) (fun m hm => hnodes m (horigin m hm)) ?_ hp hresolves
    rw [hkind]
    exact List.mem_singleton.mpr rfl

end Resolved

end Chain

/-! ### No parameter is left over -/

/-- All expressions of a draft. -/
def Draft.expressions (draft : Draft) : List Expr :=
  (draft.mainFrom.map FromClause.expression).toList ++
    (draft.body.flatMap BodyClause.expressions ++
      draft.operators.flatMap ResultOperator.expressions)

/-- All expressions of a model, those of queries inside expressions apart. -/
def Model.expressions (model : Model) : List Expr :=
  model.mainFrom.expression :: (model.body.flatMap BodyClause.expressions ++
    model.selector :: model.operators.flatMap ResultOperator.expressions)

/-- A finished model has the expressions of its draft and the selector. -/
theorem Draft.mem_expressions_finished {draft : Draft} {mainFrom : FromClause} {selector x : Expr}
    (hmain : draft.mainFrom = some mainFrom)
    (hx : x ∈ Model.expressions ⟨mainFrom, draft.body, selector, draft.operators⟩) :
    x ∈ draft.expressions ∨ x = selector := by
  simp only [Draft.expressions, hmain, Option.map_some, Option.toList_some, List.mem_append,
    List.mem_singleton]
  simp only [Model.expressions, List.mem_cons, List.mem_append] at hx
  rcases hx with hx | hx | hx | hx
  · exact Or.inl (Or.inl hx)
  · exact Or.inl (Or.inr (Or.inl hx))
  · exact Or.inr hx
  · exact Or.inl (Or.inr (Or.inr hx))

namespace Chain

variable {e : Expr} {chain : Chain}

/-- Every expression after a step was there before, or was made at the node. -/
theorem Adds.mem_expressions {node : Node} {s t : Progress} (h : Adds chain node s t) {x : Expr}
    (hx : x ∈ t.draft.expressions) :
    x ∈ s.draft.expressions ∨ Made chain node s.context.sources x := by
  simp only [Draft.expressions, List.mem_append] at hx ⊢
  cases h with
  | mainFrom source made _ _ =>
    rcases hx with hx | hx
    · rw [List.mem_singleton.mp hx]
      exact Or.inr made
    · exact Or.inl (Or.inr hx)
  | additionalFrom source made =>
    rw [List.flatMap_append, List.mem_append] at hx
    rcases hx with hx | (hx | hx) | hx
    · exact Or.inl (Or.inl hx)
    · exact Or.inl (Or.inr (Or.inl hx))
    · rw [show x = _ from by simpa [BodyClause.expressions] using hx]
      exact Or.inr made
    · exact Or.inl (Or.inr (Or.inr hx))
  | clause _ made =>
    rw [List.flatMap_append, List.mem_append, List.flatMap_singleton] at hx
    rcases hx with hx | (hx | hx) | hx
    · exact Or.inl (Or.inl hx)
    · exact Or.inl (Or.inr (Or.inl hx))
    · exact Or.inr (made x hx)
    · exact Or.inl (Or.inr (Or.inr hx))
  | sortKey sorting made =>
    rw [sorting]
    rw [List.flatMap_append, List.mem_append, List.flatMap_singleton] at hx ⊢
    rcases hx with hx | (hx | hx) | hx
    · exact Or.inl (Or.inl hx)
    · exact Or.inl (Or.inr (Or.inl (Or.inl hx)))
    · rw [BodyClause.expressions, List.map_append, List.mem_append] at hx
      rcases hx with hx | hx
      · exact Or.inl (Or.inr (Or.inl (Or.inr hx)))
      · rw [List.mem_singleton.mp hx]
        exact Or.inr made
    · exact Or.inl (Or.inr (Or.inr hx))
  | operator made =>
    rw [List.flatMap_append, List.mem_append, List.flatMap_singleton] at hx
    rcases hx with hx | hx | hx | hx
    · exact Or.inl (Or.inl hx)
    · exact Or.inl (Or.inr (Or.inl hx))
    · exact Or.inl (Or.inr (Or.inr hx))
    · exact Or.inr (made x hx)
  | nothing s => exact Or.inl hx

/-- Along a run, what is free in the draft was free in the call tree. -/
theorem Run.freeParameters (h : chain.ReadFrom e) {nextId : Nat} {t : Progress}
    (hrun : Run chain chain.nodes (.start nextId) t) :
    ∀ x ∈ t.draft.expressions, ∀ q ∈ x.freeParameters, q ∈ e.freeParameters := by
  refine Run.invariant
    (P := fun _ s => ∀ x ∈ s.draft.expressions, ∀ q ∈ x.freeParameters, q ∈ e.freeParameters)
    ?_ hrun fun x hx => nomatch hx
  intro before after node s t hsplit hs hstep x hx q hq
  have hnode : node ∈ chain.nodes := by
    rw [hsplit]
    exact List.mem_append_right _ (List.mem_cons_self ..)
  -- What the step adds is the only thing new.
  rcases hstep.adds.mem_expressions hx with hx | hmade
  · exact hs x hx q hq
  · rcases h.made_cases hnode hmade with ⟨type, kind⟩ | hheld | hresolved
    · rw [freeParameters_origin kind] at hq
      cases hq
    · exact (h.within node hnode).freeParameters x hheld q hq
    · exact h.freeParameters_resolved hresolved q hq

end Chain

/-- **Resolution leaves no parameter behind.**  When a call tree has no free parameter, neither has
any expression of its model. -/
theorem Reader.parse_closed {settings : Settings} {e : Expr} {nextId : Nat} {model : Model}
    (hclosed : e.freeParameters = [])
    (hparse : ((ofSettings settings).parse e nextId).1 = .ok model) :
    ∀ x ∈ model.expressions, x.freeParameters = [] := by
  obtain ⟨chain, hread, hmodel⟩ := Reader.parse_eq_ok.mp hparse
  obtain ⟨last, draft, context, selector, hlast, hrun, hselector, hfinish⟩ :=
    Chain.toModel_eq_ok.mp hmodel
  obtain ⟨mainFrom, hmain, rfl, -, -⟩ := Chain.finish_eq_ok.mp hfinish
  have hchain := Reader.read_readFrom hread
  have hlast : last ∈ chain.nodes := List.mem_of_getLast? hlast
  intro x hx
  refine List.eq_nil_iff_forall_not_mem.mpr fun q hq => ?_
  have hfree : q ∈ e.freeParameters := by
    rcases Draft.mem_expressions_finished hmain hx with hdraft | rfl
    · exact hrun.freeParameters hchain x hdraft q hq
    · exact hchain.freeParameters_resolved (hchain.resolvedIn_selector hlast hselector) q hq
  rw [hclosed] at hfree
  cases hfree

namespace Sample

/-- A call of a query operator. -/
def call (source : Expr) (name : String) (arguments : List Expr) (type : Ty) : Expr :=
  .staticCall (.extensionMethod "Queryable" name [] ((source :: arguments).map Expr.type) type)
    (source :: arguments)

/-- Pairs of a cook and an assistant. -/
def pair : Ty :=
  .classType (ClassType.ofName "AnonymousType"
    |>.withProperty "c" cook
    |>.withProperty "a" assistant)

def c : Parameter := ⟨"c", cook⟩

def a : Parameter := ⟨"a", assistant⟩

/-- A pair, under the name of a cook. -/
def both : Parameter := ⟨"c", pair⟩

def property (type : String) (name : String) (valueType : Ty) (target : Expr) : Expr :=
  .memberAccess target ⟨type, name, valueType, .property⟩

/-- `value(Cooks).Where(c => value(Cooks).Any(c => c.IsStarredCook))`: the inner lambda declares the
parameter anew. -/
def starred : Expr :=
  call cooks "Where" [Lambda.quote ⟨[c], call cooks "Any"
    [Lambda.quote ⟨[c], property "Cook" "IsStarredCook" .boolean (.parameter c)⟩] .boolean⟩]
    (.queryable cook)

/-- `….SelectMany(c => c.Assistants, (c, a) => new { c, a })` -/
def pairs (source : Expr) : Expr :=
  call source "SelectMany"
    [Lambda.quote ⟨[c], property "Cook" "Assistants" (.list assistant) (.parameter c)⟩,
      Lambda.quote ⟨[c, a], .new ⟨pair, [cook, assistant]⟩ [.parameter c, .parameter a]
        (some [⟨"AnonymousType", "c", cook, .getter⟩, ⟨"AnonymousType", "a", assistant, .getter⟩])⟩]
    (.queryable pair)

def cookName : Expr :=
  property "Cook" "Name" .string (property "AnonymousType" "c" cook (.parameter both))

def assistantAge : Expr :=
  property "Assistant" "Age" .int32 (property "AnonymousType" "a" assistant (.parameter both))

/-- `….OrderBy(c => c.c.Name).ThenBy(c => c.a.Age)` -/
def sorted (source : Expr) : Expr :=
  call (call source "OrderBy" [Lambda.quote ⟨[both], cookName⟩] (.queryable pair)) "ThenBy"
    [Lambda.quote ⟨[both], assistantAge⟩] (.queryable pair)

/-- `….GroupBy(c => c.c.Name).Take(10)` -/
def grouped (source : Expr) : Expr :=
  call
    (call source "GroupBy" [Lambda.quote ⟨[both], cookName⟩] (.queryable (.grouping .string pair)))
    "Take" [.constant (.int32 10) .int32] (.queryable (.grouping .string pair))

/-- A filter, a further source, two sort keys, groups and an operator. -/
def groups : Expr := grouped (sorted (pairs starred))

end Sample

theorem Reader.parse_closed_groups :
    Sample.groups.freeParameters = [] ∧
      ∃ model, ((ofSettings .default).parse Sample.groups 0).1 = .ok model ∧
        ∀ x ∈ model.expressions, x.freeParameters = [] := by
  obtain ⟨model, hparse⟩ :
      ∃ model, ((ofSettings .default).parse Sample.groups 0).1 = .ok model := ⟨_, rfl⟩
  exact ⟨rfl, model, hparse, Reader.parse_closed rfl hparse⟩

end Comprehension
