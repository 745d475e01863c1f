import Comprehension.Proofs.Chain.Groups
import Comprehension.Proofs.Chain.Spine

/-! # Resolution in one substitution

Resolution goes back through a chain node by node, and reads members of constructions at some of
them.  Still it comes to a single substitution: what is put in is the item of the node, the same for
every parameter and every expression (`Resolver.resolve_eq_put`), and when members are read makes no
difference in the end.  So a selection can be fused with what consumes it, and a grouping that keeps
its items whole keeps what the query selects. -/
namespace Comprehension

/-- An item can be put into what is put in for a parameter, or afterwards into the whole. -/
theorem Lineage.collapse_put_replace {lineage : Lineage} {x p : Parameter} {item b e : Expr}
    (hfresh : x = p ∨ x ∉ e.freeParameters ∧ ∀ y ∈ e.subterms, x ∉ y.declared) :
    (lineage.put x item (Expr.replace (.parameter p) b e)).collapse =
      putProjection p (lineage.put x item b) e :=
  calc (lineage.put x item (Expr.replace (.parameter p) b e)).collapse
    _ = (Expr.replace (.parameter x) item (Expr.replace (.parameter p) b e)).collapse :=
        Lineage.collapse_put
    _ = (Expr.replace (.parameter p) (Expr.replace (.parameter x) item b) e).collapse := by
        rw [Expr.replace_replace hfresh]
    _ = (Expr.replace (.parameter p) (lineage.put x item b) e).collapse :=
        Expr.collapse_replace_congr Lineage.collapse_put.symm e

namespace Resolver

variable {resolver : Resolver} {lineage before : Lineage} {node : Node} {p : Parameter}
  {e e' : Expr}

theorem resolve_eq_put :
    resolver.resolve lineage p e = .ok e' ↔
      ∃ item, Projects resolver.sources lineage item ∧ e' = lineage.put p item e :=
  Resolver.resolve_eq_ok.trans resolves_iff

/-- A parameter on its own resolves to the item, collapsed. -/
theorem resolve_parameter_eq_ok :
    resolver.resolve lineage p p.toExpr = .ok e' ↔
      ∃ item, Projects resolver.sources lineage item ∧ e' = item.collapse := by
  rw [resolve_eq_put]
  constructor
  · rintro ⟨item, hitem, rfl⟩
    exact ⟨item, hitem, hitem.put_parameter⟩
  · rintro ⟨item, hitem, rfl⟩
    exact ⟨item, hitem, hitem.put_parameter.symm⟩

/-- What a selection puts in is its body, resolved before it. -/
theorem resolve_select_eq_ok {l : Lambda} (hkind : node.kind = .select l) {x : Parameter}
    (hfirst : l.parameters.head? = some x) :
    resolver.resolve (.step node before) p e = .ok e' ↔
      ∃ item, Projects resolver.sources before item ∧
        e' = putProjection p (before.put x item l.body) e := by
  have hput : ∀ y, Lineage.put (.step node before) p y e = putProjection p y e := by
    intro y
    simp only [Lineage.put, Lineage.collapses, hkind, if_true]
  rw [resolve_eq_put]
  simp only [hput, Projects, hkind]
  constructor
  · rintro ⟨y, ⟨q, hq, hy⟩, rfl⟩
    cases hfirst.symm.trans hq
    obtain ⟨item, hitem, rfl⟩ := resolves_iff.mp hy
    exact ⟨item, hitem, rfl⟩
  · rintro ⟨item, hitem, rfl⟩
    exact ⟨_, ⟨x, hfirst, resolves_iff.mpr ⟨item, hitem, rfl⟩⟩, rfl⟩

/-- An item that is kept whole is what the selector gives, collapsed. -/
theorem element_eq_selector {kept selector : Expr}
    (hkept : resolver.element (.step node before) none = .ok kept)
    (hselector : resolver.selector before = .ok selector) : kept = selector.collapse := by
  obtain ⟨p, -, hresolves⟩ := Resolver.resolveItem_eq_ok.mp hkept
  obtain ⟨item, hitem, rfl⟩ := resolves_iff.mp hresolves
  rw [hitem.put_parameter, Resolver.selector_collapse hitem hselector]

end Resolver

namespace Sample

/-- The sources of the first node and of the third. -/
def cookAndAssistant : SourceMap := ⟨[(0, ⟨0, "c", cook⟩), (2, ⟨1, "a", assistant⟩)]⟩

def nameOf (target : Expr) : Expr := property "Cook" "Name" .string target

def name : Parameter := ⟨"n", .string⟩

/-- A function of an assistant that does not look at it. -/
def forAny (e : Expr) : Expr := .lambda [a] e

end Sample

namespace Chain

/-- Resolves an expression that is written for the items of a node. -/
def resolveAt (chain : Chain) (sources : SourceMap) (node : Node) (input : Parameter) (e : Expr) :
    Except ParseError Expr :=
  (chain.resolver sources).resolve (chain.lineage node) input e

/-- **Resolution is one substitution.**  It succeeds for all parameters and expressions or for none.
What a parameter on its own resolves to is the same for all of them, and to resolve an expression is
to put that in and to collapse.  Nothing is put in where the parameter is not free. -/
theorem resolveAt_substitutes (chain : Chain) (sources : SourceMap) (node : Node) (p q : Parameter)
    (e : Expr) :
    ((∃ e', chain.resolveAt sources node p e = .ok e') ↔
        ∃ item, chain.resolveAt sources node q q.toExpr = .ok item) ∧
      ∀ item, chain.resolveAt sources node q q.toExpr = .ok item →
        (∀ q' : Parameter, chain.resolveAt sources node q' q'.toExpr = .ok item) ∧
        ∃ e', chain.resolveAt sources node p e = .ok e' ∧
          e'.collapse = (Expr.replace p.toExpr item e).collapse ∧
          (p ∉ e.freeParameters → e'.collapse = e.collapse) := by
  simp only [resolveAt, Resolver.resolve_parameter_eq_ok]
  refine ⟨?_, ?_⟩
  · simp only [Resolver.resolve_eq_put]
    constructor
    · rintro ⟨_, item, hitem, -⟩
      exact ⟨_, item, hitem, rfl⟩
    · rintro ⟨_, item, hitem, -⟩
      exact ⟨_, item, hitem, rfl⟩
  · rintro _ ⟨item, hitem, rfl⟩
    refine ⟨fun _ => ⟨item, hitem, rfl⟩, _, Resolver.resolve_eq_put.mpr ⟨item, hitem, rfl⟩, ?_, ?_⟩
    · rw [Lineage.collapse_put]
      exact Expr.collapse_replace_congr (Expr.redexFree_collapse item).collapse_eq.symm e
    · intro hfree
      rw [Lineage.collapse_put, Expr.replace_of_not_free hfree]

/-- The pairs of a cook and an assistant are constructed anew; reading the name of the cook is a
substitution of the construction, collapsed. -/
theorem resolveAt_substitutes_pairs :
    ∃ chain node e', Reader.default.read (Sample.pairs Sample.starred) = .ok chain ∧
      chain.nodes[2]? = some node ∧
      chain.resolveAt Sample.cookAndAssistant node Sample.both Sample.cookName = .ok e' ∧
      e'.collapse = Sample.nameOf (.reference ⟨0, "c", Sample.cook⟩) := by
  obtain ⟨chain, node, item, hread, hnode, hitem, hname⟩ : ∃ chain node item,
      Reader.default.read (Sample.pairs Sample.starred) = .ok chain ∧
      chain.nodes[2]? = some node ∧
      chain.resolveAt Sample.cookAndAssistant node Sample.a Sample.a.toExpr = .ok item ∧
      (Expr.replace Sample.both.toExpr item Sample.cookName).collapse =
        Sample.nameOf (.reference ⟨0, "c", Sample.cook⟩) :=
    ⟨_, _, _, rfl, rfl, rfl, rfl⟩
  obtain ⟨e', he', hcollapse, -⟩ := ((resolveAt_substitutes chain Sample.cookAndAssistant node
    Sample.both Sample.a Sample.cookName).2 item hitem).2
  exact ⟨chain, node, e', hread, hnode, he', hcollapse.trans hname⟩

/-- The lineage of a node goes on with that of its source. -/
theorem Linear.lineage_source {chain : Chain} (h : chain.Linear) {node source : Node} {id : Nat}
    (hnode : node ∈ chain.nodes) (hid : node.source = some id)
    (hsource : chain.node? id = some source) :
    chain.lineage node = .step node (chain.lineage source) := by
  obtain ⟨error, hback⟩ := h.lineage_eq
  obtain ⟨before, after, hsplit⟩ := List.append_of_mem hnode
  have hat : chain.nodes[before.length]? = some node := by simp [hsplit]
  rcases List.eq_nil_or_concat' before with rfl | ⟨first, previous, rfl⟩
  · rw [h.source_zero hat] at hid
    cases hid
  · rw [List.length_append] at hat
    rw [h.source_succ hat] at hid
    cases hid
    have hprevious : chain.node? first.length = some previous := by simp [node?, hsplit]
    cases hsource.symm.trans hprevious
    rw [hback _ node after hsplit, Lineage.back_concat,
      hback first source (node :: after) (by simp [hsplit])]

/-- **A selection fuses with its consumer.**  Resolving through a selection is resolving the
composed lambda before it, unless the parameter of the selection would get mixed up with one of the
consumer. -/
theorem resolveAt_select {reader : Reader} {tree : Expr} {chain : Chain}
    (hread : reader.read tree = .ok chain) {node source : Node} {id : Nat}
    (hnode : node ∈ chain.nodes) (hid : node.source = some id)
    (hsource : chain.node? id = some source) {l : Lambda} (hkind : node.kind = .select l)
    {x : Parameter} (hfirst : l.parameters.head? = some x) {p : Parameter} {e : Expr}
    (hfresh : x = p ∨ x ∉ e.freeParameters ∧ ∀ y ∈ e.subterms, x ∉ y.declared)
    (sources : SourceMap) (e' : Expr) :
    chain.resolveAt sources node p e = .ok e' ↔
      ∃ d, chain.resolveAt sources source x (Expr.replace p.toExpr l.body e) = .ok d ∧
        e' = d.collapse := by
  have hlineage := (Reader.read_unrolls hread).linear.lineage_source hnode hid hsource
  rw [resolveAt, hlineage, Resolver.resolve_select_eq_ok hkind hfirst]
  simp only [resolveAt, Resolver.resolve_eq_put]
  constructor
  · rintro ⟨item, hitem, rfl⟩
    exact ⟨_, ⟨item, hitem, rfl⟩, (Lineage.collapse_put_replace hfresh).symm⟩
  · rintro ⟨_, ⟨item, hitem, rfl⟩, rfl⟩
    exact ⟨item, hitem, Lineage.collapse_put_replace hfresh⟩

/-- Names of cooks are consumed under a lambda. -/
theorem resolveAt_select_names :
    ∃ chain node source d, Reader.default.read Sample.namesByName = .ok chain ∧
      chain.nodes[1]? = some node ∧ chain.node? 0 = some source ∧
      chain.resolveAt Sample.cookAndAssistant source Sample.c
        (Sample.forAny (Sample.nameOf Sample.c.toExpr)) = .ok d ∧
      chain.resolveAt Sample.cookAndAssistant node Sample.name (Sample.forAny Sample.name.toExpr) =
        .ok d.collapse := by
  obtain ⟨chain, node, source, d, l, hread, hnode, hsource, hd, hid, hkind, hfirst, hbody⟩ :
      ∃ chain node source d l, Reader.default.read Sample.namesByName = .ok chain ∧
        chain.nodes[1]? = some node ∧ chain.node? 0 = some source ∧
        chain.resolveAt Sample.cookAndAssistant source Sample.c
          (Sample.forAny (Sample.nameOf Sample.c.toExpr)) = .ok d ∧
        node.source = some 0 ∧ node.kind = .select l ∧ l.parameters.head? = some Sample.c ∧
        l.body = Sample.nameOf Sample.c.toExpr :=
    ⟨_, _, _, _, _, rfl, rfl, rfl, rfl, rfl, rfl, rfl, rfl⟩
  have hfuses := resolveAt_select hread (List.mem_of_getElem? hnode) hid hsource hkind hfirst
    (p := Sample.name) (e := Sample.forAny Sample.name.toExpr) (Or.inr (by decide))
    Sample.cookAndAssistant d.collapse
  rw [hbody] at hfuses
  exact ⟨chain, node, source, d, hread, hnode, hsource, hd, hfuses.mpr ⟨d, hd, rfl⟩⟩

/-- The operator of a node stands where the node stands among the results. -/
theorem Run.operator_of_split {chain : Chain} {nextId : Nat} {t : Progress}
    (h : Run chain chain.nodes (.start nextId) t) {before after : List Node} {node : Node}
    (hsplit : chain.nodes = before ++ node :: after) (hresult : node.kind.isResult) :
    ∃ op, t.draft.operators[before.countP fun n => n.kind.isResult]? = some op ∧
      chain.GivesOperator t.context.sources node op := by
  have hnode : (chain.nodes.filter fun n => n.kind.isResult)[
      before.countP fun n => n.kind.isResult]? = some node := by
    simp [hsplit, hresult, List.countP_eq_length_filter]
  have hgiven := h.operatorsGiven
  obtain ⟨hi, rfl⟩ := List.getElem?_eq_some_iff.mp hnode
  have hi' := hi
  rw [hgiven.length_eq] at hi'
  exact ⟨_, List.getElem?_eq_getElem hi', hgiven.get hi hi'⟩

/-- The selector of a query is that of the items that flow into its first result. -/
theorem Run.selector_before {chain : Chain} {nextId : Nat} {t : Progress}
    (h : Run chain chain.nodes (.start nextId) t) {before after : List Node} {node : Node}
    (hsplit : chain.nodes = before ++ node :: after) (hresult : node.kind.isResult)
    (resolver : Resolver) (error : ParseError) :
    resolver.selector (Lineage.back error chain.nodes) =
      resolver.selector (Lineage.back error before) := by
  rw [hsplit]
  refine Resolver.selector_results fun n hn => ?_
  rcases List.mem_cons.mp hn with rfl | hn
  · exact hresult
  · exact h.results_last hsplit hresult n hn

/-- **Groups keep what is selected.**  The operator of a grouping that keeps its items whole keeps
the selector of the query, collapsed, whatever stands between. -/
theorem group_keeps_selected {reader : Reader} {tree : Expr} {chain : Chain}
    (hread : reader.read tree = .ok chain) {nextId : Nat} {model : Model}
    (hmodel : (chain.toModel nextId).1 = .ok model) {before after : List Node} {node : Node}
    (hsplit : chain.nodes = before ++ node :: after) {l : Lambda}
    (hkind : node.kind = .groupBy l none) :
    ∃ key, model.operators[before.countP fun n => n.kind.isResult]? =
      some (.group node.identifier key model.selector.collapse) := by
  obtain ⟨last, draft, context, selector, hlast, hrun, hselector, hfinish⟩ :=
    toModel_eq_ok.mp hmodel
  obtain ⟨mainFrom, -, rfl, -, -⟩ := finish_eq_ok.mp hfinish
  obtain ⟨error, hback⟩ := (Reader.read_unrolls hread).linear.lineage_eq
  have hresult : node.kind.isResult := by
    rw [hkind]
    rfl
  rw [lineage_last_eq hback hlast, hrun.selector_before hsplit hresult] at hselector
  obtain ⟨op, hop, hgives⟩ := hrun.operator_of_split hsplit hresult
  cases hgives with
  | operator kind =>
    rw [hkind] at kind
    cases kind
  | @groupBy _ _ key kept kind resolved hkept =>
    cases hkind.symm.trans kind
    rw [hback before node after hsplit] at hkept
    cases Resolver.element_eq_selector hkept hselector
    exact ⟨key, hop⟩

/-- Two sort keys stand between the pairs and their groups, and an operator follows. -/
theorem group_keeps_selected_pairs :
    ∃ chain model before node after, Reader.default.read Sample.groups = .ok chain ∧
      (chain.toModel 0).1 = .ok model ∧ chain.nodes = before ++ node :: after ∧
      before.length = 5 ∧ after.length = 1 ∧ (∃ l, node.kind = .groupBy l none) ∧
      ∃ key, model.operators[0]? = some (.group node.identifier key model.selector.collapse) := by
  obtain ⟨chain, model, before, node, after, hread, hmodel, hsplit, hlengths, ⟨l, hkind⟩, hcount⟩ :
      ∃ chain model before node after, Reader.default.read Sample.groups = .ok chain ∧
        (chain.toModel 0).1 = .ok model ∧ chain.nodes = before ++ node :: after ∧
        (before.length = 5 ∧ after.length = 1) ∧ (∃ l, node.kind = .groupBy l none) ∧
        before.countP (fun n => n.kind.isResult) = 0 :=
    ⟨_, _, [_, _, _, _, _], _, [_], rfl, rfl, rfl, ⟨rfl, rfl⟩, ⟨_, rfl⟩, rfl⟩
  obtain ⟨key, hop⟩ := group_keeps_selected hread hmodel hsplit hkind
  rw [hcount] at hop
  exact ⟨chain, model, before, node, after, hread, hmodel, hsplit, hlengths.1, hlengths.2,
    ⟨l, hkind⟩, key, hop⟩

end Chain

end Comprehension
