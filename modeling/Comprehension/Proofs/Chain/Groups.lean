import Comprehension.Model.Grouping
import Comprehension.Proofs.Chain.Account
import Comprehension.Proofs.Expr.Accessor

/-! # Groups over the selected items

A grouping operator holds its key and its element over query sources, and reads them back over the
item that the query selects.  That is possible exactly when the selector shows the sources that they
refer to.

A query that was read can group by something that its selector does not show: when it selects the
names of cooks and groups by them, no cook can be got back from a name.  But its groupings refer
only to sources that the selector refers to as well, or that the call tree came with.  So they can
be read back whenever the selector shows all of these. -/
namespace Comprehension

/-- What is put in for a parameter is collapsed together with what it is put into. -/
theorem references_putProjection {p : Parameter} {r e : Expr} {s : Source}
    (h : s ∈ (putProjection p r e).references) : s ∈ e.references ∨ s ∈ r.collapse.references := by
  have hbefore : putProjection p r e = (Expr.replace (.parameter p) r.collapse e).collapse :=
    Expr.collapse_replace_congr (Expr.redexFree_collapse r).collapse_eq.symm e
  rw [hbefore] at h
  exact Expr.references_replace (Expr.references_collapse h)

section Projection

variable {sources : SourceMap} {lineage : Lineage} {x : Expr}

/-- Putting in an item brings in what the collapsed item refers to, and nothing else. -/
theorem Projects.references_put (h : Projects sources lineage x) {p : Parameter} {e : Expr}
    {s : Source} (hs : s ∈ (lineage.put p x e).references) :
    s ∈ e.references ∨ s ∈ x.collapse.references := by
  rw [Lineage.put] at hs
  by_cases hcollapses : lineage.collapses
  · rw [if_pos hcollapses] at hs
    exact references_putProjection hs
  · rw [if_neg hcollapses] at hs
    obtain ⟨r, rfl⟩ := h.eq_reference (by simpa using hcollapses)
    exact Expr.references_replace hs

/-- **A selector refers to what the item refers to.** -/
theorem Resolver.references_selector {resolver : Resolver} {selector : Expr}
    (h : Projects resolver.sources lineage x)
    (hselector : resolver.selector lineage = .ok selector) :
    ∀ s ∈ x.collapse.references, s ∈ selector.references := by
  intro s hs
  rw [← Resolver.selector_collapse h hselector] at hs
  exact Expr.references_collapse hs

end Projection

namespace Chain

/-- What a node in front of results resolves refers to what the selector refers to, or to what its
lambda referred to. -/
theorem references_before_results {resolver : Resolver} {error : ParseError}
    {before results : List Node} {p : Parameter} {x y selector : Expr}
    (hresults : ∀ n ∈ results, n.kind.isResult)
    (hselector : resolver.selector (Lineage.back error (before ++ results)) = .ok selector)
    (hresolves : Resolves resolver.sources (Lineage.back error before) p x y) :
    ∀ s ∈ y.references, s ∈ selector.references ∨ s ∈ x.references := by
  intro s hs
  rw [Resolver.selector_results hresults] at hselector
  obtain ⟨item, hitem, rfl⟩ := resolves_iff.mp hresolves
  rcases hitem.references_put hs with hs | hs
  · exact Or.inr hs
  · exact Or.inl (Resolver.references_selector hitem hselector s hs)

/-- What a node that groups makes of its lambdas, when only results follow it. -/
theorem ReadFrom.references_groupBy {chain : Chain} {e : Expr} (h : chain.ReadFrom e) {node : Node}
    (hnode : node ∈ chain.nodes) {error : ParseError} {before after : List Node}
    (hlineage : chain.lineage node = .step node (Lineage.back error before))
    (hresults : ∀ n ∈ node :: after, n.kind.isResult) {sources : SourceMap} {selector : Expr}
    (hselector : (chain.resolver sources).selector (Lineage.back error (before ++ node :: after)) =
      .ok selector) {l : Lambda} {element : Option Lambda} (hkind : node.kind = .groupBy l element)
    {key kept : Expr}
    (hkey : (chain.resolver sources).resolveLambda (chain.lineage node) l = .ok key)
    (hkept : (chain.resolver sources).element (chain.lineage node) element = .ok kept) :
    ∀ x ∈ [key, kept], ∀ s ∈ x.references, s ∈ selector.references ∨ s ∈ e.references := by
  rw [hlineage] at hkey hkept
  -- A lambda of the node refers to what the call tree came with.
  have hlambda : ∀ {l : Lambda} {y : Expr}, l ∈ node.kind.lambdas →
      (chain.resolver sources).resolveLambda (.step node (Lineage.back error before)) l = .ok y →
      ∀ s ∈ y.references, s ∈ selector.references ∨ s ∈ e.references := by
    intro l y hl hy s hs
    have hexpression : l.toExpr ∈ node.kind.expressions := by
      rw [hkind] at hl ⊢
      exact List.mem_map_of_mem hl
    obtain ⟨p, -, hresolves⟩ := Resolver.resolveLambda_eq_ok.mp hy
    refine (references_before_results hresults hselector hresolves s hs).imp_right fun hs => ?_
    exact (h.within node hnode).references _ hexpression s (Lambda.references_body hs)
  intro x hx
  rcases List.mem_cons.mp hx with rfl | hx
  · exact hlambda (by simp [hkind, NodeKind.lambdas]) hkey
  · rw [List.mem_singleton.mp hx]
    cases element with
    | some k => exact hlambda (by simp [hkind, NodeKind.lambdas]) hkept
    | none =>
      intro s hs
      obtain ⟨p, -, hresolves⟩ := Resolver.resolveItem_eq_ok.mp hkept
      refine (references_before_results hresults hselector hresolves s hs).imp_right fun hs => ?_
      cases hs

/-- **A grouping refers to what the selector refers to**, or to what the call tree came with. -/
theorem references_grouping {settings : Settings} {e : Expr} {chain : Chain} {nextId : Nat}
    {model : Model} (hread : (Reader.ofSettings settings).read e = .ok chain)
    (hmodel : (chain.toModel nextId).1 = .ok model) {g : Grouping}
    (hg : g ∈ model.operators.filterMap ResultOperator.grouping?) :
    ∀ x ∈ [g.key, g.element], ∀ s ∈ x.references,
      s ∈ model.selector.references ∨ s ∈ e.references := by
  obtain ⟨last, draft, context, selector, hlast, hrun, hselector, hfinish⟩ :=
    toModel_eq_ok.mp hmodel
  obtain ⟨mainFrom, hmain, rfl, -, -⟩ := finish_eq_ok.mp hfinish
  have hregular := Reader.read_regular hread
  -- The operator was given by a node with only results behind it.
  obtain ⟨op, hop, hgroup⟩ := List.mem_filterMap.mp hg
  obtain ⟨node, hnode, hgives⟩ := exists_of_forall₂_right hrun.operatorsGiven hop
  obtain ⟨hnode, hresult⟩ := List.mem_filter.mp hnode
  obtain ⟨before, after, hsplit⟩ := List.append_of_mem hnode
  have hresults : ∀ n ∈ node :: after, n.kind.isResult := by
    intro n hn
    rcases List.mem_cons.mp hn with rfl | hn
    · exact hresult
    · exact hrun.results_last hsplit hresult n hn
  obtain ⟨error, hback⟩ := hregular.linear.lineage_eq
  rw [lineage_last_eq hback hlast, hsplit] at hselector
  cases hgives with
  | operator kind =>
    rw [hregular.groupless node hnode op kind] at hgroup
    cases hgroup
  | groupBy kind resolved kept =>
    cases hgroup
    exact (Reader.read_readFrom hread).references_groupBy hnode (hback before node after hsplit)
      hresults hselector kind resolved kept

end Chain

/-- **When groups can be read back.**  The key of a grouping can be read over the selected item
exactly when the selector shows every source that the key refers to, and so can the element.  Both
can when the selector shows every source that it refers to itself or that the call tree came
with. -/
theorem Reader.parse_groups_readable {settings : Settings} {e : Expr} {nextId : Nat} {model : Model}
    (hparse : ((ofSettings settings).parse e nextId).1 = .ok model) {g : Grouping}
    (hg : g ∈ model.operators.filterMap ResultOperator.grouping?) :
    ((∃ l, g.keyOf model.selector = .ok l) ↔ ∀ s ∈ g.key.references, model.selector.Shows s) ∧
      ((∃ l, g.elementOf model.selector = .ok l) ↔
        ∀ s ∈ g.element.references, model.selector.Shows s) ∧
      ((∀ s, s ∈ model.selector.references ∨ s ∈ e.references → model.selector.Shows s) →
        (∃ l, g.keyOf model.selector = .ok l) ∧ ∃ l, g.elementOf model.selector = .ok l) := by
  obtain ⟨chain, hread, hmodel⟩ := Reader.parse_eq_ok.mp hparse
  have hrefers := Chain.references_grouping hread hmodel hg
  refine ⟨reverseResolve_isOk_iff, reverseResolve_isOk_iff, fun hshows => ⟨?_, ?_⟩⟩
  · exact reverseResolve_isOk_iff.mpr fun s hs =>
      hshows s (hrefers g.key (List.mem_cons_self ..) s hs)
  · exact reverseResolve_isOk_iff.mpr fun s hs =>
      hshows s (hrefers g.element (List.mem_cons_of_mem _ (List.mem_singleton.mpr rfl)) s hs)

theorem Reader.parse_groups_readable_pairs :
    ∃ model g, ((ofSettings .default).parse Sample.groups 0).1 = .ok model ∧
      g ∈ model.operators.filterMap ResultOperator.grouping? ∧
      (∀ s, s ∈ model.selector.references ∨ s ∈ Sample.groups.references →
        model.selector.Shows s) ∧
      (∃ l, g.keyOf model.selector = .ok l) ∧ ∃ l, g.elementOf model.selector = .ok l := by
  obtain ⟨model, g, hparse, hg, hshows⟩ : ∃ model g,
      ((ofSettings .default).parse Sample.groups 0).1 = .ok model ∧
      model.operators.filterMap ResultOperator.grouping? = [g] ∧
      ∀ s ∈ model.selector.references ++ Sample.groups.references, model.selector.Shows s :=
    ⟨_, _, rfl, rfl, by decide +kernel⟩
  have hmem : g ∈ model.operators.filterMap ResultOperator.grouping? := by simp [hg]
  have hshows : ∀ s, s ∈ model.selector.references ∨ s ∈ Sample.groups.references →
      model.selector.Shows s := fun s hs => hshows s (List.mem_append.mpr hs)
  exact ⟨model, g, hparse, hmem, hshows,
    (Reader.parse_groups_readable hparse hmem).2.2 hshows⟩

namespace Sample

/-- `value(Cooks).Select(c => c.Name).GroupBy(n => n)` -/
def namesByName : Expr :=
  call (call cooks "Select"
      [Lambda.quote ⟨[c], property "Cook" "Name" .string (.parameter c)⟩] (.queryable .string))
    "GroupBy" [Lambda.quote ⟨[⟨"n", .string⟩], .parameter ⟨"n", .string⟩⟩]
    (.queryable (.grouping .string .string))

end Sample

/-- **Not every query that groups can be read back over its items.**  No cook can be got back from a
name, so neither the key nor the element is a function of the name. -/
theorem Reader.parse_groups_unreadable_names :
    ∃ model g, ((ofSettings .default).parse Sample.namesByName 0).1 = .ok model ∧
      g ∈ model.operators.filterMap ResultOperator.grouping? ∧
      (∀ l, g.keyOf model.selector ≠ .ok l) ∧ ∀ l, g.elementOf model.selector ≠ .ok l := by
  obtain ⟨model, g, key, element, hparse, hg, hkey, helement⟩ : ∃ model g key element,
      ((ofSettings .default).parse Sample.namesByName 0).1 = .ok model ∧
      model.operators.filterMap ResultOperator.grouping? = [g] ∧
      g.keyOf model.selector = .error key ∧ g.elementOf model.selector = .error element :=
    ⟨_, _, _, _, rfl, rfl, rfl, rfl⟩
  exact ⟨model, g, hparse, by simp [hg], by simp [hkey], by simp [helement]⟩

end Comprehension
