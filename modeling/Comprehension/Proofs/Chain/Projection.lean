import Comprehension.Proofs.Chain.Resolution
import Comprehension.Proofs.Expr.Substitution

/-! # The item that flows out of a node

What resolution puts in for a parameter does not depend on the parameter or on the expression that
it is put into.  `Projects sources lineage x` says that `x` is the item that flows out of a lineage,
and `resolves_iff` says that resolution puts just that in.  Only the items of a source are put in as
they are; behind a projection, members of constructions are read on the way (`Lineage.put`).  That
makes no difference when members are read in the end anyway, so the selector of a query is this item
too (`Resolver.selector_collapse`). -/
namespace Comprehension

/-- The item that flows out of a lineage, in terms of query sources. -/
def Projects (sources : SourceMap) : Lineage → Expr → Prop
  | .broken _, _ => False
  | .step node before, x =>
    match node.kind with
    | .constant _ => ∃ s, sources.find? node.id = some s ∧ x = .reference s
    | .subQuery _ => ∃ s, sources.find? node.id = some s ∧ x = .reference s
    | .select l => ∃ p, l.parameters.head? = some p ∧ Resolves sources before p l.body x
    | .selectMany _ none => ∃ s, sources.find? node.id = some s ∧ x = .reference s
    | .selectMany _ (some r) => ∃ s outer inner, sources.find? node.id = some s ∧
        r.parameters = [outer, inner] ∧
        Resolves sources before outer (Expr.replace (.parameter inner) (.reference s) r.body) x
    | .groupBy .. => False
    | _ => Projects sources before x

/-- Whether members of constructions are read when the items of a lineage are put in. -/
def Lineage.collapses : Lineage → Bool
  | .broken _ => true
  | .step node before =>
    match node.kind with
    | .constant _ => false
    | .subQuery _ => false
    | .filter _ => before.collapses
    | .orderBy .. => before.collapses
    | .thenBy .. => before.collapses
    | .operator _ => before.collapses
    | _ => true

/-- Puts an item of a lineage in the place of a parameter. -/
def Lineage.put (lineage : Lineage) (input : Parameter) (item e : Expr) : Expr :=
  if lineage.collapses then putProjection input item e
  else Expr.replace (.parameter input) item e

section Projection

variable {sources : SourceMap} {lineage before : Lineage} {node : Node} {input : Parameter}
  {e e' x y : Expr}

theorem Projects.pass_iff (hkind : node.kind.passes) :
    Projects sources (.step node before) x ↔ Projects sources before x := by
  rw [Projects]
  cases h : node.kind with
  | filter _ | orderBy _ _ | thenBy _ _ | operator _ => rfl
  | _ =>
    rw [h] at hkind
    cases hkind

theorem Lineage.put_pass (hkind : node.kind.passes) :
    Lineage.put (.step node before) input x e = before.put input x e := by
  have hcollapses : (Lineage.step node before).collapses = before.collapses := by
    rw [Lineage.collapses]
    cases h : node.kind with
    | filter _ | orderBy _ _ | thenBy _ _ | operator _ => rfl
    | _ =>
      rw [h] at hkind
      cases hkind
  rw [Lineage.put, Lineage.put, hcollapses]

/-- **Resolution puts in the item.** -/
theorem resolves_iff :
    Resolves sources lineage input e e' ↔
      ∃ x, Projects sources lineage x ∧ e' = lineage.put input x e := by
  constructor
  · intro h
    -- Each rule names its item; only the nodes that pass items on take it from the rule before.
    induction h with
    | @source node before input e s kind mapped =>
      refine ⟨.reference s, ?_⟩
      rw [Projects, Lineage.put, Lineage.collapses]
      cases hkind : node.kind with
      | constant _ | subQuery _ => exact ⟨⟨s, mapped, rfl⟩, rfl⟩
      | _ =>
        rw [hkind] at kind
        cases kind
    | @select node before input p e projection l kind first item _ =>
      refine ⟨projection, ?_⟩
      rw [Projects, Lineage.put, Lineage.collapses]
      simp only [kind]
      exact ⟨⟨p, first, item⟩, rfl⟩
    | @many node before input e c s kind mapped =>
      refine ⟨.reference s, ?_⟩
      rw [Projects, Lineage.put, Lineage.collapses]
      simp only [kind]
      exact ⟨⟨s, mapped, rfl⟩, rfl⟩
    | @manyWithResult node before input outer inner e projection c r s kind mapped parameters item
        _ =>
      refine ⟨projection, ?_⟩
      rw [Projects, Lineage.put, Lineage.collapses]
      simp only [kind]
      exact ⟨⟨s, outer, inner, mapped, parameters, item⟩, rfl⟩
    | pass kind _ ih =>
      obtain ⟨x, hx, rfl⟩ := ih
      exact ⟨x, (Projects.pass_iff kind).mpr hx, (Lineage.put_pass kind).symm⟩
  · rintro ⟨x, hx, rfl⟩
    induction lineage with
    | broken error => cases hx
    | step node before ih =>
      cases hkind : node.kind with
      | constant _ | subQuery _ =>
        simp only [Projects, hkind] at hx
        obtain ⟨s, hs, rfl⟩ := hx
        simp only [Lineage.put, Lineage.collapses, hkind]
        exact .source (by rw [hkind]; rfl) hs
      | select l =>
        simp only [Projects, hkind] at hx
        obtain ⟨p, hp, hitem⟩ := hx
        simp only [Lineage.put, Lineage.collapses, hkind]
        exact .select hkind hp hitem
      | selectMany c result =>
        cases result with
        | none =>
          simp only [Projects, hkind] at hx
          obtain ⟨s, hs, rfl⟩ := hx
          simp only [Lineage.put, Lineage.collapses, hkind]
          exact .many hkind hs
        | some r =>
          simp only [Projects, hkind] at hx
          obtain ⟨s, outer, inner, hs, hr, hitem⟩ := hx
          simp only [Lineage.put, Lineage.collapses, hkind]
          exact .manyWithResult hkind hs hr hitem
      | groupBy _ _ =>
        simp only [Projects, hkind] at hx
      | filter _ | orderBy _ _ | thenBy _ _ | operator _ =>
        have hpass : node.kind.passes := by
          rw [hkind]
          rfl
        rw [Lineage.put_pass hpass]
        exact .pass hpass (ih ((Projects.pass_iff hpass).mp hx))

theorem Resolves.unique (h : Resolves sources lineage input e x)
    (h' : Resolves sources lineage input e y) : x = y := by
  have hx : Resolver.resolve ⟨sources, 0⟩ lineage input e = .ok x := Resolver.resolve_eq_ok.mpr h
  have hy : Resolver.resolve ⟨sources, 0⟩ lineage input e = .ok y := Resolver.resolve_eq_ok.mpr h'
  rw [hx] at hy
  exact Except.ok.inj hy

/-- There is one item. -/
theorem Projects.unique (h : Projects sources lineage x) (h' : Projects sources lineage y) :
    x = y := by
  induction lineage with
  | broken error => cases h
  | step node before ih =>
    cases hkind : node.kind with
    | constant _ | subQuery _ =>
      simp only [Projects, hkind] at h h'
      obtain ⟨s, hs, rfl⟩ := h
      obtain ⟨t, ht, rfl⟩ := h'
      rw [Option.some.inj (hs.symm.trans ht)]
    | select l =>
      simp only [Projects, hkind] at h h'
      obtain ⟨p, hp, hx⟩ := h
      obtain ⟨q, hq, hy⟩ := h'
      cases hp.symm.trans hq
      exact hx.unique hy
    | selectMany c result =>
      cases result with
      | none =>
        simp only [Projects, hkind] at h h'
        obtain ⟨s, hs, rfl⟩ := h
        obtain ⟨t, ht, rfl⟩ := h'
        rw [Option.some.inj (hs.symm.trans ht)]
      | some r =>
        simp only [Projects, hkind] at h h'
        obtain ⟨s, outer, inner, hs, hr, hx⟩ := h
        obtain ⟨t, outer', inner', ht, hr', hy⟩ := h'
        cases hs.symm.trans ht
        cases hr.symm.trans hr'
        exact hx.unique hy
    | groupBy _ _ => simp only [Projects, hkind] at h
    | filter _ | orderBy _ _ | thenBy _ _ | operator _ =>
      have hpass : node.kind.passes := by
        rw [hkind]
        rfl
      exact ih ((Projects.pass_iff hpass).mp h) ((Projects.pass_iff hpass).mp h')

/-- Sources that are made later change nothing. -/
theorem Resolves.mono {sources' : SourceMap}
    (hmore : ∀ id s, sources.find? id = some s → sources'.find? id = some s)
    (h : Resolves sources lineage input e e') : Resolves sources' lineage input e e' := by
  induction h with
  | source kind mapped => exact .source kind (hmore _ _ mapped)
  | select kind first _ ih => exact .select kind first ih
  | many kind mapped => exact .many kind (hmore _ _ mapped)
  | manyWithResult kind mapped parameters _ ih =>
    exact .manyWithResult kind (hmore _ _ mapped) parameters ih
  | pass kind _ ih => exact .pass kind ih

theorem Projects.mono {sources' : SourceMap}
    (hmore : ∀ id s, sources.find? id = some s → sources'.find? id = some s)
    (h : Projects sources lineage x) : Projects sources' lineage x := by
  induction lineage with
  | broken error => cases h
  | step node before ih =>
    cases hkind : node.kind with
    | constant _ | subQuery _ =>
      simp only [Projects, hkind] at h ⊢
      obtain ⟨s, hs, hx⟩ := h
      exact ⟨s, hmore _ _ hs, hx⟩
    | select l =>
      simp only [Projects, hkind] at h ⊢
      obtain ⟨p, hp, hx⟩ := h
      exact ⟨p, hp, hx.mono hmore⟩
    | selectMany c result =>
      cases result with
      | none =>
        simp only [Projects, hkind] at h ⊢
        obtain ⟨s, hs, hx⟩ := h
        exact ⟨s, hmore _ _ hs, hx⟩
      | some r =>
        simp only [Projects, hkind] at h ⊢
        obtain ⟨s, outer, inner, hs, hr, hx⟩ := h
        exact ⟨s, outer, inner, hmore _ _ hs, hr, hx.mono hmore⟩
    | groupBy _ _ => simp only [Projects, hkind] at h
    | filter _ | orderBy _ _ | thenBy _ _ | operator _ =>
      have hpass : node.kind.passes := by
        rw [hkind]
        rfl
      exact (Projects.pass_iff hpass).mpr (ih ((Projects.pass_iff hpass).mp h))

/-- Items that are put in as they are come from a source. -/
theorem Projects.eq_reference (h : Projects sources lineage x)
    (hcollapses : lineage.collapses = false) : ∃ s, x = .reference s := by
  induction lineage with
  | broken error => cases h
  | step node before ih =>
    rw [Lineage.collapses] at hcollapses
    cases hkind : node.kind with
    | constant _ | subQuery _ =>
      simp only [Projects, hkind] at h
      obtain ⟨s, -, hx⟩ := h
      exact ⟨s, hx⟩
    | filter _ | orderBy _ _ | thenBy _ _ | operator _ =>
      simp only [hkind] at hcollapses
      exact ih ((Projects.pass_iff (by rw [hkind]; rfl)).mp h) hcollapses
    | select _ | selectMany _ _ | groupBy _ _ => simp [hkind] at hcollapses

/-- Members that are read on the way can as well be read in the end. -/
theorem Lineage.collapse_put :
    (lineage.put input x e).collapse = (Expr.replace (.parameter input) x e).collapse := by
  rw [Lineage.put]
  split
  · exact (Expr.redexFree_collapse _).collapse_eq
  · rfl

/-- An item that is put in for its own parameter is collapsed, whatever the parameter is. -/
theorem Projects.put_parameter (h : Projects sources lineage x) :
    lineage.put input x (.parameter input) = x.collapse := by
  rw [Lineage.put, putProjection, Parameter.toExpr, Expr.replace_parameter_self]
  by_cases hcollapses : lineage.collapses
  · rw [if_pos hcollapses]
  · rw [if_neg hcollapses]
    obtain ⟨s, rfl⟩ := h.eq_reference (by simpa using hcollapses)
    rfl

/-- **A selector is the item**, up to members of constructions. -/
theorem Resolver.selector_collapse {resolver : Resolver} {selector : Expr}
    (h : Projects resolver.sources lineage x)
    (hselector : resolver.selector lineage = .ok selector) : selector.collapse = x.collapse := by
  have hitem : ∀ {lineage : Lineage}, Projects resolver.sources lineage x →
      resolver.resolveItem lineage = .ok selector → selector.collapse = x.collapse := by
    intro lineage h hresolve
    obtain ⟨p, -, hresolves⟩ := Resolver.resolveItem_eq_ok.mp hresolve
    obtain ⟨y, hy, rfl⟩ := resolves_iff.mp hresolves
    rw [hy.put_parameter, hy.unique h]
    exact (Expr.redexFree_collapse x).collapse_eq
  induction lineage with
  | broken error => cases h
  | step node before ih =>
    rw [Resolver.selector] at hselector
    cases hkind : node.kind with
    | constant _ | subQuery _ | selectMany _ _ =>
      rw [hkind] at hselector
      exact hitem h hselector
    | select l =>
      rw [hkind] at hselector
      obtain ⟨p, hp, hresolves⟩ := Resolver.resolveLambda_eq_ok.mp hselector
      simp only [Projects, hkind] at h
      obtain ⟨q, hq, hx⟩ := h
      cases hp.symm.trans hq
      rw [hx.unique hresolves]
    | groupBy _ _ => simp only [Projects, hkind] at h
    | filter _ | orderBy _ _ | thenBy _ _ | operator _ =>
      rw [hkind] at hselector
      exact ih ((Projects.pass_iff (by rw [hkind]; rfl)).mp h) hselector

end Projection

end Comprehension
