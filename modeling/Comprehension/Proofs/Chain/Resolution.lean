import Comprehension.Chain.Resolve
import Comprehension.Proofs.Chain.Reading

/-! # Resolution as a relation

`Resolves sources lineage input e e'` says that `e`, written for the items that flow out of a
lineage, becomes `e'` when the items are put in.  It has one rule for each thing a node can do to
its items: a source names them, a selection or a projection to many items shapes them, all other
nodes pass them on.  `Resolver.resolve_eq_ok` says that the resolver gives exactly these results.

Two facts follow by induction on the rules.  What is resolved has no parameter of the lambdas on its
way left over (`Resolves.freeParameters`), and it refers only to sources that its parts referred to
or that were made for nodes on its way (`Resolves.references`). -/
namespace Comprehension

/-! ### Nodes on the way -/

/-- The nodes of a lineage, the last one first. -/
def Lineage.nodes : Lineage → List Node
  | .step node before => node :: before.nodes
  | .broken _ => []

theorem Lineage.nodes_back (error : ParseError) (nodes : List Node) :
    (Lineage.back error nodes).nodes = nodes.reverse := by
  suffices key : ∀ (nodes : List Node) (start : Lineage),
      (nodes.foldl (fun before node => .step node before) start).nodes =
        nodes.reverse ++ start.nodes by
    rw [Lineage.back, key, Lineage.nodes, List.append_nil]
  intro nodes
  induction nodes with
  | nil => exact fun start => rfl
  | cons node nodes ih =>
    intro start
    rw [List.foldl_cons, ih, List.reverse_cons, List.append_assoc]
    rfl

/-- Whether a node hands on the items that it gets. -/
def NodeKind.passes : NodeKind → Bool
  | .filter _ => true
  | .orderBy .. => true
  | .thenBy .. => true
  | .operator _ => true
  | _ => false

/-! ### The rules -/

/-- What an expression over the items of a lineage becomes when the items are put in. -/
inductive Resolves (sources : SourceMap) : Lineage → Parameter → Expr → Expr → Prop
  | source {node : Node} {before : Lineage} {input : Parameter} {e : Expr} {s : Source}
      (kind : node.kind.isSource) (mapped : sources.find? node.id = some s) :
    Resolves sources (.step node before) input e (Expr.replace (.parameter input) (.reference s) e)
  | select {node : Node} {before : Lineage} {input p : Parameter} {e projection : Expr} {l : Lambda}
      (kind : node.kind = .select l) (first : l.parameters.head? = some p)
      (item : Resolves sources before p l.body projection) :
    Resolves sources (.step node before) input e (putProjection input projection e)
  | many {node : Node} {before : Lineage} {input : Parameter} {e : Expr} {c : Lambda} {s : Source}
      (kind : node.kind = .selectMany c none) (mapped : sources.find? node.id = some s) :
    Resolves sources (.step node before) input e (putProjection input (.reference s) e)
  | manyWithResult {node : Node} {before : Lineage} {input outer inner : Parameter}
      {e projection : Expr} {c r : Lambda} {s : Source}
      (kind : node.kind = .selectMany c (some r)) (mapped : sources.find? node.id = some s)
      (parameters : r.parameters = [outer, inner])
      (item : Resolves sources before outer
        (Expr.replace (.parameter inner) (.reference s) r.body) projection) :
    Resolves sources (.step node before) input e (putProjection input projection e)
  | pass {node : Node} {before : Lineage} {input : Parameter} {e e' : Expr}
      (kind : node.kind.passes) (item : Resolves sources before input e e') :
    Resolves sources (.step node before) input e e'

theorem SourceMap.sourceOf_eq_ok {map : SourceMap} {node : Node} {s : Source} :
    map.sourceOf node = .ok s ↔ map.find? node.id = some s := by
  rw [SourceMap.sourceOf]
  cases map.find? node.id <;> simp

theorem Resolver.firstParameter_eq_ok {resolver : Resolver} {node : Node} {l : Lambda}
    {p : Parameter} : resolver.firstParameter node l = .ok p ↔ l.parameters.head? = some p := by
  rw [Resolver.firstParameter]
  cases l.parameters <;> simp

/-- **The resolver follows the rules.** -/
theorem Resolver.resolve_eq_ok {resolver : Resolver} {lineage : Lineage} {input : Parameter}
    {e e' : Expr} :
    resolver.resolve lineage input e = .ok e' ↔
      Resolves resolver.sources lineage input e e' := by
  constructor
  · intro h
    induction lineage generalizing input e e' with
    | broken error => cases h
    | step node before ih =>
      rw [Resolver.resolve] at h
      cases hkind : node.kind with
      | constant _ | subQuery _ =>
        rw [hkind] at h
        obtain ⟨s, hs, h⟩ := bind_eq_ok.mp h
        cases h
        exact .source (by rw [hkind]; rfl) (SourceMap.sourceOf_eq_ok.mp hs)
      | select l =>
        rw [hkind] at h
        obtain ⟨p, hp, h⟩ := bind_eq_ok.mp h
        obtain ⟨projection, hprojection, h⟩ := bind_eq_ok.mp h
        cases h
        exact .select hkind (Resolver.firstParameter_eq_ok.mp hp) (ih hprojection)
      | selectMany c result =>
        cases result with
        | none =>
          rw [hkind] at h
          obtain ⟨s, hs, h⟩ := bind_eq_ok.mp h
          cases h
          exact .many hkind (SourceMap.sourceOf_eq_ok.mp hs)
        | some r =>
          rw [hkind] at h
          obtain ⟨s, hs, h⟩ := bind_eq_ok.mp h
          split at h
          · rename_i outer inner hparameters
            obtain ⟨projection, hprojection, h⟩ := bind_eq_ok.mp h
            cases h
            exact .manyWithResult hkind (SourceMap.sourceOf_eq_ok.mp hs) hparameters
              (ih hprojection)
          · cases h
      | groupBy _ _ =>
        rw [hkind] at h
        cases h
      | filter _ | orderBy _ _ | thenBy _ _ | operator _ =>
        rw [hkind] at h
        exact .pass (by rw [hkind]; rfl) (ih h)
  · intro h
    induction h with
    | @source node before input e s kind mapped =>
      rw [Resolver.resolve]
      cases hkind : node.kind with
      | constant _ | subQuery _ =>
        simp only [SourceMap.sourceOf_eq_ok.mpr mapped]
        rfl
      | _ =>
        rw [hkind] at kind
        cases kind
    | select kind first _ ih =>
      rw [Resolver.resolve]
      simp only [kind, Resolver.firstParameter_eq_ok.mpr first]
      exact bind_eq_ok.mpr ⟨_, rfl, bind_eq_ok.mpr ⟨_, ih, rfl⟩⟩
    | many kind mapped =>
      rw [Resolver.resolve]
      simp only [kind, SourceMap.sourceOf_eq_ok.mpr mapped]
      rfl
    | manyWithResult kind mapped parameters _ ih =>
      rw [Resolver.resolve]
      simp only [kind, SourceMap.sourceOf_eq_ok.mpr mapped, parameters]
      exact bind_eq_ok.mpr ⟨_, rfl, bind_eq_ok.mpr ⟨_, ih, rfl⟩⟩
    | @pass node before input e e' kind _ ih =>
      rw [Resolver.resolve]
      cases hkind : node.kind with
      | filter _ | orderBy _ _ | thenBy _ _ | operator _ => exact ih
      | _ =>
        rw [hkind] at kind
        cases kind

/-! ### What is left over -/

section Occurrences

variable {sources : SourceMap} {lineage : Lineage} {input : Parameter} {e e' : Expr}

/-- **Resolution leaves no parameter behind.**  Apart from `input`, which is put in, and from the
parameters of the lambdas on the way, only what was free before is free afterwards. -/
theorem Resolves.freeParameters {P : Parameter → Prop}
    (h : Resolves sources lineage input e e')
    (hwell : ∀ node ∈ lineage.nodes, node.kind.WellFormed)
    (hheld : ∀ node ∈ lineage.nodes, ∀ x ∈ node.kind.expressions, ∀ q ∈ x.freeParameters, P q)
    (he : ∀ q ∈ e.freeParameters, q = input ∨ P q) :
    ∀ q ∈ e'.freeParameters, P q := by
  -- Putting in an item without free parameters takes `input` away.
  have hput : ∀ {r e : Expr} {input : Parameter}, (∀ q ∈ r.freeParameters, P q) →
      (∀ q ∈ e.freeParameters, q = input ∨ P q) →
      ∀ q ∈ (Expr.replace (.parameter input) r e).freeParameters, P q := by
    intro r e input hr he q hq
    rcases Expr.freeParameters_replace hq with ⟨hq, hne⟩ | hq
    · exact (he q hq).resolve_left hne
    · exact hr q hq
  have hreference : ∀ {s : Source}, ∀ q ∈ (Expr.reference s).freeParameters, P q :=
    fun q hq => nomatch hq
  induction h with
  | source _ _ => exact hput hreference he
  | select kind first _ ih =>
    have hnode := hwell _ (List.mem_cons_self ..)
    have hfree := hheld _ (List.mem_cons_self ..)
    rw [kind] at hnode hfree
    have hprojection := ih (fun n hn => hwell n (List.mem_cons_of_mem _ hn))
      (fun n hn => hheld n (List.mem_cons_of_mem _ hn))
      (Lambda.freeParameters_of_first hnode first (hfree _ (List.mem_singleton.mpr rfl)))
    exact fun q hq => hput hprojection he q (Expr.freeParameters_collapse hq)
  | many _ _ => exact fun q hq => hput hreference he q (Expr.freeParameters_collapse hq)
  | @manyWithResult node before input outer inner e projection c r s kind _ parameters _ ih =>
    have hfree := hheld _ (List.mem_cons_self ..)
    rw [kind] at hfree
    -- The inner parameter is put in first, so it hides an outer one of the same name.
    have hbody : ∀ q ∈ r.body.freeParameters, q = inner ∨ (q = outer ∨ P q) := by
      intro q hq
      rcases Lambda.freeParameters_body hq with hq | hq
      · rw [parameters, List.mem_cons, List.mem_singleton] at hq
        rcases hq with rfl | rfl
        · exact Or.inr (Or.inl rfl)
        · exact Or.inl rfl
      · exact Or.inr (Or.inr (hfree _ (List.mem_cons_of_mem _ (List.mem_singleton.mpr rfl)) q hq))
    have hprojection := ih (fun n hn => hwell n (List.mem_cons_of_mem _ hn))
      (fun n hn => hheld n (List.mem_cons_of_mem _ hn)) (fun q hq => by
        rcases Expr.freeParameters_replace hq with ⟨hq, hne⟩ | hq
        · exact (hbody q hq).resolve_left hne
        · cases hq)
    exact fun q hq => hput hprojection he q (Expr.freeParameters_collapse hq)
  | pass _ _ ih =>
    exact ih (fun n hn => hwell n (List.mem_cons_of_mem _ hn))
      (fun n hn => hheld n (List.mem_cons_of_mem _ hn)) he

/-- A property that an expression keeps when something that has it is put in, when members are read,
and when a lambda is opened. -/
structure Expr.SubstitutionClosed (Q : Expr → Prop) : Prop where
  replace : ∀ {p : Parameter} {r e : Expr}, Q r → Q e → Q (Expr.replace (.parameter p) r e)
  collapse : ∀ {e : Expr}, Q e → Q e.collapse
  body : ∀ {l : Lambda}, Q l.toExpr → Q l.body

/-- **What resolution keeps.**  Whatever holds of the expression, of what the nodes on the way hold
and of the references to the sources made for them, holds of the result. -/
theorem Resolves.keeps {Q : Expr → Prop} (hQ : Expr.SubstitutionClosed Q)
    (h : Resolves sources lineage input e e')
    (hheld : ∀ node ∈ lineage.nodes, ∀ x ∈ node.kind.expressions, Q x)
    (hmade : ∀ node ∈ lineage.nodes, ∀ s, sources.find? node.id = some s → Q (.reference s))
    (he : Q e) : Q e' := by
  induction h with
  | source _ mapped => exact hQ.replace (hmade _ (List.mem_cons_self ..) _ mapped) he
  | select kind _ _ ih =>
    have hnode := hheld _ (List.mem_cons_self ..)
    rw [kind] at hnode
    have hprojection := ih (fun n hn => hheld n (List.mem_cons_of_mem _ hn))
      (fun n hn => hmade n (List.mem_cons_of_mem _ hn))
      (hQ.body (hnode _ (List.mem_singleton.mpr rfl)))
    exact hQ.collapse (hQ.replace hprojection he)
  | many _ mapped =>
    exact hQ.collapse (hQ.replace (hmade _ (List.mem_cons_self ..) _ mapped) he)
  | @manyWithResult _ _ _ _ _ _ _ _ r _ kind mapped _ _ ih =>
    have hnode := hheld _ (List.mem_cons_self ..)
    rw [kind] at hnode
    have hresult : Q r.body :=
      hQ.body (hnode _ (List.mem_cons_of_mem _ (List.mem_singleton.mpr rfl)))
    have hprojection := ih (fun n hn => hheld n (List.mem_cons_of_mem _ hn))
      (fun n hn => hmade n (List.mem_cons_of_mem _ hn))
      (hQ.replace (hmade _ (List.mem_cons_self ..) _ mapped) hresult)
    exact hQ.collapse (hQ.replace hprojection he)
  | pass _ _ ih =>
    exact ih (fun n hn => hheld n (List.mem_cons_of_mem _ hn))
      (fun n hn => hmade n (List.mem_cons_of_mem _ hn)) he

theorem Expr.substitutionClosed_references (P : Source → Prop) :
    Expr.SubstitutionClosed fun e => ∀ s ∈ e.references, P s where
  replace hr he s hs := (Expr.references_replace hs).elim (he s) (hr s)
  collapse he s hs := he s (Expr.references_collapse hs)
  body hl s hs := hl s (Lambda.references_body hs)

/-- **Resolution refers to sources on its way.**  Whatever holds of the sources that the expression
and the lambdas on the way refer to, and of those made for nodes on the way, holds of all sources
that the result refers to. -/
theorem Resolves.references {P : Source → Prop}
    (h : Resolves sources lineage input e e')
    (hheld : ∀ node ∈ lineage.nodes, ∀ x ∈ node.kind.expressions, ∀ s ∈ x.references, P s)
    (hmade : ∀ node ∈ lineage.nodes, ∀ s, sources.find? node.id = some s → P s)
    (he : ∀ s ∈ e.references, P s) : ∀ s ∈ e'.references, P s := by
  refine h.keeps (Expr.substitutionClosed_references P) hheld (fun node hnode s hs t ht => ?_) he
  rw [Expr.mem_references_reference.mp ht]
  exact hmade node hnode s hs

end Occurrences

/-! ### Lambdas, items and selectors -/

namespace Resolver

variable {resolver : Resolver} {e : Expr}

/-- The lambda of a node is resolved through the nodes before it. -/
theorem resolveLambda_eq_ok {node : Node} {before : Lineage} {l : Lambda} :
    resolver.resolveLambda (.step node before) l = .ok e ↔
      ∃ p, l.parameters.head? = some p ∧ Resolves resolver.sources before p l.body e := by
  rw [resolveLambda, Lineage.head, bind_eq_ok]
  simp only [Except.ok.injEq, exists_eq_left', bind_eq_ok, firstParameter_eq_ok, Lineage.before,
    resolve_eq_ok]

/-- The item of a lineage is what its parameter becomes. -/
theorem resolveItem_eq_ok {lineage : Lineage} :
    resolver.resolveItem lineage = .ok e ↔
      ∃ p, lineage.parameter = .ok p ∧
        Resolves resolver.sources lineage p (.parameter p) e := by
  simp only [resolveItem, bind_eq_ok, resolve_eq_ok, Parameter.toExpr]

/-- A selector is the item of the last projection or source: its parameter, or the body of its
lambda, resolved. -/
theorem selector_resolves {lineage : Lineage} (h : resolver.selector lineage = .ok e) :
    ∃ (origin : Lineage) (p : Parameter) (x : Expr),
      (∀ node ∈ origin.nodes, node ∈ lineage.nodes) ∧ Resolves resolver.sources origin p x e ∧
      (x = .parameter p ∨ ∃ node ∈ lineage.nodes, ∃ l, node.kind = .select l ∧
        l.parameters.head? = some p ∧ x = l.body) := by
  induction lineage with
  | broken error => cases h
  | step node before ih =>
    rw [selector] at h
    cases hkind : node.kind with
    | select l =>
      rw [hkind] at h
      obtain ⟨p, hp, hresolves⟩ := resolveLambda_eq_ok.mp h
      exact ⟨before, p, l.body, fun n hn => List.mem_cons_of_mem _ hn, hresolves,
        Or.inr ⟨node, List.mem_cons_self .., l, hkind, hp, rfl⟩⟩
    | constant _ | subQuery _ | selectMany _ _ =>
      rw [hkind] at h
      obtain ⟨p, -, hresolves⟩ := resolveItem_eq_ok.mp h
      exact ⟨.step node before, p, .parameter p, fun n hn => hn, hresolves, Or.inl rfl⟩
    | filter _ | orderBy _ _ | thenBy _ _ | groupBy _ _ | operator _ =>
      rw [hkind] at h
      obtain ⟨origin, p, x, hnodes, hresolves, hx⟩ := ih h
      refine ⟨origin, p, x, fun n hn => List.mem_cons_of_mem _ (hnodes n hn), hresolves, ?_⟩
      exact hx.imp_right fun ⟨n, hn, hl⟩ => ⟨n, List.mem_cons_of_mem _ hn, hl⟩

end Resolver

end Comprehension
