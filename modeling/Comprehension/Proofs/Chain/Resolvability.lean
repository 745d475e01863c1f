import Comprehension.Proofs.Chain.Grammar
import Mathlib.Data.List.Basic

/-! # When items can be resolved

Resolution follows a lineage back to its source.  It succeeds when the nodes on the way have their
lambdas in order and their sources made, and when none of them groups
(`Lineage.FromSource.exists_resolves`).  Behind a grouping it fails (`Resolves.not_grouped`), but a
selector is taken before the results (`Resolver.selector_results`). -/
namespace Comprehension

/-! ### Lineages that go back to a source -/

/-- The first node is a source, and no other node is. -/
def Started (nodes : List Node) : Prop :=
  ∃ first rest, nodes = first :: rest ∧ first.kind.isSource ∧ ∀ n ∈ rest, n.kind.isSource = false

theorem started_concat {nodes : List Node} {node : Node} :
    Started (nodes ++ [node]) ↔
      nodes = [] ∧ node.kind.isSource ∨ Started nodes ∧ node.kind.isSource = false := by
  constructor
  · rintro ⟨first, rest, hsplit, hfirst, hrest⟩
    cases nodes with
    | nil =>
      cases hsplit
      exact Or.inl ⟨rfl, hfirst⟩
    | cons n nodes =>
      cases hsplit
      refine Or.inr ⟨⟨_, nodes, rfl, hfirst, ?_⟩, ?_⟩
      · exact fun m hm => hrest m (List.mem_append_left _ hm)
      · exact hrest node (List.mem_append_right _ (List.mem_singleton.mpr rfl))
  · rintro (⟨rfl, hfirst⟩ | ⟨⟨first, rest, rfl, hfirst, hrest⟩, hnode⟩)
    · exact ⟨node, [], rfl, hfirst, fun _ h => nomatch h⟩
    · refine ⟨first, rest ++ [node], rfl, hfirst, ?_⟩
      intro m hm
      rcases List.mem_append.mp hm with hm | hm
      · exact hrest m hm
      · rw [List.mem_singleton.mp hm]
        exact hnode

/-- The lineage goes back to a source, through nodes that satisfy `P`. -/
inductive Lineage.FromSource (P : Node → Prop) : Lineage → Prop
  | source {node : Node} {before : Lineage} (kind : node.kind.isSource) (holds : P node) :
    FromSource P (.step node before)
  | step {node : Node} {before : Lineage} (kind : node.kind.isSource = false) (holds : P node)
      (rest : FromSource P before) : FromSource P (.step node before)

theorem Lineage.fromSource_back {P : Node → Prop} {error : ParseError} {nodes : List Node}
    (hstarted : Started nodes) (holds : ∀ n ∈ nodes, P n) :
    (Lineage.back error nodes).FromSource P := by
  induction nodes using List.reverseRecOn with
  | nil =>
    obtain ⟨first, rest, hsplit, -⟩ := hstarted
    cases hsplit
  | append_singleton nodes node ih =>
    rw [Lineage.back_concat]
    have hnode := holds node (List.mem_append_right _ (List.mem_singleton.mpr rfl))
    rcases started_concat.mp hstarted with ⟨-, hsource⟩ | ⟨hnodes, hlater⟩
    · exact .source hsource hnode
    · exact .step hlater hnode (ih hnodes fun n hn => holds n (List.mem_append_left _ hn))

/-- Whether a node makes a source of its own. -/
def NodeKind.makesSource : NodeKind → Bool
  | .constant _ => true
  | .subQuery _ => true
  | .selectMany .. => true
  | _ => false

theorem NodeKind.makesSource_of_isSource {kind : NodeKind} (h : kind.isSource) :
    kind.makesSource := by
  cases kind with
  | constant _ | subQuery _ => rfl
  | _ => cases h

/-- Everything that resolution asks of a node: its lambdas are in order, its source has been made,
and it does not group. -/
structure Node.Resolvable (sources : SourceMap) (node : Node) : Prop where
  wellFormed : node.kind.WellFormed
  mapped : node.kind.makesSource → ∃ s, sources.find? node.id = some s
  ungrouped : node.kind.isGroup = false

/-- **When resolution succeeds.**  Through nodes that are in order it gives a result. -/
theorem Lineage.FromSource.exists_resolves {sources : SourceMap} {lineage : Lineage}
    (h : lineage.FromSource (Node.Resolvable sources)) (input : Parameter) (e : Expr) :
    ∃ e', Resolves sources lineage input e e' := by
  induction h generalizing input e with
  | source kind holds =>
    obtain ⟨s, hs⟩ := holds.mapped (NodeKind.makesSource_of_isSource kind)
    exact ⟨_, .source kind hs⟩
  | @step node before kind holds _ ih =>
    obtain ⟨hwell, hmapped, hgroup⟩ := holds
    cases hkind : node.kind with
    | constant _ | subQuery _ =>
      rw [hkind] at kind
      cases kind
    | groupBy _ _ =>
      rw [hkind] at hgroup
      cases hgroup
    | select l =>
      rw [hkind] at hwell
      obtain ⟨p, hp⟩ := List.length_eq_one_iff.mp hwell
      obtain ⟨projection, hprojection⟩ := ih p l.body
      exact ⟨_, .select hkind (by rw [hp]; rfl) hprojection⟩
    | selectMany c result =>
      obtain ⟨s, hs⟩ := hmapped (by rw [hkind]; rfl)
      cases result with
      | none => exact ⟨_, .many hkind hs⟩
      | some r =>
        rw [hkind] at hwell
        obtain ⟨outer, inner, hr⟩ := List.length_eq_two.mp (hwell.2 r rfl)
        obtain ⟨projection, hprojection⟩ :=
          ih outer (Expr.replace (.parameter inner) (.reference s) r.body)
        exact ⟨_, .manyWithResult hkind hs hr hprojection⟩
    | filter _ | orderBy _ _ | thenBy _ _ | operator _ =>
      obtain ⟨e', he'⟩ := ih input e
      exact ⟨e', .pass (by rw [hkind]; rfl) he'⟩

/-- The collection of a projection to many items has items. -/
def NodeKind.HasItems (kind : NodeKind) : Prop :=
  ∀ c r, kind = .selectMany c r → c.body.type.element?.isSome

/-- When collections have items, the items of every node have a type. -/
theorem Lineage.FromSource.itemType_isOk {lineage : Lineage}
    (h : lineage.FromSource fun node => node.kind.HasItems) :
    ∃ type, lineage.itemType = .ok type := by
  induction h with
  | @source node before kind holds =>
    rw [itemType]
    cases hkind : node.kind with
    | constant s | subQuery s => exact ⟨s.elementType, rfl⟩
    | _ =>
      rw [hkind] at kind
      cases kind
  | @step node before kind holds _ ih =>
    obtain ⟨type, htype⟩ := ih
    rw [itemType]
    cases hkind : node.kind with
    | constant s | subQuery s => exact ⟨s.elementType, rfl⟩
    | select l => exact ⟨l.body.type, rfl⟩
    | selectMany c result =>
      cases result with
      | some r => exact ⟨r.body.type, rfl⟩
      | none =>
        obtain ⟨item, hitem⟩ := Option.isSome_iff_exists.mp (holds c none hkind)
        exact ⟨item, itemsOf_eq_ok.mpr hitem⟩
    | groupBy k element =>
      cases element with
      | some l => exact ⟨_, rfl⟩
      | none => exact ⟨_, bind_eq_ok.mpr ⟨type, htype, rfl⟩⟩
    | filter _ | orderBy _ _ | thenBy _ _ | operator _ => exact ⟨type, htype⟩

/-- The item that flows out of nodes that are in order can be resolved. -/
theorem Lineage.FromSource.resolveItem_isOk {resolver : Resolver} {lineage : Lineage}
    (h : lineage.FromSource (Node.Resolvable resolver.sources))
    (hitems : lineage.FromSource fun node => node.kind.HasItems) :
    ∃ e, resolver.resolveItem lineage = .ok e := by
  obtain ⟨type, htype⟩ := hitems.itemType_isOk
  have hparameter : ∃ p, lineage.parameter = .ok p := by
    cases h with
    | source _ _ | step _ _ _ =>
      exact ⟨_, bind_eq_ok.mpr ⟨_, rfl, bind_eq_ok.mpr ⟨type, htype, rfl⟩⟩⟩
  obtain ⟨p, hp⟩ := hparameter
  obtain ⟨e, he⟩ := h.exists_resolves p (.parameter p)
  exact ⟨e, Resolver.resolveItem_eq_ok.mpr ⟨p, hp, he⟩⟩

/-- Groups cannot be taken apart: behind a grouping, with nothing but results after it, nothing can
be resolved. -/
theorem Resolves.not_grouped {sources : SourceMap} {error : ParseError} {group : Node}
    {before after : List Node} {input : Parameter} {e e' : Expr} (hgroup : group.kind.isGroup)
    (hafter : ∀ n ∈ after, n.kind.isResult) :
    ¬ Resolves sources (Lineage.back error (before ++ group :: after)) input e e' := by
  have hstop : ∀ {node : Node} {lineage : Lineage} {input : Parameter} {e e' : Expr},
      node.kind.isGroup → ¬ Resolves sources (.step node lineage) input e e' := by
    intro node lineage input e e' hnode h
    cases hkind : node.kind with
    | groupBy _ _ =>
      cases h with
      | source kind _ | pass kind _ =>
        rw [hkind] at kind
        cases kind
      | select kind _ _ | many kind _ | manyWithResult kind _ _ _ =>
        rw [hkind] at kind
        cases kind
    | _ =>
      rw [hkind] at hnode
      cases hnode
  induction after using List.reverseRecOn with
  | nil =>
    rw [Lineage.back_concat]
    exact hstop hgroup
  | append_singleton after node ih =>
    rw [show before ++ group :: (after ++ [node]) = (before ++ group :: after) ++ [node] by simp,
      Lineage.back_concat]
    have hnode := hafter node (List.mem_append_right _ (List.mem_singleton.mpr rfl))
    intro h
    -- An operator hands on what it gets, so the question comes back to the nodes before it.
    cases hkind : node.kind with
    | groupBy _ _ => exact hstop (by rw [hkind]; rfl) h
    | operator op =>
      cases h with
      | pass _ item => exact ih (fun n hn => hafter n (List.mem_append_left _ hn)) item
      | source kind _ =>
        rw [hkind] at kind
        cases kind
      | select kind _ _ | many kind _ | manyWithResult kind _ _ _ =>
        rw [hkind] at kind
        cases kind
    | _ =>
      rw [hkind] at hnode
      cases hnode


/-! ### Selectors -/

/-- The selector behind nodes that are in order can be resolved. -/
theorem Lineage.FromSource.selector_isOk {resolver : Resolver} {lineage : Lineage}
    (h : lineage.FromSource (Node.Resolvable resolver.sources))
    (hitems : lineage.FromSource fun node => node.kind.HasItems) :
    ∃ e, resolver.selector lineage = .ok e := by
  have hitem := h.resolveItem_isOk hitems
  induction h with
  | @source node before kind _ =>
    rw [Resolver.selector]
    cases hkind : node.kind with
    | constant _ | subQuery _ => exact hitem
    | _ =>
      rw [hkind] at kind
      cases kind
  | @step node before kind holds rest ih =>
    obtain ⟨hwell, -, hgroup⟩ := holds
    rw [Resolver.selector]
    cases hkind : node.kind with
    | constant _ | subQuery _ | selectMany _ _ => exact hitem
    | groupBy _ _ =>
      rw [hkind] at hgroup
      cases hgroup
    | select l =>
      rw [hkind] at hwell
      obtain ⟨p, hp⟩ := List.length_eq_one_iff.mp hwell
      obtain ⟨e, he⟩ := rest.exists_resolves p l.body
      exact ⟨e, Resolver.resolveLambda_eq_ok.mpr ⟨p, by rw [hp]; rfl, he⟩⟩
    | filter _ | orderBy _ _ | thenBy _ _ | operator _ =>
      cases hitems with
      | source hsource _ =>
        rw [hkind] at hsource
        cases hsource
      | step _ _ hrest => exact ih hrest (rest.resolveItem_isOk hrest)

/-- A selector is taken before the results. -/
theorem Resolver.selector_results {resolver : Resolver} {error : ParseError}
    {nodes results : List Node} (hresults : ∀ n ∈ results, n.kind.isResult) :
    resolver.selector (Lineage.back error (nodes ++ results)) =
      resolver.selector (Lineage.back error nodes) := by
  induction results using List.reverseRecOn with
  | nil => rw [List.append_nil]
  | append_singleton results node ih =>
    have hnode := hresults node (List.mem_append_right _ (List.mem_singleton.mpr rfl))
    rw [← ih fun n hn => hresults n (List.mem_append_left _ hn), ← List.append_assoc,
      Lineage.back_concat, Resolver.selector]
    cases hkind : node.kind with
    | groupBy _ _ | operator _ | filter _ | orderBy _ _ | thenBy _ _ => rfl
    | constant _ | subQuery _ | select _ | selectMany _ _ =>
      rw [hkind] at hnode
      cases hnode

/-- Nodes that fit are a source and clauses, and then results. -/
theorem Started.exists_results {nodes : List Node} (hstarted : Started nodes)
    (hfit : AllFit (nodes.map Node.kind)) :
    ∃ clauses results, nodes = clauses ++ results ∧ Started clauses ∧
      (∀ n ∈ clauses, n.kind.isResult = false) ∧ ∀ n ∈ results, n.kind.isResult := by
  induction nodes using List.reverseRecOn with
  | nil =>
    obtain ⟨first, rest, hsplit, -⟩ := hstarted
    cases hsplit
  | append_singleton nodes node ih =>
    rw [List.map_append, List.map_singleton, allFit_concat] at hfit
    obtain ⟨hfit, hfits⟩ := hfit
    rcases started_concat.mp hstarted with ⟨rfl, hsource⟩ | ⟨hnodes, hlater⟩
    · refine ⟨[node], [], rfl, hstarted, fun n hn => ?_, fun _ h => nomatch h⟩
      rw [List.mem_singleton.mp hn]
      exact (NodeKind.sourceOnly hsource).2.1
    · cases hresult : node.kind.isResult with
      | true =>
        obtain ⟨clauses, results, rfl, hclauses, hnone, hall⟩ := ih hnodes hfit
        refine ⟨clauses, results ++ [node], List.append_assoc .., hclauses, hnone, fun n hn => ?_⟩
        rcases List.mem_append.mp hn with hn | hn
        · exact hall n hn
        · rw [List.mem_singleton.mp hn]
          exact hresult
      | false =>
        refine ⟨nodes ++ [node], [], (List.append_nil _).symm, hstarted, fun n hn => ?_,
          fun _ h => nomatch h⟩
        rcases List.mem_append.mp hn with hn | hn
        · exact hfits.clause (NodeKind.isClause_of_later hlater hresult) _ (List.mem_map_of_mem hn)
        · rw [List.mem_singleton.mp hn]
          exact hresult

/-- **The selector of nodes that fit can be resolved.** -/
theorem Started.selector_isOk {nodes : List Node} (hstarted : Started nodes) {resolver : Resolver}
    (hwell : ∀ n ∈ nodes, n.kind.WellFormed)
    (hmapped : ∀ n ∈ nodes, n.kind.makesSource → ∃ s, resolver.sources.find? n.id = some s)
    (hitems : ∀ n ∈ nodes, n.kind.HasItems) (hfit : AllFit (nodes.map Node.kind))
    (error : ParseError) : ∃ e, resolver.selector (Lineage.back error nodes) = .ok e := by
  obtain ⟨clauses, results, rfl, hclauses, hnone, hresults⟩ := hstarted.exists_results hfit
  have hmem : ∀ {n}, n ∈ clauses → n ∈ clauses ++ results := fun hn => List.mem_append_left _ hn
  rw [Resolver.selector_results hresults]
  refine Lineage.FromSource.selector_isOk ?_ ?_
  · exact Lineage.fromSource_back hclauses fun n hn =>
      ⟨hwell n (hmem hn), hmapped n (hmem hn), NodeKind.isGroup_eq_false (hnone n hn)⟩
  · exact Lineage.fromSource_back hclauses fun n hn => hitems n (hmem hn)

end Comprehension
