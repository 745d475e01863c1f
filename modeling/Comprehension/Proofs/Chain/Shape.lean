import Comprehension.Proofs.Chain.Typing
import Mathlib.Data.List.TakeWhile

/-! # The last node tells the shape

The shape of a query is found by going through its operators, from the type of the selector on.  An
exactly typed chain tells it without its model: what the query gives is what its last node makes of
the items that flow out of it (`Chain.ExactlyTyped.shape`).

The nodes of a chain that has a model are clauses first and then results
(`Chain.Run.clauses_results`).  At the end of the clauses the items have the type of the selector,
and from there on each result changes the items and the shape in the same way. -/
namespace Comprehension

/-! ### Shapes of nodes -/

/-- What a node gives, with the type of the items that flow out of it. -/
def NodeKind.shapeOver (t : Ty) : NodeKind → Shape
  | .operator op => op.shapeOver t
  | _ => .sequence t

theorem NodeKind.shapeOver_clause {kind : NodeKind} (h : kind.isResult = false) (t : Ty) :
    kind.shapeOver t = .sequence t := by
  cases kind with
  | operator _ => cases h
  | _ => rfl

/-- An operator that makes no groups leaves the items of a sequence as they are. -/
theorem ResultOperator.eq_of_shapeOver_sequence {op : ResultOperator} {t t' : Ty}
    (hgroup : op.grouping? = none) (h : op.shapeOver t = .sequence t') : t' = t := by
  cases op with
  | distinct | take _ | skip _ => exact (Shape.sequence.inj h).symm
  | group _ _ _ => cases hgroup
  | aggregate _ | pick _ _ | contains _ => cases h

theorem NodeKind.eq_of_shapeOver_sequence {kind : NodeKind} {t t' : Ty}
    (hgroup : ∀ op, kind = .operator op → op.grouping? = none)
    (h : kind.shapeOver t = .sequence t') : t' = t := by
  cases kind with
  | operator op => exact ResultOperator.eq_of_shapeOver_sequence (hgroup op rfl) h
  | _ => exact (Shape.sequence.inj h).symm

theorem ResultOperator.shapeAfter_eq_ok {op : ResultOperator} {input shape : Shape} :
    op.shapeAfter input = .ok shape ↔ ∃ t, input = .sequence t ∧ shape = op.shapeOver t := by
  cases input with
  | sequence t =>
    constructor
    · intro h
      cases h
      exact ⟨t, rfl, rfl⟩
    · rintro ⟨_, ht, rfl⟩
      cases ht
      rfl
  | single _ _ | scalar _ =>
    refine ⟨fun h => (nomatch h), ?_⟩
    rintro ⟨_, ht, -⟩
    cases ht

/-- A clause that does not say what its items are passes them on. -/
theorem NodeKind.passes_of_clause {kind : NodeKind} (hprojects : kind.projects = false)
    (hresult : kind.isResult = false) : kind.passes := by
  cases kind with
  | filter _ | orderBy _ _ | thenBy _ _ => rfl
  | constant _ | subQuery _ | select _ | selectMany _ _ => cases hprojects
  | groupBy _ _ | operator _ => cases hresult

theorem Lineage.itemType_back_pass {error : ParseError} {nodes rest : List Node}
    (h : ∀ n ∈ rest, n.kind.passes) :
    (Lineage.back error (nodes ++ rest)).itemType = (Lineage.back error nodes).itemType := by
  induction rest using List.reverseRecOn with
  | nil => rw [List.append_nil]
  | append_singleton rest node ih =>
    have hnode := h node (List.mem_append_right _ (List.mem_singleton.mpr rfl))
    rw [← List.append_assoc, Lineage.back_concat, Lineage.itemType_pass hnode]
    exact ih fun n hn => h n (List.mem_append_left _ hn)

namespace Chain

/-- **Clauses come first, and then results.** -/
theorem Run.clauses_results {chain : Chain} {nextId : Nat} {t : Progress}
    (h : Run chain chain.nodes (.start nextId) t) :
    ∃ clauses results, chain.nodes = clauses ++ results ∧
      (∀ n ∈ clauses, n.kind.isResult = false) ∧ ∀ n ∈ results, n.kind.isResult := by
  have hsplit : chain.nodes = chain.nodes.takeWhile (fun n => !n.kind.isResult) ++
      chain.nodes.dropWhile (fun n => !n.kind.isResult) := List.takeWhile_append_dropWhile.symm
  refine ⟨_, _, hsplit, fun n hn => by simpa using List.mem_takeWhile_imp hn, ?_⟩
  cases hdrop : chain.nodes.dropWhile (fun n => !n.kind.isResult) with
  | nil => exact fun n hn => nomatch hn
  | cons result rest =>
    have hresult : result.kind.isResult := by
      have hhead := List.head?_dropWhile_not (fun n : Node => !n.kind.isResult) chain.nodes
      simpa [hdrop] using hhead
    rw [hdrop] at hsplit
    intro n hn
    rcases List.mem_cons.mp hn with rfl | hn
    · exact hresult
    · exact h.results_last hsplit hresult n hn

section Shape

variable {settings : Settings} {e : Expr} {chain : Chain} {sources : SourceMap}
  (hread : (Reader.ofSettings settings).read e = .ok chain) (htyped : chain.ExactlyTyped)
  (hsources : chain.SourcesTyped sources)
include hread htyped hsources

/-- At the end of the clauses the items have the type of the selector. -/
theorem ExactlyTyped.itemType_clauses {error : ParseError}
    (hback : ∀ before node after, chain.nodes = before ++ node :: after →
      chain.lineage node = .step node (Lineage.back error before))
    {clauses results : List Node} (hsplit : chain.nodes = clauses ++ results)
    (hclauses : ∀ n ∈ clauses, n.kind.isResult = false) {selector : Expr}
    (hselector : (chain.resolver sources).selector (Lineage.back error clauses) = .ok selector) :
    (Lineage.back error clauses).itemType = .ok selector.type := by
  obtain ⟨before, node, after, rfl, hprojects, hafter, hselector⟩ :=
    Resolver.selector_back hselector
  have hnode : chain.nodes = before ++ node :: (after ++ results) := by simp [hsplit]
  have hlineage : (chain.lineage node).Typed (chain.resolver sources).sources :=
    ExactlyTyped.lineage hread htyped hsources (by simp [hnode])
  rw [hback before node _ hnode] at hlineage
  have hpass : ∀ n ∈ after, n.kind.passes := fun n hn =>
    NodeKind.passes_of_clause (hafter n hn) (hclauses n (by simp [hn]))
  calc (Lineage.back error (before ++ node :: after)).itemType
      = (Lineage.back error ((before ++ [node]) ++ after)).itemType := by simp
    _ = (Lineage.back error (before ++ [node])).itemType := Lineage.itemType_back_pass hpass
    _ = .ok selector.type := by
      rw [Lineage.back_concat]
      exact hlineage.selector hprojects hselector

/-- Behind the clauses, each result changes items and shape in the same way. -/
theorem ExactlyTyped.shape_results {error : ParseError}
    (hback : ∀ before node after, chain.nodes = before ++ node :: after →
      chain.lineage node = .step node (Lineage.back error before))
    {clauses results rest : List Node} (hsplit : chain.nodes = clauses ++ results ++ rest)
    (hclauses : ∀ n ∈ clauses, n.kind.isResult = false) {t : Ty}
    (hitems : (Lineage.back error clauses).itemType = .ok t) {operators : List ResultOperator}
    (hgiven : List.Forall₂ (chain.GivesOperator sources) results operators) {shape : Shape}
    (hshape : operators.foldlM (fun shape op => op.shapeAfter shape) (.sequence t) = .ok shape) :
    ∃ last t', (clauses ++ results).getLast? = some last ∧
      (Lineage.back error (clauses ++ results)).itemType = .ok t' ∧
      shape = last.kind.shapeOver t' := by
  induction operators using List.reverseRecOn generalizing results rest shape with
  | nil =>
    rw [List.forall₂_nil_right_iff.mp hgiven, List.append_nil]
    cases hshape
    rcases List.eq_nil_or_concat clauses with rfl | ⟨before, last, hlast⟩
    · cases hitems
    · rw [List.concat_eq_append] at hlast
      have hmem : last ∈ clauses := by simp [hlast]
      refine ⟨last, t, by simp [hlast], hitems, ?_⟩
      exact (NodeKind.shapeOver_clause (hclauses last hmem) t).symm
  | append_singleton operators op ih =>
    obtain ⟨done, node, rfl, hdone, hnode⟩ := forall₂_concat_right hgiven
    rw [List.foldlM_append] at hshape
    obtain ⟨input, hinput, hshape⟩ := bind_eq_ok.mp hshape
    obtain ⟨output, houtput, hshape⟩ := bind_eq_ok.mp hshape
    cases hshape
    obtain ⟨item, rfl, rfl⟩ := ResultOperator.shapeAfter_eq_ok.mp houtput
    have hthere : chain.nodes = clauses ++ done ++ ([node] ++ rest) := by simp [hsplit]
    obtain ⟨before, t', hbefore, hitem, hsequence⟩ := ih hthere hdone hinput
    -- What the operator was applied to are the items that flow out of the node before.
    have hmem : before ∈ chain.nodes := by
      rw [hthere]
      exact List.mem_append_left _ (List.mem_of_getLast? hbefore)
    have hgroupless := (Reader.read_regular hread).groupless
    obtain rfl : item = t' :=
      NodeKind.eq_of_shapeOver_sequence (hgroupless before hmem) hsequence.symm
    rw [← List.append_assoc, Lineage.back_concat]
    refine ⟨node, ?_⟩
    cases hnode with
    | operator kind =>
      refine ⟨item, by simp, ?_, by rw [kind]; rfl⟩
      rw [Lineage.itemType_pass (by rw [kind]; rfl)]
      exact hitem
    | groupBy kind resolved kept =>
      have hat : chain.nodes = (clauses ++ done) ++ node :: rest := by simp [hthere]
      have hlineage : (chain.lineage node).Typed (chain.resolver sources).sources :=
        ExactlyTyped.lineage hread htyped hsources (by simp [hat])
      rw [hback _ node _ hat] at hlineage resolved kept
      refine ⟨_, by simp, hlineage.grouping kind resolved kept, ?_⟩
      rw [kind]
      rfl

end Shape

/-- **The last node tells the shape.**  The query of an exactly typed chain has the shape that the
last node gives to the items that flow out of it. -/
theorem ExactlyTyped.shape {settings : Settings} {e : Expr} {chain : Chain} {nextId : Nat}
    {model : Model} (hread : (Reader.ofSettings settings).read e = .ok chain)
    (htyped : chain.ExactlyTyped) (hmodel : (chain.toModel nextId).1 = .ok model) :
    ∃ last t, chain.last? = some last ∧ (chain.lineage last).itemType = .ok t ∧
      model.shape = .ok (last.kind.shapeOver t) := by
  obtain ⟨last, draft, context, selector, hlast, hrun, hselector, hfinish⟩ :=
    toModel_eq_ok.mp hmodel
  obtain ⟨mainFrom, -, rfl, ⟨shape, hshape⟩, -⟩ := finish_eq_ok.mp hfinish
  have hsources := Run.sourcesTyped hread htyped hrun (fun _ hn => hn) fun _ _ _ hs => nomatch hs
  obtain ⟨error, hback⟩ := (Reader.read_regular hread).linear.lineage_eq
  obtain ⟨clauses, results, hsplit, hclauses, hresults⟩ := hrun.clauses_results
  rw [lineage_last_eq hback hlast] at hselector
  have hitems : (Lineage.back error clauses).itemType = .ok selector.type := by
    rw [hsplit, Resolver.selector_results hresults] at hselector
    exact ExactlyTyped.itemType_clauses hread htyped hsources hback hsplit hclauses hselector
  have hgiven : List.Forall₂ (chain.GivesOperator context.sources) results draft.operators := by
    have hall := hrun.operatorsGiven
    rwa [hsplit, List.filter_append, List.filter_eq_nil_iff.mpr (by simpa using hclauses),
      List.nil_append, List.filter_eq_self.mpr hresults] at hall
  obtain ⟨node, t, hnode, hitem, rfl⟩ :=
    ExactlyTyped.shape_results hread htyped hsources hback
      (by rw [hsplit, List.append_nil] : chain.nodes = clauses ++ results ++ []) hclauses hitems
      hgiven hshape
  rw [← hsplit] at hnode hitem
  exact ⟨node, t, hnode, lineage_last_eq hback hnode ▸ hitem, hshape⟩

end Chain

end Comprehension
