import Comprehension.Proofs.Chain.Failure
import Comprehension.Proofs.Chain.Scope
import Comprehension.Proofs.Model.References
import Comprehension.Proofs.Model.Shape

/-! # References of a model point back

Each reference in a model is to something that the call tree referred to already, or to a source
declared before the clause that holds it.  The assembly keeps this at every step
(`Chain.Progress.PointsBack`), also when it puts a further sort key into a clause that is there
already.  So the final check of references can only fail on references that the call tree came with.
-/
namespace Comprehension

/-! ### References point back -/

namespace Draft

/-- The sources declared before a clause: the main source, and those of the clauses before it. -/
def sourcesBefore (draft : Draft) (before : List BodyClause) : List Source :=
  (draft.mainFrom.map FromClause.source).toList ++ before.filterMap BodyClause.source?

/-- All sources declared so far. -/
def sources (draft : Draft) : List Source := draft.sourcesBefore draft.body

/-- The sources of a draft are those of the model that it is finished to. -/
theorem sources_eq {draft : Draft} {mainFrom : FromClause} (h : draft.mainFrom = some mainFrom)
    (selector : Expr) :
    draft.sources = (⟨mainFrom, draft.body, selector, draft.operators⟩ : Model).sources := by
  simp [sources, sourcesBefore, h, Model.sources]

end Draft

theorem Context.find?_withSource_cases {context : Context} {node : Node} {source s : Source}
    {id : Nat} (h : (context.withSource node source).sources.find? id = some s) :
    context.sources.find? id = some s ∨ s = source ∧ node.id = id := by
  rw [Context.find?_withSource] at h
  cases hold : context.sources.find? id with
  | some t =>
    rw [hold] at h
    exact Or.inl h
  | none =>
    rw [hold] at h
    by_cases hid : node.id = id
    · rw [if_pos hid] at h
      exact Or.inr ⟨(Option.some.inj h).symm, hid⟩
    · rw [if_neg hid] at h
      cases h

/-- Where something can stand in a list with one more element: in the list before, or at the new
end. -/
theorem split_concat {α : Type} {l before after : List α} {x y : α}
    (h : l ++ [y] = before ++ x :: after) :
    (∃ after', l = before ++ x :: after' ∧ after = after' ++ [y]) ∨
      (l = before ∧ y = x ∧ after = []) := by
  rcases List.eq_nil_or_concat after with rfl | ⟨after', z, rfl⟩
  · obtain ⟨hl, hy⟩ := List.append_inj' h rfl
    exact Or.inr ⟨hl, (List.cons.inj hy).1, rfl⟩
  · rw [show before ++ x :: after'.concat z = (before ++ x :: after') ++ [z] from by simp] at h
    obtain ⟨hl, hy⟩ := List.append_inj' h rfl
    exact Or.inl ⟨after', hl, by rw [(List.cons.inj hy).1, List.concat_eq_append]⟩

namespace Chain

/-- **What the assembly keeps about references.**  Sources made for nodes are declared in the draft,
and every reference was known, or is to a source declared before its clause. -/
structure Progress.PointsBack (known : List Source) (s : Progress) : Prop where
  made : ∀ id source, s.context.sources.find? id = some source → source ∈ s.draft.sources
  mainFrom : ∀ c, s.draft.mainFrom = some c → c.expression.references = []
  body : ∀ before clause after, s.draft.body = before ++ clause :: after →
    RefersOnly (fun x => x ∈ known ∨ x ∈ s.draft.sourcesBefore before) clause.expressions
  operators : ∀ op ∈ s.draft.operators,
    RefersOnly (fun x => x ∈ known ∨ x ∈ s.draft.sources) op.expressions

variable {e : Expr} {chain : Chain}

/-- An expression made at a node refers to what was known, or to what is declared by then. -/
theorem ReadFrom.references_made (h : chain.ReadFrom e) {node : Node} (hnode : node ∈ chain.nodes)
    {s : Progress} (hs : s.PointsBack e.references) {x : Expr}
    (hmade : Made chain node s.context.sources x) :
    ∀ r ∈ x.references, r ∈ e.references ∨ r ∈ s.draft.sources := by
  intro r hr
  rcases h.made_cases hnode hmade with ⟨type, kind⟩ | hheld | hresolved
  · rw [references_origin kind] at hr
    cases hr
  · exact Or.inl ((h.within node hnode).references x hheld r hr)
  · exact h.references_resolved hs.made hresolved r hr

/-- A new clause behind the others keeps references pointing back, if its own do. -/
theorem Progress.PointsBack.body_concat {known : List Source} {draft : Draft} {context : Context}
    (hs : PointsBack known ⟨draft, context⟩) {c : BodyClause}
    (hc : RefersOnly (fun x => x ∈ known ∨ x ∈ draft.sources) c.expressions) :
    ∀ before clause after, draft.body ++ [c] = before ++ clause :: after →
      RefersOnly (fun x => x ∈ known ∨ x ∈ draft.sourcesBefore before) clause.expressions := by
  intro before clause after hsplit
  rcases split_concat hsplit with ⟨after', hbody, -⟩ | ⟨rfl, rfl, -⟩
  · exact hs.body before clause after' hbody
  · exact hc

/-- The main source comes with an expression that refers to nothing.  Nothing is lost, since there
was no main source before. -/
theorem Progress.PointsBack.mainSource {known : List Source} {draft : Draft} {context : Context}
    (hs : PointsBack known ⟨draft, context⟩) (first : draft.mainFrom = none) {node : Node}
    (source : Source) {x : Expr} (closed : x.references = []) :
    PointsBack known
      ⟨{ draft with mainFrom := some ⟨source, x⟩ }, context.withSource node source⟩ := by
  have hmono : ∀ {before : List BodyClause} {r}, r ∈ draft.sourcesBefore before →
      r ∈ { draft with mainFrom := some ⟨source, x⟩ : Draft }.sourcesBefore before := by
    intro before r hr
    rw [Draft.sourcesBefore, first] at hr
    exact List.mem_cons_of_mem _ hr
  refine ⟨?_, ?_, ?_, ?_⟩
  · intro id r hr
    rcases Context.find?_withSource_cases hr with hold | ⟨rfl, -⟩
    · exact hmono (hs.made id r hold)
    · exact List.mem_cons_self ..
  · intro c hc
    cases hc
    exact closed
  · exact fun before clause after hsplit =>
      (hs.body before clause after hsplit).imp fun _ => Or.imp_right hmono
  · exact fun op hop => (hs.operators op hop).imp fun _ => Or.imp_right hmono

/-- A further source is declared for what comes behind it, and not for its own expression. -/
theorem Progress.PointsBack.furtherSource {known : List Source} {draft : Draft} {context : Context}
    (hs : PointsBack known ⟨draft, context⟩) {node : Node} (source : Source) {x : Expr}
    (hx : ∀ r ∈ x.references, r ∈ known ∨ r ∈ draft.sources) :
    PointsBack known
      ⟨{ draft with body := draft.body ++ [.additionalFrom ⟨source, x⟩] },
        context.withSource node source⟩ := by
  have hsources : { draft with body := draft.body ++ [.additionalFrom ⟨source, x⟩] : Draft }.sources
      = draft.sources ++ [source] := by
    simp [Draft.sources, Draft.sourcesBefore, BodyClause.source?]
  refine ⟨?_, hs.mainFrom, ?_, ?_⟩
  · intro id r hr
    rw [hsources]
    rcases Context.find?_withSource_cases hr with hold | ⟨rfl, -⟩
    · exact List.mem_append_left _ (hs.made id r hold)
    · exact List.mem_append_right _ (List.mem_singleton.mpr rfl)
  · refine hs.body_concat fun y hy => ?_
    rw [List.mem_singleton.mp hy]
    exact hx
  · intro op hop
    rw [hsources]
    exact (hs.operators op hop).imp fun _ => Or.imp_right (List.mem_append_left _)

theorem Progress.PointsBack.clause {known : List Source} {draft : Draft} {context : Context}
    (hs : PointsBack known ⟨draft, context⟩) {c : BodyClause} (sourceless : c.source? = none)
    (hc : RefersOnly (fun x => x ∈ known ∨ x ∈ draft.sources) c.expressions) :
    PointsBack known ⟨{ draft with body := draft.body ++ [c] }, context⟩ := by
  have hsources : { draft with body := draft.body ++ [c] : Draft }.sources = draft.sources := by
    simp [Draft.sources, Draft.sourcesBefore, sourceless]
  refine ⟨?_, hs.mainFrom, hs.body_concat hc, ?_⟩
  · intro id r hr
    rw [hsources]
    exact hs.made id r hr
  · rw [hsources]
    exact hs.operators

/-- A further sort key is put into the sorting clause at the end.  The clause declares nothing, so
the key sees only what stands before the clause. -/
theorem Progress.PointsBack.sortKey {known : List Source} {draft : Draft} {context : Context}
    (hs : PointsBack known ⟨draft, context⟩) {body : List BodyClause} {keys : List SortKey}
    (sorting : draft.body = body ++ [.orderBy keys]) {key : SortKey}
    (hkey : ∀ r ∈ key.expression.references, r ∈ known ∨ r ∈ draft.sources) :
    PointsBack known
      ⟨{ draft with body := body ++ [.orderBy (keys ++ [key])] }, context⟩ := by
  have hbefore : draft.sources = draft.sourcesBefore body := by
    simp [Draft.sources, Draft.sourcesBefore, sorting, BodyClause.source?]
  have hsources : { draft with body := body ++ [.orderBy (keys ++ [key])] : Draft }.sources =
      draft.sources := by
    rw [hbefore]
    simp [Draft.sources, Draft.sourcesBefore, BodyClause.source?]
  refine ⟨?_, hs.mainFrom, ?_, ?_⟩
  · intro id r hr
    rw [hsources]
    exact hs.made id r hr
  · intro before clause after hsplit
    rcases split_concat hsplit with ⟨after', hbody, -⟩ | ⟨rfl, rfl, -⟩
    · refine hs.body before clause (after' ++ [.orderBy keys]) ?_
      rw [sorting, hbody, List.append_assoc]
      rfl
    · intro y hy
      rw [BodyClause.expressions, List.map_append, List.mem_append] at hy
      rcases hy with hy | hy
      · exact hs.body body (.orderBy keys) [] sorting y hy
      · rw [List.mem_singleton.mp hy]
        exact fun r hr => hbefore ▸ hkey r hr
  · rw [hsources]
    exact hs.operators

theorem Progress.PointsBack.operator {known : List Source} {draft : Draft} {context : Context}
    (hs : PointsBack known ⟨draft, context⟩) {op : ResultOperator}
    (hop : RefersOnly (fun x => x ∈ known ∨ x ∈ draft.sources) op.expressions) :
    PointsBack known ⟨{ draft with operators := draft.operators ++ [op] }, context⟩ := by
  refine ⟨hs.made, hs.mainFrom, hs.body, ?_⟩
  intro op' hop'
  rcases List.mem_append.mp hop' with hop' | hop'
  · exact hs.operators op' hop'
  · rw [List.mem_singleton.mp hop']
    exact hop

/-- What is added at a node keeps references pointing back. -/
theorem Adds.pointsBack (h : chain.ReadFrom e) {node : Node} (hnode : node ∈ chain.nodes)
    {s t : Progress} (hadds : Adds chain node s t) (hs : s.PointsBack e.references) :
    t.PointsBack e.references := by
  have hmade : ∀ {x}, Made chain node s.context.sources x →
      ∀ r ∈ x.references, r ∈ e.references ∨ r ∈ s.draft.sources := h.references_made hnode hs
  cases hadds with
  | mainFrom source _ closed first => exact hs.mainSource first source closed
  | additionalFrom source made => exact hs.furtherSource source (hmade made)
  | clause sourceless made => exact hs.clause sourceless fun x hx => hmade (made x hx)
  | sortKey sorting made => exact hs.sortKey sorting (hmade made)
  | operator made => exact hs.operator fun x hx => hmade (made x hx)
  | nothing => exact hs

theorem Run.pointsBack (h : chain.ReadFrom e) {nextId : Nat} {t : Progress}
    (hrun : Run chain chain.nodes (.start nextId) t) : t.PointsBack e.references := by
  refine Run.invariant (P := fun _ s => s.PointsBack e.references) ?_ hrun ?_
  · intro before after node s t hsplit hs hstep
    have hnode : node ∈ chain.nodes := by
      rw [hsplit]
      exact List.mem_append_right _ (List.mem_cons_self ..)
    exact hstep.adds.pointsBack h hnode hs
  · refine ⟨fun _ _ h => (nomatch h), fun _ h => (nomatch h), ?_, fun _ h => (nomatch h)⟩
    intro before clause after hsplit
    cases before <;> cases hsplit

/-- What the assembly hands to the final checks refers only to what was known and to sources
declared before. -/
theorem Run.eachReference (h : chain.ReadFrom e) {nextId : Nat} {draft : Draft} {context : Context}
    (hrun : Run chain chain.nodes (.start nextId) ⟨draft, context⟩) {last : Node}
    (hlast : chain.last? = some last) {selector : Expr}
    (hselector : (chain.resolver context.sources).selector (chain.lineage last) = .ok selector)
    {mainFrom : FromClause} (hmain : draft.mainFrom = some mainFrom) :
    Model.EachReference (fun declared s => s ∈ e.references ∨ s ∈ declared)
      ⟨mainFrom, draft.body, selector, draft.operators⟩ := by
  have hback := hrun.pointsBack h
  have hbefore : ∀ before, draft.sourcesBefore before =
      mainFrom.source :: before.filterMap BodyClause.source? := by
    intro before
    rw [Draft.sourcesBefore, hmain]
    rfl
  refine ⟨?_, ?_, ?_, ?_⟩
  · intro x hx r hr
    rw [List.mem_singleton.mp hx, hback.mainFrom mainFrom hmain] at hr
    cases hr
  · intro before clause after hsplit
    rw [← hbefore]
    exact hback.body before clause after hsplit
  · intro x hx
    rw [List.mem_singleton.mp hx]
    refine h.references_resolved ?_ (h.resolvedIn_selector (List.mem_of_getLast? hlast) hselector)
    intro id s hs
    have hmade := hback.made id s hs
    rw [Draft.sources, hbefore] at hmade
    exact hmade
  · intro op hop
    have hop' := hback.operators op hop
    rw [Draft.sources, hbefore] at hop'
    exact hop'

/-- After the nodes of a chain there is a main from clause. -/
theorem Run.mainFrom_isSome {nodes : List Node} {s t : Progress} (hrun : Run chain nodes s t)
    (hne : nodes ≠ []) : t.draft.mainFrom.isSome := by
  induction hrun with
  | nil s => exact absurd rfl hne
  | cons step rest ih =>
    cases rest with
    | nil => exact step.mainFrom_isSome
    | cons _ _ => exact ih (List.cons_ne_nil _ _)

theorem ne_nil_of_last? {last : Node} (h : chain.last? = some last) : chain.nodes ≠ [] := by
  intro hnil
  rw [last?, hnil] at h
  cases h

/-- When nothing is referred to in the call tree, the check of references succeeds. -/
theorem Run.checkReferences (h : chain.ReadFrom e) (hnone : e.references = []) {nextId : Nat}
    {draft : Draft} {context : Context}
    (hrun : Run chain chain.nodes (.start nextId) ⟨draft, context⟩) {last : Node}
    (hlast : chain.last? = some last) {selector : Expr}
    (hselector : (chain.resolver context.sources).selector (chain.lineage last) = .ok selector)
    {mainFrom : FromClause} (hmain : draft.mainFrom = some mainFrom) :
    Model.checkReferences ⟨mainFrom, draft.body, selector, draft.operators⟩ = .ok () := by
  refine Model.checkReferences_eq_ok.mpr ((hrun.eachReference h hlast hselector hmain).imp ?_)
  intro declared s hs
  rw [hnone] at hs
  rcases hs with hs | hs
  · cases hs
  · exact List.mem_map_of_mem hs

/-- An error of the model comes from the checks of the finished model. -/
theorem toModel_eq_model_error {nextId : Nat} {error : ModelError}
    (h : (chain.toModel nextId).1 = .error (.model error)) :
    ∃ last draft context selector, chain.last? = some last ∧
      Run chain chain.nodes (.start nextId) ⟨draft, context⟩ ∧
      (chain.resolver context.sources).selector (chain.lineage last) = .ok selector ∧
      draft.finish selector = .error (.model error) := by
  obtain ⟨context, hrun⟩ : ∃ context,
      chain.assemble.run ⟨.empty, nextId⟩ = .error (.model error) context := by
    rw [toModel] at h
    cases hrun : chain.assemble.run ⟨.empty, nextId⟩ with
    | ok model context =>
      rw [hrun] at h
      cases h
    | error e context =>
      rw [hrun] at h
      cases h
      exact ⟨context, rfl⟩
  rw [assemble] at hrun
  cases hlast : chain.last? with
  | none =>
    rw [hlast] at hrun
    cases hrun
  | some last =>
    rw [hlast] at hrun
    rcases Build.run_bind_eq_error.mp hrun with hfail | ⟨⟨draft, selector⟩, context', hdraft, hrest⟩
    · -- Clauses and selectors do not fail with errors of the model.
      exact absurd rfl (chain.draftAndSelector_fails last _ _ _ hfail error)
    · obtain ⟨hfinish, rfl⟩ := Build.run_ofExcept_eq_error.mp hrest
      obtain ⟨hclauses, hselector⟩ := draftAndSelector_eq_ok.mp hdraft
      exact ⟨last, draft, context', selector, rfl, hclauses, hselector, hfinish⟩

/-- A forward reference is found by the check of references. -/
theorem finish_eq_forwardReference {draft : Draft} {selector : Expr} {clause name : String}
    (h : draft.finish selector = .error (.model (.forwardReference clause name))) :
    ∃ mainFrom, draft.mainFrom = some mainFrom ∧
      Model.checkReferences ⟨mainFrom, draft.body, selector, draft.operators⟩ =
        .error (.forwardReference clause name) := by
  rw [Draft.finish] at h
  cases hmain : draft.mainFrom with
  | none =>
    rw [hmain] at h
    cases h
  | some mainFrom =>
    rw [hmain] at h
    refine ⟨mainFrom, rfl, ?_⟩
    -- The check of the shape comes first, but it has errors of its own.
    rcases bind_eq_error.mp h with hshape | ⟨_, -, h⟩
    · obtain ⟨error, hshape, herror⟩ := liftModelError_eq_error.mp hshape
      obtain ⟨op, input, rfl⟩ := Model.shape_fails error hshape
      cases herror
    · rcases bind_eq_error.mp h with hcheck | ⟨_, -, h⟩
      · obtain ⟨error, hcheck, herror⟩ := liftModelError_eq_error.mp hcheck
        cases herror
        exact hcheck
      · cases h

end Chain

/-- **References are sound.**  In the model that is handed to the final checks, every reference
occurred in the call tree already, or is to a source that the model declares before the clause that
holds the reference.  So a call tree without references never fails with a forward reference. -/
theorem Reader.references_sound (settings : Settings) (e : Expr) (nextId : Nat) :
    (∀ chain last draft selector context,
      (ofSettings settings).read e = .ok chain → chain.last? = some last →
      (chain.draftAndSelector last).run ⟨.empty, nextId⟩ = .ok (draft, selector) context →
      ∃ mainFrom, draft.mainFrom = some mainFrom ∧
        Model.EachReference (fun declared s => s ∈ e.references ∨ s ∈ declared)
          ⟨mainFrom, draft.body, selector, draft.operators⟩) ∧
    (e.references = [] → ∀ clause name,
      ((ofSettings settings).parse e nextId).1 ≠
        .error (.model (.forwardReference clause name))) := by
  constructor
  · intro chain last draft selector context hread hlast hdraft
    obtain ⟨hrun, hselector⟩ := Chain.draftAndSelector_eq_ok.mp hdraft
    have hsome : draft.mainFrom.isSome := hrun.mainFrom_isSome (Chain.ne_nil_of_last? hlast)
    obtain ⟨mainFrom, hmain⟩ := Option.isSome_iff_exists.mp hsome
    exact ⟨mainFrom, hmain,
      hrun.eachReference (Reader.read_readFrom hread) hlast hselector hmain⟩
  · intro hnone clause name hparse
    rw [Reader.parse] at hparse
    cases hread : (ofSettings settings).read e with
    | error error =>
      rw [hread] at hparse
      cases hparse
      exact (Reader.read_fails e _ hread).ofChain _ rfl
    | ok chain =>
      rw [hread] at hparse
      obtain ⟨last, draft, context, selector, hlast, hrun, hselector, hfinish⟩ :=
        Chain.toModel_eq_model_error hparse
      obtain ⟨mainFrom, hmain, hcheck⟩ := Chain.finish_eq_forwardReference hfinish
      rw [hrun.checkReferences (Reader.read_readFrom hread) hnone hlast hselector hmain] at hcheck
      cases hcheck

theorem Reader.references_sound_groups :
    Sample.groups.references = [] ∧
    (∃ chain last draft selector context mainFrom,
      (ofSettings .default).read Sample.groups = .ok chain ∧ chain.last? = some last ∧
      (chain.draftAndSelector last).run ⟨.empty, 0⟩ = .ok (draft, selector) context ∧
      draft.mainFrom = some mainFrom ∧
      Model.EachReference (fun declared s => s ∈ Sample.groups.references ∨ s ∈ declared)
        ⟨mainFrom, draft.body, selector, draft.operators⟩) ∧
    ∀ clause name, ((ofSettings .default).parse Sample.groups 0).1 ≠
      .error (.model (.forwardReference clause name)) := by
  obtain ⟨hsound, hforward⟩ := Reader.references_sound .default Sample.groups 0
  obtain ⟨chain, hread⟩ : ∃ chain, (ofSettings .default).read Sample.groups = .ok chain := ⟨_, rfl⟩
  obtain ⟨last, draft, selector, context, hlast, hdraft⟩ : ∃ last draft selector context,
      chain.last? = some last ∧
      (chain.draftAndSelector last).run ⟨.empty, 0⟩ = .ok (draft, selector) context := by
    cases hread
    exact ⟨_, _, _, _, rfl, rfl⟩
  obtain ⟨mainFrom, hmain, heach⟩ := hsound chain last draft selector context hread hlast hdraft
  exact ⟨rfl, ⟨chain, last, draft, selector, context, mainFrom, hread, hlast, hdraft, hmain, heach⟩,
    hforward rfl⟩

end Comprehension
