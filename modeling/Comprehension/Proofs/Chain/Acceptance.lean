import Comprehension.Proofs.Chain.Resolvability

/-! # Which chains have a model

The assembly is compared with the grammar step by step.  After each node the draft matches the nodes
done (`Chain.Progress.Matches`), and the next step can be taken exactly when the next kind fits
behind the kinds done (`Chain.Progress.Matches.step_iff`). -/
namespace Comprehension

/-! ### The draft matches the nodes done -/

/-- Whether a node contributes an operator that keeps sequences, if it contributes an operator. -/
def NodeKind.resultKeeps? : NodeKind → Option Bool
  | .groupBy .. => some true
  | .operator op => some op.keepsSequence
  | _ => none

theorem NodeKind.resultKeeps?_eq_none {kind : NodeKind} :
    kind.resultKeeps? = none ↔ kind.isResult = false := by
  cases kind <;> simp [resultKeeps?, isResult]

namespace Chain

/-- A body ends with a sorting clause. -/
def EndsWithSorting (body : List BodyClause) : Prop :=
  ∃ before keys, body = before ++ [.orderBy keys]

theorem endsWithSorting_concat {body : List BodyClause} {clause : BodyClause} :
    EndsWithSorting (body ++ [clause]) ↔ ∃ keys, clause = .orderBy keys := by
  constructor
  · rintro ⟨before, keys, h⟩
    exact ⟨keys, (List.cons.inj (List.append_inj' h rfl).2).1⟩
  · rintro ⟨keys, rfl⟩
    exact ⟨body, keys, rfl⟩

/-- What the draft and the context look like after some nodes. -/
structure Progress.Matches (done : List Node) (s : Progress) : Prop where
  mainFrom : s.draft.mainFrom.isSome
  operators : s.draft.operators.map ResultOperator.keepsSequence =
    (done.map Node.kind).filterMap NodeKind.resultKeeps?
  sorting : (∀ node ∈ done, node.kind.isResult = false) →
    (EndsWithSorting s.draft.body ↔ EndsSorted (done.map Node.kind))
  mapped : ∀ node ∈ done, node.kind.makesSource → ∃ source,
    s.context.sources.find? node.id = some source
  fresh : ∀ id, done.length ≤ id → s.context.sources.contains id = false

theorem Progress.Matches.operators_eq_nil {done : List Node} {s : Progress} (h : s.Matches done) :
    s.draft.operators = [] ↔ ∀ node ∈ done, node.kind.isResult = false := by
  rw [← List.map_eq_nil_iff (f := ResultOperator.keepsSequence), h.operators,
    List.filterMap_eq_nil_iff]
  simp only [List.mem_map, forall_exists_index, and_imp, forall_apply_eq_imp_iff₂,
    NodeKind.resultKeeps?_eq_none]

section Step

variable {chain : Chain} {done : List Node} {node : Node} {s t : Progress}

/-- A step adds an operator exactly at a result. -/
theorem Step.operators_eq (h : Step chain node s t) :
    t.draft.operators.map ResultOperator.keepsSequence =
      s.draft.operators.map ResultOperator.keepsSequence ++ node.kind.resultKeeps?.toList := by
  cases h with
  | source kind _ _ =>
    obtain ⟨-, hresult, -⟩ := NodeKind.sourceOnly (NodeKind.isSource_of_origin? kind)
    simp [NodeKind.resultKeeps?_eq_none.mpr hresult]
  | groupBy kind _ _ _ =>
    simp [kind, NodeKind.resultKeeps?, ResultOperator.keepsSequence]
  | filter kind _ _ _ | orderBy kind _ _ _ | thenBy kind _ _ _ _ | selectMany kind _ _ _ _ _
  | select kind _ _ | operator kind _ =>
    simp [kind, NodeKind.resultKeeps?]

/-- A step at a clause leaves a sorting clause at the end when its node sorts, or when it is a
selection and there was one before. -/
theorem Step.endsWithSorting_iff (h : Step chain node s t) (hclause : node.kind.isClause) :
    EndsWithSorting t.draft.body ↔
      node.kind.sorts ∨ node.kind.isSelect ∧ EndsWithSorting s.draft.body := by
  cases h with
  | source kind _ _ =>
    obtain ⟨hnot, -⟩ := NodeKind.sourceOnly (NodeKind.isSource_of_origin? kind)
    rw [hnot] at hclause
    cases hclause
  | filter kind _ _ _ | orderBy kind _ _ _ | thenBy kind _ _ _ _ | selectMany kind _ _ _ _ _ =>
    rw [endsWithSorting_concat, kind]
    simp [NodeKind.sorts, NodeKind.isSelect]
  | select kind _ _ => simp [kind, NodeKind.sorts, NodeKind.isSelect]
  | groupBy kind _ _ _ | operator kind _ =>
    rw [kind] at hclause
    cases hclause

/-- A step makes a source exactly at the nodes that have one. -/
theorem Step.context_cases (h : Step chain node s t) :
    node.kind.makesSource = false ∧ t.context = s.context ∨
      node.kind.makesSource ∧ s.context.sources.contains node.id = false ∧
        ∃ source, t.context = s.context.withSource node source := by
  cases h with
  | source kind _ unmapped =>
    exact Or.inr ⟨NodeKind.makesSource_of_isSource (NodeKind.isSource_of_origin? kind), unmapped, _,
      rfl⟩
  | selectMany kind _ _ _ unmapped _ => exact Or.inr ⟨by rw [kind]; rfl, unmapped, _, rfl⟩
  | filter kind _ _ _ | orderBy kind _ _ _ | thenBy kind _ _ _ _ | select kind _ _
  | groupBy kind _ _ _ | operator kind _ => exact Or.inl ⟨by rw [kind]; rfl, rfl⟩

/-- Sources that were made stay, and the node of the step has its own. -/
theorem Step.mapped (h : Step chain node s t) (done : List Node)
    (hs : ∀ n ∈ done, n.kind.makesSource → ∃ r, s.context.sources.find? n.id = some r) :
    ∀ n ∈ done ++ [node], n.kind.makesSource → ∃ r, t.context.sources.find? n.id = some r := by
  intro n hn hmakes
  rcases h.context_cases with ⟨hnode, hcontext⟩ | ⟨-, hfree, source, hcontext⟩
  · rw [hcontext]
    rcases List.mem_append.mp hn with hn | hn
    · exact hs n hn hmakes
    · rw [List.mem_singleton.mp hn, hnode] at hmakes
      cases hmakes
  · rw [hcontext]
    rcases List.mem_append.mp hn with hn | hn
    · obtain ⟨r, hr⟩ := hs n hn hmakes
      exact ⟨r, Context.find?_withSource_of_some hr⟩
    · rw [List.mem_singleton.mp hn]
      exact ⟨source, Context.find?_withSource_self hfree⟩

/-- No source is made for a later node. -/
theorem Step.fresh (h : Step chain node s t) (done : List Node) (hid : node.id = done.length)
    (hs : ∀ id, done.length ≤ id → s.context.sources.contains id = false) :
    ∀ id, (done ++ [node]).length ≤ id → t.context.sources.contains id = false := by
  intro id hlength
  rw [List.length_append, List.length_singleton] at hlength
  rcases h.context_cases with ⟨-, hcontext⟩ | ⟨-, -, source, hcontext⟩
  · rw [hcontext]
    exact hs id (by omega)
  · have hold : s.context.sources.find? id = none :=
      SourceMap.find?_eq_none_iff.mpr (hs id (by omega))
    rw [hcontext, SourceMap.contains, Context.find?_withSource, hold, if_neg (by omega)]
    rfl

/-- The source is the first thing that the assembly meets. -/
theorem Step.matches_first {nextId : Nat} (h : Step chain node (.start nextId) t)
    (hkind : node.kind.isSource) (hid : node.id = 0) : t.Matches [node] where
  mainFrom := h.mainFrom_isSome
  operators := by
    have hnone : node.kind.resultKeeps? = none :=
      NodeKind.resultKeeps?_eq_none.mpr (NodeKind.sourceOnly hkind).2.1
    rw [h.operators_eq]
    simp [hnone, Progress.start, Draft.empty]
  sorting _ := by
    have hbody : t.draft.body = [] := by
      cases h with
      | source _ _ _ => rfl
      | filter _ later _ _ | orderBy _ later _ _ | thenBy _ later _ _ _
      | selectMany _ later _ _ _ _ | select _ later _ | groupBy _ later _ _ | operator _ later =>
        cases later
    rw [hbody]
    refine iff_of_false (fun ⟨before, keys, h⟩ => by cases before <;> cases h) ?_
    rw [List.map_singleton, endsSorted_cons_source hkind]
    exact not_endsSorted_nil
  mapped := h.mapped [] fun _ h => nomatch h
  fresh := h.fresh [] hid fun _ _ => rfl

/-- After a later node the draft still matches. -/
theorem Step.matches (h : Step chain node s t) (hs : s.Matches done)
    (hkind : node.kind.isSource = false) (hid : node.id = done.length) :
    t.Matches (done ++ [node]) where
  mainFrom := h.mainFrom_isSome
  operators := by
    rw [h.operators_eq, hs.operators, List.map_append, List.filterMap_append]
    cases hresult : node.kind.resultKeeps? <;> simp [hresult]
  sorting hnone := by
    have hclause : node.kind.isClause := NodeKind.isClause_of_later hkind
      (hnone node (List.mem_append_right _ (List.mem_singleton.mpr rfl)))
    rw [List.map_append, List.map_singleton, endsSorted_concat,
      ← hs.sorting fun n hn => hnone n (List.mem_append_left _ hn)]
    exact h.endsWithSorting_iff hclause
  mapped := h.mapped done hs.mapped
  fresh := h.fresh done hid hs.fresh

end Step

/-! ### The next step -/

/-- The chain is linear, begins with its only source, and has its lambdas in order. -/
structure Regular (chain : Chain) : Prop where
  linear : chain.Linear
  started : Started chain.nodes
  wellFormed : ∀ node ∈ chain.nodes, node.kind.WellFormed
  groupless : ∀ node ∈ chain.nodes, ∀ op, node.kind = .operator op → op.grouping? = none

section Next

variable {chain : Chain} {done rest : List Node} {node : Node} {s t : Progress}

theorem started_append (h : Started (done ++ rest)) (hdone : done ≠ []) :
    Started done ∧ ∀ n ∈ rest, n.kind.isSource = false := by
  obtain ⟨first, later, hsplit, hfirst, hlater⟩ := h
  cases done with
  | nil => exact absurd rfl hdone
  | cons n done =>
    cases hsplit
    exact ⟨⟨_, done, rfl, hfirst, fun m hm => hlater m (List.mem_append_left _ hm)⟩,
      fun m hm => hlater m (List.mem_append_right _ hm)⟩

theorem Step.unended (h : Step chain node s t) (hclause : node.kind.isClause) :
    s.draft.operators = [] := by
  cases h with
  | source kind _ _ =>
    obtain ⟨hnot, -⟩ := NodeKind.sourceOnly (NodeKind.isSource_of_origin? kind)
    rw [hnot] at hclause
    cases hclause
  | filter _ _ _ unended | orderBy _ _ _ unended | thenBy _ _ _ unended _
  | selectMany _ _ _ _ _ unended | select _ _ unended => exact unended
  | groupBy kind _ _ _ | operator kind _ =>
    rw [kind] at hclause
    cases hclause

theorem Step.endsWithSorting_of_thenBy (h : Step chain node s t) (hthenBy : node.kind.isThenBy) :
    EndsWithSorting s.draft.body := by
  cases h with
  | thenBy _ _ _ _ sorting => exact ⟨_, _, sorting⟩
  | source kind _ _ =>
    obtain ⟨-, -, -, hnot, -⟩ := NodeKind.sourceOnly (NodeKind.isSource_of_origin? kind)
    rw [hnot] at hthenBy
    cases hthenBy
  | filter kind _ _ _ | orderBy kind _ _ _ | selectMany kind _ _ _ _ _ | select kind _ _
  | groupBy kind _ _ _ | operator kind _ =>
    rw [kind] at hthenBy
    cases hthenBy

/-- The nodes done before a node of a regular chain are in order for resolution, as long as none of
them groups. -/
theorem Progress.Matches.fromSource (hs : s.Matches done) (hchain : chain.Regular)
    (hsplit : chain.nodes = done ++ rest) (hdone : done ≠ [])
    (hgroup : ∀ n ∈ done, n.kind.isGroup = false) (error : ParseError) :
    (Lineage.back error done).FromSource (Node.Resolvable s.context.sources) := by
  have hstarted : Started (done ++ rest) := hsplit ▸ hchain.started
  refine Lineage.fromSource_back (started_append hstarted hdone).1 fun n hn => ?_
  exact ⟨hchain.wellFormed n (hsplit ▸ List.mem_append_left _ hn), hs.mapped n hn, hgroup n hn⟩

/-- A lambda of the next node can be resolved, as long as no node done groups. -/
theorem Progress.Matches.resolveLambda_isOk (hs : s.Matches done) (hchain : chain.Regular)
    (hsplit : chain.nodes = done ++ node :: rest) (hdone : done ≠ [])
    (hgroup : ∀ n ∈ done, n.kind.isGroup = false) {l : Lambda} (hl : l ∈ node.kind.itemLambdas) :
    ∃ x, (chain.resolver s.context.sources).resolveLambda (chain.lineage node) l = .ok x := by
  obtain ⟨error, hlineage⟩ := hchain.linear.lineage_eq
  rw [hlineage done node rest hsplit]
  have hnode : node ∈ chain.nodes := hsplit ▸ List.mem_append_right _ (List.mem_cons_self ..)
  obtain ⟨p, hp⟩ := List.length_eq_one_iff.mp ((hchain.wellFormed node hnode).length_itemLambdas hl)
  obtain ⟨x, hx⟩ := (hs.fromSource hchain hsplit hdone hgroup error).exists_resolves p l.body
  exact ⟨x, Resolver.resolveLambda_eq_ok.mpr ⟨p, by rw [hp]; rfl, hx⟩⟩

/-- What a grouping at the next node keeps can be resolved, as long as no node done groups. -/
theorem Progress.Matches.element_isOk (hs : s.Matches done) (hchain : chain.Regular)
    (hitems : ∀ n ∈ chain.nodes, n.kind.HasItems)
    (hsplit : chain.nodes = done ++ node :: rest) (hdone : done ≠ [])
    (hgroup : ∀ n ∈ done, n.kind.isGroup = false) {l : Lambda} {element : Option Lambda}
    (hkind : node.kind = .groupBy l element) :
    ∃ x, (chain.resolver s.context.sources).element (chain.lineage node) element = .ok x := by
  cases element with
  | some k =>
    refine hs.resolveLambda_isOk hchain hsplit hdone hgroup ?_
    rw [hkind]
    exact List.mem_cons_of_mem _ (List.mem_singleton.mpr rfl)
  | none =>
    obtain ⟨error, hlineage⟩ := hchain.linear.lineage_eq
    rw [hlineage done node rest hsplit]
    refine Lineage.FromSource.resolveItem_isOk (hs.fromSource hchain hsplit hdone hgroup error) ?_
    have hstarted : Started (done ++ node :: rest) := hsplit ▸ hchain.started
    exact Lineage.fromSource_back (started_append hstarted hdone).1 fun n hn =>
      hitems n (hsplit ▸ List.mem_append_left _ hn)

/-- A grouping cannot be reached behind another one. -/
theorem Step.ungrouped (h : Step chain node s t) (hchain : chain.Regular)
    (hsplit : chain.nodes = done ++ node :: rest) (hfit : AllFit (done.map Node.kind))
    (hgroup : node.kind.isGroup) : ∀ n ∈ done, n.kind.isGroup = false := by
  have hresolved : ∃ l key,
      (chain.resolver s.context.sources).resolveLambda (chain.lineage node) l = .ok key := by
    cases h with
    | groupBy _ _ resolved _ => exact ⟨_, _, resolved⟩
    | source kind _ _ =>
      obtain ⟨-, -, -, -, hnot, -⟩ := NodeKind.sourceOnly (NodeKind.isSource_of_origin? kind)
      rw [hnot] at hgroup
      cases hgroup
    | filter kind _ _ _ | orderBy kind _ _ _ | thenBy kind _ _ _ _ | selectMany kind _ _ _ _ _
    | select kind _ _ | operator kind _ =>
      rw [kind] at hgroup
      cases hgroup
  obtain ⟨error, hlineage⟩ := hchain.linear.lineage_eq
  rw [hlineage done node rest hsplit] at hresolved
  obtain ⟨l, key, hresolved⟩ := hresolved
  obtain ⟨p, -, hresolves⟩ := Resolver.resolveLambda_eq_ok.mp hresolved
  intro n hn
  -- Behind a group done earlier there would be only results, and the key could not be resolved.
  cases hn' : n.kind.isGroup with
  | false => rfl
  | true =>
    obtain ⟨before, after, rfl⟩ := List.append_of_mem hn
    have hstarted : Started ((before ++ [n]) ++ (after ++ node :: rest)) := by
      have := hchain.started
      rw [hsplit] at this
      simpa using this
    have hlater := (started_append hstarted (by simp)).2
    rw [List.map_append, List.map_cons] at hfit
    have hresults := results_after hfit (NodeKind.isResult_of_isGroup hn')
      (List.forall_mem_map.mpr fun m hm => hlater m (List.mem_append_left _ hm))
    exact absurd hresolves (Resolves.not_grouped hn' (List.forall_mem_map.mp hresults))

/-- **When a step can be taken.**  The next kind fits behind the kinds done. -/
theorem Progress.Matches.step_iff (hs : s.Matches done) (hchain : chain.Regular)
    (hitems : ∀ n ∈ chain.nodes, n.kind.HasItems)
    (hsplit : chain.nodes = done ++ node :: rest) (hdone : done ≠ [])
    (hfit : AllFit (done.map Node.kind))
    (hmany : ∀ c r x, node.kind = .selectMany c r →
      (chain.resolver s.context.sources).resolveLambda (chain.lineage node) c = .ok x →
      x.type.element?.isSome) :
    (∃ t, Step chain node s t) ↔ Fits (done.map Node.kind) node.kind := by
  constructor
  · rintro ⟨t, h⟩
    refine ⟨fun hclause => ?_, fun hthenBy => ?_, fun hgroup => ?_⟩
    · simpa using hs.operators_eq_nil.mp (h.unended hclause)
    · have hclause := NodeKind.isClause_of_isThenBy hthenBy
      exact (hs.sorting (hs.operators_eq_nil.mp (h.unended hclause))).mp
        (h.endsWithSorting_of_thenBy hthenBy)
    · simpa using h.ungrouped hchain hsplit hfit hgroup
  · rintro ⟨hclause, hthenBy, hgroup⟩
    simp only [List.mem_map, forall_exists_index, and_imp,
      forall_apply_eq_imp_iff₂] at hclause hgroup
    -- At a clause no node done gives a result, so none of them groups.
    have hresolved : node.kind.isClause → ∀ {l}, l ∈ node.kind.itemLambdas → ∃ x,
        (chain.resolver s.context.sources).resolveLambda (chain.lineage node) l = .ok x :=
      fun h => hs.resolveLambda_isOk hchain hsplit hdone
        fun n hn => NodeKind.isGroup_eq_false (hclause h n hn)
    have hunended : node.kind.isClause → s.draft.operators = [] :=
      fun h => hs.operators_eq_nil.mpr (hclause h)
    have hunmapped : s.context.sources.contains node.id = false :=
      hs.fresh node.id (Nat.le_of_eq (hchain.linear.id_of_split hsplit).symm)
    cases hkind : node.kind with
    | constant _ | subQuery _ =>
      have hstarted : Started (done ++ node :: rest) := hsplit ▸ hchain.started
      have hlater := (started_append hstarted hdone).2 node (List.mem_cons_self ..)
      rw [hkind] at hlater
      cases hlater
    | select l =>
      rw [hkind] at hunended
      exact ⟨_, .select hkind hs.mainFrom (hunended rfl)⟩
    | filter l =>
      rw [hkind] at hresolved hunended
      obtain ⟨x, hx⟩ := hresolved rfl (List.mem_singleton.mpr rfl)
      exact ⟨_, .filter hkind hs.mainFrom hx (hunended rfl)⟩
    | orderBy l direction =>
      rw [hkind] at hresolved hunended
      obtain ⟨x, hx⟩ := hresolved rfl (List.mem_singleton.mpr rfl)
      exact ⟨_, .orderBy hkind hs.mainFrom hx (hunended rfl)⟩
    | thenBy l direction =>
      rw [hkind] at hclause hthenBy hresolved hunended
      obtain ⟨x, hx⟩ := hresolved rfl (List.mem_singleton.mpr rfl)
      obtain ⟨body, keys, hbody⟩ := (hs.sorting (hclause rfl)).mpr (hthenBy rfl)
      exact ⟨_, .thenBy hkind hs.mainFrom hx (hunended rfl) hbody⟩
    | selectMany c r =>
      rw [hkind] at hresolved hunended
      obtain ⟨x, hx⟩ := hresolved rfl (List.mem_singleton.mpr rfl)
      obtain ⟨item, hitem⟩ := Option.isSome_iff_exists.mp (hmany c r x hkind hx)
      exact ⟨_, .selectMany hkind hs.mainFrom hx hitem hunmapped (hunended rfl)⟩
    | groupBy l element =>
      have hnone := hgroup (by rw [hkind]; rfl)
      have hl : l ∈ node.kind.itemLambdas := by
        rw [hkind]
        exact List.mem_cons_self ..
      obtain ⟨key, hkey⟩ := hs.resolveLambda_isOk hchain hsplit hdone hnone hl
      obtain ⟨x, hx⟩ := hs.element_isOk hchain hitems hsplit hdone hnone hkind
      exact ⟨_, .groupBy hkind hs.mainFrom hkey hx⟩
    | operator op => exact ⟨_, .operator hkind hs.mainFrom⟩

end Next

/-! ### Whole runs -/

/-- Whether the collection selector of a node has items, as it stands and, if it can be resolved
after the nodes done, with the items put in. -/
def itemsAt (chain : Chain) (nextId : Nat) (done : List Node) (node : Node) : Bool :=
  match node.kind with
  | .selectMany c _ =>
    c.body.type.element?.isSome &&
      match (chain.addClauses done .empty none).run ⟨.empty, nextId⟩ with
      | .error _ _ => true
      | .ok _ context =>
        match (chain.resolver context.sources).resolveLambda (chain.lineage node) c with
        | .error _ => true
        | .ok x => x.type.element?.isSome
  | _ => true

/-- Whether the collection selectors from a place on have items. -/
def itemsFrom (chain : Chain) (nextId : Nat) : (done : List Node) → List Node → Bool
  | _, [] => true
  | done, node :: rest =>
    chain.itemsAt nextId done node && chain.itemsFrom nextId (done ++ [node]) rest

/-- Whether every collection selector has items, before and after its items are put in. -/
def hasItems (chain : Chain) (nextId : Nat) : Bool := chain.itemsFrom nextId [] chain.nodes

section Items

variable {chain : Chain} {nextId : Nat}

theorem itemsAt_of_hasItems (h : chain.hasItems nextId) {done rest : List Node} {node : Node}
    (hsplit : chain.nodes = done ++ node :: rest) : chain.itemsAt nextId done node := by
  suffices key : ∀ before nodes, chain.itemsFrom nextId before nodes → ∀ done,
      nodes = done ++ node :: rest → chain.itemsAt nextId (before ++ done) node from
    key [] chain.nodes h done hsplit
  intro before nodes
  induction nodes generalizing before with
  | nil =>
    intro _ done hsplit
    cases done <;> cases hsplit
  | cons n nodes ih =>
    intro h done hsplit
    rw [itemsFrom, Bool.and_eq_true] at h
    cases done with
    | nil =>
      cases hsplit
      rw [List.append_nil]
      exact h.1
    | cons d done =>
      cases hsplit
      have hrest := ih _ h.2 done rfl
      rwa [List.append_assoc] at hrest

theorem hasItems_before (h : chain.hasItems nextId) :
    ∀ node ∈ chain.nodes, node.kind.HasItems := by
  intro node hnode c r hkind
  obtain ⟨done, rest, hsplit⟩ := List.append_of_mem hnode
  have hat := itemsAt_of_hasItems h hsplit
  simp only [itemsAt, hkind, Bool.and_eq_true] at hat
  exact hat.1

theorem hasItems_after (h : chain.hasItems nextId) {done rest : List Node} {node : Node}
    (hsplit : chain.nodes = done ++ node :: rest) {s : Progress}
    (hrun : Run chain done (.start nextId) s) :
    ∀ c r x, node.kind = .selectMany c r →
      (chain.resolver s.context.sources).resolveLambda (chain.lineage node) c = .ok x →
      x.type.element?.isSome := by
  intro c r x hkind hx
  have hclauses : (chain.addClauses done .empty none).run ⟨.empty, nextId⟩ =
      .ok s.draft s.context := (addClauses_eq_ok (s := .start nextId) rfl).mpr hrun
  have hat := itemsAt_of_hasItems h hsplit
  simp only [itemsAt, hkind, hclauses, hx, Bool.and_eq_true] at hat
  exact hat.2

end Items

section Runs

variable {chain : Chain} {nextId : Nat}

/-- Along a run the draft matches the nodes done. -/
theorem Run.matches (hchain : chain.Regular) {done rest : List Node} {s : Progress}
    (hsplit : chain.nodes = done ++ rest) (hdone : done ≠ [])
    (hrun : Run chain done (.start nextId) s) : s.Matches done := by
  induction done using List.reverseRecOn generalizing rest s with
  | nil => exact absurd rfl hdone
  | append_singleton done node ih =>
    rw [List.append_assoc] at hsplit
    obtain ⟨t, hrun, hstep⟩ := run_concat_iff.mp hrun
    have hid := hchain.linear.id_of_split hsplit
    have hstarted : Started (done ++ node :: rest) := hsplit ▸ hchain.started
    -- The source sets everything up, and every later node builds on what matches already.
    by_cases hfirst : done = []
    · subst hfirst
      cases hrun
      obtain ⟨first, later, heq, hsource, -⟩ := hstarted
      cases heq
      exact hstep.matches_first hsource hid
    · have hlater := (started_append hstarted hfirst).2 node (List.mem_cons_self ..)
      exact hstep.matches (ih hsplit hfirst hrun) hlater hid

/-- **Which nodes can be gone through.**  Each kind fits behind those before it. -/
theorem run_isSome_iff (hchain : chain.Regular) (hitems : chain.hasItems nextId)
    {done rest : List Node} (hsplit : chain.nodes = done ++ rest) :
    (∃ s, Run chain done (.start nextId) s) ↔ AllFit (done.map Node.kind) := by
  induction done using List.reverseRecOn generalizing rest with
  | nil =>
    refine iff_of_true ⟨_, .nil _⟩ ?_
    intro before kind after hsplit
    cases before <;> cases hsplit
  | append_singleton done node ih =>
    rw [List.append_assoc] at hsplit
    have ih := ih hsplit
    rw [List.map_append, List.map_singleton, allFit_concat, ← ih]
    simp only [run_concat_iff]
    have hstarted : Started (done ++ node :: rest) := hsplit ▸ hchain.started
    -- The source can always be taken and always fits; `step_iff` speaks of the nodes behind it.
    by_cases hfirst : done = []
    · subst hfirst
      obtain ⟨first, later, heq, hsource, -⟩ := hstarted
      cases heq
      obtain ⟨⟨type, x⟩, horigin⟩ := Option.isSome_iff_exists.mp (NodeKind.origin?_isSome hsource)
      obtain ⟨-, -, -, hthenBy, -⟩ := NodeKind.sourceOnly hsource
      refine iff_of_true ⟨_, _, .nil _, .source horigin rfl rfl⟩ ⟨⟨_, .nil _⟩, ?_⟩
      exact ⟨fun _ k hk => (nomatch hk), by simp [hthenBy], fun _ k hk => (nomatch hk)⟩
    · have hmatches : ∀ {t}, Run chain done (.start nextId) t → t.Matches done :=
        fun hrun => hrun.matches hchain hsplit hfirst
      have hstep : ∀ {t}, Run chain done (.start nextId) t →
          ((∃ u, Step chain node t u) ↔ Fits (done.map Node.kind) node.kind) := by
        intro t hrun
        exact (hmatches hrun).step_iff hchain (hasItems_before hitems) hsplit hfirst
          (ih.mp ⟨t, hrun⟩) (hasItems_after hitems hsplit hrun)
      constructor
      · rintro ⟨u, t, hrun, hu⟩
        exact ⟨⟨t, hrun⟩, (hstep hrun).mp ⟨u, hu⟩⟩
      · rintro ⟨⟨t, hrun⟩, hfits⟩
        obtain ⟨u, hu⟩ := (hstep hrun).mpr hfits
        exact ⟨u, t, hrun, hu⟩

/-! ### The shape of the operators -/

/-- A place in a list is its head, or a place in its tail. -/
theorem forall_split_cons {α : Type} {P : α → List α → Prop} {y : α} {l : List α} :
    (∀ before x after, y :: l = before ++ x :: after → P x after) ↔
      P y l ∧ ∀ before x after, l = before ++ x :: after → P x after := by
  constructor
  · intro h
    refine ⟨h [] y l rfl, ?_⟩
    rintro before x after rfl
    exact h (y :: before) x after rfl
  · rintro ⟨hhead, htail⟩ (_ | ⟨z, before⟩) x after hsplit
    · cases hsplit
      exact hhead
    · cases hsplit
      exact htail before x after rfl

/-- All answers but the last are yes when no answer follows a no. -/
theorem forall_dropLast_filterMap {α : Type} {f : α → Option Bool} {l : List α} :
    (∀ b ∈ (l.filterMap f).dropLast, b = true) ↔
      ∀ before x after, l = before ++ x :: after → f x = some false → after.filterMap f = [] := by
  induction l with
  | nil =>
    refine iff_of_true (fun _ h => (nomatch h)) fun before x after hsplit => ?_
    cases before <;> cases hsplit
  | cons y l ih =>
    rw [forall_split_cons (P := fun x after => f x = some false → after.filterMap f = []), ← ih]
    cases hy : f y with
    | none => simp [hy]
    | some b =>
      rw [List.filterMap_cons_some hy]
      by_cases hnil : l.filterMap f = []
      · simp [hnil]
      · rw [List.dropLast_cons_of_ne_nil hnil, List.forall_mem_cons]
        cases b <;> simp [hnil]

/-- **The operators of a draft have a shape** when no operator that gives no sequence is followed by
another node. -/
theorem Progress.Matches.shape_iff {s : Progress} (hs : s.Matches chain.nodes)
    (hchain : chain.Regular) (hfit : AllFit (chain.nodes.map Node.kind)) :
    (∀ op ∈ s.draft.operators.dropLast, op.keepsSequence) ↔
      ∀ before op after, chain.nodes.tail.map Node.kind = before ++ .operator op :: after →
        op.isPartial ∨ after = [] := by
  obtain ⟨first, rest, hnodes, hsource, hlater⟩ := hchain.started
  have hkeeps : (∀ op ∈ s.draft.operators.dropLast, op.keepsSequence) ↔
      ∀ b ∈ ((rest.map Node.kind).filterMap NodeKind.resultKeeps?).dropLast, b = true := by
    have hfirst : first.kind.resultKeeps? = none :=
      NodeKind.resultKeeps?_eq_none.mpr (NodeKind.sourceOnly hsource).2.1
    rw [← List.filterMap_cons_none hfirst, ← List.map_cons, ← hnodes, ← hs.operators,
      ← List.map_dropLast, List.forall_mem_map]
  -- An operator that a call gave is no grouping, so it keeps sequences when it is one of three.
  have hpartial : ∀ {op}, .operator op ∈ rest.map Node.kind → op.keepsSequence = op.isPartial := by
    intro op hop
    obtain ⟨node, hnode, hkind⟩ := List.mem_map.mp hop
    have hgroup := hchain.groupless node (hnodes ▸ List.mem_cons_of_mem _ hnode) op hkind
    cases op with
    | group _ _ _ => cases hgroup
    | _ => rfl
  have hsources : ∀ k ∈ rest.map Node.kind, k.isSource = false := List.forall_mem_map.mpr hlater
  -- What `resultKeeps?` says of the kinds is then what the rule says of the operators.
  rw [hnodes, List.map_cons, allFit_cons_source hsource] at hfit
  rw [hkeeps, forall_dropLast_filterMap, hnodes, List.tail_cons]
  constructor
  · intro h before op after hsplit
    cases hop : op.isPartial with
    | true => exact Or.inl rfl
    | false =>
      have hmem : .operator op ∈ rest.map Node.kind := by
        rw [hsplit]
        exact List.mem_append_right _ (List.mem_cons_self ..)
      have hkept : (NodeKind.operator op).resultKeeps? = some false := by
        rw [NodeKind.resultKeeps?, hpartial hmem, hop]
      have hnone := List.filterMap_eq_nil_iff.mp (h before _ after hsplit hkept)
      have hresults : ∀ k ∈ after, k.isResult := by
        refine results_after (hsplit ▸ hfit) rfl fun k hk => hsources k ?_
        rw [hsplit]
        exact List.mem_append_right _ (List.mem_cons_of_mem _ hk)
      refine Or.inr (List.eq_nil_iff_forall_not_mem.mpr fun k hk => ?_)
      have hnot := NodeKind.resultKeeps?_eq_none.mp (hnone k hk)
      rw [hresults k hk] at hnot
      cases hnot
  · intro h before kind after hsplit hfalse
    cases kind with
    | operator op =>
      have hmem : .operator op ∈ rest.map Node.kind := by
        rw [hsplit]
        exact List.mem_append_right _ (List.mem_cons_self ..)
      rw [NodeKind.resultKeeps?, hpartial hmem, Option.some.injEq] at hfalse
      rcases h before op after hsplit with hop | rfl
      · rw [hop] at hfalse
        cases hfalse
      · rfl
    | _ => cases hfalse

end Runs

end Chain

/-! ### Chains that were read -/

/-- A call tree gives one source, then nodes that are none, and its operators do not group. -/
theorem Reads.started {e : Expr} {kinds : List NodeKind} (h : Reads e kinds) :
    ∃ first rest, kinds = first :: rest ∧ first.isSource ∧ ∀ k ∈ rest,
      k.isSource = false ∧ ∀ op, k = .operator op → op.grouping? = none := by
  induction h with
  | constant _ | subQuery _ => exact ⟨_, [], rfl, rfl, fun _ h => nomatch h⟩
  | @call method source arguments kinds kind _ recognized ih =>
    obtain ⟨first, rest, rfl, hfirst, hrest⟩ := ih
    refine ⟨first, rest ++ [kind], rfl, hfirst, ?_⟩
    intro k hk
    rcases List.mem_append.mp hk with hk | hk
    · exact hrest k hk
    · rw [List.mem_singleton.mp hk]
      cases recognized with
      | operator _ groupless _ =>
        refine ⟨rfl, fun op hop => ?_⟩
        cases hop
        exact groupless
      | _ => exact ⟨rfl, fun _ h => nomatch h⟩

theorem Reader.read_regular {settings : Settings} {e : Expr} {chain : Chain}
    (h : (ofSettings settings).read e = .ok chain) : chain.Regular := by
  obtain ⟨hlinear, hreads⟩ := Reader.read_reads h
  obtain ⟨first, rest, hkinds, hfirst, hrest⟩ := hreads.started
  obtain ⟨node, nodes, hnodes, rfl, rfl⟩ := List.map_eq_cons_iff.mp hkinds
  refine ⟨hlinear, ⟨node, nodes, hnodes, hfirst, fun n hn => ?_⟩, fun n hn => ?_,
    fun n hn op hop => ?_⟩
  · exact (hrest n.kind (List.mem_map_of_mem hn)).1
  · exact (hreads.within n.kind (List.mem_map_of_mem hn)).wellFormed
  · rw [hnodes] at hn
    rcases List.mem_cons.mp hn with rfl | hn
    · rw [hop] at hfirst
      cases hfirst
    · exact (hrest n.kind (List.mem_map_of_mem hn)).2 op hop

/-- **The assembler accepts exactly its grammar.**  A chain that was read from a call tree without
references, with items in every collection that it selects, has a model exactly when the kinds of
the nodes behind its source follow the rules. -/
theorem Chain.toModel_isOk_iff_grammar {settings : Settings} {e : Expr} {chain : Chain}
    {nextId : Nat} (hread : (Reader.ofSettings settings).read e = .ok chain)
    (hnone : e.references = []) (hitems : chain.hasItems nextId) :
    (∃ model, (chain.toModel nextId).1 = .ok model) ↔
      Grammar (chain.nodes.tail.map Node.kind) := by
  have hchain := Reader.read_regular hread
  obtain ⟨first, rest, hnodes, hsource, -⟩ := hchain.started
  have hne : chain.nodes ≠ [] := by
    rw [hnodes]
    exact List.cons_ne_nil _ _
  have hfit : AllFit (chain.nodes.map Node.kind) ↔ AllFit (chain.nodes.tail.map Node.kind) := by
    rw [hnodes, List.map_cons, allFit_cons_source hsource, List.tail_cons]
  have hsplit : chain.nodes = chain.nodes ++ [] := (List.append_nil _).symm
  have hruns := run_isSome_iff hchain hitems hsplit
  rw [grammar_iff, ← hfit]
  constructor
  · rintro ⟨model, hmodel⟩
    obtain ⟨last, draft, context, selector, hlast, hrun, hselector, hfinish⟩ :=
      toModel_eq_ok.mp hmodel
    have hall := hruns.mp ⟨_, hrun⟩
    refine ⟨hall, ((hrun.matches hchain hsplit hne).shape_iff hchain hall).mp ?_⟩
    obtain ⟨mainFrom, -, rfl, hshape, -⟩ := finish_eq_ok.mp hfinish
    exact Model.shape_isOk_iff.mp hshape
  · rintro ⟨hall, hfinal⟩
    obtain ⟨⟨draft, context⟩, hrun⟩ := hruns.mpr hall
    have hmatches := hrun.matches hchain hsplit hne
    obtain ⟨mainFrom, hmain⟩ := Option.isSome_iff_exists.mp hmatches.mainFrom
    obtain ⟨last, hlast⟩ := Option.isSome_iff_exists.mp (List.getLast?_isSome.mpr hne)
    obtain ⟨error, hlineage⟩ := hchain.linear.lineage_last hlast
    obtain ⟨selector, hselector⟩ : ∃ selector, (chain.resolver context.sources).selector
        (Lineage.back error chain.nodes) = .ok selector :=
      hchain.started.selector_isOk hchain.wellFormed hmatches.mapped (hasItems_before hitems) hall
        error
    rw [← hlineage] at hselector
    refine ⟨_, toModel_eq_ok.mpr ⟨last, draft, context, selector, hlast, hrun, hselector,
      finish_eq_ok.mpr ⟨mainFrom, hmain, rfl, ?_, ?_⟩⟩⟩
    · exact Model.shape_isOk_iff.mpr ((hmatches.shape_iff hchain hall).mpr hfinal)
    · exact hrun.checkReferences (Reader.read_readFrom hread) hnone hlast hselector hmain

theorem Chain.toModel_isOk_iff_grammar_groups :
    ∃ chain, (Reader.ofSettings .default).read Sample.groups = .ok chain ∧
      Sample.groups.references = [] ∧ chain.hasItems 0 ∧
      (∃ model, (chain.toModel 0).1 = .ok model) ∧ Grammar (chain.nodes.tail.map Node.kind) := by
  obtain ⟨chain, hread, hitems, hmodel⟩ : ∃ chain,
      (Reader.ofSettings .default).read Sample.groups = .ok chain ∧ chain.hasItems 0 ∧
      ∃ model, (chain.toModel 0).1 = .ok model := ⟨_, rfl, rfl, _, rfl⟩
  exact ⟨chain, hread, rfl, hitems, hmodel,
    (Chain.toModel_isOk_iff_grammar hread rfl hitems).mp hmodel⟩

end Comprehension
