import Comprehension.Proofs.Chain.Acceptance

/-! # The faults of a call tree

Many of the errors that clause making and resolution can give are there for chains put together by
hand.  A chain that was read from a call tree never meets them: a node's source is the node before
it, the first node is the only source, each node that makes a source makes it once, before anything
behind it is resolved, and lambdas have the number of parameters that their operator asks for.  What
is left are the faults of the call tree itself (`ParseError.OfCallTree`). -/
namespace Comprehension

/-- The errors that a call tree can be answered with.  A misplaced clause is named with its kind,
lambdas have the parameters that are asked for, and every reason is one of the listed ones. -/
inductive ParseError.OfCallTree : ParseError → Prop
  | tooDeep (depth limit : Nat) : OfCallTree (.recursionLimitExceeded depth limit)
  | noItems (found : String) : OfCallTree (.typeMismatch found)
  | unsupported (expression : String) (position : Nat) {reason : Unsupported}
      (two : reason ≠ .resultSelectorParameters) (one : reason ≠ .noParameter)
      (listed : ∀ text, reason ≠ .other text) :
    OfCallTree (.unsupportedExpression expression position reason)
  | afterOperator {nodeType : String} (operator : String)
      (clause : nodeType ∈ ["Where", "Select", "SelectMany", "OrderBy", "ThenBy"]) :
    OfCallTree (.invalidClauseChaining nodeType (.afterOperator operator))
  | detachedThenBy : OfCallTree (.invalidClauseChaining "ThenBy" .detachedThenBy)
  | forwardReference (clause item : String) : OfCallTree (.model (.forwardReference clause item))
  | operatorInput (operator input : String) :
    OfCallTree (.model (.invalidOperatorInput operator input))

theorem ParseError.OfReading.ofCallTree {error : ParseError} (h : error.OfReading) :
    error.OfCallTree := by
  cases h with
  | tooDeep depth limit => exact .tooDeep depth limit
  | noItems found => exact .noItems found
  | unsupported expression position read =>
    refine .unsupported expression position ?_ ?_ ?_
    · rintro rfl
      cases read
    · rintro rfl
      cases read
    · rintro _ rfl
      cases read

theorem itemsOf_ofCallTree (type : Ty) : FailsWith ParseError.OfCallTree (itemsOf type) :=
  fun e h => (itemsOf_fails type e h).ofCallTree

/-! ### Resolution -/

/-- What resolution needs to know of a node that may group: its lambdas are in order and its source
has been made. -/
structure Node.Ready (sources : SourceMap) (node : Node) : Prop where
  wellFormed : node.kind.WellFormed
  mapped : node.kind.makesSource → ∃ s, sources.find? node.id = some s

theorem Node.Ready.sourceOf_fails {sources : SourceMap} {node : Node} (h : node.Ready sources)
    (hmakes : node.kind.makesSource) :
    FailsWith ParseError.OfCallTree (sources.sourceOf node) := by
  obtain ⟨s, hs⟩ := h.mapped hmakes
  rw [SourceMap.sourceOf_eq_ok.mpr hs]
  exact .ok

section Resolution

variable {resolver : Resolver} {lineage : Lineage}

theorem Resolver.firstParameter_ofCallTree (node : Node) {l : Lambda}
    (hl : l.parameters.length = 1) :
    FailsWith ParseError.OfCallTree (resolver.firstParameter node l) := by
  obtain ⟨p, hp⟩ := List.length_eq_one_iff.mp hl
  rw [firstParameter, hp]
  exact .ok

/-- **How resolution fails** behind nodes that are ready: only at a group. -/
theorem Lineage.FromSource.resolve_fails (h : lineage.FromSource (Node.Ready resolver.sources))
    (input : Parameter) (e : Expr) :
    FailsWith ParseError.OfCallTree (resolver.resolve lineage input e) := by
  induction h generalizing input e with
  | @source node before kind ready =>
    have hsource := ready.sourceOf_fails (NodeKind.makesSource_of_isSource kind)
    rw [Resolver.resolve]
    cases hkind : node.kind with
    | constant _ | subQuery _ => exact .bind hsource fun _ => .ok
    | _ =>
      rw [hkind] at kind
      cases kind
  | @step node before kind ready _ ih =>
    have hwell := ready.wellFormed
    rw [Resolver.resolve]
    cases hkind : node.kind with
    | constant _ | subQuery _ =>
      rw [hkind] at kind
      cases kind
    | select l =>
      rw [hkind] at hwell
      exact .bind (Resolver.firstParameter_ofCallTree node hwell) fun p =>
        .bind (ih p l.body) fun _ => .ok
    | selectMany c result =>
      have hsource := ready.sourceOf_fails (by rw [hkind]; rfl)
      cases result with
      | none => exact .bind hsource fun _ => .ok
      | some r =>
        rw [hkind] at hwell
        obtain ⟨outer, inner, hr⟩ := List.length_eq_two.mp (hwell.2 r rfl)
        refine .bind hsource fun _ => ?_
        rw [hr]
        exact .bind (ih outer _) fun _ => .ok
    | groupBy _ _ =>
      refine .error (.unsupported _ _ ?_ ?_ ?_)
      · intro h
        cases h
      · intro h
        cases h
      · intro _ h
        cases h
    | filter _ | orderBy _ _ | thenBy _ _ | operator _ => exact ih input e

/-- The items of a node that goes back to a source have a type, or a collection has no items. -/
theorem Lineage.FromSource.itemType_fails {P : Node → Prop} (h : lineage.FromSource P) :
    FailsWith ParseError.OfCallTree lineage.itemType := by
  induction h with
  | @source node before kind _ =>
    rw [itemType]
    cases hkind : node.kind with
    | constant _ | subQuery _ => exact .ok
    | _ =>
      rw [hkind] at kind
      cases kind
  | @step node before kind _ _ ih =>
    rw [itemType]
    cases node.kind with
    | constant _ | subQuery _ | select _ => exact .ok
    | selectMany c result =>
      cases result with
      | some r => exact .ok
      | none => exact itemsOf_ofCallTree c.body.type
    | groupBy k element =>
      cases element with
      | some l => exact .ok
      | none => exact .bind ih fun _ => .ok
    | filter _ | orderBy _ _ | thenBy _ _ | operator _ => exact ih

theorem Lineage.FromSource.resolveItem_fails
    (h : lineage.FromSource (Node.Ready resolver.sources)) :
    FailsWith ParseError.OfCallTree (resolver.resolveItem lineage) := by
  have hhead : FailsWith ParseError.OfCallTree lineage.head := by
    cases h <;> exact .ok
  have hparameter : FailsWith ParseError.OfCallTree lineage.parameter :=
    .bind hhead fun _ => .bind h.itemType_fails fun _ => .ok
  exact .bind hparameter fun p => h.resolve_fails p _

/-- A lambda with one parameter is resolved through the nodes before its node. -/
theorem Lineage.FromSource.resolveLambda_fails
    (h : lineage.FromSource (Node.Ready resolver.sources)) (node : Node) {l : Lambda}
    (hl : l.parameters.length = 1) :
    FailsWith ParseError.OfCallTree (resolver.resolveLambda (.step node lineage) l) := by
  refine .bind .ok fun head => .bind ?_ fun p => h.resolve_fails p l.body
  exact Resolver.firstParameter_ofCallTree head hl

theorem Lineage.FromSource.selector_fails
    (h : lineage.FromSource (Node.Ready resolver.sources)) :
    FailsWith ParseError.OfCallTree (resolver.selector lineage) := by
  have hitem := h.resolveItem_fails
  induction h with
  | @source node before kind _ =>
    rw [Resolver.selector]
    cases hkind : node.kind with
    | constant _ | subQuery _ => exact hitem
    | _ =>
      rw [hkind] at kind
      cases kind
  | @step node before _ ready rest ih =>
    have hwell := ready.wellFormed
    rw [Resolver.selector]
    cases hkind : node.kind with
    | constant _ | subQuery _ | selectMany _ _ => exact hitem
    | select l =>
      rw [hkind] at hwell
      exact rest.resolveLambda_fails node hwell
    | filter _ | orderBy _ _ | thenBy _ _ | groupBy _ _ | operator _ =>
      exact ih rest.resolveItem_fails

end Resolution

/-! ### Clause making from a known context -/

/-- Every error of clause making satisfies `P`, when it begins in the context `s`. -/
def Build.FailsFrom {α : Type} (P : ParseError → Prop) (s : Context) (x : Build α) : Prop :=
  ∀ e t, x.run s = .error e t → P e

namespace Build.FailsFrom

variable {α β : Type} {P : ParseError → Prop} {s : Context}

theorem pure {a : α} : FailsFrom P s (Pure.pure a : Build α) := fun _ _ h => nomatch h

theorem ofExcept {x : Except ParseError α} (hx : Comprehension.FailsWith P x) :
    FailsFrom P s (Build.ofExcept x) :=
  fun e _ h => hx e (run_ofExcept_eq_error.mp h).1

theorem bind {x : Build α} {f : α → Build β} (hx : FailsFrom P s x)
    (hf : ∀ a u, x.run s = .ok a u → FailsFrom P u (f a)) : FailsFrom P s (x >>= f) := by
  intro e t h
  rcases run_bind_eq_error.mp h with h | ⟨a, u, ha, h⟩
  · exact hx e t h
  · exact hf a u ha e t h

/-- What is read from the context is what the context is. -/
theorem get_bind {f : Context → Build β} (hf : FailsFrom P s (f s)) :
    FailsFrom P s (MonadState.get >>= f) := hf

/-- A node without a source gets one. -/
theorem newSourceFor {node : Node} {name : String} {type : Ty}
    (hfree : s.sources.contains node.id = false) :
    FailsFrom P s (Build.newSourceFor node name type) := by
  intro e t h
  have hok : (Build.newSourceFor node name type).run s =
      .ok ⟨s.nextId, name, type⟩ (s.withSource node ⟨s.nextId, name, type⟩) :=
    run_newSourceFor_eq_ok.mpr ⟨hfree, rfl, rfl⟩
  rw [hok] at h
  cases h

end Build.FailsFrom

/-! ### Drafts -/

theorem Draft.checkNoOperators_ofCallTree (draft : Draft) {nodeType : String}
    (hclause : nodeType ∈ ["Where", "Select", "SelectMany", "OrderBy", "ThenBy"]) :
    FailsWith ParseError.OfCallTree (draft.checkNoOperators nodeType) := by
  rw [checkNoOperators]
  split
  · exact .error (.afterOperator _ hclause)
  · exact .ok

/-- A draft with a main from clause fails with what the checks of the model say. -/
theorem Draft.finish_ofCallTree {draft : Draft} (hmain : draft.mainFrom.isSome) (selector : Expr) :
    FailsWith ParseError.OfCallTree (draft.finish selector) := by
  have hlift : ∀ {α : Type} {x : Except ModelError α},
      FailsWith (fun e => ParseError.OfCallTree (.model e)) x →
      FailsWith ParseError.OfCallTree (liftModelError x) := by
    intro α x hx error h
    obtain ⟨e, he, rfl⟩ := liftModelError_eq_error.mp h
    exact hx e he
  obtain ⟨mainFrom, hmain⟩ := Option.isSome_iff_exists.mp hmain
  rw [finish, hmain]
  refine .bind (hlift fun e he => ?_) fun _ => .bind (hlift fun e he => ?_) fun _ => .ok
  · obtain ⟨operator, input, rfl⟩ := Model.shape_fails e he
    exact .operatorInput operator input
  · obtain ⟨clause, item, rfl⟩ := Model.checkReferences_fails e he
    exact .forwardReference clause item

/-! ### One node after another -/

namespace Chain

section Step

variable {chain : Chain} {done rest : List Node} {node : Node} {s : Progress}
  {previous : Option Clause}

/-- The nodes done before a node of a regular chain are ready. -/
theorem Progress.Matches.ready (hs : s.Matches done) (hchain : chain.Regular)
    (hsplit : chain.nodes = done ++ rest) (hdone : done ≠ []) (error : ParseError) :
    (Lineage.back error done).FromSource (Node.Ready s.context.sources) := by
  have hstarted : Started (done ++ rest) := hsplit ▸ hchain.started
  refine Lineage.fromSource_back (started_append hstarted hdone).1 fun n hn => ?_
  exact ⟨hchain.wellFormed n (hsplit ▸ List.mem_append_left _ hn), hs.mapped n hn⟩

/-- How a node behind the source fails to make its clause. -/
theorem Progress.Matches.laterClause_fails (hs : s.Matches done) (hchain : chain.Regular)
    (hsplit : chain.nodes = done ++ node :: rest) (hdone : done ≠ []) :
    Build.FailsFrom ParseError.OfCallTree s.context (chain.laterClause node) := by
  obtain ⟨error, hlineage⟩ := hchain.linear.lineage_eq
  have hready := hs.ready hchain hsplit hdone error
  have hnode : node ∈ chain.nodes := hsplit ▸ List.mem_append_right _ (List.mem_cons_self ..)
  have hfree : s.context.sources.contains node.id = false :=
    hs.fresh node.id (Nat.le_of_eq (hchain.linear.id_of_split hsplit).symm)
  have hlambda : ∀ l ∈ node.kind.itemLambdas, FailsWith ParseError.OfCallTree
      ((chain.resolver s.context.sources).resolveLambda (chain.lineage node) l) := by
    intro l hl
    rw [hlineage done node rest hsplit]
    exact Lineage.FromSource.resolveLambda_fails hready node
      ((hchain.wellFormed node hnode).length_itemLambdas hl)
  refine .get_bind ?_
  cases hkind : node.kind with
  | constant _ | subQuery _ | select _ | operator _ => exact .pure
  | filter l | orderBy l _ | thenBy l _ =>
    rw [hkind] at hlambda
    exact .bind (.ofExcept (hlambda l (List.mem_singleton.mpr rfl))) fun _ _ _ => .pure
  | selectMany c r =>
    rw [hkind] at hlambda
    refine .bind (.ofExcept (hlambda c (List.mem_singleton.mpr rfl))) fun x u hx => ?_
    obtain ⟨-, rfl⟩ := Build.run_ofExcept_eq_ok.mp hx
    refine .bind (.ofExcept (itemsOf_ofCallTree x.type)) fun type u htype => ?_
    obtain ⟨-, rfl⟩ := Build.run_ofExcept_eq_ok.mp htype
    exact .bind (.newSourceFor hfree) fun _ _ _ => .pure
  | groupBy k element =>
    rw [hkind] at hlambda
    refine .bind (.ofExcept (hlambda k (List.mem_cons_self ..))) fun _ _ _ => ?_
    refine .bind (.ofExcept ?_) fun _ _ _ => .pure
    cases element with
    | some l => exact hlambda l (List.mem_cons_of_mem _ (List.mem_singleton.mpr rfl))
    | none =>
      rw [hlineage done node rest hsplit]
      exact Lineage.FromSource.resolveItem_fails hready

/-- How a node fails to make its clause.  What was made last tells whether the source is done. -/
theorem Run.createClause_fails (hchain : chain.Regular) {nextId : Nat}
    (hrun : Run chain done (.start nextId) s) (hsplit : chain.nodes = done ++ node :: rest)
    (hprevious : previous.isSome = s.draft.mainFrom.isSome) :
    Build.FailsFrom ParseError.OfCallTree s.context (chain.createClause node previous) := by
  have hstarted : Started (done ++ node :: rest) := hsplit ▸ hchain.started
  by_cases hdone : done = []
  · subst hdone
    cases hrun
    obtain ⟨first, later, heq, hsource, -⟩ := hstarted
    cases heq
    obtain rfl : previous = none := Option.isNone_iff_eq_none.mp (by
      rw [← Option.not_isSome, hprevious]
      rfl)
    rw [createClause.eq_def]
    cases hkind : node.kind with
    | constant _ | subQuery _ => exact .bind (.newSourceFor rfl) fun _ _ _ => .pure
    | _ =>
      rw [hkind] at hsource
      cases hsource
  · have hs := hrun.matches hchain hsplit hdone
    have hlater := (started_append hstarted hdone).2 node (List.mem_cons_self ..)
    obtain ⟨clause, rfl⟩ := Option.isSome_iff_exists.mp (hprevious.trans hs.mainFrom)
    have hfails := hs.laterClause_fails hchain hsplit hdone
    rw [createClause.eq_def]
    cases hkind : node.kind with
    | constant _ | subQuery _ =>
      rw [hkind] at hlater
      cases hlater
    | _ => exact hfails

/-- How the draft refuses what a node has made: a clause comes behind a result operator, or a sort
key finds nothing sorted. -/
theorem addMade_fails {draft : Draft} {made : Option Clause} {context context' : Context}
    (hmade : (chain.createClause node previous).run context = .ok made context')
    (hprevious : previous.isSome = draft.mainFrom.isSome) :
    FailsWith ParseError.OfCallTree (draft.addMade node.typeName made) := by
  rw [Node.typeName]
  cases hkind : node.kind with
  | constant _ | subQuery _ =>
    obtain ⟨rfl, -, rfl, -⟩ := (run_createClause_source (by rw [hkind]; rfl)).mp hmade
    have hfirst : draft.mainFrom = none := Option.isNone_iff_eq_none.mp (by
      rw [← Option.not_isSome, ← hprevious]
      rfl)
    rw [Draft.addMade, Draft.add, hfirst]
    exact .ok
  | select _ =>
    obtain ⟨-, hmade⟩ := (run_createClause_later (by rw [hkind]; rfl)).mp hmade
    obtain ⟨rfl, -⟩ := (run_laterClause_select hkind).mp hmade
    exact .bind (draft.checkNoOperators_ofCallTree (by simp [NodeKind.name])) fun _ => .ok
  | filter _ | orderBy _ _ =>
    obtain ⟨-, hmade⟩ := (run_createClause_later (by rw [hkind]; rfl)).mp hmade
    obtain ⟨_, -, rfl, -⟩ := (run_laterClause_single (by rw [hkind]; rfl)).mp hmade
    exact .bind (draft.checkNoOperators_ofCallTree (by simp [NodeKind.name])) fun _ => .ok
  | thenBy _ _ =>
    obtain ⟨-, hmade⟩ := (run_createClause_later (by rw [hkind]; rfl)).mp hmade
    obtain ⟨_, -, rfl, -⟩ := (run_laterClause_single (by rw [hkind]; rfl)).mp hmade
    refine .bind (draft.checkNoOperators_ofCallTree (by simp [NodeKind.name])) fun _ => ?_
    split
    · exact .ok
    · exact .error .detachedThenBy
  | selectMany _ _ =>
    obtain ⟨-, hmade⟩ := (run_createClause_later (by rw [hkind]; rfl)).mp hmade
    obtain ⟨_, _, -, -, -, rfl, -⟩ := (run_laterClause_selectMany hkind).mp hmade
    exact .bind (draft.checkNoOperators_ofCallTree (by simp [NodeKind.name])) fun _ => .ok
  | groupBy _ _ =>
    obtain ⟨-, hmade⟩ := (run_createClause_later (by rw [hkind]; rfl)).mp hmade
    obtain ⟨_, _, -, -, rfl, -⟩ := (run_laterClause_groupBy hkind).mp hmade
    exact .ok
  | operator _ =>
    obtain ⟨-, hmade⟩ := (run_createClause_later (by rw [hkind]; rfl)).mp hmade
    obtain ⟨rfl, -⟩ := (run_laterClause_operator hkind).mp hmade
    exact .ok

/-- **How clause making fails** after any part of a regular chain that it has gone through. -/
theorem Run.addClauses_fails (hchain : chain.Regular) {nextId : Nat}
    (hrun : Run chain done (.start nextId) s) (hsplit : chain.nodes = done ++ rest)
    (hprevious : previous.isSome = s.draft.mainFrom.isSome) :
    Build.FailsFrom ParseError.OfCallTree s.context (chain.addClauses rest s.draft previous) := by
  induction rest generalizing done s previous with
  | nil => exact .pure
  | cons node rest ih =>
    rw [addClauses_cons]
    refine .bind (hrun.createClause_fails hchain hsplit hprevious) fun made u hmade => ?_
    refine .bind (.ofExcept (addMade_fails hmade hprevious)) fun draft _ hdraft => ?_
    obtain ⟨hadd, rfl⟩ := Build.run_ofExcept_eq_ok.mp hdraft
    have hstep : Step chain node s ⟨draft, u⟩ := (step_iff hprevious).mp ⟨made, hmade, hadd⟩
    have hsplit' : chain.nodes = (done ++ [node]) ++ rest := by
      rw [hsplit, List.append_assoc]
      rfl
    exact ih (s := ⟨draft, u⟩) (run_concat_iff.mpr ⟨s, hrun, hstep⟩) hsplit'
      (hstep.isSome_or hmade)

end Step

/-- **How the assembly of a regular chain fails.** -/
theorem Regular.toModel_fails {chain : Chain} (hchain : chain.Regular) (nextId : Nat) :
    FailsWith ParseError.OfCallTree (chain.toModel nextId).1 := by
  obtain ⟨first, rest, hnodes, -⟩ := hchain.started
  have hne : chain.nodes ≠ [] := by
    rw [hnodes]
    exact List.cons_ne_nil _ _
  have hsplit : chain.nodes = chain.nodes ++ [] := (List.append_nil _).symm
  obtain ⟨last, hlast⟩ := Option.isSome_iff_exists.mp (List.getLast?_isSome.mpr hne)
  obtain ⟨error, hlineage⟩ := hchain.linear.lineage_last hlast
  have hassemble : Build.FailsFrom ParseError.OfCallTree ⟨.empty, nextId⟩ chain.assemble := by
    rw [assemble, show chain.last? = some last from hlast]
    refine .bind ?_ fun drafted context hdraft => ?_
    · refine .bind ?_ fun draft context hdraft =>
        .get_bind (.bind (.ofExcept ?_) fun _ _ _ => .pure)
      · exact Run.addClauses_fails hchain (.nil (.start nextId)) rfl rfl
      · have hrun : Run chain chain.nodes (.start nextId) ⟨draft, context⟩ :=
          (addClauses_eq_ok (s := .start nextId) rfl).mp hdraft
        rw [hlineage]
        exact Lineage.FromSource.selector_fails
          ((hrun.matches hchain hsplit hne).ready hchain hsplit hne error)
    · obtain ⟨draft, selector⟩ := drafted
      have hrun := (draftAndSelector_eq_ok.mp hdraft).1
      exact .ofExcept (Draft.finish_ofCallTree (hrun.matches hchain hsplit hne).mainFrom selector)
  intro e h
  rw [toModel] at h
  cases hrun : chain.assemble.run ⟨.empty, nextId⟩ with
  | ok model context =>
    rw [hrun] at h
    cases h
  | error e' context =>
    rw [hrun] at h
    cases h
    exact hassemble _ _ hrun

end Chain

/-! ### Call trees -/

/-- **What a call tree can be answered with.**  When a call tree has no model, then it is too deep,
its source or a collection in it has no items, something has no place in it, a clause comes behind a
result operator, a further sort key has nothing to extend, a reference does not point back, or an
operator is applied to something else than a sequence. -/
theorem Reader.parse_error_ofCallTree {settings : Settings} {e : Expr} {nextId : Nat}
    {error : ParseError} (h : ((ofSettings settings).parse e nextId).1 = .error error) :
    error.OfCallTree := by
  rw [parse] at h
  cases hread : (ofSettings settings).read e with
  | error readError =>
    rw [hread] at h
    cases h
    exact (read_fails e _ hread).ofCallTree
  | ok chain =>
    rw [hread] at h
    exact (read_regular hread).toModel_fails nextId error h

/-- Pairs of cooks and assistants that are sorted after ten of them were taken. -/
def Sample.sortedTooLate : Expr :=
  sorted (call (pairs starred) "Take" [.constant (.int32 10) .int32] (.queryable pair))

theorem Reader.parse_error_ofCallTree_sortedTooLate :
    ((ofSettings .default).parse Sample.sortedTooLate 0).1 =
        .error (.invalidClauseChaining "OrderBy" (.afterOperator "Take")) ∧
      ParseError.OfCallTree (.invalidClauseChaining "OrderBy" (.afterOperator "Take")) := by
  have h : ((ofSettings .default).parse Sample.sortedTooLate 0).1 =
      .error (.invalidClauseChaining "OrderBy" (.afterOperator "Take")) := rfl
  exact ⟨h, parse_error_ofCallTree h⟩

end Comprehension
