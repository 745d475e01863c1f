import Comprehension.Proofs.Chain.Account
import Comprehension.Proofs.Chain.Renaming
import Comprehension.Proofs.Chain.Spine

/-! # The counter of identities

A call tree is read without identities, and its model gets them from a counter.  Where the counter
starts makes no difference beyond names: from another start the assembly fails with the same error,
or gives the same model with its identities moved (`Chain.toModel_moved`).  Both starts have to lie
behind the identities that the call tree holds already, in references and inside queries.

The identities of a model are those of the call tree and those given out during the run
(`Chain.Run.ids`), so nothing else can be confused with them.

The counter is a natural number, and never comes to an end.  A call tree takes at most as many
identities as its chain may have nodes, whether it is answered or not (`Reader.parse_counter_le`).
With so much room below the limit of a counter of 64 bits, no identity of the model reaches that
limit (`Reader.parse_ids_lt`), and what is said here about identities holds for that counter too
(`Reader.parse_wrapped`). -/
namespace Comprehension

/-! ### The identities of a chain -/

/-- The identities that a node holds. -/
def NodeKind.ids : NodeKind → List Nat
  | .subQuery s => s.model.ids
  | kind => kind.expressions.flatMap Expr.ids

theorem NodeKind.mem_ids {kind : NodeKind} {x : Expr} (hx : x ∈ kind.expressions) {id : Nat}
    (hid : id ∈ x.ids) : id ∈ kind.ids := by
  cases kind with
  | constant _ | subQuery _ => cases hx
  | _ => exact List.mem_flatMap.mpr ⟨x, hx, hid⟩

theorem Lambda.rename_eq_self {ρ : Nat → Nat} {l : Lambda} (h : ∀ id ∈ l.toExpr.ids, ρ id = id) :
    l.rename ρ = l := by
  rw [Lambda.rename, Expr.rename_eq_self l.body h]

theorem Lambda.map_rename_eq_self {ρ : Nat → Nat} {r : Option Lambda}
    (h : ∀ l ∈ r, ∀ id ∈ l.toExpr.ids, ρ id = id) : r.map (Lambda.rename ρ) = r := by
  cases r with
  | none => rfl
  | some l => rw [Option.map_some, Lambda.rename_eq_self (h l rfl)]

theorem NodeKind.rename_eq_self {ρ : Nat → Nat} {kind : NodeKind}
    (h : ∀ id ∈ kind.ids, ρ id = id) : kind.rename ρ = kind := by
  have hheld : ∀ x ∈ kind.expressions, ∀ id ∈ x.ids, ρ id = id :=
    fun x hx id hid => h id (NodeKind.mem_ids hx hid)
  cases kind with
  | constant s => rfl
  | subQuery s =>
    rw [NodeKind.rename, SubQuerySource.rename, Model.rename_eq_self s.model h]
  | filter l | select l | orderBy l _ | thenBy l _ =>
    rw [NodeKind.rename, Lambda.rename_eq_self (hheld _ (List.mem_singleton.mpr rfl))]
  | selectMany c r | groupBy c r =>
    have hrest : ∀ l ∈ r, ∀ id ∈ l.toExpr.ids, ρ id = id := fun l hl =>
      hheld _ (List.mem_cons_of_mem _ (List.mem_map_of_mem (Option.mem_toList.mpr hl)))
    rw [NodeKind.rename, Lambda.rename_eq_self (hheld _ (List.mem_cons_self ..)),
      Lambda.map_rename_eq_self hrest]
  | operator op =>
    rw [NodeKind.rename, ResultOperator.rename_eq_self op]
    rwa [ResultOperator.ids_eq]

theorem Chain.rename_eq_self {ρ : Nat → Nat} {chain : Chain}
    (h : ∀ node ∈ chain.nodes, ∀ id ∈ node.kind.ids, ρ id = id) : chain.rename ρ = chain := by
  have hnodes : chain.nodes.map (Node.rename ρ) = chain.nodes := by
    refine (List.map_congr_left fun node hnode => ?_).trans (List.map_id _)
    rw [Node.rename, NodeKind.rename_eq_self (h node hnode)]
    rfl
  rw [Chain.rename, hnodes]

/-- A lambda under quotes holds the same identities. -/
theorem Expr.ids_asLambda? {l : Lambda} {a : Expr} (h : a.asLambda? = some l) :
    a.ids = l.toExpr.ids := by
  induction a using Expr.induction_on_children with
  | node a ih =>
    cases a with
    | lambda ps b =>
      cases h
      rfl
    | unary op a t =>
      cases op with
      | quote => exact ih a (List.mem_singleton.mpr rfl) h
      | _ => cases h
    | _ => cases h

/-- A node that was read holds identities of the call tree. -/
theorem Reads.ids {e : Expr} {kinds : List NodeKind} (h : Reads e kinds) :
    ∀ kind ∈ kinds, ∀ id ∈ kind.ids, id ∈ e.ids := by
  induction h with
  | constant _ =>
    intro kind hkind id hid
    rw [List.mem_singleton.mp hkind] at hid
    cases hid
  | subQuery _ =>
    intro kind hkind id hid
    rw [List.mem_singleton.mp hkind] at hid
    exact hid
  | @call method source arguments kinds kind _ recognized ih =>
    have hargument : ∀ {a : Expr} {id : Nat}, a ∈ source :: arguments → id ∈ a.ids →
        id ∈ (Expr.staticCall method (source :: arguments)).ids :=
      fun ha hid => Expr.mem_ids_iff.mpr (Or.inr ⟨_, ha, hid⟩)
    intro k hk id hid
    rcases List.mem_append.mp hk with hk | hk
    · exact hargument (List.mem_cons_self ..) (ih k hk id hid)
    · rw [List.mem_singleton.mp hk] at hid
      have hheld : id ∈ kind.expressions.flatMap Expr.ids := by
        cases recognized <;> exact hid
      obtain ⟨x, hx, hid⟩ := List.mem_flatMap.mp hheld
      obtain ⟨a, ha, rfl | ⟨l, hl, rfl⟩⟩ := recognized.expressions x hx
      · exact hargument (List.mem_cons_of_mem _ ha) hid
      · rw [← Expr.ids_asLambda? hl] at hid
        exact hargument (List.mem_cons_of_mem _ ha) hid

/-! ### The identities of a model -/

/-- A lineage goes back through nodes of the chain. -/
theorem Chain.mem_of_mem_lineage {chain : Chain} {node n : Node} (hnode : node ∈ chain.nodes)
    (hn : n ∈ (chain.lineage node).nodes) : n ∈ chain.nodes := by
  suffices key : ∀ fuel, ∀ node ∈ chain.nodes, ∀ n ∈ (chain.lineageUpTo fuel node).nodes,
      n ∈ chain.nodes from key _ node hnode n hn
  intro fuel
  induction fuel with
  | zero => exact fun _ _ _ h => nomatch h
  | succ fuel ih =>
    intro node hnode n hn
    rw [lineageUpTo, Lineage.nodes] at hn
    rcases List.mem_cons.mp hn with rfl | hn
    · exact hnode
    · cases hsource : node.source with
      | none =>
        rw [hsource] at hn
        cases hn
      | some id =>
        rw [hsource] at hn
        cases hfound : chain.node? id with
        | none =>
          simp only [hfound] at hn
          cases hn
        | some source =>
          simp only [hfound] at hn
          exact ih source (List.mem_of_getElem? hfound) n hn

/-- An identity of a model is that of a source, or occurs in an expression. -/
theorem Model.mem_ids {model : Model} {id : Nat} (h : id ∈ model.ids) :
    (∃ s ∈ model.sources, s.id = id) ∨ ∃ x ∈ model.expressions, id ∈ x.ids := by
  obtain ⟨⟨source, expression⟩, body, selector, operators⟩ := model
  rw [Model.ids, FromClause.ids, BodyClause.idsList_eq_flatMap, ResultOperator.idsList_eq_flatMap,
    List.mem_append, List.mem_append, List.mem_append, List.mem_cons, List.mem_flatMap,
    List.mem_flatMap] at h
  simp only [Model.sources, Model.expressions, List.mem_cons, List.mem_append]
  rcases h with (rfl | hid) | ⟨c, hc, hid⟩ | hid | ⟨o, ho, hid⟩
  · exact Or.inl ⟨source, Or.inl rfl, rfl⟩
  · exact Or.inr ⟨expression, Or.inl rfl, hid⟩
  · rw [BodyClause.ids_eq, List.mem_append, List.mem_flatMap] at hid
    rcases hid with hid | ⟨x, hx, hid⟩
    · obtain ⟨s, hs, rfl⟩ := List.mem_map.mp hid
      exact Or.inl ⟨s, Or.inr (List.mem_filterMap.mpr ⟨c, hc, Option.mem_toList.mp hs⟩), rfl⟩
    · exact Or.inr ⟨x, Or.inr (Or.inl (List.mem_flatMap.mpr ⟨c, hc, hx⟩)), hid⟩
  · exact Or.inr ⟨selector, Or.inr (Or.inr (Or.inl rfl)), hid⟩
  · rw [ResultOperator.ids_eq, List.mem_flatMap] at hid
    obtain ⟨x, hx, hid⟩ := hid
    exact Or.inr ⟨x, Or.inr (Or.inr (Or.inr (List.mem_flatMap.mpr ⟨o, ho, hx⟩))), hid⟩

theorem Expr.substitutionClosed_ids (P : Nat → Prop) :
    Expr.SubstitutionClosed fun e => ∀ id ∈ e.ids, P id where
  replace hr he id hid := (Expr.ids_replace hid).elim (he id) (hr id)
  collapse he id hid := he id (Expr.ids_collapse hid)
  body hl := hl

namespace Chain

section Kept

variable {chain : Chain} {node : Node} {sources : SourceMap} {P : Nat → Prop}
  (hheld : ∀ node ∈ chain.nodes, ∀ id ∈ node.kind.ids, P id)
  (hmade : ∀ id s, sources.find? id = some s → P s.id)
include hheld hmade

theorem ids_resolves {lineage : Lineage} (hnodes : ∀ n ∈ lineage.nodes, n ∈ chain.nodes)
    {p : Parameter} {x y : Expr} (h : Resolves sources lineage p x y) (hx : ∀ id ∈ x.ids, P id) :
    ∀ id ∈ y.ids, P id := by
  refine h.keeps (Expr.substitutionClosed_ids P) (fun n hn z hz id hid => ?_)
    (fun n _ s hs id hid => ?_) hx
  · exact hheld n (hnodes n hn) id (NodeKind.mem_ids hz hid)
  · rw [List.mem_singleton.mp hid]
    exact hmade n.id s hs

/-- An expression made at a node has identities of the chain and of the sources made so far. -/
theorem Made.ids (hnode : node ∈ chain.nodes) {y : Expr} (h : Made chain node sources y) :
    ∀ id ∈ y.ids, P id := by
  have hlineage : ∀ n ∈ (chain.lineage node).before.nodes, n ∈ chain.nodes :=
    fun n hn => mem_of_mem_lineage hnode (List.mem_cons_of_mem _ hn)
  have hnodeIds := hheld node hnode
  cases h with
  | @origin type x kind =>
    intro id hid
    cases hkind : node.kind with
    | constant s =>
      rw [hkind] at kind
      cases kind
      cases hid
    | subQuery s =>
      rw [hkind] at kind hnodeIds
      cases kind
      exact hnodeIds id hid
    | _ =>
      rw [hkind] at kind
      cases kind
  | @lambda l x held resolved =>
    obtain ⟨p, -, hresolves⟩ := Resolver.resolveLambda_eq_ok.mp resolved
    have hx := NodeKind.mem_expressions_of_itemLambdas held
    exact ids_resolves hheld hmade hlineage hresolves fun id hid =>
      hnodeIds id (NodeKind.mem_ids hx hid)
  | item resolved =>
    obtain ⟨p, -, hresolves⟩ := Resolver.resolveItem_eq_ok.mp resolved
    exact ids_resolves hheld hmade hlineage hresolves fun id hid => nomatch hid
  | @argument op x kind held =>
    rw [kind] at hnodeIds
    exact fun id hid => hnodeIds id (List.mem_flatMap.mpr ⟨_, held, hid⟩)

theorem ids_selector (hnode : node ∈ chain.nodes) {y : Expr}
    (h : (chain.resolver sources).selector (chain.lineage node) = .ok y) : ∀ id ∈ y.ids, P id := by
  obtain ⟨origin, p, x, horigin, hresolves, hx⟩ := Resolver.selector_resolves h
  refine ids_resolves hheld hmade (fun n hn => mem_of_mem_lineage hnode (horigin n hn)) hresolves ?_
  rcases hx with rfl | ⟨n, hn, l, hkind, -, rfl⟩
  · exact fun id hid => nomatch hid
  · have hids := hheld n (mem_of_mem_lineage hnode hn)
    rw [hkind] at hids
    exact fun id hid => hids id (List.mem_flatMap.mpr ⟨_, List.mem_singleton.mpr rfl, hid⟩)

end Kept

/-- A source that was made is a source of the draft. -/
theorem Progress.SourcesGiven.mem_of_find? {nextId : Nat} {done : List Node} {s : Progress}
    (h : s.SourcesGiven nextId done) {id : Nat} {source : Source}
    (hfind : s.context.sources.find? id = some source) : source ∈ s.draft.sources := by
  rw [h.mapped, SourceMap.find?] at hfind
  obtain ⟨entry, hentry, rfl⟩ := Option.map_eq_some_iff.mp hfind
  exact (List.of_mem_zip (List.mem_of_find?_eq_some hentry)).2

/-- The identities of the sources of a draft were given out. -/
theorem Progress.SourcesGiven.allocated {nextId : Nat} {done : List Node} {s : Progress}
    (h : s.SourcesGiven nextId done) :
    ∀ id ∈ s.draft.sources.map Source.id, nextId ≤ id ∧ id < s.context.nextId := by
  intro id hid
  rw [h.ids, Source.freshIds, List.mem_range'_1] at hid
  rw [h.next]
  exact hid

section Run

variable {chain : Chain} {nextId : Nat} {P : Nat → Prop}
  (hheld : ∀ node ∈ chain.nodes, ∀ id ∈ node.kind.ids, P id)
include hheld

/-- **Where the identities of a draft come from.**  They are identities of the chain, or those of
the sources made. -/
theorem Run.ids {t : Progress} (hrun : Run chain chain.nodes (.start nextId) t) :
    ∀ x ∈ t.draft.expressions, ∀ id ∈ x.ids, P id ∨ id ∈ t.draft.sources.map Source.id := by
  refine (Run.invariant
    (P := fun done s => s.Begun nextId done ∧ s.SourcesGiven nextId done ∧
      ∀ x ∈ s.draft.expressions, ∀ id ∈ x.ids, P id ∨ id ∈ s.draft.sources.map Source.id)
    ?_ hrun ⟨Or.inl ⟨rfl, rfl⟩, ⟨.nil, rfl, rfl, rfl⟩, fun x hx => nomatch hx⟩).2.2
  intro before after node s t hsplit ⟨hbegun, hgiven, hs⟩ hstep
  have hnode : node ∈ chain.nodes := by
    rw [hsplit]
    exact List.mem_append_right _ (List.mem_cons_self ..)
  -- A step keeps the sources of the draft.
  have hsources : ∀ id ∈ s.draft.sources.map Source.id, id ∈ t.draft.sources.map Source.id := by
    intro id hid
    rcases hstep.sources_cases hbegun with ⟨-, -, heq⟩ | ⟨-, -, source, -, -, -, heq⟩
    · rwa [heq]
    · rw [heq, List.map_append]
      exact List.mem_append_left _ hid
  refine ⟨hstep.begun hbegun, hstep.sourcesGiven hbegun hgiven, fun x hx id hid => ?_⟩
  rcases hstep.adds.mem_expressions hx with hold | hmade
  · exact (hs x hold id hid).imp_right (hsources id)
  · exact (hmade.ids (P := fun id => P id ∨ id ∈ s.draft.sources.map Source.id)
      (fun n hn id hid => Or.inl (hheld n hn id hid))
      (fun n r hr => Or.inr (List.mem_map_of_mem (hgiven.mem_of_find? hr)))
      hnode id hid).imp_right (hsources id)

/-- The identities of the model that a run leads to. -/
theorem Run.model_ids {draft : Draft} {context : Context} {last : Node} {selector : Expr}
    {mainFrom : FromClause} (hrun : Run chain chain.nodes (.start nextId) ⟨draft, context⟩)
    (hlast : last ∈ chain.nodes)
    (hselector : (chain.resolver context.sources).selector (chain.lineage last) = .ok selector)
    (hmain : draft.mainFrom = some mainFrom) :
    ∀ id ∈ Model.ids ⟨mainFrom, draft.body, selector, draft.operators⟩,
      P id ∨ nextId ≤ id ∧ id < context.nextId := by
  have hgiven := hrun.sourcesGiven
  intro id hmem
  rcases Model.mem_ids hmem with ⟨s, hs, rfl⟩ | ⟨x, hx, hid⟩
  · rw [← Draft.sources_eq hmain selector] at hs
    exact Or.inr (hgiven.allocated _ (List.mem_map_of_mem hs))
  · suffices hgood : P id ∨ id ∈ draft.sources.map Source.id from
      hgood.imp_right (hgiven.allocated id)
    rcases Draft.mem_expressions_finished hmain hx with hx | rfl
    · exact hrun.ids hheld x hx id hid
    · exact ids_selector (P := fun id => P id ∨ id ∈ draft.sources.map Source.id)
        (fun n hn id hid => Or.inl (hheld n hn id hid))
        (fun n r hr => Or.inr (List.mem_map_of_mem (hgiven.mem_of_find? hr))) hlast hselector id hid

end Run

/-! ### Another start of the counter -/

section Moved

variable {chain : Chain} {k k' : Nat}

/-- The identities of a chain and those given out from `k` on stay different when the latter are
moved. -/
theorem moved_injOn {P : Nat → Prop} (hP : ∀ id, P id → id < k ∧ id < k') :
    ∀ a b, P a ∨ k ≤ a → P b ∨ k ≤ b → moved k k' a = moved k k' b → a = b := by
  intro a b ha hb heq
  rcases ha with ha | ha
  · obtain ⟨hak, hak'⟩ := hP a ha
    rcases hb with hb | hb
    · rwa [moved_of_lt hak, moved_of_lt (hP b hb).1] at heq
    · rw [moved_of_lt hak, moved_of_le hb] at heq
      omega
  · rcases hb with hb | hb
    · obtain ⟨hbk, hbk'⟩ := hP b hb
      rw [moved_of_le ha, moved_of_lt hbk] at heq
      omega
    · rw [moved_of_le ha, moved_of_le hb] at heq
      omega

/-- What the assembly gives once it has a draft and a selector. -/
theorem toModel_of_drafted {last : Node} (hlast : chain.last? = some last) {draft : Draft}
    {selector : Expr} {context : Context}
    (h : (chain.draftAndSelector last).run ⟨.empty, k⟩ = .ok (draft, selector) context) :
    chain.toModel k = (draft.finish selector, context.nextId) := by
  have hrun : chain.assemble.run ⟨.empty, k⟩ =
      (Build.ofExcept (draft.finish selector)).run context := by
    rw [assemble, hlast]
    show (chain.draftAndSelector last >>= _).run _ = _
    rw [EStateM.run_bind, h]
  rw [toModel, hrun]
  cases draft.finish selector <;> rfl

theorem toModel_of_undrafted {last : Node} (hlast : chain.last? = some last) {e : ParseError}
    {context : Context}
    (h : (chain.draftAndSelector last).run ⟨.empty, k⟩ = .error e context) :
    chain.toModel k = (.error e, context.nextId) := by
  have hrun : chain.assemble.run ⟨.empty, k⟩ = .error e context := by
    rw [assemble, hlast]
    show (chain.draftAndSelector last >>= _).run _ = _
    rw [EStateM.run_bind, h]
  rw [toModel, hrun]

/-- **Where the counter starts does not matter.**  From another start behind the identities of the
chain, the assembly fails with the same error or gives the model with its identities moved, and the
counter moves as far. -/
theorem toModel_moved
    (hheld : ∀ node ∈ chain.nodes, ∀ id ∈ node.kind.ids, id < k ∧ id < k') :
    chain.toModel k' =
      ((chain.toModel k).1.map (Model.rename (moved k k')), k' + ((chain.toModel k).2 - k)) := by
  cases hlast : chain.last? with
  | none =>
    have hempty : ∀ n, chain.toModel n = (.error .emptyChain, n) := by
      intro n
      rw [toModel, assemble, hlast]
      rfl
    rw [hempty, hempty, Nat.sub_self]
    rfl
  | some last =>
    have hmem : last ∈ chain.nodes := List.mem_of_getLast? hlast
    have hchain : chain.rename (moved k k') = chain :=
      rename_eq_self fun node hnode id hid => moved_of_lt (hheld node hnode id hid).1
    have hlastKind : last.rename (moved k k') = last := by
      rw [Node.rename, NodeKind.rename_eq_self fun id hid => moved_of_lt (hheld last hmem id hid).1]
    have hstart : Context.rename (moved k k') ⟨.empty, k⟩ = ⟨.empty, k'⟩ := by
      rw [Context.rename, moved_of_le (Nat.le_refl k), Nat.sub_self]
      rfl
    have hmoves := chain.draftAndSelector_moves k k' last
    rw [hchain, hlastKind] at hmoves
    cases hrun : (chain.draftAndSelector last).run ⟨.empty, k⟩ with
    | error e context =>
      obtain ⟨hrun', hk⟩ := hmoves.error (Nat.le_refl k) hrun
      rw [hstart] at hrun'
      rw [toModel_of_undrafted hlast hrun, toModel_of_undrafted hlast hrun']
      exact Prod.ext rfl (moved_of_le hk)
    | ok drafted context =>
      obtain ⟨draft, selector⟩ := drafted
      obtain ⟨hrun', hk⟩ := hmoves.ok (Nat.le_refl k) hrun
      rw [hstart] at hrun'
      obtain ⟨hassembly, hselector⟩ := draftAndSelector_eq_ok.mp hrun
      -- The checks of the model compare identities of the chain and identities given out.
      have hfinish : (draft.rename (moved k k')).finish (selector.rename (moved k k')) =
          (draft.finish selector).map (Model.rename (moved k k')) := by
        refine Draft.finish_rename (moved_injOn (P := fun id => id < k ∧ id < k') fun _ h => h)
          fun mainFrom hmain id hid => ?_
        exact (hassembly.model_ids hheld hmem hselector hmain id hid).imp_right And.left
      rw [toModel_of_drafted hlast hrun, toModel_of_drafted hlast hrun']
      exact Prod.ext hfinish (moved_of_le hk)

/-- The identities of a model are those of the chain and those given out. -/
theorem toModel_ids {P : Nat → Prop} (hheld : ∀ node ∈ chain.nodes, ∀ id ∈ node.kind.ids, P id)
    {model : Model} (h : (chain.toModel k).1 = .ok model) :
    ∀ id ∈ model.ids, P id ∨ k ≤ id ∧ id < (chain.toModel k).2 := by
  obtain ⟨last, draft, context, selector, hlast, hrun, hselector, hfinish, hnext⟩ :=
    toModel_eq.mp (Prod.ext h rfl : chain.toModel k = (.ok model, (chain.toModel k).2))
  obtain ⟨mainFrom, hmain, rfl, -, -⟩ := finish_eq_ok.mp hfinish
  rw [← hnext]
  exact hrun.model_ids hheld (List.mem_of_getLast? hlast) hselector hmain

end Moved

end Chain

/-! ### Call trees -/

theorem Reader.read_ids {settings : Settings} {e : Expr} {chain : Chain}
    (h : (ofSettings settings).read e = .ok chain) :
    ∀ node ∈ chain.nodes, ∀ id ∈ node.kind.ids, id ∈ e.ids :=
  fun node hnode => (Reader.read_reads h).2.ids node.kind (List.mem_map_of_mem hnode)

/-- **A call tree is answered alike wherever the counter starts.**  From two starts behind all
identities in the call tree, it fails with the same error, or it gives the same model but for the
identities given out: those from `k` on in the first model are those from `k'` on in the second.
Every identity from `k` on in the first model was given out during its run, and the second run gives
out as many. -/
theorem Reader.parse_moved {settings : Settings} {e : Expr} {k k' : Nat}
    (hk : ∀ id ∈ e.ids, id < k) (hk' : ∀ id ∈ e.ids, id < k') :
    ((ofSettings settings).parse e k').1 =
        ((ofSettings settings).parse e k).1.map (Model.rename (moved k k')) ∧
      ((ofSettings settings).parse e k').2 = k' + (((ofSettings settings).parse e k).2 - k) ∧
      ∀ model, ((ofSettings settings).parse e k).1 = .ok model → ∀ id ∈ model.ids,
        id ∈ e.ids ∨ k ≤ id ∧ id < ((ofSettings settings).parse e k).2 := by
  rw [parse, parse]
  cases hread : (ofSettings settings).read e with
  | error error =>
    refine ⟨rfl, ?_, ?_⟩
    · show k' = k' + (k - k)
      omega
    · intro model h
      cases h
  | ok chain =>
    have hids := read_ids hread
    have hmoved := Chain.toModel_moved fun node hnode id hid =>
      And.intro (hk id (hids node hnode id hid)) (hk' id (hids node hnode id hid))
    exact ⟨congrArg Prod.fst hmoved, congrArg Prod.snd hmoved,
      fun _ h => Chain.toModel_ids hids h⟩

/-- The cooks, from a query that has the identity 3 for its source. -/
def Sample.innerCooks : Expr :=
  .subQuery (.select ⟨⟨3, "c", cook⟩, cooks⟩ (.reference ⟨3, "c", cook⟩)) (.queryable cook)

def Sample.nested : Expr := pairs innerCooks

theorem Reader.parse_moved_nested :
    (∃ model, ((ofSettings .default).parse Sample.nested 4).1 = .ok model) ∧
      3 ∈ Sample.nested.ids ∧ ((ofSettings .default).parse Sample.nested 9).1 =
        ((ofSettings .default).parse Sample.nested 4).1.map (Model.rename (moved 4 9)) ∧
      ((ofSettings .default).parse Sample.nested 9).2 =
        9 + (((ofSettings .default).parse Sample.nested 4).2 - 4) ∧
      ∀ model, ((ofSettings .default).parse Sample.nested 4).1 = .ok model → ∀ id ∈ model.ids,
        id ∈ Sample.nested.ids ∨ 4 ≤ id ∧ id < ((ofSettings .default).parse Sample.nested 4).2 :=
  ⟨⟨_, rfl⟩, by decide, parse_moved (by decide) (by decide)⟩

/-! ### Room for identities -/

/-- The identities of a counter of 64 bits lie below this. -/
def Source.idLimit : Nat := Nat.pow 2 64

namespace Build

variable {α β : Type}

/-- The counter goes on by at most so much, whether there is a result or not. -/
def Takes (n : Nat) (x : Build α) : Prop := ∀ s, (x.after s).nextId ≤ s.nextId + n

theorem Takes.bind {m n : Nat} {x : Build α} {f : α → Build β} (hx : Takes m x)
    (hf : ∀ a, Takes n (f a)) : Takes (m + n) (x >>= f) := by
  intro s
  have hfirst := hx s
  cases h : (x >>= f).run s with
  | ok b t =>
    obtain ⟨a, u, ha, hb⟩ := run_bind_eq_ok.mp h
    have hsecond := hf a u
    rw [after_of_ok ha] at hfirst
    rw [after_of_ok hb] at hsecond
    rw [after_of_ok h]
    omega
  | error e t =>
    rw [after_of_error h]
    rcases run_bind_eq_error.mp h with he | ⟨a, u, ha, he⟩
    · rw [after_of_error he] at hfirst
      omega
    · have hsecond := hf a u
      rw [after_of_ok ha] at hfirst
      rw [after_of_error he] at hsecond
      omega

theorem Takes.bind_zero {n : Nat} {x : Build α} {f : α → Build β} (hx : Takes n x)
    (hf : ∀ a, Takes 0 (f a)) : Takes n (x >>= f) :=
  hx.bind hf

theorem Takes.zero_bind {n : Nat} {x : Build α} {f : α → Build β} (hx : Takes 0 x)
    (hf : ∀ a, Takes n (f a)) : Takes n (x >>= f) := by
  have h := hx.bind hf
  rwa [Nat.zero_add] at h

theorem Takes.pure {n : Nat} (a : α) : Takes n (Pure.pure a) := fun s => Nat.le_add_right s.nextId n

theorem Takes.throw {n : Nat} (e : ParseError) : Takes n (MonadExcept.throw e : Build α) :=
  fun s => Nat.le_add_right s.nextId n

theorem Takes.get : Takes 0 (MonadState.get : Build Context) := fun s => Nat.le_refl s.nextId

theorem Takes.ofExcept (x : Except ParseError α) : Takes 0 (ofExcept x) := by
  cases x with
  | ok a => exact .pure a
  | error e => exact .throw e

theorem newSourceFor_takes (node : Node) (name : String) (type : Ty) :
    Takes 1 (newSourceFor node name type) := by
  have hnew : Takes 1 (newSource name type) := fun s => Nat.le_refl (s.nextId + 1)
  have hremember : ∀ source, Takes 0 (remember node source) := by
    intro source s
    have hafter : (remember node source).after s = after (ofExcept (s.sources.add node source) >>=
        fun sources => (set ({ s with sources := sources } : Context) : Build Unit)) s := rfl
    rw [hafter]
    cases s.sources.add node source <;> exact Nat.le_refl s.nextId
  exact hnew.bind_zero fun source => (hremember source).bind_zero fun _ => .pure source

end Build

namespace Chain

variable (chain : Chain)

theorem laterClause_takes (node : Node) : Build.Takes 1 (chain.laterClause node) := by
  refine .zero_bind .get fun context => ?_
  cases node.kind with
  | constant _ | subQuery _ | select _ | operator _ => exact .pure _
  | filter _ | orderBy _ _ | thenBy _ _ => exact .zero_bind (.ofExcept _) fun _ => .pure _
  | groupBy _ _ =>
    exact .zero_bind (.ofExcept _) fun _ => .zero_bind (.ofExcept _) fun _ => .pure _
  | selectMany _ _ =>
    refine .zero_bind (.ofExcept _) fun e => .zero_bind (.ofExcept _) fun type => ?_
    exact (Build.newSourceFor_takes node _ type).bind_zero fun _ => .pure _

theorem createClause_takes (node : Node) (previous : Option Clause) :
    Build.Takes 1 (chain.createClause node previous) := by
  have hmain : ∀ type e, Build.Takes 1 (mainFromClause node type e) := fun type _ =>
    (Build.newSourceFor_takes node node.identifier type).bind_zero fun _ => .pure _
  have hlater := chain.laterClause_takes node
  rw [createClause.eq_def]
  cases node.kind with
  | constant s | subQuery s =>
    cases previous with
    | none => exact hmain s.elementType s.toExpr
    | some _ => exact .throw _
  | _ =>
    cases previous with
    | none => exact .throw _
    | some _ => exact hlater

/-- The clauses take an identity a node at most. -/
theorem addClauses_takes (nodes : List Node) (draft : Draft) (previous : Option Clause) :
    Build.Takes nodes.length (chain.addClauses nodes draft previous) := by
  induction nodes generalizing draft previous with
  | nil => exact .pure draft
  | cons node nodes ih =>
    rw [addClauses_cons, List.length_cons, Nat.add_comm]
    refine (chain.createClause_takes node previous).bind fun made => ?_
    exact .zero_bind (.ofExcept _) fun next => ih next (made.or previous)

theorem assemble_takes : Build.Takes chain.nodes.length chain.assemble := by
  rw [assemble]
  cases chain.last? with
  | none => exact .throw .emptyChain
  | some last =>
    have hdraft : Build.Takes chain.nodes.length (chain.draftAndSelector last) :=
      (chain.addClauses_takes chain.nodes .empty none).bind_zero fun _ =>
        .zero_bind .get fun _ => .zero_bind (.ofExcept _) fun _ => .pure _
    exact hdraft.bind_zero fun _ => .ofExcept _

theorem toModel_counter (k : Nat) :
    (chain.toModel k).2 = (chain.assemble.after ⟨.empty, k⟩).nextId := by
  rw [toModel, Build.after]
  cases chain.assemble.run ⟨.empty, k⟩ <;> rfl

end Chain

namespace Reader

/-- **The room a call tree needs.**  The counter goes on by no more than the longest chain that the
settings allow, with a model or with an error. -/
theorem parse_counter_le (reader : Reader) (e : Expr) (k : Nat) :
    (reader.parse e k).2 ≤ k + reader.settings.maxChainDepth := by
  rw [parse]
  cases hread : reader.read e with
  | error error => exact Nat.le_add_right k _
  | ok chain =>
    calc (chain.toModel k).2
      _ = (chain.assemble.after ⟨.empty, k⟩).nextId := chain.toModel_counter k
      _ ≤ k + chain.nodes.length := chain.assemble_takes ⟨.empty, k⟩
      _ ≤ k + reader.settings.maxChainDepth := Nat.add_le_add_left (length_le_of_read hread) k

/-- Where the call tree lies below the limit and the counter leaves room for the longest chain, no
identity of the model reaches the limit. -/
theorem parse_ids_lt {settings : Settings} {e : Expr} {k : Nat} {model : Model}
    (he : ∀ id ∈ e.ids, id < Source.idLimit) (hk : k + settings.maxChainDepth ≤ Source.idLimit)
    (h : ((ofSettings settings).parse e k).1 = .ok model) :
    ∀ id ∈ model.ids, id < Source.idLimit := by
  have hcounter := (ofSettings settings).parse_counter_le e k
  rw [parse] at h hcounter
  cases hread : (ofSettings settings).read e with
  | error error => rw [hread] at h; cases h
  | ok chain =>
    rw [hread] at h hcounter
    intro id hid
    rcases Chain.toModel_ids (read_ids hread) h id hid with hheld | ⟨-, hgiven⟩
    · exact he id hheld
    · exact Nat.lt_of_lt_of_le hgiven (Nat.le_trans hcounter hk)

/-- **A counter of 64 bits gives the same model**, where it has that room: beginning again at the
limit changes none of the identities. -/
theorem parse_wrapped {settings : Settings} {e : Expr} {k : Nat} {model : Model}
    (he : ∀ id ∈ e.ids, id < Source.idLimit) (hk : k + settings.maxChainDepth ≤ Source.idLimit)
    (h : ((ofSettings settings).parse e k).1 = .ok model) :
    model.rename (· % Source.idLimit) = model :=
  model.rename_eq_self fun id hid => Nat.mod_eq_of_lt (parse_ids_lt he hk h id hid)

end Reader

end Comprehension
