import Comprehension.Proofs.Chain.Account
import Comprehension.Proofs.Expr.Exactness

/-! # Types agree along a chain

A chain is exactly typed when the parameters of its lambdas have the types of the items that they
stand for, and when its lambdas are exactly typed.  Then resolution keeps types
(`Resolves.hasType`): what it puts in for a parameter has the type of the parameter.  So each source
has the items of the collection that was written down for it, the selector has the type of the items
of the last projection, and groups have the type of the items of their node.

Sources are made while the chain is gone through, and each one is needed to type the next.  That
they have the right items is an invariant of the assembly (`Chain.SourcesTyped`). -/
namespace Comprehension

/-! ### Typed nodes and lineages -/

/-- The type of the items that a node brings in, if it brings in a collection. -/
def NodeKind.newItems? : NodeKind → Option Ty
  | .constant s => s.sequenceType.element?
  | .subQuery s => s.sequenceType.element?
  | .selectMany c _ => c.body.type.element?
  | _ => none

/-- The collection of a projection to many items by its type, and the parameter of the result
selector that stands for its items. -/
def NodeKind.inner? : NodeKind → Option (Ty × Parameter)
  | .selectMany c (some r) => r.parameters[1]?.map fun p => (c.body.type, p)
  | _ => none

/-- The lambdas of a node are exactly typed, for items of a given type: their first parameters stand
for these items, and the second parameter of a result selector for those of the collection. -/
structure NodeKind.Typed (item : Except ParseError Ty) (kind : NodeKind) : Prop where
  first : ∀ l ∈ kind.lambdas, ∀ p ∈ l.parameters.head?, item = .ok p.type
  second : ∀ x ∈ kind.inner?, x.1.element? = some x.2.type
  bodies : ∀ l ∈ kind.lambdas, l.body.Exact

instance (item : Except ParseError Ty) (kind : NodeKind) : Decidable (kind.Typed item) :=
  decidable_of_iff
    ((∀ l ∈ kind.lambdas, ∀ p ∈ l.parameters.head?, item = .ok p.type) ∧
      (∀ x ∈ kind.inner?, x.1.element? = some x.2.type) ∧ ∀ l ∈ kind.lambdas, l.body.Exact)
    ⟨fun ⟨first, second, bodies⟩ => ⟨first, second, bodies⟩,
      fun ⟨first, second, bodies⟩ => ⟨first, second, bodies⟩⟩

/-- A node is typed, and so are its source and its items. -/
structure Node.Typed (sources : SourceMap) (item : Except ParseError Ty) (node : Node) : Prop where
  lambdas : node.kind.Typed item
  origin : ∀ type x, node.kind.origin? = some (type, x) → node.kind.newItems? = some type
  source : ∀ s, sources.find? node.id = some s → node.kind.newItems? = some s.itemType

/-- Every node of a lineage is typed for the items of the node before it. -/
def Lineage.Typed (sources : SourceMap) : Lineage → Prop
  | .broken _ => True
  | .step node before => node.Typed sources before.itemType ∧ before.Typed sources

theorem Lineage.itemType_pass {node : Node} {before : Lineage} (h : node.kind.passes) :
    (Lineage.step node before).itemType = before.itemType := by
  rw [Lineage.itemType]
  cases hkind : node.kind with
  | filter _ | orderBy _ _ | thenBy _ _ | operator _ => rfl
  | _ =>
    rw [hkind] at h
    cases h

/-- The items of a node that starts a chain have the type of its source. -/
theorem Node.Typed.itemType_source {sources : SourceMap} {node : Node} {before : Lineage}
    {s : Source} (h : node.Typed sources before.itemType) (hkind : node.kind.isSource)
    (hs : sources.find? node.id = some s) :
    (Lineage.step node before).itemType = .ok s.itemType := by
  have hnew := h.source s hs
  have horigin := h.origin
  rw [Lineage.itemType]
  cases hk : node.kind with
  | constant c | subQuery c =>
    rw [hk] at hnew horigin
    have helement := horigin c.elementType c.toExpr rfl
    exact congrArg Except.ok (Option.some.inj (helement.symm.trans hnew))
  | _ =>
    rw [hk] at hkind
    cases hkind

section Resolution

variable {sources : SourceMap} {lineage before : Lineage} {node : Node} {input : Parameter}
  {e e' : Expr} {t : Ty}

theorem Expr.HasType.putProjection {projection : Expr} (he : e.HasType t)
    (hprojection : projection.HasType input.type) :
    (Comprehension.putProjection input projection e).HasType t :=
  (he.replace hprojection).collapse

/-- **Resolution keeps types**, when the parameter has the type of the items that are put in. -/
theorem Resolves.hasType (h : Resolves sources lineage input e e')
    (hlineage : lineage.Typed sources) (hinput : lineage.itemType = .ok input.type)
    (he : e.HasType t) : e'.HasType t := by
  induction h generalizing t with
  | @source node before input e s kind mapped =>
    have hitem := hlineage.1.itemType_source kind mapped
    have hs : s.itemType = input.type := Except.ok.inj (hitem.symm.trans hinput)
    exact he.replace (hs ▸ Expr.hasType_reference s)
  | @select node before input p e projection l kind first item ih =>
    obtain ⟨⟨⟨hfirst, -, hbodies⟩, -, -⟩, hbefore⟩ := hlineage
    have hl : l ∈ node.kind.lambdas := by simp [kind, NodeKind.lambdas]
    have hbody : l.body.type = input.type := by simpa [Lineage.itemType, kind] using hinput
    have hprojection := ih hbefore (hfirst l hl p first) (hbodies l hl).hasType
    exact he.putProjection (hbody ▸ hprojection)
  | @many node before input e c s kind mapped =>
    have hnew := hlineage.1.source s mapped
    have hs : s.itemType = input.type := by
      rw [Lineage.itemType, kind] at hinput
      rw [kind] at hnew
      exact Option.some.inj (hnew.symm.trans (itemsOf_eq_ok.mp hinput))
    exact he.putProjection (hs ▸ Expr.hasType_reference s)
  | @manyWithResult node before input outer inner e projection c r s kind mapped parameters item
      ih =>
    obtain ⟨⟨⟨hfirst, hsecond, hbodies⟩, -, hsource⟩, hbefore⟩ := hlineage
    have hr : r ∈ node.kind.lambdas := by simp [kind, NodeKind.lambdas]
    have hbody : r.body.type = input.type := by simpa [Lineage.itemType, kind] using hinput
    have hinner : s.itemType = inner.type := by
      have hnew := hsource s mapped
      rw [kind] at hnew
      have hx : (c.body.type, inner) ∈ node.kind.inner? := by
        simp [kind, NodeKind.inner?, parameters]
      exact Option.some.inj (hnew.symm.trans (hsecond _ hx))
    have houter : before.itemType = .ok outer.type := hfirst r hr outer (by rw [parameters]; rfl)
    have hprojection := ih hbefore houter
      ((hbodies r hr).hasType.replace (hinner ▸ Expr.hasType_reference s))
    exact he.putProjection (hbody ▸ hprojection)
  | pass kind _ ih =>
    rw [Lineage.itemType_pass kind] at hinput
    exact ih hlineage.2 hinput he

variable {resolver : Resolver}

/-- A resolved lambda has the type of its body. -/
theorem Lineage.Typed.resolveLambda {l : Lambda}
    (h : (Lineage.step node before).Typed resolver.sources) (hl : l ∈ node.kind.lambdas)
    (hresolve : resolver.resolveLambda (.step node before) l = .ok e) : e.HasType l.body.type := by
  obtain ⟨p, hp, hresolves⟩ := Resolver.resolveLambda_eq_ok.mp hresolve
  obtain ⟨hlambdas, -, -⟩ := h.1
  exact hresolves.hasType h.2 (hlambdas.first l hl p hp) (hlambdas.bodies l hl).hasType

/-- A resolved item has the type of the items. -/
theorem Lineage.Typed.resolveItem (h : lineage.Typed resolver.sources)
    (hresolve : resolver.resolveItem lineage = .ok e) :
    ∃ t, lineage.itemType = .ok t ∧ e.HasType t := by
  obtain ⟨p, hp, hresolves⟩ := Resolver.resolveItem_eq_ok.mp hresolve
  obtain ⟨head, -, hp⟩ := bind_eq_ok.mp hp
  obtain ⟨t, ht, hp⟩ := bind_eq_ok.mp hp
  cases hp
  exact ⟨t, ht, hresolves.hasType h ht (Expr.hasType_parameter _)⟩

/-- A resolved key and element have the types that the items of a grouping are made of. -/
theorem Lineage.Typed.grouping {l : Lambda} {element : Option Lambda} {key : Expr}
    (h : (Lineage.step node before).Typed resolver.sources) (kind : node.kind = .groupBy l element)
    (hkey : resolver.resolveLambda (.step node before) l = .ok key)
    (hkept : resolver.element (.step node before) element = .ok e) :
    (Lineage.step node before).itemType = .ok (Grouping.type ⟨key, e⟩) := by
  have hkeyType := h.resolveLambda (by simp [kind, NodeKind.lambdas]) hkey
  rw [Lineage.itemType, kind, Grouping.type, hkeyType.type]
  cases element with
  | some k =>
    have helement := h.resolveLambda (l := k) (by simp [kind, NodeKind.lambdas]) hkept
    rw [helement.type]
  | none =>
    obtain ⟨t, ht, helement⟩ := h.2.resolveItem hkept
    exact bind_eq_ok.mpr ⟨t, ht, by rw [helement.type]; rfl⟩

end Resolution

/-! ### Selectors -/

/-- Whether a node says what its items are. -/
def NodeKind.projects : NodeKind → Bool
  | .constant _ => true
  | .subQuery _ => true
  | .select _ => true
  | .selectMany .. => true
  | _ => false

/-- A selector is that of the last node that says what its items are. -/
theorem Resolver.selector_back {resolver : Resolver} {error : ParseError} {nodes : List Node}
    {e : Expr} (h : resolver.selector (Lineage.back error nodes) = .ok e) :
    ∃ before node after, nodes = before ++ node :: after ∧ node.kind.projects ∧
      (∀ n ∈ after, n.kind.projects = false) ∧
      resolver.selector (.step node (Lineage.back error before)) = .ok e := by
  induction nodes using List.reverseRecOn with
  | nil => cases h
  | append_singleton nodes node ih =>
    rw [Lineage.back_concat] at h
    by_cases hprojects : node.kind.projects
    · exact ⟨nodes, node, [], rfl, hprojects, by simp, h⟩
    · have hpass : resolver.selector (.step node (Lineage.back error nodes)) =
          resolver.selector (Lineage.back error nodes) := by
        rw [Resolver.selector]
        cases hkind : node.kind with
        | constant _ | subQuery _ | select _ | selectMany _ _ =>
          simp [hkind, NodeKind.projects] at hprojects
        | _ => rfl
      obtain ⟨before, last, after, rfl, hlast, hafter, hselector⟩ := ih (hpass ▸ h)
      refine ⟨before, last, after ++ [node], by simp, hlast, ?_, hselector⟩
      intro n hn
      rcases List.mem_append.mp hn with hn | hn
      · exact hafter n hn
      · rw [List.mem_singleton.mp hn]
        simpa using hprojects

/-- The selector at a node that says what its items are has their type. -/
theorem Lineage.Typed.selector {resolver : Resolver} {node : Node} {before : Lineage} {e : Expr}
    (h : (Lineage.step node before).Typed resolver.sources) (hprojects : node.kind.projects)
    (hselector : resolver.selector (.step node before) = .ok e) :
    (Lineage.step node before).itemType = .ok e.type := by
  rw [Resolver.selector] at hselector
  cases hkind : node.kind with
  | select l =>
    rw [hkind] at hselector
    have htype := h.resolveLambda (by simp [hkind, NodeKind.lambdas]) hselector
    rw [Lineage.itemType, hkind, htype.type]
  | constant _ | subQuery _ | selectMany _ _ =>
    rw [hkind] at hselector
    obtain ⟨t, ht, htype⟩ := h.resolveItem hselector
    rw [ht, htype.type]
  | _ => simp [hkind, NodeKind.projects] at hprojects

/-! ### Typed chains -/

/-- The source at the start of a call tree has the items of its type. -/
theorem Reads.newItems_eq {e : Expr} {kinds : List NodeKind} (h : Reads e kinds) :
    ∀ kind ∈ kinds, ∀ type x, kind.origin? = some (type, x) → kind.newItems? = some type := by
  induction h with
  | constant items | subQuery items =>
    intro kind hkind type x horigin
    rw [List.mem_singleton.mp hkind] at horigin ⊢
    cases horigin
    exact items
  | call _ recognized ih =>
    intro kind hkind type x horigin
    rcases List.mem_append.mp hkind with hkind | hkind
    · exact ih kind hkind type x horigin
    · rw [List.mem_singleton.mp hkind] at horigin
      cases recognized <;> cases horigin

namespace Chain

/-- **Every lambda of a chain is exactly typed** for the items of the node before it. -/
def ExactlyTyped (chain : Chain) : Prop :=
  ∀ node ∈ chain.nodes, node.kind.Typed (chain.lineage node).before.itemType

instance (chain : Chain) : Decidable chain.ExactlyTyped :=
  inferInstanceAs
    (Decidable (∀ node ∈ chain.nodes, node.kind.Typed (chain.lineage node).before.itemType))

/-- The sources made for nodes have the items that the nodes bring in. -/
def SourcesTyped (chain : Chain) (sources : SourceMap) : Prop :=
  ∀ node ∈ chain.nodes, ∀ s, sources.find? node.id = some s →
    node.kind.newItems? = some s.itemType

theorem Linear.eq_of_id {chain : Chain} (h : chain.Linear) {m n : Node} (hm : m ∈ chain.nodes)
    (hn : n ∈ chain.nodes) (hid : m.id = n.id) : m = n := by
  obtain ⟨i, hi⟩ := List.mem_iff_getElem?.mp hm
  obtain ⟨j, hj⟩ := List.mem_iff_getElem?.mp hn
  rw [h.id_eq hi, h.id_eq hj] at hid
  rw [hid] at hi
  exact Option.some.inj (hi.symm.trans hj)

/-- The groupings among operators have the types of the items of their nodes. -/
theorem forall₂_groupings {chain : Chain} {sources : SourceMap} {nodes : List Node}
    {operators : List ResultOperator}
    (h : List.Forall₂ (chain.GivesOperator sources) nodes operators)
    (hgroupless : ∀ n ∈ nodes, ∀ op, n.kind = .operator op → op.grouping? = none)
    (htyped : ∀ n ∈ nodes, (chain.lineage n).Typed sources) :
    List.Forall₂ (fun node g => (chain.lineage node).itemType = .ok (Grouping.type g))
      (nodes.filter fun n => n.kind.isGroup) (operators.filterMap ResultOperator.grouping?) := by
  induction h with
  | nil => exact .nil
  | @cons node op nodes operators hop _ ih =>
    have hrest := ih (fun n hn => hgroupless n (List.mem_cons_of_mem _ hn))
      (fun n hn => htyped n (List.mem_cons_of_mem _ hn))
    cases hop with
    | operator kind =>
      have hnone := hgroupless node (List.mem_cons_self ..) op kind
      simpa [kind, NodeKind.isGroup, List.filterMap_cons, hnone] using hrest
    | groupBy kind resolved kept =>
      have hlineage : (chain.lineage node).Typed (chain.resolver sources).sources :=
        htyped node (List.mem_cons_self ..)
      have htype := hlineage.grouping kind resolved kept
      have hgroup : node.kind.isGroup := by
        rw [kind]
        rfl
      rw [List.filter_cons, if_pos hgroup]
      exact .cons htype hrest

section Typed

variable {settings : Settings} {e : Expr} {chain : Chain} {sources : SourceMap}
  (hread : (Reader.ofSettings settings).read e = .ok chain) (htyped : chain.ExactlyTyped)
include hread htyped

/-- **The lineages of an exactly typed chain are typed**, once its sources are. -/
theorem ExactlyTyped.lineage (hsources : chain.SourcesTyped sources) {node : Node}
    (hnode : node ∈ chain.nodes) : (chain.lineage node).Typed sources := by
  obtain ⟨hlinear, hreads⟩ := Reader.read_reads hread
  obtain ⟨error, hlineage⟩ := hlinear.lineage_eq
  -- The lineage through the first nodes is typed, however many they are.
  have hback : ∀ nodes rest, chain.nodes = nodes ++ rest →
      (Lineage.back error nodes).Typed sources := by
    intro nodes
    induction nodes using List.reverseRecOn with
    | nil => exact fun _ _ => trivial
    | append_singleton nodes n ih =>
      intro rest hsplit
      rw [List.append_assoc] at hsplit
      have hn : n ∈ chain.nodes := by simp [hsplit]
      have hlambdas := htyped n hn
      rw [hlineage nodes n rest hsplit] at hlambdas
      rw [Lineage.back_concat]
      refine ⟨⟨hlambdas, ?_, hsources n hn⟩, ih _ hsplit⟩
      exact hreads.newItems_eq n.kind (List.mem_map_of_mem hn)
  obtain ⟨before, after, hsplit⟩ := List.append_of_mem hnode
  rw [hlineage before node after hsplit, ← Lineage.back_concat]
  exact hback (before ++ [node]) after (by simp [hsplit])

/-- A step makes a source with the items that its node brings in. -/
theorem Step.sourcesTyped {node : Node} {s t : Progress} (h : Step chain node s t)
    (hnode : node ∈ chain.nodes) (hs : chain.SourcesTyped s.context.sources) :
    chain.SourcesTyped t.context.sources := by
  obtain ⟨hlinear, hreads⟩ := Reader.read_reads hread
  -- A new source concerns the node that it was made for.
  have hnew : ∀ {context : Context} {source : Source}, chain.SourcesTyped context.sources →
      node.kind.newItems? = some source.itemType →
      chain.SourcesTyped (context.withSource node source).sources := by
    intro context source hcontext hsource n hn r hr
    rcases Context.find?_withSource_cases hr with hold | ⟨rfl, hid⟩
    · exact hcontext n hn r hold
    · rw [← hlinear.eq_of_id hnode hn hid]
      exact hsource
  have hlineage : (chain.lineage node).Typed (chain.resolver s.context.sources).sources :=
    ExactlyTyped.lineage hread htyped hs hnode
  cases h with
  | source kind _ _ =>
    exact hnew hs (hreads.newItems_eq node.kind (List.mem_map_of_mem hnode) _ _ kind)
  | @selectMany draft context l result x itemType kind _ resolved items _ _ =>
    have hx : x.HasType l.body.type :=
      hlineage.resolveLambda (by simp [kind, NodeKind.lambdas]) resolved
    refine hnew hs ?_
    rw [kind, NodeKind.newItems?, ← hx.type]
    exact items
  | _ => exact hs

/-- The sources of an exactly typed chain have the right items, however far its nodes are done. -/
theorem Run.sourcesTyped {nodes : List Node} {s t : Progress} (h : Run chain nodes s t)
    (hnodes : ∀ n ∈ nodes, n ∈ chain.nodes) (hs : chain.SourcesTyped s.context.sources) :
    chain.SourcesTyped t.context.sources := by
  induction h with
  | nil => exact hs
  | cons step _ ih =>
    have hstep := Step.sourcesTyped hread htyped step (hnodes _ (List.mem_cons_self ..)) hs
    exact ih (fun n hn => hnodes n (List.mem_cons_of_mem _ hn)) hstep

/-- Resolution over the items of a node keeps the type of an exactly typed expression. -/
theorem ExactlyTyped.resolve (hsources : chain.SourcesTyped sources) {node : Node}
    (hnode : node ∈ chain.nodes) {p : Parameter} {x x' : Expr}
    (hitem : (chain.lineage node).itemType = .ok p.type) (hx : x.Exact)
    (hresolve : (chain.resolver sources).resolve (chain.lineage node) p x = .ok x') :
    x'.type = x.type := by
  have hlineage := ExactlyTyped.lineage hread htyped hsources hnode
  have hresolves := Resolver.resolve_eq_ok.mp hresolve
  exact (hresolves.hasType hlineage hitem hx.hasType).type

/-- The selector has the type of the items of the last node that says what its items are. -/
theorem ExactlyTyped.selector (hsources : chain.SourcesTyped sources) {last : Node}
    {selector : Expr} (hlast : chain.last? = some last)
    (hselector : (chain.resolver sources).selector (chain.lineage last) = .ok selector) :
    ∃ before node after, chain.nodes = before ++ node :: after ∧ node.kind.projects ∧
      (∀ n ∈ after, n.kind.projects = false) ∧
      (chain.lineage node).itemType = .ok selector.type := by
  obtain ⟨error, hback⟩ := (Reader.read_regular hread).linear.lineage_eq
  rw [lineage_last_eq hback hlast] at hselector
  obtain ⟨before, node, after, hsplit, hprojects, hafter, hselector⟩ :=
    Resolver.selector_back hselector
  refine ⟨before, node, after, hsplit, hprojects, hafter, ?_⟩
  have hmem : node ∈ chain.nodes := by simp [hsplit]
  have hnode := ExactlyTyped.lineage hread htyped hsources hmem
  rw [hback before node after hsplit] at hnode ⊢
  exact hnode.selector hprojects hselector

/-- Groups have the type of the items of their node. -/
theorem ExactlyTyped.groupings (hsources : chain.SourcesTyped sources)
    {operators : List ResultOperator}
    (hgiven : List.Forall₂ (chain.GivesOperator sources)
      (chain.nodes.filter fun n => n.kind.isResult) operators) :
    List.Forall₂ (fun node g => (chain.lineage node).itemType = .ok (Grouping.type g))
      (chain.nodes.filter fun n => n.kind.isGroup)
      (operators.filterMap ResultOperator.grouping?) := by
  have hgroupless := (Reader.read_regular hread).groupless
  have hgroups := forall₂_groupings hgiven
    (fun n hn => hgroupless n (List.mem_filter.mp hn).1)
    (fun n hn => ExactlyTyped.lineage hread htyped hsources (List.mem_filter.mp hn).1)
  have hfilter : (chain.nodes.filter fun n => n.kind.isResult).filter
      (fun n => n.kind.isGroup) = chain.nodes.filter fun n => n.kind.isGroup := by
    rw [List.filter_filter]
    refine List.filter_congr fun n _ => ?_
    cases n.kind <;> rfl
  rw [hfilter] at hgroups
  exact hgroups

end Typed

/-- **Types agree between a chain and its model.** -/
structure TypesAgree (chain : Chain) (nextId : Nat) (model : Model) : Prop where
  /-- With the sources made for any number of nodes, resolution of an exactly typed expression over
  the items of a node keeps its type. -/
  resolved : ∀ done rest draft context, chain.nodes = done ++ rest →
    (chain.addClauses done .empty none).run ⟨.empty, nextId⟩ = .ok draft context →
    ∀ node ∈ chain.nodes, ∀ p x x', (chain.lineage node).itemType = .ok p.type → x.Exact →
      (chain.resolver context.sources).resolve (chain.lineage node) p x = .ok x' →
      x'.type = x.type
  /-- A source has the items of the collection that its node was given. -/
  sources : List.Forall₂ (fun node s => node.kind.newItems? = some s.itemType)
    (chain.nodes.filter fun n => n.kind.makesSource) model.sources
  /-- The selector has the type of the items of the last node that says what its items are. -/
  selector : ∃ before node after, chain.nodes = before ++ node :: after ∧ node.kind.projects ∧
    (∀ n ∈ after, n.kind.projects = false) ∧
    (chain.lineage node).itemType = .ok model.selector.type
  groups : List.Forall₂ (fun node g => (chain.lineage node).itemType = .ok (Grouping.type g))
    (chain.nodes.filter fun n => n.kind.isGroup)
    (model.operators.filterMap ResultOperator.grouping?)

/-- **Typing agrees along the chain.**  When a chain that was read is exactly typed and has a model,
resolution keeps types, and sources, selector and groups have the types of the items of their
nodes. -/
theorem toModel_typesAgree {settings : Settings} {e : Expr} {chain : Chain} {nextId : Nat}
    {model : Model} (hread : (Reader.ofSettings settings).read e = .ok chain)
    (htyped : chain.ExactlyTyped) (hmodel : (chain.toModel nextId).1 = .ok model) :
    chain.TypesAgree nextId model := by
  obtain ⟨last, draft, context, selector, hlast, hrun, hselector, hfinish⟩ :=
    toModel_eq_ok.mp hmodel
  obtain ⟨mainFrom, hmain, rfl, -, -⟩ := finish_eq_ok.mp hfinish
  have hstart : chain.SourcesTyped (Progress.start nextId).context.sources :=
    fun _ _ _ hs => nomatch hs
  have hsources := Run.sourcesTyped hread htyped hrun (fun _ hn => hn) hstart
  refine ⟨?_, ?_, ?_, ?_⟩
  · intro done rest d c hsplit hdone node hnode p x x' hitem hx hresolve
    have hprefix : Run chain done (.start nextId) ⟨d, c⟩ :=
      (addClauses_eq_ok (s := .start nextId) (t := ⟨d, c⟩) rfl).mp hdone
    have hmade := Run.sourcesTyped hread htyped hprefix (fun n hn => by simp [hsplit, hn]) hstart
    exact ExactlyTyped.resolve hread htyped hmade hnode hitem hx hresolve
  · have hgiven := hrun.sourcesGiven.given
    rw [Draft.sources_eq hmain selector] at hgiven
    rw [List.forall₂_iff_zip] at hgiven ⊢
    refine ⟨hgiven.1, fun {node s} hpair => ?_⟩
    have hnode := (List.mem_filter.mp (List.of_mem_zip hpair).1).1
    exact hsources node hnode s (hgiven.2 hpair).1
  · exact ExactlyTyped.selector hread htyped hsources hlast hselector
  · exact ExactlyTyped.groupings hread htyped hsources hrun.operatorsGiven

theorem toModel_typesAgree_groups :
    ∃ chain model, (Reader.ofSettings .default).read Sample.groups = .ok chain ∧
      chain.ExactlyTyped ∧ (chain.toModel 0).1 = .ok model ∧ chain.TypesAgree 0 model := by
  obtain ⟨chain, model, hread, htyped, hmodel⟩ : ∃ chain model,
      (Reader.ofSettings .default).read Sample.groups = .ok chain ∧ chain.ExactlyTyped ∧
        (chain.toModel 0).1 = .ok model := ⟨_, _, rfl, by decide +kernel, rfl⟩
  exact ⟨chain, model, hread, htyped, hmodel, toModel_typesAgree hread htyped hmodel⟩

end Chain

end Comprehension
