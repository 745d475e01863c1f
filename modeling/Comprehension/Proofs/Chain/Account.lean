import Comprehension.Proofs.Chain.Acceptance
import Comprehension.Proofs.Chain.Projection
import Mathlib.Data.List.Forall2

/-! # Every node is accounted for

A model holds what the nodes of its chain contribute, once each and in the order of the chain.  The
first node gives the main from clause.  The body has one clause for each node that starts one, and a
sorting clause also lists the further sort keys behind its node (`stretches`).  Every result gives
one operator, and every node that makes a source gives one source, with the next identity.

`Chain.Accounts` states this of a finished model.  Each of its parts is kept by single steps of the
assembly, so it holds behind every run. -/
namespace Comprehension

/-! ### Stretches of a chain -/

/-- Whether a node has a body clause of its own. -/
def NodeKind.startsClause : NodeKind → Bool
  | .filter _ => true
  | .orderBy .. => true
  | .selectMany .. => true
  | _ => false

/-- The nodes before the first one that has a body clause of its own. -/
def untilClause (nodes : List Node) : List Node :=
  nodes.takeWhile fun n => !n.kind.startsClause

/-- The nodes that have a body clause of their own, each with the further sort keys between it and
the next such node. -/
def stretches : List Node → List (Node × List Node)
  | [] => []
  | node :: rest =>
    if node.kind.startsClause then
      (node, (untilClause rest).filter fun n => n.kind.isThenBy) :: stretches rest
    else stretches rest

section Stretches

variable {nodes : List Node} {node : Node}

theorem stretches_eq_nil_iff :
    stretches nodes = [] ↔ ∀ n ∈ nodes, n.kind.startsClause = false := by
  induction nodes with
  | nil => simp [stretches]
  | cons n nodes ih =>
    by_cases hn : n.kind.startsClause
    · simp [stretches, hn]
    · simp [stretches, hn, ih]

/-- A node is reached when no node up to it has a clause of its own. -/
theorem untilClause_concat (nodes : List Node) (node : Node) :
    untilClause (nodes ++ [node]) =
      untilClause nodes ++ if stretches (nodes ++ [node]) = [] then [node] else [] := by
  induction nodes with
  | nil => by_cases h : node.kind.startsClause <;> simp [untilClause, stretches, h]
  | cons n nodes ih =>
    by_cases hn : n.kind.startsClause
    · simp [untilClause, stretches, hn]
    · simpa [untilClause, stretches, hn] using ih

/-- A node with a clause of its own starts a new stretch. -/
theorem stretches_concat_start (h : node.kind.startsClause) :
    stretches (nodes ++ [node]) = stretches nodes ++ [(node, [])] := by
  induction nodes with
  | nil => simp [stretches, untilClause, h]
  | cons n nodes ih =>
    by_cases hn : n.kind.startsClause <;> simp [stretches, hn, ih, untilClause_concat]

/-- A further sort key joins the last stretch. -/
theorem stretches_concat_thenBy (h : node.kind.isThenBy) {earlier : List (Node × List Node)}
    {start : Node} {further : List Node} (hlast : stretches nodes = earlier ++ [(start, further)]) :
    stretches (nodes ++ [node]) = earlier ++ [(start, further ++ [node])] := by
  have hstarts : node.kind.startsClause = false := by
    cases hkind : node.kind with
    | thenBy _ _ => rfl
    | _ => simp [hkind, NodeKind.isThenBy] at h
  -- The key is reached from the last start only.
  have hreached : ∀ l : List Node, stretches (l ++ [node]) = [] ↔ stretches l = [] := by
    intro l
    simp only [stretches_eq_nil_iff, List.mem_append, List.mem_singleton, or_imp, forall_and,
      forall_eq, hstarts, and_true]
  induction nodes generalizing earlier with
  | nil => simp [stretches] at hlast
  | cons n nodes ih =>
    by_cases hn : n.kind.startsClause
    · simp only [stretches, hn, if_true] at hlast
      rw [List.cons_append, stretches, if_pos hn, untilClause_concat]
      cases earlier with
      | nil =>
        obtain ⟨hpair, hnil⟩ := List.cons.inj hlast
        cases hpair
        simp [(hreached nodes).mpr hnil, h]
      | cons s earlier =>
        obtain ⟨rfl, hrest⟩ := List.cons.inj hlast
        simp [ih hrest]
    · simp only [stretches, hn] at hlast
      simpa [stretches, hn] using ih hlast

/-- All other nodes leave the stretches as they are. -/
theorem stretches_concat_other (h : node.kind.startsClause = false)
    (hkey : node.kind.isThenBy = false) : stretches (nodes ++ [node]) = stretches nodes := by
  have huntil : ∀ l : List Node, (untilClause (l ++ [node])).filter (fun n => n.kind.isThenBy) =
      (untilClause l).filter fun n => n.kind.isThenBy := by
    intro l
    rw [untilClause_concat]
    split <;> simp [hkey]
  induction nodes with
  | nil => simp [stretches, h]
  | cons n nodes ih =>
    by_cases hn : n.kind.startsClause <;> simp [stretches, hn, ih, huntil]

end Stretches

/-! ### What nodes give -/

/-- What the items of the source of a node are called. -/
def Node.sourceName (node : Node) : String :=
  match node.kind with
  | .selectMany _ result => node.manyName result
  | _ => node.identifier

namespace Chain

section Gives

variable (chain : Chain) (sources : SourceMap)

/-- A node that sorts gives a sort key: its lambda, resolved, with its direction. -/
def GivesKey (node : Node) (key : SortKey) : Prop :=
  ∃ l, (node.kind = .orderBy l key.direction ∨ node.kind = .thenBy l key.direction) ∧
    (chain.resolver sources).resolveLambda (chain.lineage node) l = .ok key.expression

/-- The body clause of a node, with the further sort keys that go into it.  Only a sorting clause
takes further sort keys. -/
inductive GivesClause : Node × List Node → BodyClause → Prop
  | filter {node : Node} {l : Lambda} {e : Expr} (kind : node.kind = .filter l)
      (resolved : (chain.resolver sources).resolveLambda (chain.lineage node) l = .ok e) :
    GivesClause (node, []) (.filter e)
  | orderBy {node : Node} {further : List Node} {l : Lambda} {direction : Direction}
      {keys : List SortKey} (kind : node.kind = .orderBy l direction)
      (given : List.Forall₂ (chain.GivesKey sources) (node :: further) keys) :
    GivesClause (node, further) (.orderBy keys)
  | selectMany {node : Node} {l : Lambda} {result : Option Lambda} {source : Source} {e : Expr}
      (kind : node.kind = .selectMany l result)
      (resolved : (chain.resolver sources).resolveLambda (chain.lineage node) l = .ok e)
      (mapped : sources.find? node.id = some source) :
    GivesClause (node, []) (.additionalFrom ⟨source, e⟩)

/-- The result operator of a node: the one it holds, or a grouping made of its lambdas. -/
inductive GivesOperator : Node → ResultOperator → Prop
  | operator {node : Node} {op : ResultOperator} (kind : node.kind = .operator op) :
    GivesOperator node op
  | groupBy {node : Node} {l : Lambda} {element : Option Lambda} {key e : Expr}
      (kind : node.kind = .groupBy l element)
      (resolved : (chain.resolver sources).resolveLambda (chain.lineage node) l = .ok key)
      (kept : (chain.resolver sources).element (chain.lineage node) element = .ok e) :
    GivesOperator node (.group node.identifier key e)

/-- The source of a node, which carries the name that the node gives it. -/
def GivesSource (node : Node) (source : Source) : Prop :=
  sources.find? node.id = some source ∧ source.itemName = node.sourceName

end Gives

/-! ### Later sources change nothing -/

section Later

variable {chain : Chain} {sources sources' : SourceMap}
  (hmore : ∀ id s, sources.find? id = some s → sources'.find? id = some s)
include hmore

theorem resolveLambda_mono {node : Node} {l : Lambda} {e : Expr}
    (h : (chain.resolver sources).resolveLambda (chain.lineage node) l = .ok e) :
    (chain.resolver sources').resolveLambda (chain.lineage node) l = .ok e := by
  obtain ⟨p, hp, hresolves⟩ := Resolver.resolveLambda_eq_ok.mp h
  exact Resolver.resolveLambda_eq_ok.mpr ⟨p, hp, hresolves.mono hmore⟩

theorem element_mono {node : Node} {element : Option Lambda} {e : Expr}
    (h : (chain.resolver sources).element (chain.lineage node) element = .ok e) :
    (chain.resolver sources').element (chain.lineage node) element = .ok e := by
  cases element with
  | some l => exact resolveLambda_mono hmore h
  | none =>
    obtain ⟨p, hp, hresolves⟩ := Resolver.resolveItem_eq_ok.mp h
    exact Resolver.resolveItem_eq_ok.mpr ⟨p, hp, hresolves.mono hmore⟩

theorem GivesKey.mono {node : Node} {key : SortKey} (h : chain.GivesKey sources node key) :
    chain.GivesKey sources' node key := by
  obtain ⟨l, hkind, hresolved⟩ := h
  exact ⟨l, hkind, resolveLambda_mono hmore hresolved⟩

theorem GivesClause.mono {stretch : Node × List Node} {clause : BodyClause}
    (h : chain.GivesClause sources stretch clause) : chain.GivesClause sources' stretch clause := by
  cases h with
  | filter kind resolved => exact .filter kind (resolveLambda_mono hmore resolved)
  | orderBy kind given => exact .orderBy kind (given.imp fun _ _ => GivesKey.mono hmore)
  | selectMany kind resolved mapped =>
    exact .selectMany kind (resolveLambda_mono hmore resolved) (hmore _ _ mapped)

theorem GivesOperator.mono {node : Node} {op : ResultOperator}
    (h : chain.GivesOperator sources node op) : chain.GivesOperator sources' node op := by
  cases h with
  | operator kind => exact .operator kind
  | groupBy kind resolved kept =>
    exact .groupBy kind (resolveLambda_mono hmore resolved) (element_mono hmore kept)

end Later

/-! ### What a step adds -/

/-- The last of two lists that go together pairwise. -/
theorem forall₂_concat_right {α β : Type} {R : α → β → Prop} {xs : List α} {ys : List β} {y : β}
    (h : List.Forall₂ R xs (ys ++ [y])) :
    ∃ xs' x, xs = xs' ++ [x] ∧ List.Forall₂ R xs' ys ∧ R x y := by
  obtain ⟨x, rest, hxy, hrest, hdrop⟩ :=
    List.forall₂_cons_right_iff.mp (List.forall₂_drop_append xs ys [y] h)
  rw [List.forall₂_nil_right_iff.mp hrest] at hdrop
  refine ⟨xs.take ys.length, x, ?_, List.forall₂_take_append xs ys [y] h, hxy⟩
  rw [← hdrop, List.take_append_drop]

theorem forall₂_concat {α β : Type} {R : α → β → Prop} {xs : List α} {ys : List β} {x : α} {y : β}
    (h : List.Forall₂ R xs ys) (hxy : R x y) : List.Forall₂ R (xs ++ [x]) (ys ++ [y]) :=
  List.rel_append h (.cons hxy .nil)

theorem exists_of_forall₂_right {α β : Type} {R : α → β → Prop} {xs : List α} {ys : List β} {y : β}
    (h : List.Forall₂ R xs ys) (hy : y ∈ ys) : ∃ x ∈ xs, R x y := by
  induction h with
  | nil => cases hy
  | cons hxy _ ih =>
    rcases List.mem_cons.mp hy with rfl | hy
    · exact ⟨_, List.mem_cons_self .., hxy⟩
    · obtain ⟨x, hx, hR⟩ := ih hy
      exact ⟨x, List.mem_cons_of_mem _ hx, hR⟩

section Step

variable {chain : Chain} {node : Node} {done : List Node} {s t : Progress}

/-- Sources that were made stay. -/
theorem Step.keeps_sources (h : Step chain node s t) :
    ∀ id r, s.context.sources.find? id = some r → t.context.sources.find? id = some r := by
  intro id r hr
  rcases h.context_cases with ⟨-, hcontext⟩ | ⟨-, -, source, hcontext⟩
  · rw [hcontext]
    exact hr
  · rw [hcontext]
    exact Context.find?_withSource_of_some hr

/-- **The body has a clause for each stretch**, and no sort key stands before the first. -/
structure Progress.BodyGiven (chain : Chain) (done : List Node) (s : Progress) : Prop where
  body : List.Forall₂ (chain.GivesClause s.context.sources) (stretches done) s.draft.body
  leading : ∀ n ∈ untilClause done, n.kind.isThenBy = false

/-- A step at any other node keeps the body. -/
theorem Progress.BodyGiven.other (hs : s.BodyGiven chain done) (h : Step chain node s t)
    (hbody : t.draft.body = s.draft.body) (hstarts : node.kind.startsClause = false)
    (hkey : node.kind.isThenBy = false) : t.BodyGiven chain (done ++ [node]) where
  body := by
    rw [stretches_concat_other hstarts hkey, hbody]
    exact hs.body.imp fun _ _ => GivesClause.mono h.keeps_sources
  leading := by
    intro n hn
    rw [untilClause_concat] at hn
    rcases List.mem_append.mp hn with hn | hn
    · exact hs.leading n hn
    · split at hn
      · rw [List.mem_singleton.mp hn]
        exact hkey
      · cases hn

/-- A step at a node with a clause of its own adds the clause. -/
theorem Progress.BodyGiven.start (hs : s.BodyGiven chain done) (h : Step chain node s t)
    {clause : BodyClause} (hbody : t.draft.body = s.draft.body ++ [clause])
    (hstarts : node.kind.startsClause)
    (hgives : chain.GivesClause t.context.sources (node, []) clause) :
    t.BodyGiven chain (done ++ [node]) where
  body := by
    rw [stretches_concat_start hstarts, hbody]
    exact forall₂_concat (hs.body.imp fun _ _ => GivesClause.mono h.keeps_sources) hgives
  leading := by
    intro n hn
    rw [untilClause_concat, stretches_concat_start hstarts] at hn
    exact hs.leading n (by simpa using hn)

/-- A step at a further sort key extends the last clause. -/
theorem Progress.BodyGiven.key (hs : s.BodyGiven chain done) (h : Step chain node s t)
    {body : List BodyClause} {keys : List SortKey} {key : SortKey}
    (hsorting : s.draft.body = body ++ [.orderBy keys])
    (hbody : t.draft.body = body ++ [.orderBy (keys ++ [key])]) (hkey : node.kind.isThenBy)
    (hgives : chain.GivesKey t.context.sources node key) :
    t.BodyGiven chain (done ++ [node]) := by
  have hkept := hs.body.imp fun _ _ => GivesClause.mono h.keeps_sources
  rw [hsorting] at hkept
  obtain ⟨earlier, ⟨start, further⟩, hlast, hearlier, hclause⟩ := forall₂_concat_right hkept
  have hnext := stretches_concat_thenBy hkey hlast
  cases hclause with
  | orderBy kind given =>
    refine ⟨?_, ?_⟩
    · rw [hnext, hbody]
      exact forall₂_concat hearlier (.orderBy kind (forall₂_concat given hgives))
    · intro n hn
      rw [untilClause_concat, hnext] at hn
      exact hs.leading n (by simpa using hn)

theorem Step.bodyGiven (h : Step chain node s t) (hs : s.BodyGiven chain done) :
    t.BodyGiven chain (done ++ [node]) := by
  have hkeeps := h.keeps_sources
  cases id h with
  | source kind _ _ =>
    have hsource := NodeKind.isSource_of_origin? kind
    cases hkind : node.kind with
    | constant _ | subQuery _ => exact hs.other h rfl (by rw [hkind]; rfl) (by rw [hkind]; rfl)
    | _ =>
      rw [hkind] at hsource
      cases hsource
  | filter kind _ resolved _ => exact hs.start h rfl (by rw [kind]; rfl) (.filter kind resolved)
  | orderBy kind _ resolved _ =>
    exact hs.start h rfl (by rw [kind]; rfl)
      (.orderBy kind (.cons ⟨_, Or.inl kind, resolved⟩ .nil))
  | thenBy kind _ resolved _ sorting =>
    exact hs.key h sorting rfl (by rw [kind]; rfl) ⟨_, Or.inr kind, resolved⟩
  | selectMany kind _ resolved _ unmapped _ =>
    exact hs.start h rfl (by rw [kind]; rfl)
      (.selectMany kind (resolveLambda_mono hkeeps resolved)
        (Context.find?_withSource_self unmapped))
  | select kind _ _ | groupBy kind _ _ _ | operator kind _ =>
    exact hs.other h rfl (by rw [kind]; rfl) (by rw [kind]; rfl)

/-- **The operators are those of the results**, in their order. -/
theorem Step.operatorsGiven (h : Step chain node s t)
    (hs : List.Forall₂ (chain.GivesOperator s.context.sources)
      (done.filter fun n => n.kind.isResult) s.draft.operators) :
    List.Forall₂ (chain.GivesOperator t.context.sources)
      ((done ++ [node]).filter fun n => n.kind.isResult) t.draft.operators := by
  have hkept := hs.imp fun _ _ => GivesOperator.mono h.keeps_sources
  rw [List.filter_append]
  cases h with
  | source kind _ _ =>
    obtain ⟨-, hresult, -⟩ := NodeKind.sourceOnly (NodeKind.isSource_of_origin? kind)
    simpa [hresult] using hkept
  | groupBy kind _ resolved kept =>
    have hfilter : [node].filter (fun n => n.kind.isResult) = [node] := by
      simp [kind, NodeKind.isResult]
    rw [hfilter]
    exact forall₂_concat hkept (.groupBy kind resolved kept)
  | operator kind _ =>
    have hfilter : [node].filter (fun n => n.kind.isResult) = [node] := by
      simp [kind, NodeKind.isResult]
    rw [hfilter]
    exact forall₂_concat hkept (.operator kind)
  | filter kind _ _ _ | orderBy kind _ _ _ | thenBy kind _ _ _ _ | selectMany kind _ _ _ _ _
  | select kind _ _ => simpa [kind, NodeKind.isResult] using hkept

/-- **The first node is the source**, and no other node is: either nothing is done yet, or the first
node done has given the main from clause. -/
def Progress.Begun (nextId : Nat) (done : List Node) (s : Progress) : Prop :=
  done = [] ∧ s = .start nextId ∨
    ∃ first rest type expression, done = first :: rest ∧
      first.kind.origin? = some (type, expression) ∧ (∀ n ∈ rest, n.kind.isSource = false) ∧
      s.draft.mainFrom = some ⟨⟨nextId, first.identifier, type⟩, expression⟩

theorem Step.begun {nextId : Nat} (h : Step chain node s t) (hs : s.Begun nextId done) :
    t.Begun nextId (done ++ [node]) := by
  rcases hs with ⟨rfl, rfl⟩ | ⟨first, rest, type, expression, rfl, horigin, hrest, hmain⟩
  · cases h with
    | source kind _ _ => exact Or.inr ⟨node, [], _, _, rfl, kind, by simp, rfl⟩
    | filter _ later _ _ | orderBy _ later _ _ | thenBy _ later _ _ _
    | selectMany _ later _ _ _ _ | select _ later _ | groupBy _ later _ _ | operator _ later =>
      cases later
  · have hlater : node.kind.isSource = false ∧ t.draft.mainFrom = s.draft.mainFrom := by
      cases h with
      | source _ none _ =>
        rw [none] at hmain
        cases hmain
      | filter kind _ _ _ | orderBy kind _ _ _ | thenBy kind _ _ _ _ | selectMany kind _ _ _ _ _
      | select kind _ _ | groupBy kind _ _ _ | operator kind _ => exact ⟨by rw [kind]; rfl, rfl⟩
    refine Or.inr ⟨first, rest ++ [node], type, expression, rfl, horigin, ?_, ?_⟩
    · intro n hn
      rcases List.mem_append.mp hn with hn | hn
      · exact hrest n hn
      · rw [List.mem_singleton.mp hn]
        exact hlater.1
    · rw [hlater.2, hmain]

/-- Only results are added once there is an operator. -/
theorem Step.isResult_or_unended {nextId : Nat} (h : Step chain node s t)
    (hs : s.Begun nextId done) : node.kind.isResult ∨ s.draft.operators = [] := by
  cases h with
  | source _ first _ =>
    rcases hs with ⟨-, hstart⟩ | ⟨_, _, _, _, -, -, -, hmain⟩
    · cases hstart
      exact Or.inr rfl
    · rw [first] at hmain
      cases hmain
  | groupBy kind _ _ _ | operator kind _ => exact Or.inl (by rw [kind]; rfl)
  | filter _ _ _ unended | orderBy _ _ _ unended | thenBy _ _ _ unended _
  | selectMany _ _ _ _ _ unended | select _ _ unended => exact Or.inr unended

/-- A step makes a source exactly at the nodes that have one, and declares it behind the others. -/
theorem Step.sources_cases {nextId : Nat} (h : Step chain node s t) (hs : s.Begun nextId done) :
    node.kind.makesSource = false ∧ t.context = s.context ∧ t.draft.sources = s.draft.sources ∨
      node.kind.makesSource ∧ s.context.sources.contains node.id = false ∧
        ∃ source, source.id = s.context.nextId ∧ source.itemName = node.sourceName ∧
          t.context = s.context.withSource node source ∧
          t.draft.sources = s.draft.sources ++ [source] := by
  cases h with
  | @source draft context _ _ kind first unmapped =>
    have hsource := NodeKind.isSource_of_origin? kind
    have hname : node.identifier = node.sourceName := by
      cases hkind : node.kind with
      | constant _ | subQuery _ => simp [Node.sourceName, hkind]
      | _ =>
        rw [hkind] at hsource
        cases hsource
    -- Nothing is declared yet, so the main source is also the last one.
    have hnone : draft.sources = [] ∧ draft.body = [] := by
      rcases hs with ⟨-, hstart⟩ | ⟨_, _, _, _, -, -, -, hmain⟩
      · cases hstart
        exact ⟨rfl, rfl⟩
      · rw [first] at hmain
        cases hmain
    refine Or.inr ⟨NodeKind.makesSource_of_isSource hsource, unmapped, _, rfl, hname, rfl, ?_⟩
    rw [hnone.1]
    simp [Draft.sources, Draft.sourcesBefore, hnone.2]
  | selectMany kind _ _ _ unmapped _ =>
    refine Or.inr ⟨by rw [kind]; rfl, unmapped, _, rfl, ?_, rfl, ?_⟩
    · simp [Node.sourceName, kind]
    · simp [Draft.sources, Draft.sourcesBefore, BodyClause.source?]
  | thenBy kind _ _ _ sorting =>
    refine Or.inl ⟨by rw [kind]; rfl, rfl, ?_⟩
    simp [Draft.sources, Draft.sourcesBefore, sorting, BodyClause.source?, List.filterMap_cons]
  | filter kind _ _ _ | orderBy kind _ _ _ | select kind _ _ | groupBy kind _ _ _
  | operator kind _ =>
    refine Or.inl ⟨by rw [kind]; rfl, rfl, ?_⟩
    simp [Draft.sources, Draft.sourcesBefore, BodyClause.source?]

/-- **The sources are those of the nodes that make one**, in their order, with identities from
`nextId` on. -/
structure Progress.SourcesGiven (nextId : Nat) (done : List Node) (s : Progress) : Prop where
  given : List.Forall₂ (GivesSource s.context.sources) (done.filter fun n => n.kind.makesSource)
    s.draft.sources
  mapped : s.context.sources =
    ⟨((done.filter fun n => n.kind.makesSource).map Node.id).zip s.draft.sources⟩
  ids : s.draft.sources.map Source.id = Source.freshIds nextId s.draft.sources.length
  next : s.context.nextId = nextId + s.draft.sources.length

theorem Step.sourcesGiven {nextId : Nat} (h : Step chain node s t) (hbegun : s.Begun nextId done)
    (hs : s.SourcesGiven nextId done) : t.SourcesGiven nextId (done ++ [node]) := by
  rcases h.sources_cases hbegun with
    ⟨hmakes, hcontext, hsources⟩ | ⟨hmakes, hfree, source, hid, hname, hcontext, hsources⟩
  · have hfilter : (done ++ [node]).filter (fun n => n.kind.makesSource) =
        done.filter fun n => n.kind.makesSource := by simp [hmakes]
    refine ⟨?_, ?_, ?_, ?_⟩
    · rw [hfilter, hcontext, hsources]
      exact hs.given
    · rw [hfilter, hcontext, hsources]
      exact hs.mapped
    · rw [hsources]
      exact hs.ids
    · rw [hcontext, hsources]
      exact hs.next
  · have hfilter : (done ++ [node]).filter (fun n => n.kind.makesSource) =
        (done.filter fun n => n.kind.makesSource) ++ [node] := by simp [hmakes]
    have hkept : List.Forall₂ (GivesSource t.context.sources)
        (done.filter fun n => n.kind.makesSource) s.draft.sources :=
      hs.given.imp fun n r hr => ⟨h.keeps_sources _ _ hr.1, hr.2⟩
    have hself : t.context.sources.find? node.id = some source := by
      rw [hcontext]
      exact Context.find?_withSource_self hfree
    refine ⟨?_, ?_, ?_, ?_⟩
    · rw [hfilter, hsources]
      exact forall₂_concat hkept ⟨hself, hname⟩
    · rw [hfilter, hcontext, hsources, List.map_append,
        List.zip_append (by rw [List.length_map, hs.given.length_eq]), Context.withSource,
        hs.mapped]
      rfl
    · rw [hsources, List.map_append, List.length_append, List.map_singleton, hs.ids, hid, hs.next,
        Source.freshIds, Source.freshIds, List.length_singleton, List.range'_concat, Nat.one_mul]
    · rw [hcontext, hsources, List.length_append, List.length_singleton, ← Nat.add_assoc,
        ← hs.next]
      rfl

end Step

/-! ### Runs and models -/

section Run

variable {chain : Chain} {nextId : Nat} {t : Progress}

theorem Run.begun (h : Run chain chain.nodes (.start nextId) t) : t.Begun nextId chain.nodes :=
  Run.invariant (P := fun done s => s.Begun nextId done) (fun _ hs h => h.begun hs) h
    (Or.inl ⟨rfl, rfl⟩)

theorem Run.sourcesGiven (h : Run chain chain.nodes (.start nextId) t) :
    t.SourcesGiven nextId chain.nodes :=
  (Run.invariant (P := fun done s => s.Begun nextId done ∧ s.SourcesGiven nextId done)
    (fun _ hs h => ⟨h.begun hs.1, h.sourcesGiven hs.1 hs.2⟩) h
    ⟨Or.inl ⟨rfl, rfl⟩, ⟨.nil, rfl, rfl, rfl⟩⟩).2

theorem Run.bodyGiven (h : Run chain chain.nodes (.start nextId) t) :
    t.BodyGiven chain chain.nodes :=
  Run.invariant (P := fun done s => s.BodyGiven chain done) (fun _ hs h => h.bodyGiven hs) h
    ⟨.nil, by simp [untilClause]⟩

theorem Run.operatorsGiven (h : Run chain chain.nodes (.start nextId) t) :
    List.Forall₂ (chain.GivesOperator t.context.sources)
      (chain.nodes.filter fun n => n.kind.isResult) t.draft.operators :=
  Run.invariant
    (P := fun done s => List.Forall₂ (chain.GivesOperator s.context.sources)
      (done.filter fun n => n.kind.isResult) s.draft.operators)
    (fun _ hs h => h.operatorsGiven hs) h .nil

/-- Behind a result there are only results. -/
theorem Run.results_last (h : Run chain chain.nodes (.start nextId) t) {before after : List Node}
    {result : Node} (hsplit : chain.nodes = before ++ result :: after)
    (hresult : result.kind.isResult) : ∀ n ∈ after, n.kind.isResult := by
  refine (Run.invariant
    (P := fun done s => s.Begun nextId done ∧
      List.Forall₂ (chain.GivesOperator s.context.sources)
        (done.filter fun n => n.kind.isResult) s.draft.operators ∧
      ∀ before result after, done = before ++ result :: after → result.kind.isResult →
        ∀ n ∈ after, n.kind.isResult)
    ?_ h ⟨Or.inl ⟨rfl, rfl⟩, .nil, ?_⟩).2.2 before result after hsplit hresult
  · intro done rest node s t _ ⟨hbegun, hoperators, hlast⟩ hstep
    refine ⟨hstep.begun hbegun, hstep.operatorsGiven hoperators, ?_⟩
    intro before result after hdone hresult n hn
    rcases split_concat hdone with ⟨after', rfl, rfl⟩ | ⟨-, -, rfl⟩
    · rcases List.mem_append.mp hn with hn | hn
      · exact hlast before result after' rfl hresult n hn
      · -- There is an operator already, so the node gives one too.
        rw [List.mem_singleton.mp hn]
        refine (hstep.isResult_or_unended hbegun).resolve_right fun hnone => ?_
        rw [hnone, List.forall₂_nil_right_iff, List.filter_eq_nil_iff] at hoperators
        exact hoperators result (by simp) hresult
    · cases hn
  · intro before result after hnil
    cases before <;> cases hnil

end Run

/-- The sources of a model, by the nodes that have one. -/
def sourceMap (chain : Chain) (model : Model) : SourceMap :=
  ⟨((chain.nodes.filter fun n => n.kind.makesSource).map Node.id).zip model.sources⟩

/-- **A model holds what its chain contributes**, once each and in the order of the chain.  Its
identities were given out from `nextId` on, and before `next`. -/
structure Accounts (chain : Chain) (nextId next : Nat) (model : Model) : Prop where
  /-- The first node is the only source at the start of a chain, and gives the main from clause. -/
  mainFrom : ∃ first rest type expression, chain.nodes = first :: rest ∧
    first.kind.origin? = some (type, expression) ∧ (∀ n ∈ rest, n.kind.isSource = false) ∧
    model.mainFrom = ⟨⟨nextId, first.identifier, type⟩, expression⟩
  /-- Each filter, sorting and projection to many items gives a clause of its kind; a sorting clause
  also holds the further sort keys up to the next clause. -/
  body : List.Forall₂ (chain.GivesClause (chain.sourceMap model)) (stretches chain.nodes) model.body
  leading : ∀ n ∈ untilClause chain.nodes, n.kind.isThenBy = false
  operators : List.Forall₂ (chain.GivesOperator (chain.sourceMap model))
    (chain.nodes.filter fun n => n.kind.isResult) model.operators
  sources : List.Forall₂ (GivesSource (chain.sourceMap model))
    (chain.nodes.filter fun n => n.kind.makesSource) model.sources
  increasing : (model.sources.map Source.id).Pairwise (· < ·)
  allocated : ∀ s ∈ model.sources, nextId ≤ s.id ∧ s.id < next

/-- **Nothing is lost, and nothing is there twice.**  The model of any chain holds what the nodes of
the chain contribute. -/
theorem toModel_accounts {chain : Chain} {nextId : Nat} {model : Model}
    (h : (chain.toModel nextId).1 = .ok model) :
    chain.Accounts nextId (chain.toModel nextId).2 model := by
  obtain ⟨last, draft, context, selector, -, hrun, -, hfinish, hnext⟩ :=
    toModel_eq.mp (Prod.ext h rfl : chain.toModel nextId = (.ok model, (chain.toModel nextId).2))
  obtain ⟨mainFrom, hmain, rfl, -, -⟩ := finish_eq_ok.mp hfinish
  obtain ⟨hgiven, hmapped, hids, hcount⟩ := hrun.sourcesGiven
  rw [Draft.sources_eq hmain selector] at hgiven hmapped hids hcount
  have hmap : context.sources =
      chain.sourceMap ⟨mainFrom, draft.body, selector, draft.operators⟩ := hmapped
  refine ⟨?_, ?_, hrun.bodyGiven.leading, ?_, ?_, ?_, ?_⟩
  · rcases hrun.begun with ⟨-, hstart⟩ | ⟨first, rest, type, expression, hsplit, horigin, hrest, hm⟩
    · cases hstart
      cases hmain
    · cases hmain.symm.trans hm
      exact ⟨first, rest, type, expression, hsplit, horigin, hrest, rfl⟩
  · rw [← hmap]
    exact hrun.bodyGiven.body
  · rw [← hmap]
    exact hrun.operatorsGiven
  · rw [← hmap]
    exact hgiven
  · rw [hids]
    exact List.pairwise_lt_range'
  · intro s hs
    have hmem : s.id ∈ Source.freshIds nextId _ := hids ▸ List.mem_map_of_mem hs
    rw [Source.freshIds, List.mem_range'_1] at hmem
    rw [← hnext, hcount]
    exact hmem

end Chain

namespace Sample

/-- Nodes put together by hand, each with the node whose items it takes. -/
def chainOf (nodes : List (Option Nat × String × NodeKind)) : Chain :=
  nodes.foldl (fun chain (source, name, kind) => (chain.push source name kind).2) .empty

/-- Cooks by name and then by age, and their assistants.  The further sort key takes the sorted
cooks and not the names selected between the two. -/
def branched : Chain :=
  chainOf [(none, "c", .constant ⟨.source "Cooks", .queryable cook, cook⟩),
    (some 0, "c", .orderBy ⟨[c], property "Cook" "Name" .string (.parameter c)⟩ .ascending),
    (some 1, "n", .select ⟨[c], property "Cook" "Name" .string (.parameter c)⟩),
    (some 1, "c", .thenBy ⟨[c], property "Cook" "Age" .int32 (.parameter c)⟩ .descending),
    (some 3, "a", .selectMany
      ⟨[c], property "Cook" "Assistants" (.list assistant) (.parameter c)⟩ none),
    (some 4, "a", .operator .distinct)]

end Sample

/-- The further sort key belongs to the sorting before the selection. -/
example : (stretches Sample.branched.nodes).map (fun s => (s.1.id, s.2.map Node.id)) =
    [(1, [3]), (4, [])] := rfl

theorem Chain.toModel_accounts_branched :
    ∃ model, (Sample.branched.toModel 7).1 = .ok model ∧
      Sample.branched.Accounts 7 (Sample.branched.toModel 7).2 model := by
  obtain ⟨model, hmodel⟩ : ∃ model, (Sample.branched.toModel 7).1 = .ok model := ⟨_, rfl⟩
  exact ⟨model, hmodel, Chain.toModel_accounts hmodel⟩

end Comprehension
