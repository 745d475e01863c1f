import Comprehension.Proofs.Chain.Steps
import Comprehension.Proofs.Expr.Renaming
import Comprehension.Proofs.Model.References
import Mathlib.Data.List.Find

/-! # Assembly under other identities

When all identities in a chain and in a context are changed by a renaming, resolution and clause
making do the same under the new identities, or fail with the same error (`Resolver.resolve_rename`,
`Chain.addClauses_moves`).  Identities are compared only where the finished model is checked, so
there the renaming has to keep different identities different (`Draft.finish_rename`).

New sources get their identity from a counter.  The renamings here move everything from one value of
the counter on to another (`moved`), so that the counter moves along. -/
namespace Comprehension

/-! ### Chains and contexts -/

section Definitions

variable (ρ : Nat → Nat)

def Lambda.rename (l : Lambda) : Lambda := ⟨l.parameters, l.body.rename ρ⟩

def SubQuerySource.rename (s : SubQuerySource) : SubQuerySource :=
  { s with model := s.model.rename ρ }

/-- What the node does, under other identities. -/
def NodeKind.rename : NodeKind → NodeKind
  | .constant s => .constant s
  | .subQuery s => .subQuery (s.rename ρ)
  | .filter p => .filter (p.rename ρ)
  | .select s => .select (s.rename ρ)
  | .selectMany c r => .selectMany (c.rename ρ) (r.map (Lambda.rename ρ))
  | .orderBy k d => .orderBy (k.rename ρ) d
  | .thenBy k d => .thenBy (k.rename ρ) d
  | .groupBy k e => .groupBy (k.rename ρ) (e.map (Lambda.rename ρ))
  | .operator op => .operator (op.rename ρ)

def Node.rename (n : Node) : Node := { n with kind := n.kind.rename ρ }

def Chain.rename (chain : Chain) : Chain := ⟨chain.nodes.map (Node.rename ρ)⟩

def Lineage.rename : Lineage → Lineage
  | .step node before => .step (node.rename ρ) before.rename
  | .broken error => .broken error

def SourceMap.rename (map : SourceMap) : SourceMap :=
  ⟨map.entries.map fun entry => (entry.1, entry.2.rename ρ)⟩

def Resolver.rename (resolver : Resolver) : Resolver :=
  ⟨resolver.sources.rename ρ, resolver.chainSize⟩

def Context.rename (context : Context) : Context := ⟨context.sources.rename ρ, ρ context.nextId⟩

def Clause.rename : Clause → Clause
  | .mainFrom c => .mainFrom (c.rename ρ)
  | .body c => .body (c.rename ρ)
  | .sortKey k => .sortKey (k.rename ρ)
  | .operator op => .operator (op.rename ρ)

def Draft.rename (draft : Draft) : Draft :=
  ⟨draft.mainFrom.map (FromClause.rename ρ), draft.body.map (BodyClause.rename ρ),
    draft.operators.map (ResultOperator.rename ρ)⟩

end Definitions

section Resolution

variable (ρ : Nat → Nat)

/-- A computation that goes on with changed results gives a changed result. -/
theorem map_bind_eq {ε α α' β β' : Type} {x : Except ε α} {f : α → α'} {g : α → Except ε β}
    {g' : α' → Except ε β'} {h : β → β'} (hg : ∀ a, g' (f a) = (g a).map h) :
    (x.map f >>= g') = (x >>= g).map h := by
  cases x with
  | ok a => exact hg a
  | error e => rfl

/-- A computation whose first step stays the same. -/
theorem bind_eq_map {ε α β β' : Type} {x : Except ε α} {g : α → Except ε β}
    {g' : α → Except ε β'} {h : β → β'} (hg : ∀ a, g' a = (g a).map h) :
    (x >>= g') = (x >>= g).map h := by
  cases x with
  | ok a => exact hg a
  | error e => rfl

@[simp] theorem Lambda.text_rename (l : Lambda) : (l.rename ρ).text = l.text := by
  rw [Lambda.text, Lambda.text, Lambda.rename, Expr.text_rename]

@[simp] theorem ResultOperator.name_rename (op : ResultOperator) :
    (op.rename ρ).name = op.name := by
  cases op <;> rfl

@[simp] theorem NodeKind.name_rename (kind : NodeKind) : (kind.rename ρ).name = kind.name := by
  cases kind with
  | operator op => exact op.name_rename ρ
  | _ => rfl

@[simp] theorem Node.typeName_rename (node : Node) : (node.rename ρ).typeName = node.typeName :=
  node.kind.name_rename ρ

theorem Node.kind_rename (node : Node) : (node.rename ρ).kind = node.kind.rename ρ := rfl

theorem Chain.lineage_rename (chain : Chain) (node : Node) :
    (chain.rename ρ).lineage (node.rename ρ) = (chain.lineage node).rename ρ := by
  suffices key : ∀ fuel node,
      (chain.rename ρ).lineageUpTo fuel (node.rename ρ) = (chain.lineageUpTo fuel node).rename ρ by
    rw [lineage, lineage, Chain.rename, List.length_map]
    exact key _ node
  intro fuel
  induction fuel with
  | zero => exact fun _ => rfl
  | succ fuel ih =>
    intro node
    rw [lineageUpTo, lineageUpTo, Lineage.rename]
    refine congrArg (Lineage.step (node.rename ρ)) ?_
    have hsource : (node.rename ρ).source = node.source := rfl
    rw [hsource]
    cases node.source with
    | none => simp [Lineage.rename]
    | some id =>
      have hnode : (chain.rename ρ).node? id = (chain.node? id).map (Node.rename ρ) :=
        List.getElem?_map
      dsimp only
      rw [hnode]
      cases chain.node? id with
      | none => rfl
      | some source => exact ih source

namespace Lineage

theorem head_rename (lineage : Lineage) :
    (lineage.rename ρ).head = lineage.head.map (Node.rename ρ) := by
  cases lineage <;> rfl

theorem before_rename (lineage : Lineage) :
    (lineage.rename ρ).before = lineage.before.rename ρ := by
  cases lineage <;> rfl

/-- The items of a node have the same type under other identities. -/
theorem itemType_rename (lineage : Lineage) : (lineage.rename ρ).itemType = lineage.itemType := by
  induction lineage with
  | broken error => rfl
  | step node before ih =>
    rw [Lineage.rename, itemType, itemType, Node.kind_rename]
    cases node.kind with
    | constant _ | subQuery _ => rfl
    | select l => exact congrArg Except.ok (l.body.type_rename ρ)
    | selectMany c result =>
      cases result with
      | some r => exact congrArg Except.ok (r.body.type_rename ρ)
      | none => exact congrArg itemsOf (c.body.type_rename ρ)
    | groupBy k element =>
      cases element with
      | some l => simp [NodeKind.rename, Lambda.rename]
      | none => simp [NodeKind.rename, Lambda.rename, ih]
    | filter _ | orderBy _ _ | thenBy _ _ | operator _ => exact ih

theorem parameter_rename (lineage : Lineage) :
    (lineage.rename ρ).parameter = lineage.parameter := by
  rw [parameter, parameter, itemType_rename]
  cases lineage <;> rfl

end Lineage

theorem SourceMap.find?_rename (map : SourceMap) (id : Nat) :
    (map.rename ρ).find? id = (map.find? id).map (Source.rename ρ) := by
  simp only [SourceMap.find?, SourceMap.rename, List.find?_map, Option.map_map]
  rfl

theorem SourceMap.contains_rename (map : SourceMap) (id : Nat) :
    (map.rename ρ).contains id = map.contains id := by
  rw [SourceMap.contains, SourceMap.contains, SourceMap.find?_rename, Option.isSome_map]

theorem SourceMap.sourceOf_rename (map : SourceMap) (node : Node) :
    (map.rename ρ).sourceOf (node.rename ρ) = (map.sourceOf node).map (Source.rename ρ) := by
  have hid : (node.rename ρ).id = node.id := rfl
  rw [SourceMap.sourceOf, SourceMap.sourceOf, SourceMap.find?_rename, Node.typeName_rename, hid]
  cases map.find? node.id <;> rfl

theorem SourceMap.add_rename (map : SourceMap) (node : Node) (source : Source) :
    (map.rename ρ).add (node.rename ρ) (source.rename ρ) =
      (map.add node source).map (SourceMap.rename ρ) := by
  rw [SourceMap.add, SourceMap.add, Node.typeName_rename]
  show (if (map.rename ρ).contains node.id then _ else _) = _
  rw [SourceMap.contains_rename]
  split
  · rfl
  · exact congrArg Except.ok (by simp [SourceMap.rename, Node.rename])

theorem replace_reference_rename (input : Parameter) (s : Source) (e : Expr) :
    Expr.replace input.toExpr (.reference (s.rename ρ)) (e.rename ρ) =
      (Expr.replace input.toExpr (.reference s) e).rename ρ :=
  (Expr.rename_replace ρ input (.reference s) e).symm

theorem putProjection_rename (input : Parameter) (projection e : Expr) :
    putProjection input (projection.rename ρ) (e.rename ρ) =
      (putProjection input projection e).rename ρ := by
  rw [putProjection, putProjection, Expr.rename_collapse]
  exact congrArg Expr.collapse (Expr.rename_replace ρ input projection e).symm

namespace Resolver

variable (resolver : Resolver)

theorem firstParameter_rename (node : Node) (l : Lambda) :
    (resolver.rename ρ).firstParameter (node.rename ρ) (l.rename ρ) =
      resolver.firstParameter node l := by
  rw [firstParameter, firstParameter, unsupported, unsupported, Lambda.text_rename]
  rfl

/-- **Resolution under other identities** gives the same under other identities. -/
theorem resolve_rename (lineage : Lineage) (input : Parameter) (e : Expr) :
    (resolver.rename ρ).resolve (lineage.rename ρ) input (e.rename ρ) =
      (resolver.resolve lineage input e).map (Expr.rename ρ) := by
  induction lineage generalizing input e with
  | broken error => rfl
  | step node before ih =>
    have hsource := resolver.sources.sourceOf_rename ρ node
    rw [Lineage.rename, resolve, resolve, Node.kind_rename]
    cases node.kind with
    | constant _ | subQuery _ =>
      rw [NodeKind.rename]
      show ((resolver.sources.rename ρ).sourceOf (node.rename ρ) >>= _) = _
      rw [hsource]
      exact map_bind_eq fun s => congrArg Except.ok (replace_reference_rename ρ input s e)
    | select l =>
      show ((resolver.rename ρ).firstParameter (node.rename ρ) (l.rename ρ) >>= _) = _
      rw [firstParameter_rename]
      refine bind_eq_map fun p => ?_
      show ((resolver.rename ρ).resolve (before.rename ρ) p (l.body.rename ρ) >>= _) = _
      rw [ih p l.body]
      exact map_bind_eq fun projection =>
        congrArg Except.ok (putProjection_rename ρ input projection e)
    | selectMany c result =>
      cases result with
      | none =>
        show ((resolver.sources.rename ρ).sourceOf (node.rename ρ) >>= _) = _
        rw [hsource]
        exact map_bind_eq fun s =>
          congrArg Except.ok (putProjection_rename ρ input (.reference s) e)
      | some r =>
        show ((resolver.sources.rename ρ).sourceOf (node.rename ρ) >>= _) = _
        rw [hsource]
        refine map_bind_eq fun s => ?_
        have hmany : ∀ outer inner : Parameter,
            ((resolver.rename ρ).resolve (before.rename ρ) outer
                (Expr.replace inner.toExpr (.reference (s.rename ρ)) (r.body.rename ρ)) >>=
              fun projection => pure (putProjection input projection (e.rename ρ))) =
            (resolver.resolve before outer (Expr.replace inner.toExpr (.reference s) r.body) >>=
              fun projection => pure (putProjection input projection e)).map (Expr.rename ρ) := by
          intro outer inner
          rw [replace_reference_rename, ih outer _]
          exact map_bind_eq fun projection =>
            congrArg Except.ok (putProjection_rename ρ input projection e)
        have hother : (Except.error (unsupported (resolver.rename ρ) (node.rename ρ)
              (r.rename ρ).text .resultSelectorParameters) : Except ParseError Expr) =
            .error (resolver.unsupported node r.text .resultSelectorParameters) := by
          rw [Lambda.text_rename]
          rfl
        dsimp only
        rw [show (r.rename ρ).parameters = r.parameters from rfl]
        rcases r.parameters with _ | ⟨outer, _ | ⟨inner, _ | _⟩⟩
        · exact hother
        · exact hother
        · exact hmany outer inner
        · exact hother
    | groupBy _ _ =>
      show Except.error (unsupported _ _ (e.rename ρ).text _) = _
      rw [Expr.text_rename]
      rfl
    | filter _ | orderBy _ _ | thenBy _ _ | operator _ => exact ih input e

theorem resolveLambda_rename (lineage : Lineage) (l : Lambda) :
    (resolver.rename ρ).resolveLambda (lineage.rename ρ) (l.rename ρ) =
      (resolver.resolveLambda lineage l).map (Expr.rename ρ) := by
  rw [resolveLambda, resolveLambda, Lineage.head_rename, Lineage.before_rename]
  refine map_bind_eq fun node => ?_
  rw [firstParameter_rename]
  exact bind_eq_map fun p => resolver.resolve_rename ρ lineage.before p l.body

theorem resolveItem_rename (lineage : Lineage) :
    (resolver.rename ρ).resolveItem (lineage.rename ρ) =
      (resolver.resolveItem lineage).map (Expr.rename ρ) := by
  rw [resolveItem, resolveItem, Lineage.parameter_rename]
  exact bind_eq_map fun p => resolver.resolve_rename ρ lineage p p.toExpr

theorem selector_rename (lineage : Lineage) :
    (resolver.rename ρ).selector (lineage.rename ρ) =
      (resolver.selector lineage).map (Expr.rename ρ) := by
  induction lineage with
  | broken error => rfl
  | step node before ih =>
    have hitem := resolver.resolveItem_rename ρ (.step node before)
    have hlambda := resolver.resolveLambda_rename ρ (.step node before)
    rw [Lineage.rename, selector, selector, Node.kind_rename]
    cases node.kind with
    | select l => exact hlambda l
    | constant _ | subQuery _ | selectMany _ _ => exact hitem
    | filter _ | orderBy _ _ | thenBy _ _ | groupBy _ _ | operator _ => exact ih

end Resolver

end Resolution

/-! ### Drafts -/

namespace Draft

variable (ρ : Nat → Nat)

theorem checkNoOperators_rename (draft : Draft) (nodeType : String) :
    (draft.rename ρ).checkNoOperators nodeType = draft.checkNoOperators nodeType := by
  rw [checkNoOperators, checkNoOperators, Draft.rename, List.getLast?_map]
  cases draft.operators.getLast? with
  | none => rfl
  | some op => simp

theorem extendSorting_rename (body : List BodyClause) (key : SortKey) :
    extendSorting (body.map (BodyClause.rename ρ)) (key.rename ρ) =
      (extendSorting body key).map (List.map (BodyClause.rename ρ)) := by
  have hlast : lastSorting? (body.map (BodyClause.rename ρ)) =
      (lastSorting? body).map (List.map (SortKey.rename ρ)) := by
    rw [lastSorting?, lastSorting?, List.getLast?_map]
    cases body.getLast? with
    | none => rfl
    | some c =>
      cases c with
      | orderBy keys => exact congrArg some (SortKey.renameList_eq_map ρ keys)
      | additionalFrom _ | filter _ => rfl
  rw [extendSorting, extendSorting, hlast, Option.map_map, Option.map_map]
  refine congrArg (Option.map · (lastSorting? body)) (funext fun keys => ?_)
  simp [BodyClause.rename, SortKey.renameList_eq_map, List.map_dropLast]

theorem addMade_rename (draft : Draft) (nodeType : String) (made : Option Clause) :
    (draft.rename ρ).addMade nodeType (made.map (Clause.rename ρ)) =
      (draft.addMade nodeType made).map (Draft.rename ρ) := by
  cases made with
  | none =>
    show ((draft.rename ρ).checkNoOperators nodeType >>= _) = _
    rw [checkNoOperators_rename]
    exact bind_eq_map fun _ => rfl
  | some clause =>
    cases clause with
    | mainFrom c =>
      show (draft.rename ρ).add nodeType (.mainFrom (c.rename ρ)) = _
      rw [add, addMade, add, Draft.rename]
      cases draft.mainFrom <;> rfl
    | body c =>
      show ((draft.rename ρ).checkNoOperators nodeType >>= _) = _
      rw [checkNoOperators_rename]
      exact bind_eq_map fun _ => congrArg Except.ok (by simp [Draft.rename])
    | sortKey key =>
      show ((draft.rename ρ).checkNoOperators nodeType >>= _) = _
      rw [checkNoOperators_rename]
      refine bind_eq_map fun _ => ?_
      have hbody : (draft.rename ρ).body = draft.body.map (BodyClause.rename ρ) := rfl
      rw [hbody, extendSorting_rename]
      cases extendSorting draft.body key <;> rfl
    | operator op => exact congrArg Except.ok (by simp [Draft.rename])

end Draft

/-! ### Clause making -/

/-- Moves the identities from `k` on to `k'` and what follows it. -/
def moved (k k' id : Nat) : Nat := if id < k then id else k' + (id - k)

theorem moved_of_lt {k k' id : Nat} (h : id < k) : moved k k' id = id := if_pos h

theorem moved_of_le {k k' id : Nat} (h : k ≤ id) : moved k k' id = k' + (id - k) :=
  if_neg (Nat.not_lt.mpr h)

theorem moved_succ {k k' id : Nat} (h : k ≤ id) : moved k k' (id + 1) = moved k k' id + 1 := by
  rw [moved_of_le h, moved_of_le (Nat.le_succ_of_le h)]
  omega

namespace Build

/-- Whenever the counter has reached `k`, the second computation does what the first one does, with
the identities from `k` on moved to `k'`.  The counter stays at `k` or above. -/
structure Moves (k k' : Nat) {α α' : Type} (f : α → α') (x : Build α) (x' : Build α') : Prop where
  ok : ∀ {c d : Context} {a : α}, k ≤ c.nextId → x.run c = .ok a d →
    x'.run (c.rename (moved k k')) = .ok (f a) (d.rename (moved k k')) ∧ k ≤ d.nextId
  error : ∀ {c d : Context} {e : ParseError}, k ≤ c.nextId → x.run c = .error e d →
    x'.run (c.rename (moved k k')) = .error e (d.rename (moved k k')) ∧ k ≤ d.nextId

namespace Moves

variable {k k' : Nat} {α α' β β' : Type}

theorem pure {f : α → α'} {a : α} {a' : α'} (h : a' = f a) :
    Moves k k' f (Pure.pure a) (Pure.pure a') := by
  subst h
  refine ⟨fun hk h => ?_, fun _ h => nomatch h⟩
  obtain ⟨rfl, rfl⟩ := run_pure_eq_ok.mp h
  exact ⟨rfl, hk⟩

theorem throw {f : α → α'} (e : ParseError) :
    Moves k k' f (MonadExcept.throw e) (MonadExcept.throw e) := by
  refine ⟨fun _ h => (nomatch h), fun hk h => ?_⟩
  cases h
  exact ⟨rfl, hk⟩

theorem ofExcept {f : α → α'} {x : Except ParseError α} {x' : Except ParseError α'}
    (h : x' = x.map f) : Moves k k' f (Build.ofExcept x) (Build.ofExcept x') := by
  subst h
  cases x with
  | ok a => exact .pure rfl
  | error e => exact .throw e

theorem get : Moves k k' (Context.rename (moved k k')) MonadState.get MonadState.get := by
  refine ⟨fun hk h => ?_, fun _ h => nomatch h⟩
  cases h
  exact ⟨rfl, hk⟩

theorem bind {f : α → α'} {h : β → β'} {x : Build α} {x' : Build α'} {g : α → Build β}
    {g' : α' → Build β'} (hx : Moves k k' f x x') (hg : ∀ a, Moves k k' h (g a) (g' (f a))) :
    Moves k k' h (x >>= g) (x' >>= g') := by
  constructor
  · intro c d b hk hrun
    obtain ⟨a, u, ha, hb⟩ := run_bind_eq_ok.mp hrun
    obtain ⟨ha', hu⟩ := hx.ok hk ha
    obtain ⟨hb', hd⟩ := (hg a).ok hu hb
    exact ⟨run_bind_eq_ok.mpr ⟨_, _, ha', hb'⟩, hd⟩
  · intro c d e hk hrun
    rcases run_bind_eq_error.mp hrun with he | ⟨a, u, ha, he⟩
    · obtain ⟨he', hd⟩ := hx.error hk he
      exact ⟨run_bind_eq_error.mpr (Or.inl he'), hd⟩
    · obtain ⟨ha', hu⟩ := hx.ok hk ha
      obtain ⟨he', hd⟩ := (hg a).error hu he
      exact ⟨run_bind_eq_error.mpr (Or.inr ⟨_, _, ha', he'⟩), hd⟩

end Moves

variable (k k' : Nat) (node : Node)

theorem newSource_moves (name : String) (type : Ty) :
    Moves k k' (Source.rename (moved k k')) (newSource name type) (newSource name type) := by
  have hrun : ∀ c : Context, (newSource name type).run c =
      .ok ⟨c.nextId, name, type⟩ { c with nextId := c.nextId + 1 } := fun _ => rfl
  constructor
  · intro c d source hk h
    rw [hrun] at h ⊢
    cases h
    refine ⟨?_, Nat.le_succ_of_le hk⟩
    rw [Context.rename, Context.rename, moved_succ hk]
    rfl
  · intro c d e _ h
    rw [hrun] at h
    cases h

theorem remember_moves (source : Source) :
    Moves k k' id (remember node source)
      (remember (node.rename (moved k k')) (source.rename (moved k k'))) := by
  have hrun : ∀ (node : Node) (source : Source) (c : Context), (remember node source).run c =
      match c.sources.add node source with
      | .ok sources => .ok () { c with sources := sources }
      | .error e => .error e c := by
    intro node source c
    show (ofExcept (c.sources.add node source) >>= fun sources =>
      (set ({ c with sources := sources } : Context) : Build Unit)).run c = _
    cases c.sources.add node source <;> rfl
  have hadd : ∀ c : Context, (c.rename (moved k k')).sources.add (node.rename (moved k k'))
      (source.rename (moved k k')) =
      (c.sources.add node source).map (SourceMap.rename (moved k k')) :=
    fun c => c.sources.add_rename _ node source
  constructor
  · intro c d u hk h
    rw [hrun] at h ⊢
    rw [hadd]
    cases hmap : c.sources.add node source with
    | ok sources =>
      rw [hmap] at h
      cases h
      exact ⟨rfl, hk⟩
    | error e =>
      rw [hmap] at h
      cases h
  · intro c d e hk h
    rw [hrun] at h ⊢
    rw [hadd]
    cases hmap : c.sources.add node source with
    | ok sources =>
      rw [hmap] at h
      cases h
    | error e =>
      rw [hmap] at h
      cases h
      exact ⟨rfl, hk⟩

theorem newSourceFor_moves (name : String) (type : Ty) :
    Moves k k' (Source.rename (moved k k')) (newSourceFor node name type)
      (newSourceFor (node.rename (moved k k')) name type) :=
  .bind (newSource_moves k k' name type) fun source =>
    .bind (remember_moves k k' node source) fun _ => .pure rfl

end Build

namespace Chain

variable (k k' : Nat) (chain : Chain)

theorem resolver_rename (ρ : Nat → Nat) (sources : SourceMap) :
    (chain.rename ρ).resolver (sources.rename ρ) = (chain.resolver sources).rename ρ := by
  rw [resolver, Chain.rename, List.length_map]
  rfl

/-- A node behind the source makes its clause under other identities. -/
theorem laterClause_moves (node : Node) :
    Build.Moves k k' (Option.map (Clause.rename (moved k k'))) (chain.laterClause node)
      ((chain.rename (moved k k')).laterClause (node.rename (moved k k'))) := by
  refine .bind .get fun context => ?_
  have hresolver := chain.resolver_rename (moved k k') context.sources
  have hlineage := chain.lineage_rename (moved k k') node
  have hlambda : ∀ l : Lambda,
      ((chain.rename (moved k k')).resolver (context.rename (moved k k')).sources).resolveLambda
          ((chain.rename (moved k k')).lineage (node.rename (moved k k'))) (l.rename (moved k k')) =
        ((chain.resolver context.sources).resolveLambda (chain.lineage node) l).map
          (Expr.rename (moved k k')) := by
    intro l
    rw [hlineage, ← Resolver.resolveLambda_rename, ← hresolver]
    rfl
  have hitem :
      ((chain.rename (moved k k')).resolver (context.rename (moved k k')).sources).resolveItem
          ((chain.rename (moved k k')).lineage (node.rename (moved k k'))).before =
        ((chain.resolver context.sources).resolveItem (chain.lineage node).before).map
          (Expr.rename (moved k k')) := by
    rw [hlineage, Lineage.before_rename, ← Resolver.resolveItem_rename, ← hresolver]
    rfl
  rw [Node.kind_rename]
  cases node.kind with
  | constant _ | subQuery _ | select _ | operator _ => exact .pure rfl
  | filter l | thenBy l _ => exact .bind (.ofExcept (hlambda l)) fun _ => .pure rfl
  | orderBy l _ => exact .bind (.ofExcept (hlambda l)) fun _ => .pure rfl
  | selectMany c r =>
    refine .bind (.ofExcept (hlambda c)) fun e => ?_
    have hitems : itemsOf (e.rename (moved k k')).type = (itemsOf e.type).map id := by
      rw [Expr.type_rename]
      cases itemsOf e.type <;> rfl
    refine .bind (.ofExcept hitems) fun type => ?_
    have hname : ((r.map (Lambda.rename (moved k k'))).bind fun l => l.parameters[1]?) =
        r.bind fun l => l.parameters[1]? := by
      cases r <;> rfl
    rw [hname]
    exact .bind (Build.newSourceFor_moves k k' node _ type) fun _ => .pure rfl
  | groupBy key element =>
    refine .bind (.ofExcept (hlambda key)) fun _ => ?_
    refine .bind (.ofExcept ?_) fun _ => .pure rfl
    cases element with
    | some l => exact hlambda l
    | none => exact hitem

theorem mainFromClause_moves (node : Node) (type : Ty) (expression : Expr) :
    Build.Moves k k' (Option.map (Clause.rename (moved k k'))) (mainFromClause node type expression)
      (mainFromClause (node.rename (moved k k')) type (expression.rename (moved k k'))) :=
  .bind (Build.newSourceFor_moves k k' node node.identifier type) fun _ => .pure rfl

theorem createClause_moves (node : Node) (previous : Option Clause) :
    Build.Moves k k' (Option.map (Clause.rename (moved k k'))) (chain.createClause node previous)
      ((chain.rename (moved k k')).createClause (node.rename (moved k k'))
        (previous.map (Clause.rename (moved k k')))) := by
  have hlater := chain.laterClause_moves k k' node
  rw [createClause.eq_def, createClause.eq_def, Node.kind_rename, Node.typeName_rename]
  cases node.kind with
  | constant s | subQuery s =>
    cases previous with
    | none => exact mainFromClause_moves k k' node s.elementType s.toExpr
    | some _ => exact .throw _
  | _ =>
    cases previous with
    | none => exact .throw _
    | some _ => exact hlater

/-- **Clause making under other identities.** -/
theorem addClauses_moves (nodes : List Node) (draft : Draft) (previous : Option Clause) :
    Build.Moves k k' (Draft.rename (moved k k')) (chain.addClauses nodes draft previous)
      ((chain.rename (moved k k')).addClauses (nodes.map (Node.rename (moved k k')))
        (draft.rename (moved k k')) (previous.map (Clause.rename (moved k k')))) := by
  induction nodes generalizing draft previous with
  | nil => exact .pure rfl
  | cons node nodes ih =>
    rw [List.map_cons, addClauses_cons, addClauses_cons]
    refine .bind (chain.createClause_moves k k' node previous) fun made => ?_
    refine .bind (f := Draft.rename (moved k k')) (.ofExcept ?_) fun next => ?_
    · rw [Node.typeName_rename]
      exact draft.addMade_rename (moved k k') node.typeName made
    · rw [← Option.map_or]
      exact ih next (made.or previous)

theorem draftAndSelector_moves (last : Node) :
    Build.Moves k k' (Prod.map (Draft.rename (moved k k')) (Expr.rename (moved k k')))
      (chain.draftAndSelector last)
      ((chain.rename (moved k k')).draftAndSelector (last.rename (moved k k'))) := by
  refine .bind (chain.addClauses_moves k k' chain.nodes .empty none) fun draft => ?_
  refine .bind .get fun context => .bind (.ofExcept ?_) fun _ => .pure rfl
  rw [chain.lineage_rename, ← Resolver.selector_rename, ← chain.resolver_rename]
  rfl

end Chain

/-! ### The checks of the model -/

theorem Model.shape_rename (ρ : Nat → Nat) (model : Model) :
    (model.rename ρ).shape = model.shape := by
  have hshape : ∀ (op : ResultOperator) (shape : Shape),
      (op.rename ρ).shapeAfter shape = op.shapeAfter shape := by
    intro op shape
    cases shape with
    | sequence t => cases op <;> simp [ResultOperator.shapeAfter, ResultOperator.shapeOver,
        ResultOperator.rename]
    | single _ _ | scalar _ => simp [ResultOperator.shapeAfter]
  obtain ⟨mainFrom, body, selector, operators⟩ := model
  rw [Model.rename, Model.shape, Model.shape, Expr.type_rename, ResultOperator.renameList_eq_map,
    List.foldlM_map]
  simp only [hshape]

section Check

variable {ρ : Nat → Nat} {P : Nat → Prop} (hρ : ∀ a b, P a → P b → ρ a = ρ b → a = b)
  {declared : List Nat} (hdeclared : ∀ id ∈ declared, P id)
include hρ hdeclared

/-- Where a renaming keeps different identities different, a source is declared under the new
identities when it was declared before. -/
theorem firstUndeclared_rename {xs : List Expr} (hxs : ∀ id ∈ xs.flatMap Expr.ids, P id) :
    firstUndeclared (declared.map ρ) (xs.map (Expr.rename ρ)) =
      (firstUndeclared declared xs).map (Source.rename ρ) := by
  have hreferences : (xs.map (Expr.rename ρ)).flatMap Expr.references =
      (xs.flatMap Expr.references).map (Source.rename ρ) := by
    rw [List.flatMap_map, List.map_flatMap]
    exact List.flatMap_congr fun x _ => x.references_rename ρ
  rw [firstUndeclared, firstUndeclared, hreferences, List.find?_map]
  refine congrArg (Option.map (Source.rename ρ)) (List.find?_congr fun s hs => ?_)
  obtain ⟨x, hx, hsx⟩ := List.mem_flatMap.mp hs
  have hid : P s.id :=
    hxs s.id (List.mem_flatMap.mpr ⟨x, hx, Expr.mem_ids_of_mem_references hsx⟩)
  have hmem : ρ s.id ∈ declared.map ρ ↔ s.id ∈ declared := by
    constructor
    · intro h
      obtain ⟨id, hmem, heq⟩ := List.mem_map.mp h
      rwa [hρ id s.id (hdeclared id hmem) hid heq] at hmem
    · exact List.mem_map_of_mem
  show (!(declared.map ρ).contains (ρ s.id)) = !declared.contains s.id
  rw [Bool.eq_iff_iff, Bool.not_eq_true', Bool.not_eq_true', ← Bool.not_eq_true, ← Bool.not_eq_true,
    List.contains_iff_mem, List.contains_iff_mem, hmem]

theorem checkClause_rename (text : String) {xs : List Expr}
    (hxs : ∀ id ∈ xs.flatMap Expr.ids, P id) :
    checkClause (declared.map ρ) text (xs.map (Expr.rename ρ)) = checkClause declared text xs := by
  rw [checkClause, checkClause, firstUndeclared_rename hρ hdeclared hxs]
  cases firstUndeclared declared xs <;> rfl

theorem checkBody_rename {body : List BodyClause}
    (hbody : ∀ id ∈ body.flatMap BodyClause.ids, P id) :
    checkBody (declared.map ρ) (body.map (BodyClause.rename ρ)) =
      (checkBody declared body).map (List.map ρ) := by
  induction body generalizing declared with
  | nil => rfl
  | cons c cs ih =>
    rw [List.flatMap_cons, List.forall_mem_append, BodyClause.ids_eq,
      List.forall_mem_append] at hbody
    obtain ⟨⟨hsource, hexpressions⟩, hrest⟩ := hbody
    have hnext : declared.map ρ ++ ((c.rename ρ).source?.map Source.id).toList =
        (declared ++ (c.source?.map Source.id).toList).map ρ := by
      rw [BodyClause.source?_rename, List.map_append]
      cases c.source? <;> rfl
    rw [List.map_cons, checkBody, checkBody, BodyClause.text_rename, BodyClause.expressions_rename,
      checkClause_rename hρ hdeclared _ hexpressions, hnext]
    refine bind_eq_map fun _ => ih ?_ hrest
    refine List.forall_mem_append.mpr ⟨hdeclared, ?_⟩
    rwa [Option.toList_map]

theorem checkOperators_rename {operators : List ResultOperator}
    (hoperators : ∀ id ∈ operators.flatMap ResultOperator.ids, P id) :
    checkOperators (declared.map ρ) (operators.map (ResultOperator.rename ρ)) =
      checkOperators declared operators := by
  induction operators with
  | nil => rfl
  | cons o os ih =>
    rw [List.flatMap_cons, List.forall_mem_append, ResultOperator.ids_eq] at hoperators
    rw [List.map_cons, checkOperators, checkOperators, ResultOperator.text_rename,
      ResultOperator.expressions_rename, checkClause_rename hρ hdeclared _ hoperators.1,
      ih hoperators.2]

end Check

section Finish

variable {ρ : Nat → Nat} {P : Nat → Prop} (hρ : ∀ a b, P a → P b → ρ a = ρ b → a = b)
include hρ

/-- The check of references gives the same under other identities, as long as different identities
stay different. -/
theorem Model.checkReferences_rename {model : Model} (hids : ∀ id ∈ model.ids, P id) :
    (model.rename ρ).checkReferences = model.checkReferences := by
  obtain ⟨⟨source, expression⟩, body, selector, operators⟩ := model
  rw [Model.ids, List.forall_mem_append, List.forall_mem_append, List.forall_mem_append,
    FromClause.ids, List.forall_mem_cons, BodyClause.idsList_eq_flatMap,
    ResultOperator.idsList_eq_flatMap] at hids
  obtain ⟨⟨hsource, hexpression⟩, hbody, hselector, hoperators⟩ := hids
  have hone : ∀ {x : Expr}, (∀ id ∈ x.ids, P id) → ∀ id ∈ [x].flatMap Expr.ids, P id := by
    intro x hx id hid
    rw [List.flatMap_singleton] at hid
    exact hx id hid
  have hnone : ∀ id ∈ ([] : List Nat), P id := fun _ h => nomatch h
  have hmain : checkClause [] "main from clause" [expression.rename ρ] =
      checkClause [] "main from clause" [expression] :=
    checkClause_rename hρ hnone "main from clause" (hone hexpression)
  have hfirst : ∀ id ∈ [source.id], P id := by
    intro id hid
    rw [List.mem_singleton.mp hid]
    exact hsource
  have hclauses : checkBody [ρ source.id] (BodyClause.renameList ρ body) =
      (checkBody [source.id] body).map (List.map ρ) := by
    rw [BodyClause.renameList_eq_map]
    exact checkBody_rename hρ hfirst hbody
  show (checkClause [] "main from clause" [expression.rename ρ] >>= fun _ =>
    checkBody [ρ source.id] (BodyClause.renameList ρ body) >>= fun declared =>
      checkClause declared (selector.rename ρ).selectText [selector.rename ρ] >>= fun _ =>
        checkOperators declared (ResultOperator.renameList ρ operators)) = _
  rw [hmain, hclauses, ResultOperator.renameList_eq_map, Expr.selectText, Expr.text_rename]
  refine congrArg (checkClause [] "main from clause" [expression] >>= ·) (funext fun _ => ?_)
  show _ = (checkBody [source.id] body >>= _)
  cases hdeclared : checkBody [source.id] body with
  | error e => rfl
  | ok declared =>
    -- What is declared after the clauses is declared by the model.
    have hall : ∀ id ∈ declared, P id := by
      rw [checkBody_declares hdeclared]
      refine List.forall_mem_append.mpr ⟨hfirst, fun id hid => ?_⟩
      obtain ⟨s, hs, rfl⟩ := List.mem_map.mp hid
      obtain ⟨c, hc, hcs⟩ := List.mem_filterMap.mp hs
      refine hbody s.id (List.mem_flatMap.mpr ⟨c, hc, ?_⟩)
      rw [BodyClause.ids_eq, hcs]
      exact List.mem_cons_self ..
    show (checkClause (declared.map ρ) _ [selector.rename ρ] >>= fun _ =>
      checkOperators (declared.map ρ) (operators.map (ResultOperator.rename ρ))) = _
    rw [checkOperators_rename hρ hall hoperators]
    exact congrArg (· >>= fun _ => checkOperators declared operators)
      (checkClause_rename hρ hall _ (hone hselector))

/-- **A finished model under other identities.** -/
theorem Draft.finish_rename {draft : Draft} {selector : Expr}
    (hids : ∀ mainFrom, draft.mainFrom = some mainFrom →
      ∀ id ∈ Model.ids ⟨mainFrom, draft.body, selector, draft.operators⟩, P id) :
    (draft.rename ρ).finish (selector.rename ρ) = (draft.finish selector).map (Model.rename ρ) := by
  rw [finish, finish, Draft.rename]
  cases hmain : draft.mainFrom with
  | none => rfl
  | some mainFrom =>
    have hmodel : (⟨mainFrom.rename ρ, draft.body.map (BodyClause.rename ρ), selector.rename ρ,
        draft.operators.map (ResultOperator.rename ρ)⟩ : Model) =
        Model.rename ρ ⟨mainFrom, draft.body, selector, draft.operators⟩ := by
      rw [Model.rename, BodyClause.renameList_eq_map, ResultOperator.renameList_eq_map]
    show (liftModelError (Model.shape ⟨mainFrom.rename ρ, _, _, _⟩) >>= _) = _
    rw [hmodel, Model.shape_rename]
    refine bind_eq_map fun _ => ?_
    rw [Model.checkReferences_rename hρ (hids mainFrom hmain)]
    exact bind_eq_map fun _ => rfl

end Finish

end Comprehension
