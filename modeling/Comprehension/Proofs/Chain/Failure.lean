import Comprehension.Chain.Assembly
import Comprehension.Proofs.Chain.Reading

/-! # How a call tree can fail

Reading a call tree fails for one of three reasons (`ParseError.OfReading`).  Making clauses and
resolving lambdas can fail in more ways, but never with an error of the model: those come only from
the checks of the finished model (`Chain.draftAndSelector_fails`). -/
namespace Comprehension

/-! ### Reading -/

/-- Whether reading gives this reason when the registry is the usual one.  The others are given
where lambdas are resolved, or by recognizers from elsewhere. -/
def Unsupported.ofReading : Unsupported → Bool
  | .resultSelectorParameters => false
  | .noParameter => false
  | .groupsConsumed => false
  | .other _ => false
  | _ => true

/-- The errors of reading: the tree is too deep, something has no place in it, or its source has no
items. -/
inductive ParseError.OfReading : ParseError → Prop
  | tooDeep (depth limit : Nat) : OfReading (.recursionLimitExceeded depth limit)
  | unsupported (expression : String) (position : Nat) {reason : Unsupported}
      (read : reason.ofReading) : OfReading (.unsupportedExpression expression position reason)
  | noItems (found : String) : OfReading (.typeMismatch found)

theorem itemsOf_fails (type : Ty) : FailsWith ParseError.OfReading (itemsOf type) := by
  rw [itemsOf]
  cases type.element? with
  | some t => exact .ok
  | none => exact .error (.noItems _)

namespace CallSite

variable (call : CallSite)

/-- The errors with which a call is refused.  They carry the call and its position. -/
def Refuses (error : ParseError) : Prop :=
  ∃ reason : Unsupported, reason.ofReading ∧ error = call.unsupported reason

variable {call} in
theorem Refuses.ofReading {error : ParseError} (h : call.Refuses error) : error.OfReading := by
  obtain ⟨reason, hreason, rfl⟩ := h
  exact .unsupported _ _ hreason

theorem argument_fails (index : Nat) : FailsWith call.Refuses (call.argument index) := by
  rw [argument]
  cases call.arguments[index]? with
  | some a => exact .ok
  | none => exact .error ⟨_, rfl, rfl⟩

theorem lambda_fails (index count : Nat) : FailsWith call.Refuses (call.lambda index count) := by
  refine .bind (call.argument_fails index) fun a => ?_
  split
  · exact .error ⟨_, rfl, rfl⟩
  · split
    · exact .ok
    · exact .error ⟨_, rfl, rfl⟩

end CallSite

/-- The usual recognizers fail by refusing the call. -/
theorem operatorCatalog_fails {name : String} {count : Nat} {recognize : Recognizer}
    (hmem : (name, count, recognize) ∈ operatorCatalog) (call : CallSite) :
    FailsWith call.Refuses (recognize call) := by
  cases catalogEntry_of_mem hmem with
  | ofLambda _ => exact .bind (call.lambda_fails 0 1) fun _ => .ok
  | ofLambdas _ =>
    exact .bind (call.lambda_fails 0 1) fun _ => .bind (call.lambda_fails 1 _) fun _ => .ok
  | operator _ _ _ => exact .ok
  | operatorOf _ _ _ => exact .bind (call.argument_fails 0) fun _ => .ok

namespace Reader

variable {settings : Settings}

theorem readFrom_fails (e : Expr) (position : Nat) (identifier : Option String) :
    FailsWith ParseError.OfReading ((ofSettings settings).readFrom e position identifier) := by
  induction e using Expr.induction_on_children generalizing position identifier with
  | node e ih =>
    cases e with
    | constant v t =>
      rw [readFrom]
      split
      · exact .error (.tooDeep ..)
      · exact .bind (.bind (itemsOf_fails t) fun _ => .ok) fun _ => .ok
    | subQuery q t =>
      rw [readFrom]
      split
      · exact .error (.tooDeep ..)
      · exact .bind (.bind (itemsOf_fails t) fun _ => .ok) fun _ => .ok
    | staticCall method arguments =>
      rw [readFrom]
      split
      · exact .error (.tooDeep ..)
      · split
        · exact .error (.unsupported _ _ rfl)
        · rename_i recognize hrecognize
          cases arguments with
          | nil => exact .error (.unsupported _ _ rfl)
          | cons source rest =>
            have hmem := Registry.mem_catalog_of_default hrecognize
            refine .bind (fun _ h => (operatorCatalog_fails hmem _ _ h).ofReading) fun _ => ?_
            exact .bind (ih source (List.mem_cons_self ..) _ _) fun _ => .ok
    | _ =>
      simp only [readFrom]
      split
      · exact .error (.tooDeep ..)
      · exact .error (.unsupported _ _ rfl)

/-- **How reading fails.** -/
theorem read_fails (e : Expr) : FailsWith ParseError.OfReading ((ofSettings settings).read e) := by
  have h : FailsWith ParseError.OfReading ((ofSettings settings).readFrom e 0 none) :=
    readFrom_fails e 0 none
  intro error herror
  rw [read] at herror
  cases hread : (ofSettings settings).readFrom e 0 none with
  | ok reading =>
    rw [hread] at herror
    cases herror
  | error error' =>
    rw [hread] at herror
    cases herror
    exact h _ hread

end Reader

/-! ### Clauses and selectors -/

/-- The error is not one of the model. -/
def ParseError.OfChain (error : ParseError) : Prop := ∀ e, error ≠ .model e

theorem ParseError.OfReading.ofChain {error : ParseError} (h : error.OfReading) :
    error.OfChain := by
  cases h <;> exact fun _ h => nomatch h

/-- Where the lineage ends, it ends with an error that satisfies `P`. -/
def Lineage.EndsWith (P : ParseError → Prop) : Lineage → Prop
  | .step _ before => before.EndsWith P
  | .broken error => P error

theorem Chain.lineage_endsWith (chain : Chain) (node : Node) :
    (chain.lineage node).EndsWith ParseError.OfChain := by
  suffices key : ∀ fuel node, (chain.lineageUpTo fuel node).EndsWith ParseError.OfChain from
    key _ node
  intro fuel
  induction fuel with
  | zero =>
    intro node e h
    cases h
  | succ fuel ih =>
    intro node
    rw [lineageUpTo, Lineage.EndsWith]
    cases node.source with
    | none =>
      intro e h
      cases h
    | some id =>
      dsimp only
      cases chain.node? id with
      | none =>
        intro e h
        cases h
      | some source => exact ih source

namespace Lineage

theorem head_fails {lineage : Lineage} (h : lineage.EndsWith ParseError.OfChain) :
    FailsWith ParseError.OfChain lineage.head := by
  cases lineage with
  | step node before => exact .ok
  | broken error => exact .error h

theorem EndsWith.before {P : ParseError → Prop} {lineage : Lineage} (h : lineage.EndsWith P) :
    lineage.before.EndsWith P := by
  cases lineage <;> exact h

theorem itemsOf_ofChain (type : Ty) : FailsWith ParseError.OfChain (itemsOf type) :=
  fun e h => (itemsOf_fails type e h).ofChain

theorem itemType_fails {lineage : Lineage} (h : lineage.EndsWith ParseError.OfChain) :
    FailsWith ParseError.OfChain lineage.itemType := by
  induction lineage with
  | broken error => exact .error h
  | step node before ih =>
    rw [itemType]
    cases node.kind with
    | constant _ | subQuery _ | select _ => exact .ok
    | selectMany c result =>
      cases result with
      | some r => exact .ok
      | none => exact itemsOf_ofChain _
    | groupBy k element =>
      cases element with
      | some l => exact .ok
      | none => exact .bind (ih h) fun _ => .ok
    | filter _ | orderBy _ _ | thenBy _ _ | operator _ => exact ih h

theorem parameter_fails {lineage : Lineage} (h : lineage.EndsWith ParseError.OfChain) :
    FailsWith ParseError.OfChain lineage.parameter :=
  .bind (head_fails h) fun _ => .bind (itemType_fails h) fun _ => .ok

end Lineage

namespace Resolver

variable (resolver : Resolver)

theorem sourceOf_fails (map : SourceMap) (node : Node) :
    FailsWith ParseError.OfChain (map.sourceOf node) := by
  rw [SourceMap.sourceOf]
  split
  · exact .ok
  · exact .error fun _ h => nomatch h

theorem firstParameter_fails (node : Node) (l : Lambda) :
    FailsWith ParseError.OfChain (resolver.firstParameter node l) := by
  rw [firstParameter]
  split
  · exact .ok
  · exact .error fun _ h => nomatch h

theorem resolve_fails {lineage : Lineage} (h : lineage.EndsWith ParseError.OfChain)
    (input : Parameter) (e : Expr) :
    FailsWith ParseError.OfChain (resolver.resolve lineage input e) := by
  induction lineage generalizing input e with
  | broken error => exact .error h
  | step node before ih =>
    rw [resolve]
    cases node.kind with
    | constant _ | subQuery _ => exact .bind (sourceOf_fails _ _) fun _ => .ok
    | select l =>
      exact .bind (resolver.firstParameter_fails _ _) fun p => .bind (ih h _ _) fun _ => .ok
    | selectMany c result =>
      cases result with
      | none => exact .bind (sourceOf_fails _ _) fun _ => .ok
      | some r =>
        refine .bind (sourceOf_fails _ _) fun _ => ?_
        split
        · exact .bind (ih h _ _) fun _ => .ok
        · exact .error fun _ h => nomatch h
    | groupBy _ _ => exact .error fun _ h => nomatch h
    | filter _ | orderBy _ _ | thenBy _ _ | operator _ => exact ih h _ _

variable {lineage : Lineage} (h : lineage.EndsWith ParseError.OfChain)
include h

theorem resolveLambda_fails (l : Lambda) :
    FailsWith ParseError.OfChain (resolver.resolveLambda lineage l) :=
  .bind (Lineage.head_fails h) fun node =>
    .bind (resolver.firstParameter_fails node l) fun _ => resolver.resolve_fails h.before _ _

theorem resolveItem_fails : FailsWith ParseError.OfChain (resolver.resolveItem lineage) :=
  .bind (Lineage.parameter_fails h) fun _ => resolver.resolve_fails h _ _

theorem selector_fails : FailsWith ParseError.OfChain (resolver.selector lineage) := by
  induction lineage with
  | broken error => exact .error h
  | step node before ih =>
    rw [selector]
    cases node.kind with
    | select l => exact resolver.resolveLambda_fails h _
    | constant _ | subQuery _ | selectMany _ _ => exact resolver.resolveItem_fails h
    | filter _ | orderBy _ _ | thenBy _ _ | groupBy _ _ | operator _ => exact ih h

end Resolver

theorem Draft.checkNoOperators_fails (draft : Draft) (nodeType : String) :
    FailsWith ParseError.OfChain (draft.checkNoOperators nodeType) := by
  rw [checkNoOperators]
  split
  · exact .error fun _ h => nomatch h
  · exact .ok

theorem Draft.add_fails (draft : Draft) (nodeType : String) (clause : Clause) :
    FailsWith ParseError.OfChain (draft.add nodeType clause) := by
  cases clause with
  | mainFrom c =>
    rw [add]
    cases draft.mainFrom with
    | none => exact .ok
    | some _ => exact .error fun _ h => nomatch h
  | body c => exact .bind (draft.checkNoOperators_fails nodeType) fun _ => .ok
  | sortKey key =>
    refine .bind (draft.checkNoOperators_fails nodeType) fun _ => ?_
    cases extendSorting draft.body key with
    | some body => exact .ok
    | none => exact .error fun _ h => nomatch h
  | operator op => exact .ok

theorem Build.newSourceFor_fails (node : Node) (name : String) (type : Ty) :
    Build.FailsWith ParseError.OfChain (Build.newSourceFor node name type) := by
  have hadd : ∀ (map : SourceMap) (source : Source),
      Comprehension.FailsWith ParseError.OfChain (map.add node source) := by
    intro map source
    rw [SourceMap.add]
    split
    · exact .error fun _ h => nomatch h
    · exact .ok
  have hset : ∀ context : Context, Build.FailsWith ParseError.OfChain (set context : Build Unit) :=
    fun _ _ _ _ h => nomatch h
  refine .bind ?_ fun source => .bind ?_ fun _ => .pure
  · exact .bind .get fun _ => .bind (hset _) fun _ => .pure
  · exact .bind .get fun _ => .bind (.ofExcept (hadd _ _)) fun _ => hset _

namespace Chain

variable (chain : Chain)

theorem laterClause_fails (node : Node) :
    Build.FailsWith ParseError.OfChain (chain.laterClause node) := by
  have hlineage := chain.lineage_endsWith node
  refine .bind .get fun context => ?_
  cases node.kind with
  | constant _ | subQuery _ | select _ | operator _ => exact .pure
  | filter _ | orderBy _ _ | thenBy _ _ =>
    exact .bind (.ofExcept (Resolver.resolveLambda_fails _ hlineage _)) fun _ => .pure
  | selectMany c r =>
    refine .bind (.ofExcept (Resolver.resolveLambda_fails _ hlineage _)) fun _ => ?_
    refine .bind (.ofExcept (Lineage.itemsOf_ofChain _)) fun _ => ?_
    exact .bind (Build.newSourceFor_fails _ _ _) fun _ => .pure
  | groupBy k element =>
    refine .bind (.ofExcept (Resolver.resolveLambda_fails _ hlineage _)) fun _ => ?_
    refine .bind (.ofExcept ?_) fun _ => .pure
    cases element with
    | some l => exact Resolver.resolveLambda_fails _ hlineage _
    | none => exact Resolver.resolveItem_fails _ hlineage.before

theorem createClause_fails (node : Node) (previous : Option Clause) :
    Build.FailsWith ParseError.OfChain (chain.createClause node previous) := by
  rw [createClause.eq_def]
  -- A source has to come first, every other node later.
  cases node.kind with
  | constant _ | subQuery _ =>
    cases previous with
    | none => exact .bind (Build.newSourceFor_fails _ _ _) fun _ => .pure
    | some _ => exact .throw fun _ h => nomatch h
  | _ =>
    cases previous with
    | none => exact .throw fun _ h => nomatch h
    | some _ => exact chain.laterClause_fails node

theorem addClauses_fails (nodes : List Node) (draft : Draft) (previous : Option Clause) :
    Build.FailsWith ParseError.OfChain (chain.addClauses nodes draft previous) := by
  induction nodes generalizing draft previous with
  | nil => exact .pure
  | cons node nodes ih =>
    refine .bind (chain.createClause_fails node previous) fun made => ?_
    cases made with
    | some clause => exact .bind (.ofExcept (draft.add_fails _ _)) fun _ => ih _ _
    | none => exact .bind (.ofExcept (draft.checkNoOperators_fails _)) fun _ => ih _ _

/-- **Errors of the model come from its checks only.**  Making the clauses and the selector never
fails with one. -/
theorem draftAndSelector_fails (last : Node) :
    Build.FailsWith ParseError.OfChain (chain.draftAndSelector last) := by
  refine .bind (chain.addClauses_fails _ _ _) fun _ => .bind .get fun context => ?_
  exact .bind (.ofExcept (Resolver.selector_fails _ (chain.lineage_endsWith last))) fun _ => .pure

end Chain

end Comprehension
