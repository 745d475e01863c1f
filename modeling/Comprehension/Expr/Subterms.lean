import Comprehension.Expr.Equal

/-! # The parts of an expression

`Expr.children` lists the direct parts of a node in evaluation order, and `Expr.subterms` lists a
node with everything below it, each node before its parts. A query inside an expression has no
parts here: its clauses are not entered. Every read-only walk is a walk along `subterms`:
`Expr.foldUntil` goes along it and may stop early, `Expr.references` collects sources and
`Expr.occursIn` looks for an expression. -/
namespace Comprehension

mutual

/-- The expressions that a binding holds, those of nested bindings included. -/
def Binding.parts : Binding → List Expr
  | .assignment _ e => [e]
  | .list _ is => is.flatMap ElementInit.arguments
  | .nested _ bs => Binding.partsList bs

/-- The expressions that several bindings hold. -/
def Binding.partsList : List Binding → List Expr
  | [] => []
  | b :: bs => b.parts ++ Binding.partsList bs

end

/-- The direct parts of a node, in evaluation order. -/
def Expr.children : Expr → List Expr
  | .constant .. => []
  | .parameter .. => []
  | .staticMember .. => []
  | .memberAccess e _ => [e]
  | .unary _ e _ => [e]
  | .binary _ l r _ => [l, r]
  | .staticCall _ as => as
  | .methodCall e _ as => e :: as
  | .new _ as _ => as
  | .memberInit _ as _ bs => as ++ Binding.partsList bs
  | .lambda _ b => [b]
  | .conditional c t f _ => [c, t, f]
  | .reference .. => []
  | .subQuery .. => []

mutual

/-- The expression and everything below it, each node before its parts. -/
def Expr.subterms : Expr → List Expr
  | .constant v t => [.constant v t]
  | .parameter p => [.parameter p]
  | .staticMember m => [.staticMember m]
  | .memberAccess e m => .memberAccess e m :: e.subterms
  | .unary o e t => .unary o e t :: e.subterms
  | .binary o l r t => .binary o l r t :: (l.subterms ++ r.subterms)
  | .staticCall m as => .staticCall m as :: Expr.subtermsList as
  | .methodCall e m as => .methodCall e m as :: (e.subterms ++ Expr.subtermsList as)
  | .new c as ms => .new c as ms :: Expr.subtermsList as
  | .memberInit c as ms bs =>
    .memberInit c as ms bs :: (Expr.subtermsList as ++ Binding.subtermsList bs)
  | .lambda ps b => .lambda ps b :: b.subterms
  | .conditional c t f y => .conditional c t f y :: (c.subterms ++ t.subterms ++ f.subterms)
  | .reference s => [.reference s]
  | .subQuery m t => [.subQuery m t]

def Expr.subtermsList : List Expr → List Expr
  | [] => []
  | e :: es => e.subterms ++ Expr.subtermsList es

def Binding.subterms : Binding → List Expr
  | .assignment _ e => e.subterms
  | .list _ is => ElementInit.subtermsList is
  | .nested _ bs => Binding.subtermsList bs

def Binding.subtermsList : List Binding → List Expr
  | [] => []
  | b :: bs => b.subterms ++ Binding.subtermsList bs

def ElementInit.subterms : ElementInit → List Expr
  | ⟨_, as⟩ => Expr.subtermsList as

def ElementInit.subtermsList : List ElementInit → List Expr
  | [] => []
  | i :: is => i.subterms ++ ElementInit.subtermsList is

end

theorem Expr.subtermsList_eq_flatMap : (es : List Expr) →
    Expr.subtermsList es = es.flatMap Expr.subterms
  | [] => rfl
  | e :: es => by rw [Expr.subtermsList, Expr.subtermsList_eq_flatMap es, List.flatMap_cons]

theorem ElementInit.subtermsList_eq_flatMap : (is : List ElementInit) →
    ElementInit.subtermsList is = (is.flatMap ElementInit.arguments).flatMap Expr.subterms
  | [] => rfl
  | ⟨m, as⟩ :: is => by
    rw [ElementInit.subtermsList, ElementInit.subterms, Expr.subtermsList_eq_flatMap,
      ElementInit.subtermsList_eq_flatMap is, List.flatMap_cons, List.flatMap_append]

mutual

theorem Binding.subterms_eq_flatMap : (b : Binding) → b.subterms = b.parts.flatMap Expr.subterms
  | .assignment _ e => by simp [Binding.subterms, Binding.parts]
  | .list _ is => by
    rw [Binding.subterms, Binding.parts, ElementInit.subtermsList_eq_flatMap]
  | .nested _ bs => by rw [Binding.subterms, Binding.parts, Binding.subtermsList_eq_flatMap bs]

theorem Binding.subtermsList_eq_flatMap : (bs : List Binding) →
    Binding.subtermsList bs = (Binding.partsList bs).flatMap Expr.subterms
  | [] => rfl
  | b :: bs => by
    rw [Binding.subtermsList, Binding.partsList, Binding.subterms_eq_flatMap b,
      Binding.subtermsList_eq_flatMap bs, List.flatMap_append]

end

/-- **The walk order.** A node comes first, then its parts from left to right, each with everything
below it. -/
theorem Expr.subterms_eq (e : Expr) : e.subterms = e :: e.children.flatMap Expr.subterms := by
  cases e <;>
    simp [Expr.subterms, Expr.children, Expr.subtermsList_eq_flatMap,
      Binding.subtermsList_eq_flatMap]

namespace Expr

/-- Goes along the nodes of an expression, changing a state. A step that gives an error stops the
walk with it. -/
def foldUntil {σ β : Type} (step : σ → Expr → Except β σ) (start : σ) (e : Expr) : Except β σ :=
  e.subterms.foldlM step start

/-- The source that a reference refers to. -/
def source? : Expr → Option Source
  | .reference s => some s
  | _ => none

/-- The sources referred to, in walk order. -/
def references (e : Expr) : List Source := e.subterms.filterMap source?

/-- Whether the expression occurs in `haystack`. -/
def occursIn (needle haystack : Expr) : Bool := haystack.subterms.any fun e => e.equal needle

end Expr

end Comprehension
