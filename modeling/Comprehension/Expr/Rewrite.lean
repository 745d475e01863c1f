import Comprehension.Expr.Basic

/-! # Rebuilding expressions

`Expr.rewriteM` rebuilds an expression. On the way down `enter` may replace a node, and then nothing
below it is looked at. Otherwise the node is built again around its rebuilt parts, which keeps all
its other data, and `leave` sees the result. Queries inside expressions are kept as they are. The
walk happens in a monad, so that it can fail or keep track of what it has seen. -/
namespace Comprehension

variable {m : Type → Type} [Monad m]

/-- Replaces a node if `enter` does, and otherwise hands its rebuilt form to `leave`. -/
@[inline]
def Expr.descend (enter : Expr → m (Option Expr)) (leave : Expr → m Expr) (e : Expr)
    (rebuilt : m Expr) : m Expr := do
  match ← enter e with
  | some replaced => return replaced
  | none => leave (← rebuilt)

mutual

/-- Rebuilds an expression, asking `enter` on the way down and `leave` on the way up. -/
def Expr.rewriteM (enter : Expr → m (Option Expr)) (leave : Expr → m Expr) : Expr → m Expr
  | .constant v y => Expr.descend enter leave (.constant v y) (pure (.constant v y))
  | .parameter p => Expr.descend enter leave (.parameter p) (pure (.parameter p))
  | .staticMember f => Expr.descend enter leave (.staticMember f) (pure (.staticMember f))
  | .memberAccess t f => Expr.descend enter leave (.memberAccess t f) do
    return .memberAccess (← t.rewriteM enter leave) f
  | .unary o t y => Expr.descend enter leave (.unary o t y) do
    return .unary o (← t.rewriteM enter leave) y
  | .binary o l r y => Expr.descend enter leave (.binary o l r y) do
    return .binary o (← l.rewriteM enter leave) (← r.rewriteM enter leave) y
  | .staticCall f as => Expr.descend enter leave (.staticCall f as) do
    return .staticCall f (← Expr.rewriteListM enter leave as)
  | .methodCall t f as => Expr.descend enter leave (.methodCall t f as) do
    return .methodCall (← t.rewriteM enter leave) f (← Expr.rewriteListM enter leave as)
  | .new c as ms => Expr.descend enter leave (.new c as ms) do
    return .new c (← Expr.rewriteListM enter leave as) ms
  | .memberInit c as ms bs => Expr.descend enter leave (.memberInit c as ms bs) do
    return .memberInit c (← Expr.rewriteListM enter leave as) ms
      (← Binding.rewriteListM enter leave bs)
  | .lambda ps b => Expr.descend enter leave (.lambda ps b) do
    return .lambda ps (← b.rewriteM enter leave)
  | .conditional c t f y => Expr.descend enter leave (.conditional c t f y) do
    return .conditional (← c.rewriteM enter leave) (← t.rewriteM enter leave)
      (← f.rewriteM enter leave) y
  | .reference s => Expr.descend enter leave (.reference s) (pure (.reference s))
  | .subQuery q y => Expr.descend enter leave (.subQuery q y) (pure (.subQuery q y))

/-- Rebuilds expressions from left to right. -/
def Expr.rewriteListM (enter : Expr → m (Option Expr)) (leave : Expr → m Expr) :
    List Expr → m (List Expr)
  | [] => pure []
  | e :: es => do
    return (← e.rewriteM enter leave) :: (← Expr.rewriteListM enter leave es)

/-- Rebuilds the expressions of a binding. -/
def Binding.rewriteM (enter : Expr → m (Option Expr)) (leave : Expr → m Expr) :
    Binding → m Binding
  | .assignment f e => do return .assignment f (← e.rewriteM enter leave)
  | .list f is => do return .list f (← ElementInit.rewriteListM enter leave is)
  | .nested f bs => do return .nested f (← Binding.rewriteListM enter leave bs)

/-- Rebuilds bindings from left to right. -/
def Binding.rewriteListM (enter : Expr → m (Option Expr)) (leave : Expr → m Expr) :
    List Binding → m (List Binding)
  | [] => pure []
  | b :: bs => do
    return (← b.rewriteM enter leave) :: (← Binding.rewriteListM enter leave bs)

/-- Rebuilds the arguments of an added element. -/
def ElementInit.rewriteM (enter : Expr → m (Option Expr)) (leave : Expr → m Expr) :
    ElementInit → m ElementInit
  | ⟨f, as⟩ => do return ⟨f, ← Expr.rewriteListM enter leave as⟩

/-- Rebuilds added elements from left to right. -/
def ElementInit.rewriteListM (enter : Expr → m (Option Expr)) (leave : Expr → m Expr) :
    List ElementInit → m (List ElementInit)
  | [] => pure []
  | i :: is => do
    return (← i.rewriteM enter leave) :: (← ElementInit.rewriteListM enter leave is)

end

/-- A rewriter that never fails and keeps no record. -/
def Expr.rewrite (enter : Expr → Option Expr) (leave : Expr → Expr) (e : Expr) : Expr :=
  Id.run (e.rewriteM (fun x => pure (enter x)) (fun x => pure (leave x)))

end Comprehension
