import Comprehension.Expr.Basic

/-! # Equality of expressions

Two expressions are equal when they have the same structure. Two details make this different from
equality of the data: references are equal when they refer to the same source, whatever its items
are called there, and doubles are compared as numbers. Queries inside expressions are compared
part by part. -/
namespace Comprehension

mutual

/-- Whether two expressions are equal. -/
def Expr.equal : Expr → Expr → Bool
  | .constant v t, .constant v' t' => v.equal v' && t == t'
  | .parameter p, .parameter p' => p == p'
  | .staticMember m, .staticMember m' => m == m'
  | .memberAccess e m, .memberAccess e' m' => e.equal e' && m == m'
  | .unary o e t, .unary o' e' t' => o == o' && e.equal e' && t == t'
  | .binary o l r t, .binary o' l' r' t' => o == o' && l.equal l' && r.equal r' && t == t'
  | .staticCall m as, .staticCall m' as' => m == m' && Expr.equalList as as'
  | .methodCall e m as, .methodCall e' m' as' => e.equal e' && m == m' && Expr.equalList as as'
  | .new c as ms, .new c' as' ms' => c == c' && Expr.equalList as as' && ms == ms'
  | .memberInit c as ms bs, .memberInit c' as' ms' bs' =>
    c == c' && Expr.equalList as as' && ms == ms' && Binding.equalList bs bs'
  | .lambda ps b, .lambda ps' b' => ps == ps' && b.equal b'
  | .conditional c t f y, .conditional c' t' f' y' =>
    c.equal c' && t.equal t' && f.equal f' && y == y'
  | .reference s, .reference s' => s.same s'
  | .subQuery m t, .subQuery m' t' => m.equal m' && t == t'
  | _, _ => false
termination_by structural e => e

/-- `Expr.equal`, position by position. -/
def Expr.equalList : List Expr → List Expr → Bool
  | [], [] => true
  | e :: es, e' :: es' => e.equal e' && Expr.equalList es es'
  | _, _ => false
termination_by structural es => es

def Binding.equal : Binding → Binding → Bool
  | .assignment m e, .assignment m' e' => m == m' && e.equal e'
  | .list m is, .list m' is' => m == m' && ElementInit.equalList is is'
  | .nested m bs, .nested m' bs' => m == m' && Binding.equalList bs bs'
  | _, _ => false
termination_by structural b => b

def Binding.equalList : List Binding → List Binding → Bool
  | [], [] => true
  | b :: bs, b' :: bs' => b.equal b' && Binding.equalList bs bs'
  | _, _ => false
termination_by structural bs => bs

def ElementInit.equal : ElementInit → ElementInit → Bool
  | ⟨m, as⟩, ⟨m', as'⟩ => m == m' && Expr.equalList as as'
termination_by structural i => i

def ElementInit.equalList : List ElementInit → List ElementInit → Bool
  | [], [] => true
  | i :: is, i' :: is' => i.equal i' && ElementInit.equalList is is'
  | _, _ => false
termination_by structural is => is

def FromClause.equal : FromClause → FromClause → Bool
  | ⟨s, e⟩, ⟨s', e'⟩ => s.same s' && e.equal e'
termination_by structural c => c

def SortKey.equal : SortKey → SortKey → Bool
  | ⟨e, d⟩, ⟨e', d'⟩ => e.equal e' && d == d'
termination_by structural o => o

def SortKey.equalList : List SortKey → List SortKey → Bool
  | [], [] => true
  | o :: os, o' :: os' => o.equal o' && SortKey.equalList os os'
  | _, _ => false
termination_by structural os => os

def BodyClause.equal : BodyClause → BodyClause → Bool
  | .additionalFrom c, .additionalFrom c' => c.equal c'
  | .filter p, .filter p' => p.equal p'
  | .orderBy os, .orderBy os' => SortKey.equalList os os'
  | _, _ => false
termination_by structural c => c

def BodyClause.equalList : List BodyClause → List BodyClause → Bool
  | [], [] => true
  | c :: cs, c' :: cs' => c.equal c' && BodyClause.equalList cs cs'
  | _, _ => false
termination_by structural cs => cs

def ResultOperator.equal : ResultOperator → ResultOperator → Bool
  | .aggregate a, .aggregate a' => a == a'
  | .pick w d, .pick w' d' => w == w' && d == d'
  | .distinct, .distinct => true
  | .take e, .take e' => e.equal e'
  | .skip e, .skip e' => e.equal e'
  | .contains e, .contains e' => e.equal e'
  | .group n k e, .group n' k' e' => n == n' && k.equal k' && e.equal e'
  | _, _ => false
termination_by structural o => o

def ResultOperator.equalList : List ResultOperator → List ResultOperator → Bool
  | [], [] => true
  | o :: os, o' :: os' => o.equal o' && ResultOperator.equalList os os'
  | _, _ => false
termination_by structural os => os

/-- Whether two query models are equal. -/
def Model.equal : Model → Model → Bool
  | ⟨f, b, s, os⟩, ⟨f', b', s', os'⟩ =>
    f.equal f' && BodyClause.equalList b b' && s.equal s' && ResultOperator.equalList os os'
termination_by structural m => m

end

/-- Whether two lambdas are equal. -/
def Lambda.equal (l m : Lambda) : Bool := l.parameters == m.parameters && l.body.equal m.body

instance : BEq Expr := ⟨Expr.equal⟩
instance : BEq Lambda := ⟨Lambda.equal⟩
instance : BEq BodyClause := ⟨BodyClause.equal⟩
instance : BEq ResultOperator := ⟨ResultOperator.equal⟩
instance : BEq Model := ⟨Model.equal⟩

end Comprehension
