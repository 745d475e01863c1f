import Comprehension.Expr.Equal

/-! # What equality tells apart

Equal expressions need not be the same data.  Equality does not look at

* what the items of a source are called and of which type they are, in references and in the from
  clauses of queries inside the expression;
* the sign of a zero.

The standard form of an expression has nothing in these places (`Expr.standard`).  Two expressions
are equal when their standard forms are the same, unless they hold a NaN, which is not equal even to
itself (`Expr.equal_iff`). -/
namespace Comprehension

/-! ### Standard forms -/

/-- The double with the sign of a zero taken away. -/
def Binary64.standard (x : Binary64) : Binary64 := if x.isZero then ⟨0⟩ else x

mutual

/-- The value with the signs of zeros taken away. -/
def Value.standard : Value → Value
  | .double x => .double x.standard
  | .sequence vs => .sequence (Value.standardList vs)
  | v => v

def Value.standardList : List Value → List Value
  | [] => []
  | v :: vs => v.standard :: Value.standardList vs

end

/-- The source with its identity only. -/
def Source.standard (s : Source) : Source := ⟨s.id, "", .primitive .void⟩

mutual

/-- The expression without the signs of zeros, and with sources that have an identity only, inside
queries as well. -/
def Expr.standard : Expr → Expr
  | .constant v t => .constant v.standard t
  | .parameter p => .parameter p
  | .staticMember m => .staticMember m
  | .memberAccess e m => .memberAccess e.standard m
  | .unary o e t => .unary o e.standard t
  | .binary o l r t => .binary o l.standard r.standard t
  | .staticCall m as => .staticCall m (Expr.standardList as)
  | .methodCall e m as => .methodCall e.standard m (Expr.standardList as)
  | .new c as ms => .new c (Expr.standardList as) ms
  | .memberInit c as ms bs => .memberInit c (Expr.standardList as) ms (Binding.standardList bs)
  | .lambda ps b => .lambda ps b.standard
  | .conditional c t f y => .conditional c.standard t.standard f.standard y
  | .reference s => .reference s.standard
  | .subQuery m t => .subQuery m.standard t

def Expr.standardList : List Expr → List Expr
  | [] => []
  | e :: es => e.standard :: Expr.standardList es

def Binding.standard : Binding → Binding
  | .assignment m e => .assignment m e.standard
  | .list m is => .list m (ElementInit.standardList is)
  | .nested m bs => .nested m (Binding.standardList bs)

def Binding.standardList : List Binding → List Binding
  | [] => []
  | b :: bs => b.standard :: Binding.standardList bs

def ElementInit.standard : ElementInit → ElementInit
  | ⟨m, as⟩ => ⟨m, Expr.standardList as⟩

def ElementInit.standardList : List ElementInit → List ElementInit
  | [] => []
  | i :: is => i.standard :: ElementInit.standardList is

def FromClause.standard : FromClause → FromClause
  | ⟨s, e⟩ => ⟨s.standard, e.standard⟩

def SortKey.standard : SortKey → SortKey
  | ⟨e, d⟩ => ⟨e.standard, d⟩

def SortKey.standardList : List SortKey → List SortKey
  | [] => []
  | o :: os => o.standard :: SortKey.standardList os

def BodyClause.standard : BodyClause → BodyClause
  | .additionalFrom c => .additionalFrom c.standard
  | .filter p => .filter p.standard
  | .orderBy os => .orderBy (SortKey.standardList os)

def BodyClause.standardList : List BodyClause → List BodyClause
  | [] => []
  | c :: cs => c.standard :: BodyClause.standardList cs

def ResultOperator.standard : ResultOperator → ResultOperator
  | .aggregate a => .aggregate a
  | .pick which orDefault => .pick which orDefault
  | .distinct => .distinct
  | .take e => .take e.standard
  | .skip e => .skip e.standard
  | .contains e => .contains e.standard
  | .group n k e => .group n k.standard e.standard

def ResultOperator.standardList : List ResultOperator → List ResultOperator
  | [] => []
  | o :: os => o.standard :: ResultOperator.standardList os

def Model.standard : Model → Model
  | ⟨f, b, s, os⟩ =>
    ⟨f.standard, BodyClause.standardList b, s.standard, ResultOperator.standardList os⟩

end

/-! ### Equality by standard forms -/

theorem Binary64.isNaN_of_isZero {x : Binary64} (h : x.isZero) : x.isNaN = false := by
  rw [isZero, beq_iff_eq] at h
  rw [isNaN, h]
  rfl

theorem Binary64.equal_iff (x y : Binary64) :
    x.equal y ↔ x.equal x ∧ x.standard = y.standard := by
  have hself : x.equal x ↔ x.isNaN = false := by simp [equal]
  have hbits : x.bits = y.bits ↔ x = y := by
    cases x
    cases y
    rw [mk.injEq]
  rw [hself]
  by_cases hx : x.isZero <;> by_cases hy : y.isZero
  · simp [equal, standard, hx, hy, isNaN_of_isZero]
  · -- The standard form of the other double is no zero.
    have hne : x ≠ y := fun h => hy (h ▸ hx)
    have hstandard : (⟨0⟩ : Binary64) ≠ y := fun h => hy (h ▸ rfl)
    simp [equal, standard, hx, hy, hbits, hne, hstandard]
  · have hne : x ≠ y := fun h => hx (h ▸ hy)
    have hstandard : x ≠ ⟨0⟩ := fun h => hx (h ▸ rfl)
    simp [equal, standard, hx, hy, hbits, hne, hstandard]
  · simp only [equal, standard, hx, hy, hbits, Bool.and_eq_true, Bool.not_eq_true',
      Bool.or_eq_true, beq_iff_eq, Bool.false_eq_true, if_false, and_false, or_false]
    constructor
    · exact fun h => ⟨h.1.1, h.2⟩
    · rintro ⟨hnan, rfl⟩
      exact ⟨⟨hnan, hnan⟩, rfl⟩

mutual

theorem Value.equal_iff : (v w : Value) → (v.equal w ↔ v.equal v ∧ v.standard = w.standard)
  | .double x, w => by
    cases w with
    | double y =>
      rw [Value.equal, Binary64.equal_iff x y, Value.equal, Value.standard, Value.standard,
        Value.double.injEq]
    | _ => exact iff_of_false (fun h => by cases h) fun h => by cases h.2
  | .sequence vs, w => by
    cases w with
    | sequence ws =>
      rw [Value.equal, Value.equalList_iff vs ws, Value.equal, Value.standard, Value.standard,
        Value.sequence.injEq]
    | _ => exact iff_of_false (fun h => by cases h) fun h => by cases h.2
  | .null, w | .boolean _, w | .char _, w | .int32 _, w | .int64 _, w | .string _, w
  | .source _, w => by cases w <;> simp [Value.equal, Value.standard]

theorem Value.equalList_iff : (vs ws : List Value) →
    (Value.equalList vs ws ↔
      Value.equalList vs vs ∧ Value.standardList vs = Value.standardList ws)
  | [], [] => iff_of_true rfl ⟨rfl, rfl⟩
  | [], _ :: _ => by simp [Value.equalList, Value.standardList]
  | _ :: _, [] => by simp [Value.equalList, Value.standardList]
  | v :: vs, w :: ws => by
    simp only [Value.equalList, Value.standardList, Bool.and_eq_true, Value.equal_iff v w,
      Value.equalList_iff vs ws, List.cons.injEq]
    exact and_and_and_comm

end

mutual

/-- **Equality compares standard forms**, and refuses a NaN. -/
theorem Expr.equal_iff : (a b : Expr) → (a.equal b ↔ a.equal a ∧ a.standard = b.standard)
  | .constant v t, b => by
    cases b with
    | constant v' t' =>
      simp only [Expr.equal, Expr.standard, Bool.and_eq_true, beq_iff_eq, Value.equal_iff v v',
        Expr.constant.injEq, and_true, and_assoc]
    | _ => exact iff_of_false (fun h => by cases h) fun h => by cases h.2
  | .parameter p, b => by
    cases b with
    | parameter p' => simp [Expr.equal, Expr.standard]
    | _ => exact iff_of_false (fun h => by cases h) fun h => by cases h.2
  | .staticMember m, b => by
    cases b with
    | staticMember m' => simp [Expr.equal, Expr.standard]
    | _ => exact iff_of_false (fun h => by cases h) fun h => by cases h.2
  | .memberAccess e m, b => by
    cases b with
    | memberAccess e' m' =>
      simp only [Expr.equal, Expr.standard, Bool.and_eq_true, beq_iff_eq, Expr.equal_iff e e',
        Expr.memberAccess.injEq, and_true, and_assoc]
    | _ => exact iff_of_false (fun h => by cases h) fun h => by cases h.2
  | .unary o e t, b => by
    cases b with
    | unary o' e' t' =>
      simp only [Expr.equal, Expr.standard, Bool.and_eq_true, beq_iff_eq, Expr.equal_iff e e',
        Expr.unary.injEq]
      grind
    | _ => exact iff_of_false (fun h => by cases h) fun h => by cases h.2
  | .binary o l r t, b => by
    cases b with
    | binary o' l' r' t' =>
      simp only [Expr.equal, Expr.standard, Bool.and_eq_true, beq_iff_eq, Expr.equal_iff l l',
        Expr.equal_iff r r', Expr.binary.injEq]
      grind
    | _ => exact iff_of_false (fun h => by cases h) fun h => by cases h.2
  | .staticCall m as, b => by
    cases b with
    | staticCall m' as' =>
      simp only [Expr.equal, Expr.standard, Bool.and_eq_true, beq_iff_eq,
        Expr.equalList_iff as as', Expr.staticCall.injEq]
      grind
    | _ => exact iff_of_false (fun h => by cases h) fun h => by cases h.2
  | .methodCall e m as, b => by
    cases b with
    | methodCall e' m' as' =>
      simp only [Expr.equal, Expr.standard, Bool.and_eq_true, beq_iff_eq, Expr.equal_iff e e',
        Expr.equalList_iff as as', Expr.methodCall.injEq]
      grind
    | _ => exact iff_of_false (fun h => by cases h) fun h => by cases h.2
  | .new c as ms, b => by
    cases b with
    | new c' as' ms' =>
      simp only [Expr.equal, Expr.standard, Bool.and_eq_true, beq_iff_eq,
        Expr.equalList_iff as as', Expr.new.injEq]
      grind
    | _ => exact iff_of_false (fun h => by cases h) fun h => by cases h.2
  | .memberInit c as ms bs, b => by
    cases b with
    | memberInit c' as' ms' bs' =>
      simp only [Expr.equal, Expr.standard, Bool.and_eq_true, beq_iff_eq,
        Expr.equalList_iff as as', Binding.equalList_iff bs bs', Expr.memberInit.injEq]
      grind
    | _ => exact iff_of_false (fun h => by cases h) fun h => by cases h.2
  | .lambda ps e, b => by
    cases b with
    | lambda ps' e' =>
      simp only [Expr.equal, Expr.standard, Bool.and_eq_true, beq_iff_eq, Expr.equal_iff e e',
        Expr.lambda.injEq]
      grind
    | _ => exact iff_of_false (fun h => by cases h) fun h => by cases h.2
  | .conditional c t f y, b => by
    cases b with
    | conditional c' t' f' y' =>
      simp only [Expr.equal, Expr.standard, Bool.and_eq_true, beq_iff_eq, Expr.equal_iff c c',
        Expr.equal_iff t t', Expr.equal_iff f f', Expr.conditional.injEq]
      grind
    | _ => exact iff_of_false (fun h => by cases h) fun h => by cases h.2
  | .reference s, b => by
    cases b with
    | reference s' => simp [Expr.equal, Expr.standard, Source.same, Source.standard]
    | _ => exact iff_of_false (fun h => by cases h) fun h => by cases h.2
  | .subQuery m t, b => by
    cases b with
    | subQuery m' t' =>
      simp only [Expr.equal, Expr.standard, Bool.and_eq_true, beq_iff_eq, Model.equal_iff m m',
        Expr.subQuery.injEq, and_true, and_assoc]
    | _ => exact iff_of_false (fun h => by cases h) fun h => by cases h.2

theorem Expr.equalList_iff : (as bs : List Expr) →
    (Expr.equalList as bs ↔
      Expr.equalList as as ∧ Expr.standardList as = Expr.standardList bs)
  | [], [] => iff_of_true rfl ⟨rfl, rfl⟩
  | [], _ :: _ => by simp [Expr.equalList, Expr.standardList]
  | _ :: _, [] => by simp [Expr.equalList, Expr.standardList]
  | a :: as, b :: bs => by
    simp only [Expr.equalList, Expr.standardList, Bool.and_eq_true, Expr.equal_iff a b,
      Expr.equalList_iff as bs, List.cons.injEq]
    exact and_and_and_comm

theorem Binding.equal_iff : (a b : Binding) → (a.equal b ↔ a.equal a ∧ a.standard = b.standard)
  | .assignment m e, b => by
    cases b with
    | assignment m' e' =>
      simp only [Binding.equal, Binding.standard, Bool.and_eq_true, beq_iff_eq,
        Expr.equal_iff e e', Binding.assignment.injEq]
      grind
    | _ => exact iff_of_false (fun h => by cases h) fun h => by cases h.2
  | .list m is, b => by
    cases b with
    | list m' is' =>
      simp only [Binding.equal, Binding.standard, Bool.and_eq_true, beq_iff_eq,
        ElementInit.equalList_iff is is', Binding.list.injEq]
      grind
    | _ => exact iff_of_false (fun h => by cases h) fun h => by cases h.2
  | .nested m bs, b => by
    cases b with
    | nested m' bs' =>
      simp only [Binding.equal, Binding.standard, Bool.and_eq_true, beq_iff_eq,
        Binding.equalList_iff bs bs', Binding.nested.injEq]
      grind
    | _ => exact iff_of_false (fun h => by cases h) fun h => by cases h.2

theorem Binding.equalList_iff : (as bs : List Binding) →
    (Binding.equalList as bs ↔
      Binding.equalList as as ∧ Binding.standardList as = Binding.standardList bs)
  | [], [] => iff_of_true rfl ⟨rfl, rfl⟩
  | [], _ :: _ => by simp [Binding.equalList, Binding.standardList]
  | _ :: _, [] => by simp [Binding.equalList, Binding.standardList]
  | a :: as, b :: bs => by
    simp only [Binding.equalList, Binding.standardList, Bool.and_eq_true, Binding.equal_iff a b,
      Binding.equalList_iff as bs, List.cons.injEq]
    exact and_and_and_comm

theorem ElementInit.equal_iff : (a b : ElementInit) →
    (a.equal b ↔ a.equal a ∧ a.standard = b.standard)
  | ⟨m, as⟩, ⟨m', as'⟩ => by
    simp only [ElementInit.equal, ElementInit.standard, Bool.and_eq_true, beq_iff_eq,
      Expr.equalList_iff as as', ElementInit.mk.injEq]
    grind

theorem ElementInit.equalList_iff : (as bs : List ElementInit) →
    (ElementInit.equalList as bs ↔
      ElementInit.equalList as as ∧ ElementInit.standardList as = ElementInit.standardList bs)
  | [], [] => iff_of_true rfl ⟨rfl, rfl⟩
  | [], _ :: _ => by simp [ElementInit.equalList, ElementInit.standardList]
  | _ :: _, [] => by simp [ElementInit.equalList, ElementInit.standardList]
  | a :: as, b :: bs => by
    simp only [ElementInit.equalList, ElementInit.standardList, Bool.and_eq_true,
      ElementInit.equal_iff a b, ElementInit.equalList_iff as bs, List.cons.injEq]
    exact and_and_and_comm

theorem FromClause.equal_iff : (a b : FromClause) →
    (a.equal b ↔ a.equal a ∧ a.standard = b.standard)
  | ⟨s, e⟩, ⟨s', e'⟩ => by
    simp only [FromClause.equal, FromClause.standard, Bool.and_eq_true, Expr.equal_iff e e',
      FromClause.mk.injEq, Source.same, Source.standard, Source.mk.injEq, beq_iff_eq]
    grind

theorem SortKey.equal_iff : (a b : SortKey) → (a.equal b ↔ a.equal a ∧ a.standard = b.standard)
  | ⟨e, d⟩, ⟨e', d'⟩ => by
    simp only [SortKey.equal, SortKey.standard, Bool.and_eq_true, beq_iff_eq, Expr.equal_iff e e',
      SortKey.mk.injEq, and_true, and_assoc]

theorem SortKey.equalList_iff : (as bs : List SortKey) →
    (SortKey.equalList as bs ↔
      SortKey.equalList as as ∧ SortKey.standardList as = SortKey.standardList bs)
  | [], [] => iff_of_true rfl ⟨rfl, rfl⟩
  | [], _ :: _ => by simp [SortKey.equalList, SortKey.standardList]
  | _ :: _, [] => by simp [SortKey.equalList, SortKey.standardList]
  | a :: as, b :: bs => by
    simp only [SortKey.equalList, SortKey.standardList, Bool.and_eq_true, SortKey.equal_iff a b,
      SortKey.equalList_iff as bs, List.cons.injEq]
    exact and_and_and_comm

theorem BodyClause.equal_iff : (a b : BodyClause) →
    (a.equal b ↔ a.equal a ∧ a.standard = b.standard)
  | .additionalFrom c, b => by
    cases b with
    | additionalFrom c' =>
      simp only [BodyClause.equal, BodyClause.standard, FromClause.equal_iff c c',
        BodyClause.additionalFrom.injEq]
    | _ => exact iff_of_false (fun h => by cases h) fun h => by cases h.2
  | .filter p, b => by
    cases b with
    | filter p' =>
      simp only [BodyClause.equal, BodyClause.standard, Expr.equal_iff p p',
        BodyClause.filter.injEq]
    | _ => exact iff_of_false (fun h => by cases h) fun h => by cases h.2
  | .orderBy os, b => by
    cases b with
    | orderBy os' =>
      simp only [BodyClause.equal, BodyClause.standard, SortKey.equalList_iff os os',
        BodyClause.orderBy.injEq]
    | _ => exact iff_of_false (fun h => by cases h) fun h => by cases h.2

theorem BodyClause.equalList_iff : (as bs : List BodyClause) →
    (BodyClause.equalList as bs ↔
      BodyClause.equalList as as ∧ BodyClause.standardList as = BodyClause.standardList bs)
  | [], [] => iff_of_true rfl ⟨rfl, rfl⟩
  | [], _ :: _ => by simp [BodyClause.equalList, BodyClause.standardList]
  | _ :: _, [] => by simp [BodyClause.equalList, BodyClause.standardList]
  | a :: as, b :: bs => by
    simp only [BodyClause.equalList, BodyClause.standardList, Bool.and_eq_true,
      BodyClause.equal_iff a b, BodyClause.equalList_iff as bs, List.cons.injEq]
    exact and_and_and_comm

theorem ResultOperator.equal_iff : (a b : ResultOperator) →
    (a.equal b ↔ a.equal a ∧ a.standard = b.standard)
  | .aggregate _, b | .pick _ _, b | .distinct, b => by
    cases b <;> simp [ResultOperator.equal, ResultOperator.standard]
  | .take e, b => by
    cases b with
    | take e' =>
      simp only [ResultOperator.equal, ResultOperator.standard, Expr.equal_iff e e',
        ResultOperator.take.injEq]
    | _ => exact iff_of_false (fun h => by cases h) fun h => by cases h.2
  | .skip e, b => by
    cases b with
    | skip e' =>
      simp only [ResultOperator.equal, ResultOperator.standard, Expr.equal_iff e e',
        ResultOperator.skip.injEq]
    | _ => exact iff_of_false (fun h => by cases h) fun h => by cases h.2
  | .contains e, b => by
    cases b with
    | contains e' =>
      simp only [ResultOperator.equal, ResultOperator.standard, Expr.equal_iff e e',
        ResultOperator.contains.injEq]
    | _ => exact iff_of_false (fun h => by cases h) fun h => by cases h.2
  | .group n k e, b => by
    cases b with
    | group n' k' e' =>
      simp only [ResultOperator.equal, ResultOperator.standard, Bool.and_eq_true, beq_iff_eq,
        Expr.equal_iff k k', Expr.equal_iff e e', ResultOperator.group.injEq]
      grind
    | _ => exact iff_of_false (fun h => by cases h) fun h => by cases h.2

theorem ResultOperator.equalList_iff : (as bs : List ResultOperator) →
    (ResultOperator.equalList as bs ↔ ResultOperator.equalList as as ∧
      ResultOperator.standardList as = ResultOperator.standardList bs)
  | [], [] => iff_of_true rfl ⟨rfl, rfl⟩
  | [], _ :: _ => by simp [ResultOperator.equalList, ResultOperator.standardList]
  | _ :: _, [] => by simp [ResultOperator.equalList, ResultOperator.standardList]
  | a :: as, b :: bs => by
    simp only [ResultOperator.equalList, ResultOperator.standardList, Bool.and_eq_true,
      ResultOperator.equal_iff a b, ResultOperator.equalList_iff as bs, List.cons.injEq]
    exact and_and_and_comm

theorem Model.equal_iff : (a b : Model) → (a.equal b ↔ a.equal a ∧ a.standard = b.standard)
  | ⟨f, cs, s, os⟩, ⟨f', cs', s', os'⟩ => by
    simp only [Model.equal, Model.standard, Bool.and_eq_true, FromClause.equal_iff f f',
      BodyClause.equalList_iff cs cs', Expr.equal_iff s s', ResultOperator.equalList_iff os os',
      Model.mk.injEq]
    grind

end

end Comprehension
