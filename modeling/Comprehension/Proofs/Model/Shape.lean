import Comprehension.Model.Grouping
import Comprehension.Model.Shape
import Comprehension.Proofs.Success

/-! # When a query has a shape

Every operator needs a sequence, and some of them give a sequence again.  A query has a shape
exactly when all its operators but the last do (`Model.shape_isOk_iff`).  The last operator then
decides the shape, over items whose type the last grouping before it has set
(`Model.shape_of_keeps`).  Otherwise the operator right after the first one that does not give a
sequence is at fault (`Model.shape_eq_error`). -/
namespace Comprehension

/-- Whether the operator gives a sequence again. -/
def ResultOperator.keepsSequence : ResultOperator → Bool
  | .distinct => true
  | .take _ => true
  | .skip _ => true
  | .group .. => true
  | _ => false

/-- The type of the items after operators that keep the sequence: groups of the last grouping, or
what it was before. -/
def itemTypeAfter (operators : List ResultOperator) (itemType : Ty) : Ty :=
  ((operators.filterMap ResultOperator.grouping?).getLast?.map Grouping.type).getD itemType

theorem itemTypeAfter_cons (op : ResultOperator) (ops : List ResultOperator) (t : Ty) :
    itemTypeAfter (op :: ops) t = itemTypeAfter ops (itemTypeAfter [op] t) := by
  unfold itemTypeAfter
  cases hop : op.grouping? with
  | none => simp [hop]
  | some g =>
    simp only [List.filterMap_cons, hop, List.filterMap_nil, List.getLast?_cons]
    cases (ops.filterMap ResultOperator.grouping?).getLast? <;> rfl

/-! ### Operators one by one -/

/-- An operator that keeps the sequence gives a sequence. -/
theorem ResultOperator.shapeOver_of_keeps {op : ResultOperator} (h : op.keepsSequence) (t : Ty) :
    op.shapeOver t = .sequence (itemTypeAfter [op] t) := by
  cases op with
  | distinct | take _ | skip _ | group _ _ _ => rfl
  | aggregate _ | pick _ _ | contains _ => cases h

/-- Any other operator gives something that no operator can be applied to. -/
theorem ResultOperator.shapeAfter_of_final {op : ResultOperator} (h : op.keepsSequence = false)
    (t : Ty) (next : ResultOperator) :
    next.shapeAfter (op.shapeOver t) =
      .error (.invalidOperatorInput next.name (op.shapeOver t).text) := by
  cases op with
  | aggregate _ | pick _ _ | contains _ => rfl
  | distinct | take _ | skip _ | group _ _ _ => cases h

/-- The shape after operators, from the first to the last. -/
def Shape.through (operators : List ResultOperator) (shape : Shape) : Except ModelError Shape :=
  operators.foldlM (fun shape operator => operator.shapeAfter shape) shape

theorem Shape.through_cons (op : ResultOperator) (ops : List ResultOperator) (t : Ty) :
    Shape.through (op :: ops) (.sequence t) = Shape.through ops (op.shapeOver t) := rfl

/-- Operators that keep the sequence only set the type of its items. -/
theorem Shape.through_append {before : List ResultOperator}
    (hbefore : ∀ op ∈ before, op.keepsSequence) (rest : List ResultOperator) (t : Ty) :
    Shape.through (before ++ rest) (.sequence t) =
      Shape.through rest (.sequence (itemTypeAfter before t)) := by
  induction before generalizing t with
  | nil => rfl
  | cons op ops ih =>
    obtain ⟨hop, hops⟩ := List.forall_mem_cons.mp hbefore
    rw [List.cons_append, through_cons, ResultOperator.shapeOver_of_keeps hop, ih hops,
      itemTypeAfter_cons op ops]

/-! ### All operators of a query -/

/-- `op` is the first operator that does not keep the sequence, and `next` stands right after it. -/
structure StuckAt (operators before : List ResultOperator) (op next : ResultOperator) : Prop where
  split : ∃ after, operators = before ++ op :: next :: after
  keeps : ∀ o ∈ before, o.keepsSequence
  final : op.keepsSequence = false

/-- Operators that do not all keep the sequence, up to the last, get stuck. -/
theorem exists_stuckAt {operators : List ResultOperator} :
    (∃ before op next, StuckAt operators before op next) ↔
      ¬ ∀ op ∈ operators.dropLast, op.keepsSequence := by
  constructor
  · rintro ⟨before, op, next, ⟨after, rfl⟩, -, hfinal⟩ hall
    have hmem : op ∈ (before ++ op :: next :: after).dropLast := by
      simp [List.dropLast_append_of_ne_nil]
    rw [hall op hmem] at hfinal
    cases hfinal
  · intro hall
    induction operators with
    | nil => exact absurd (fun _ h => by cases h) hall
    | cons op ops ih =>
      cases ops with
      | nil => exact absurd (fun _ h => by cases h) hall
      | cons next after =>
        cases hop : op.keepsSequence with
        | false => exact ⟨[], op, next, ⟨after, rfl⟩, fun _ h => (by cases h), hop⟩
        | true =>
          -- The first operator keeps the sequence, so a later one does not.
          have hlater : ¬ ∀ o ∈ (next :: after).dropLast, o.keepsSequence :=
            fun h => hall (List.forall_mem_cons.mpr ⟨hop, h⟩)
          obtain ⟨before, o, p, ⟨rest, hrest⟩, hbefore, ho⟩ := ih hlater
          exact ⟨op :: before, o, p, ⟨rest, by rw [hrest]; rfl⟩,
            List.forall_mem_cons.mpr ⟨hop, hbefore⟩, ho⟩

namespace Model

variable {model : Model}

/-- The shape that the last operator gives, over items whose type is set by the last grouping before
it.  Without operators it is the sequence of the selected items. -/
def lastShape (model : Model) : Shape :=
  let itemType := itemTypeAfter model.operators.dropLast model.selector.type
  match model.operators.getLast? with
  | none => .sequence itemType
  | some op => op.shapeOver itemType

/-- **The shape of a query** is that of its last operator, if all others keep the sequence. -/
theorem shape_of_keeps (h : ∀ op ∈ model.operators.dropLast, op.keepsSequence) :
    model.shape = .ok model.lastShape := by
  unfold lastShape
  cases hlast : model.operators.getLast? with
  | none =>
    have hnil : model.operators = [] := List.getLast?_eq_none_iff.mp hlast
    rw [shape, hnil]
    rfl
  | some op =>
    obtain ⟨before, hsplit⟩ := List.getLast?_eq_some_iff.mp hlast
    rw [hsplit, List.dropLast_concat] at h ⊢
    show Shape.through model.operators (.sequence model.selector.type) = _
    rw [hsplit, Shape.through_append h, Shape.through_cons]
    rfl

/-- Where the operators get stuck, the next one is at fault. -/
theorem shape_of_stuckAt {before : List ResultOperator} {op next : ResultOperator}
    (h : StuckAt model.operators before op next) :
    model.shape = .error (.invalidOperatorInput next.name
      (op.shapeOver (itemTypeAfter before model.selector.type)).text) := by
  obtain ⟨after, hsplit⟩ := h.split
  show Shape.through model.operators (.sequence model.selector.type) = _
  rw [hsplit, Shape.through_append h.keeps, Shape.through_cons, Shape.through, List.foldlM_cons,
    ResultOperator.shapeAfter_of_final h.final]
  rfl

/-- **When a query has a shape.**  All its operators but the last give sequences. -/
theorem shape_isOk_iff :
    (∃ shape, model.shape = .ok shape) ↔ ∀ op ∈ model.operators.dropLast, op.keepsSequence := by
  constructor
  · rintro ⟨shape, hshape⟩
    by_cases hkeeps : ∀ op ∈ model.operators.dropLast, op.keepsSequence
    · exact hkeeps
    · obtain ⟨before, op, next, h⟩ := exists_stuckAt.mpr hkeeps
      rw [shape_of_stuckAt h] at hshape
      cases hshape
  · intro h
    exact ⟨model.lastShape, shape_of_keeps h⟩

/-- **When a query has no shape.**  The error names the operator right after the first one that does
not keep the sequence, and what that one gives. -/
theorem shape_eq_error {error : ModelError} :
    model.shape = .error error ↔
      ∃ before op next, StuckAt model.operators before op next ∧
        error = .invalidOperatorInput next.name
          (op.shapeOver (itemTypeAfter before model.selector.type)).text := by
  constructor
  · intro herror
    obtain ⟨before, op, next, h⟩ := exists_stuckAt.mpr fun hkeeps => by
      rw [shape_of_keeps hkeeps] at herror
      cases herror
    rw [shape_of_stuckAt h] at herror
    exact ⟨before, op, next, h, (Except.error.inj herror).symm⟩
  · rintro ⟨before, op, next, h, rfl⟩
    exact shape_of_stuckAt h

/-- A query without a shape has an operator applied to something else than a sequence. -/
theorem shape_fails :
    FailsWith (fun error => ∃ op input, error = .invalidOperatorInput op input) model.shape := by
  intro error herror
  obtain ⟨_, _, _, _, rfl⟩ := shape_eq_error.mp herror
  exact ⟨_, _, rfl⟩

end Model

end Comprehension
