import Comprehension.Proofs.Expr.Parts
import Comprehension.Proofs.Success

/-! # Rewriting that can fail

A rewriter may fail at a node.  It succeeds as a whole when it succeeds in all parts that it comes
to, and then its result is built of the rewritten parts, as for a rewriter that never fails
(`Expr.rewriteM_eq_ok`). -/
namespace Comprehension

variable {ε : Type} (enter : Expr → Except ε (Option Expr)) (leave : Expr → Except ε Expr)

/-- What an expression is rewritten to, where that succeeds. -/
def Expr.rewritten (e : Expr) : Expr :=
  match e.rewriteM enter leave with
  | .ok d => d
  | .error _ => e

/-- The expression can be rewritten. -/
def Expr.Rewritable (e : Expr) : Prop := ∃ d, e.rewriteM enter leave = .ok d

variable {enter leave}

theorem Expr.rewriteM_eq_rewritten {e d : Expr} :
    e.rewriteM enter leave = .ok d ↔ e.Rewritable enter leave ∧ d = e.rewritten enter leave := by
  rw [Expr.Rewritable, Expr.rewritten]
  cases e.rewriteM enter leave <;> simp [eq_comm]

theorem Expr.rewriteListM_eq_ok : (es ds : List Expr) →
    (Expr.rewriteListM enter leave es = .ok ds ↔
      (∀ c ∈ es, c.Rewritable enter leave) ∧ ds = es.map (Expr.rewritten enter leave))
  | [], ds => by simp [Expr.rewriteListM, pure_eq_ok]
  | e :: es, ds => by
    rw [Expr.rewriteListM, bind_eq_ok_of_unique fun d => Expr.rewriteM_eq_rewritten,
      bind_eq_ok_of_unique (Expr.rewriteListM_eq_ok es),
      List.forall_mem_cons, List.map_cons, and_assoc]
    simp [pure_eq_ok]

theorem ElementInit.rewriteListM_eq_ok : (is js : List ElementInit) →
    (ElementInit.rewriteListM enter leave is = .ok js ↔
      (∀ c ∈ is.flatMap ElementInit.arguments, c.Rewritable enter leave) ∧
        js = is.map (ElementInit.mapParts (Expr.rewritten enter leave)))
  | [], js => by simp [ElementInit.rewriteListM, pure_eq_ok]
  | ⟨m, as⟩ :: is, js => by
    have hfirst : ∀ j, ElementInit.rewriteM enter leave ⟨m, as⟩ = .ok j ↔
        (∀ c ∈ as, c.Rewritable enter leave) ∧
          j = ElementInit.mapParts (Expr.rewritten enter leave) ⟨m, as⟩ := by
      intro j
      rw [ElementInit.rewriteM, bind_eq_ok_of_unique (Expr.rewriteListM_eq_ok as)]
      simp [pure_eq_ok, ElementInit.mapParts]
    rw [ElementInit.rewriteListM, bind_eq_ok_of_unique hfirst,
      bind_eq_ok_of_unique (ElementInit.rewriteListM_eq_ok is),
      List.flatMap_cons, List.forall_mem_append, List.map_cons, and_assoc]
    simp [pure_eq_ok]

mutual

theorem Binding.rewriteM_eq_ok : (b b' : Binding) →
    (Binding.rewriteM enter leave b = .ok b' ↔
      (∀ c ∈ b.parts, c.Rewritable enter leave) ∧ b' = b.mapParts (Expr.rewritten enter leave))
  | .assignment m e, b' => by
    rw [Binding.rewriteM, bind_eq_ok_of_unique fun d => Expr.rewriteM_eq_rewritten]
    simp [pure_eq_ok, Binding.parts, Binding.mapParts]
  | .list m is, b' => by
    rw [Binding.rewriteM, bind_eq_ok_of_unique (ElementInit.rewriteListM_eq_ok is)]
    rw [pure_eq_ok, Binding.parts, Binding.mapParts]
  | .nested m bs, b' => by
    rw [Binding.rewriteM, bind_eq_ok_of_unique (Binding.rewriteListM_eq_ok bs)]
    rw [pure_eq_ok, Binding.parts, Binding.mapParts]

theorem Binding.rewriteListM_eq_ok : (bs bs' : List Binding) →
    (Binding.rewriteListM enter leave bs = .ok bs' ↔
      (∀ c ∈ Binding.partsList bs, c.Rewritable enter leave) ∧
        bs' = Binding.mapPartsList (Expr.rewritten enter leave) bs)
  | [], bs' => by
    simp [Binding.rewriteListM, pure_eq_ok, Binding.partsList, Binding.mapPartsList]
  | b :: bs, bs' => by
    rw [Binding.rewriteListM, bind_eq_ok_of_unique (Binding.rewriteM_eq_ok b),
      bind_eq_ok_of_unique (Binding.rewriteListM_eq_ok bs), Binding.partsList,
      List.forall_mem_append, Binding.mapPartsList, and_assoc]
    simp [pure_eq_ok]

end

theorem Expr.descend_eq_ok {e e' r : Expr} {rebuilt : Except ε Expr} {P : Prop}
    (hrebuilt : ∀ d, rebuilt = .ok d ↔ P ∧ d = r) :
    Expr.descend enter leave e rebuilt = .ok e' ↔
      enter e = .ok (some e') ∨ enter e = .ok none ∧ P ∧ leave r = .ok e' := by
  rw [Expr.descend, bind_eq_ok]
  constructor
  · rintro ⟨replaced, henter, h⟩
    cases replaced with
    | some d =>
      cases h
      exact Or.inl henter
    | none => exact Or.inr ⟨henter, (bind_eq_ok_of_unique hrebuilt).mp h⟩
  · rintro (henter | ⟨henter, h⟩)
    · exact ⟨_, henter, rfl⟩
    · exact ⟨none, henter, (bind_eq_ok_of_unique hrebuilt).mpr h⟩

/-- **Rewriting that can fail, in one equation.**  It succeeds when `enter` replaces the node, or
when it succeeds in all parts and `leave` accepts the node with its parts rewritten. -/
theorem Expr.rewriteM_eq_ok {e e' : Expr} :
    e.rewriteM enter leave = .ok e' ↔
      enter e = .ok (some e') ∨ enter e = .ok none ∧
        (∀ c ∈ e.children, c.Rewritable enter leave) ∧
        leave (e.mapChildren (Expr.rewritten enter leave)) = .ok e' := by
  have hpart : ∀ (c d : Expr), c.rewriteM enter leave = .ok d ↔
      c.Rewritable enter leave ∧ d = c.rewritten enter leave :=
    fun c d => Expr.rewriteM_eq_rewritten
  cases e with
  | constant _ _ | parameter _ | staticMember _ | reference _ | subQuery _ _ =>
    rw [Expr.rewriteM]
    refine Expr.descend_eq_ok fun d => ?_
    simp [pure_eq_ok, Expr.children, Expr.mapChildren]
  | memberAccess t f | unary o t y | lambda ps t =>
    rw [Expr.rewriteM]
    refine Expr.descend_eq_ok fun d => ?_
    rw [bind_eq_ok_of_unique (hpart t)]
    simp [pure_eq_ok, Expr.children, Expr.mapChildren]
  | binary o l r y =>
    rw [Expr.rewriteM]
    refine Expr.descend_eq_ok fun d => ?_
    rw [bind_eq_ok_of_unique (hpart l), bind_eq_ok_of_unique (hpart r)]
    simp [pure_eq_ok, Expr.children, Expr.mapChildren, and_assoc]
  | conditional c t f y =>
    rw [Expr.rewriteM]
    refine Expr.descend_eq_ok fun d => ?_
    rw [bind_eq_ok_of_unique (hpart c), bind_eq_ok_of_unique (hpart t),
      bind_eq_ok_of_unique (hpart f)]
    simp [pure_eq_ok, Expr.children, Expr.mapChildren, and_assoc]
  | staticCall f as | new c as ms =>
    rw [Expr.rewriteM]
    refine Expr.descend_eq_ok fun d => ?_
    rw [bind_eq_ok_of_unique (Expr.rewriteListM_eq_ok as)]
    simp [pure_eq_ok, Expr.children, Expr.mapChildren]
  | methodCall t f as =>
    rw [Expr.rewriteM]
    refine Expr.descend_eq_ok fun d => ?_
    rw [bind_eq_ok_of_unique (hpart t),
      bind_eq_ok_of_unique (Expr.rewriteListM_eq_ok as)]
    simp [pure_eq_ok, Expr.children, Expr.mapChildren, and_assoc]
  | memberInit c as ms bs =>
    rw [Expr.rewriteM]
    refine Expr.descend_eq_ok fun d => ?_
    rw [bind_eq_ok_of_unique (Expr.rewriteListM_eq_ok as),
      bind_eq_ok_of_unique (Binding.rewriteListM_eq_ok bs), ← and_assoc,
      Binding.mapPartsList_eq_map, Expr.children, Expr.mapChildren, List.forall_mem_append]
    simp [pure_eq_ok]

end Comprehension
