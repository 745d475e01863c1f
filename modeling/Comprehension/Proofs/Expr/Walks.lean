import Comprehension.Expr.Replace
import Comprehension.Proofs.Expr.Parts
import Comprehension.Sample

/-! # Reading walks and rebuilding walks

There are two ways through an expression.  A visitor goes along the parts of each node
(`Expr.children`) and reads; a rewriter takes each kind of node apart on its own and builds it
again.  They come by the same nodes in the same order, and a rewriter that replaces nothing builds
the very same expression (`Expr.rewriteM_seeing`).  This holds for steps with any effect, and so
also for steps that stop the walk.

What looks for an expression and what replaces it therefore agree: it is not there exactly when
there is nothing to replace (`Expr.occursIn_eq_false_iff`). -/
namespace Comprehension

/-! ### A rewriter that only looks -/

section Seeing

variable {m : Type → Type} [Monad m]

/-- Looks at a node and keeps it. -/
def Expr.seeing (see : Expr → m Unit) (x : Expr) : m (Option Expr) := do
  see x
  return none

variable [LawfulMonad m] (see : Expr → m Unit)

theorem Expr.descend_seeing (e : Expr) (rebuilt : m Expr) :
    Expr.descend (Expr.seeing see) pure e rebuilt = (do see e; rebuilt) := by
  simp [Expr.descend, Expr.seeing]

mutual

/-- **A rewriter that only looks.**  It looks at every node, each before its parts and in the
order of the visitors, and gives the expression back. -/
theorem Expr.rewriteM_seeing : (e : Expr) →
    e.rewriteM (Expr.seeing see) pure = do forM e.subterms see; return e
  | .constant _ _ | .parameter _ | .staticMember _ | .reference _ | .subQuery _ _ => by
    simp [Expr.rewriteM, Expr.descend_seeing, Expr.subterms]
  | .memberAccess t _ | .unary _ t _ | .lambda _ t => by
    simp [Expr.rewriteM, Expr.descend_seeing, Expr.subterms, Expr.rewriteM_seeing t]
  | .binary _ l r _ => by
    simp [Expr.rewriteM, Expr.descend_seeing, Expr.subterms, Expr.rewriteM_seeing l,
      Expr.rewriteM_seeing r]
  | .conditional c t f _ => by
    simp [Expr.rewriteM, Expr.descend_seeing, Expr.subterms, Expr.rewriteM_seeing c,
      Expr.rewriteM_seeing t, Expr.rewriteM_seeing f]
  | .staticCall _ as | .new _ as _ => by
    simp [Expr.rewriteM, Expr.descend_seeing, Expr.subterms, Expr.rewriteListM_seeing as]
  | .methodCall t _ as => by
    simp [Expr.rewriteM, Expr.descend_seeing, Expr.subterms, Expr.rewriteM_seeing t,
      Expr.rewriteListM_seeing as]
  | .memberInit _ as _ bs => by
    simp [Expr.rewriteM, Expr.descend_seeing, Expr.subterms, Expr.rewriteListM_seeing as,
      Binding.rewriteListM_seeing bs]

theorem Expr.rewriteListM_seeing : (es : List Expr) →
    Expr.rewriteListM (Expr.seeing see) pure es = do forM (Expr.subtermsList es) see; return es
  | [] => by simp [Expr.rewriteListM, Expr.subtermsList]
  | e :: es => by
    simp [Expr.rewriteListM, Expr.subtermsList, Expr.rewriteM_seeing e, Expr.rewriteListM_seeing es]

theorem Binding.rewriteM_seeing : (b : Binding) →
    b.rewriteM (Expr.seeing see) pure = do forM b.subterms see; return b
  | .assignment _ e => by simp [Binding.rewriteM, Binding.subterms, Expr.rewriteM_seeing e]
  | .list _ is => by simp [Binding.rewriteM, Binding.subterms, ElementInit.rewriteListM_seeing is]
  | .nested _ bs => by simp [Binding.rewriteM, Binding.subterms, Binding.rewriteListM_seeing bs]

theorem Binding.rewriteListM_seeing : (bs : List Binding) →
    Binding.rewriteListM (Expr.seeing see) pure bs = do
      forM (Binding.subtermsList bs) see
      return bs
  | [] => by simp [Binding.rewriteListM, Binding.subtermsList]
  | b :: bs => by
    simp [Binding.rewriteListM, Binding.subtermsList, Binding.rewriteM_seeing b,
      Binding.rewriteListM_seeing bs]

theorem ElementInit.rewriteM_seeing : (i : ElementInit) →
    i.rewriteM (Expr.seeing see) pure = do forM i.subterms see; return i
  | ⟨_, as⟩ => by simp [ElementInit.rewriteM, ElementInit.subterms, Expr.rewriteListM_seeing as]

theorem ElementInit.rewriteListM_seeing : (is : List ElementInit) →
    ElementInit.rewriteListM (Expr.seeing see) pure is = do
      forM (ElementInit.subtermsList is) see
      return is
  | [] => by simp [ElementInit.rewriteListM, ElementInit.subtermsList]
  | i :: is => by
    simp [ElementInit.rewriteListM, ElementInit.subtermsList, ElementInit.rewriteM_seeing i,
      ElementInit.rewriteListM_seeing is]

end

end Seeing

/-! ### Visitors -/

namespace Expr

section Visitor

variable {σ β : Type} (step : σ → Expr → Except β σ)

/-- **A visitor at a node.**  It takes its step there, and then visits the parts from left to
right. -/
theorem foldUntil_eq (start : σ) (e : Expr) :
    e.foldUntil step start =
      step start e >>= e.children.foldlM fun s c => c.foldUntil step s := by
  have hparts : ∀ (cs : List Expr) (s : σ), (cs.flatMap subterms).foldlM step s =
      cs.foldlM (fun s c => c.foldUntil step s) s := by
    intro cs
    induction cs with
    | nil => exact fun _ => rfl
    | cons c cs ih =>
      intro s
      rw [List.flatMap_cons, List.foldlM_append, List.foldlM_cons]
      exact bind_congr ih
  rw [foldUntil, subterms_eq, List.foldlM_cons]
  exact bind_congr (hparts _)

/-- The step of a visitor, taken by a rewriter. -/
def stepAt (x : Expr) : StateT σ (Except β) Unit := fun s => do
  let t ← step s x
  return ((), t)

theorem run_forM_stepAt (xs : List Expr) (s : σ) :
    (forM xs (stepAt step)).run s = do
      let t ← xs.foldlM step s
      return ((), t) := by
  induction xs generalizing s with
  | nil => rfl
  | cons x xs ih =>
    rw [List.forM_cons, StateT.run_bind, List.foldlM_cons, bind_assoc]
    show (step s x >>= _) >>= _ = _
    rw [bind_assoc]
    exact bind_congr ih

/-- **The rewriter and the visitor take the same steps.**  If one of them is stopped, so is the
other, with the same reason; otherwise both end in the same state. -/
theorem run_rewriteM_stepAt (start : σ) (e : Expr) :
    (e.rewriteM (seeing (stepAt step)) pure).run start = do
      let s ← e.foldUntil step start
      return (e, s) := by
  rw [rewriteM_seeing, StateT.run_bind, run_forM_stepAt, bind_assoc]
  rfl

end Visitor

/-- A visitor that never stops, and lists the nodes that it comes by. -/
def note (seen : List Expr) (x : Expr) : Except Empty (List Expr) := .ok (seen ++ [x])

theorem foldlM_note (xs seen : List Expr) : xs.foldlM note seen = .ok (seen ++ xs) := by
  induction xs generalizing seen with
  | nil => rw [List.append_nil]; rfl
  | cons x xs ih =>
    rw [List.foldlM_cons]
    exact (ih _).trans (by rw [List.append_assoc]; rfl)

/-! ### Looking for an expression and replacing it -/

section Search

variable {s r e : Expr}

theorem occursIn_iff : s.occursIn e = true ↔ e.equal s = true ∨ ∃ c ∈ e.children, s.occursIn c := by
  simp [occursIn, subterms_eq e]

/-- Substitution at a node, when no lambda can declare what is searched for. -/
theorem replace_eq_of_not_parameter (hs : ∀ p, s ≠ .parameter p) :
    replace s r e = if e.equal s then r else e.mapChildren (replace s r) := by
  have hopen : s.shadows e = false := by
    cases e with
    | lambda ps b =>
      cases s with
      | parameter p => exact absurd rfl (hs p)
      | _ => rfl
    | _ => rfl
  have heq : replace s r e = (substitute? s r e).getD (e.mapChildren (replace s r)) :=
    rewrite_eq _ _ e
  rw [heq, substitute?, hopen]
  split <;> rfl

/-- What does not occur leaves nothing to replace. -/
theorem replace_of_not_occursIn (hs : ∀ p, s ≠ .parameter p) (h : s.occursIn e = false) :
    replace s r e = e := by
  induction e using induction_on_children with
  | node e ih =>
    have hnot : ¬ (e.equal s = true ∨ ∃ c ∈ e.children, s.occursIn c) := by
      rw [← occursIn_iff, h]
      exact Bool.false_ne_true
    rw [not_or] at hnot
    have hparts : ∀ c ∈ e.children, replace s r c = id c := by
      intro c hc
      apply ih c hc
      exact Bool.eq_false_iff.mpr fun hoccurs => hnot.2 ⟨c, hc, hoccurs⟩
    rw [replace_eq_of_not_parameter hs, if_neg hnot.1, mapChildren_congr hparts, mapChildren_id]

/-- A part has no more nodes than the whole. -/
theorem length_subterms_le_of_mem {c : Expr} (hc : c ∈ e.children) :
    c.subterms.length ≤ e.subterms.length := by
  have hpart : c.subterms.Sublist (e.children.map subterms).flatten :=
    List.sublist_flatten_of_mem (List.mem_map_of_mem hc)
  rw [subterms_eq e, List.flatMap_def]
  exact Nat.le_succ_of_le hpart.length_le

/-- What is put in for something that occurs is found whole in the result. -/
theorem length_subterms_replace (hs : ∀ p, s ≠ .parameter p) (h : s.occursIn e = true) :
    r.subterms.length ≤ (replace s r e).subterms.length := by
  induction e using induction_on_children with
  | node e ih =>
    rw [replace_eq_of_not_parameter hs]
    by_cases htop : e.equal s
    · exact Nat.le_of_eq (by rw [if_pos htop])
    · rw [if_neg htop]
      obtain ⟨c, hc, hoccurs⟩ := (occursIn_iff.mp h).resolve_left htop
      have hpart : replace s r c ∈ (e.mapChildren (replace s r)).children :=
        mem_children_mapChildren.mpr ⟨c, hc, rfl⟩
      exact Nat.le_trans (ih c hc hoccurs) (length_subterms_le_of_mem hpart)

/-- **What is not found is not replaced, and the other way round.** -/
theorem occursIn_eq_false_iff (hs : ∀ p, s ≠ .parameter p) :
    s.occursIn e = false ↔ ∀ r, replace s r e = e := by
  constructor
  · exact fun h r => replace_of_not_occursIn hs h
  · intro h
    rw [Bool.eq_false_iff]
    intro hoccurs
    -- Something larger than the whole expression cannot be put into it and leave it as it was.
    have hlarger := length_subterms_replace (r := .unary .not e .boolean) hs hoccurs
    rw [h, subterms, List.length_cons] at hlarger
    omega

end Search

/-- **The two walks agree.**  A visitor takes its step at a node and goes on with the parts; a
rewriter that takes the same steps and replaces nothing is stopped when the visitor is, and
otherwise ends in the same state with the expression it started from.  So both come by the same
nodes in the same order.  What a visitor does not find is what a rewriter has nowhere to replace.
-/
theorem walks_agree (e : Expr) :
    (∀ {σ β : Type} (step : σ → Expr → Except β σ) (start : σ),
      e.foldUntil step start =
        step start e >>= (e.children.foldlM fun s c => c.foldUntil step s) ∧
      (e.rewriteM (seeing (stepAt step)) pure).run start = do
        let s ← e.foldUntil step start
        return (e, s)) ∧
    e.foldUntil note [] = .ok e.subterms ∧
    (e.rewriteM (seeing (stepAt note)) pure).run [] = .ok (e, e.subterms) ∧
    ∀ s, (∀ p, s ≠ .parameter p) → (s.occursIn e = false ↔ ∀ r, replace s r e = e) := by
  have hnoted : e.foldUntil note [] = .ok e.subterms := foldlM_note e.subterms []
  refine ⟨fun step start => ⟨foldUntil_eq step start e, run_rewriteM_stepAt step start e⟩, hnoted,
    ?_, fun s hs => occursIn_eq_false_iff hs⟩
  rw [run_rewriteM_stepAt, hnoted]
  rfl

end Expr

namespace Sample

/-- A kitchen whose cook is given an assistant. -/
def staffed : Expr :=
  .memberInit (.default kitchen) [] none
    [.nested ⟨"Kitchen", "Cook", cook, .property⟩
      [.list ⟨"Cook", "Assistants", .list assistant, .property⟩
        [⟨.instanceMethod "List" "Add" [assistant] .void, [.reference ⟨1, "a", assistant⟩]⟩]]]

end Sample

open Sample in
/-- The assistant is found below the nested binding, and can be replaced there; no other one is. -/
theorem Expr.walks_agree_staffed :
    (Expr.reference ⟨1, "a", assistant⟩).occursIn staffed = true ∧
    (∃ r, replace (.reference ⟨1, "a", assistant⟩) r staffed ≠ staffed) ∧
    (Expr.reference ⟨2, "a", assistant⟩).occursIn staffed = false ∧
    ∀ r, replace (.reference ⟨2, "a", assistant⟩) r staffed = staffed := by
  obtain ⟨-, -, -, hsearch⟩ := walks_agree staffed
  have hnone : ∀ id p, Expr.reference ⟨id, "a", assistant⟩ ≠ .parameter p :=
    fun id p h => by cases h
  have hfound : (Expr.reference ⟨1, "a", assistant⟩).occursIn staffed = true := rfl
  refine ⟨hfound, Classical.not_forall.mp fun h => ?_, rfl, (hsearch _ (hnone 2)).mp rfl⟩
  rw [(hsearch _ (hnone 1)).mpr h] at hfound
  cases hfound

end Comprehension
