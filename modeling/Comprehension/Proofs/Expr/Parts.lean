import Comprehension.Expr.Rewrite
import Comprehension.Expr.Subterms

/-! # A node and its parts

`Expr.children` takes a node apart and `Expr.rewrite` builds it again, each with its own walk
through argument lists and bindings.  This module makes the two meet.  `Expr.mapChildren` changes
the direct parts of a node and nothing else, so that

* every part of the new node is the image of a part of the old one (`children_mapChildren`), and
* a rewriter is one equation, the same for all kinds of nodes (`rewrite_eq`).

With `Expr.induction_on_children`, which gives the hypothesis for every direct part, most facts
about walks need no list of node kinds. -/
namespace Comprehension

/-! ### Changing the parts of a node -/

/-- Changes the arguments of an added element. -/
def ElementInit.mapParts (f : Expr → Expr) (i : ElementInit) : ElementInit :=
  ⟨i.addMethod, i.arguments.map f⟩

mutual

/-- Changes the expressions that a binding holds. -/
def Binding.mapParts (f : Expr → Expr) : Binding → Binding
  | .assignment m e => .assignment m (f e)
  | .list m is => .list m (is.map (ElementInit.mapParts f))
  | .nested m bs => .nested m (Binding.mapPartsList f bs)

/-- Changes the expressions that several bindings hold. -/
def Binding.mapPartsList (f : Expr → Expr) : List Binding → List Binding
  | [] => []
  | b :: bs => b.mapParts f :: Binding.mapPartsList f bs

end

theorem Binding.mapPartsList_eq_map (f : Expr → Expr) (bs : List Binding) :
    Binding.mapPartsList f bs = bs.map (Binding.mapParts f) := by
  induction bs with
  | nil => rfl
  | cons b bs ih => rw [Binding.mapPartsList, ih, List.map_cons]

/-- Changes the direct parts of a node. -/
def Expr.mapChildren (f : Expr → Expr) : Expr → Expr
  | .constant v t => .constant v t
  | .parameter p => .parameter p
  | .staticMember m => .staticMember m
  | .memberAccess e m => .memberAccess (f e) m
  | .unary o e t => .unary o (f e) t
  | .binary o l r t => .binary o (f l) (f r) t
  | .staticCall m as => .staticCall m (as.map f)
  | .methodCall e m as => .methodCall (f e) m (as.map f)
  | .new c as ms => .new c (as.map f) ms
  | .memberInit c as ms bs => .memberInit c (as.map f) ms (bs.map (Binding.mapParts f))
  | .lambda ps b => .lambda ps (f b)
  | .conditional c t e y => .conditional (f c) (f t) (f e) y
  | .reference s => .reference s
  | .subQuery q t => .subQuery q t

theorem ElementInit.parts_map (f : Expr → Expr) (is : List ElementInit) :
    (is.map (ElementInit.mapParts f)).flatMap ElementInit.arguments =
      (is.flatMap ElementInit.arguments).map f := by
  induction is with
  | nil => rfl
  | cons i is ih =>
    rw [List.map_cons, List.flatMap_cons, List.flatMap_cons, List.map_append, ih]
    rfl

theorem Binding.mem_partsList {bs : List Binding} {c : Expr} :
    c ∈ Binding.partsList bs ↔ ∃ b ∈ bs, c ∈ b.parts := by
  induction bs with
  | nil => simp [Binding.partsList]
  | cons b bs ih => simp [Binding.partsList, ih]

mutual

theorem Binding.parts_mapParts (f : Expr → Expr) : (b : Binding) →
    (b.mapParts f).parts = b.parts.map f
  | .assignment _ _ => rfl
  | .list _ is => ElementInit.parts_map f is
  | .nested _ bs => Binding.partsList_mapPartsList f bs

theorem Binding.partsList_mapPartsList (f : Expr → Expr) : (bs : List Binding) →
    Binding.partsList (Binding.mapPartsList f bs) = (Binding.partsList bs).map f
  | [] => rfl
  | b :: bs => by
    rw [Binding.mapPartsList, Binding.partsList, Binding.partsList, Binding.parts_mapParts f b,
      Binding.partsList_mapPartsList f bs, List.map_append]

end

/-- The parts of the new node are the changed parts of the old one, in the same order. -/
theorem Expr.children_mapChildren (f : Expr → Expr) (e : Expr) :
    (e.mapChildren f).children = e.children.map f := by
  cases e with
  | memberInit c as ms bs =>
    rw [Expr.mapChildren, Expr.children, Expr.children, ← Binding.mapPartsList_eq_map,
      Binding.partsList_mapPartsList, List.map_append]
  | _ => rfl

theorem Expr.mem_children_mapChildren {f : Expr → Expr} {e d : Expr} :
    d ∈ (e.mapChildren f).children ↔ ∃ c ∈ e.children, f c = d := by
  rw [Expr.children_mapChildren, List.mem_map]

mutual

theorem Binding.mapParts_id : (b : Binding) → b.mapParts id = b
  | .assignment _ _ => rfl
  | .list m is => by
    have hinit : ElementInit.mapParts id = id := by
      funext ⟨m, as⟩
      rw [ElementInit.mapParts, List.map_id]
      rfl
    rw [Binding.mapParts, hinit, List.map_id]
  | .nested m bs => by rw [Binding.mapParts, Binding.mapPartsList_id bs]

theorem Binding.mapPartsList_id : (bs : List Binding) → Binding.mapPartsList id bs = bs
  | [] => rfl
  | b :: bs => by rw [Binding.mapPartsList, Binding.mapParts_id b, Binding.mapPartsList_id bs]

end

/-- Parts that stay the same leave the node the same. -/
theorem Expr.mapChildren_id (e : Expr) : e.mapChildren id = e := by
  cases e with
  | staticCall _ _ | new _ _ _ => rw [Expr.mapChildren, List.map_id]
  | methodCall t m as =>
    rw [Expr.mapChildren, List.map_id]
    rfl
  | memberInit c as ms bs =>
    rw [Expr.mapChildren, List.map_id, ← Binding.mapPartsList_eq_map, Binding.mapPartsList_id]
  | _ => rfl

section Images

variable {f g : Expr → Expr}

theorem ElementInit.mapParts_congr {is : List ElementInit}
    (h : ∀ c ∈ is.flatMap ElementInit.arguments, f c = g c) :
    is.map (ElementInit.mapParts f) = is.map (ElementInit.mapParts g) := by
  refine List.map_congr_left fun i hi => ?_
  rw [ElementInit.mapParts, ElementInit.mapParts,
    List.map_congr_left fun c hc => h c (List.mem_flatMap.mpr ⟨i, hi, hc⟩)]

mutual

theorem Binding.mapParts_congr : (b : Binding) → (∀ c ∈ b.parts, f c = g c) →
    b.mapParts f = b.mapParts g
  | .assignment m e, h => by
    rw [Binding.mapParts, Binding.mapParts, h e (List.mem_singleton.mpr rfl)]
  | .list m is, h => by
    rw [Binding.mapParts, Binding.mapParts, ElementInit.mapParts_congr h]
  | .nested m bs, h => by
    rw [Binding.mapParts, Binding.mapParts, Binding.mapPartsList_congr bs h]

theorem Binding.mapPartsList_congr : (bs : List Binding) →
    (∀ c ∈ Binding.partsList bs, f c = g c) →
    Binding.mapPartsList f bs = Binding.mapPartsList g bs
  | [], _ => rfl
  | b :: bs, h => by
    rw [Binding.partsList, List.forall_mem_append] at h
    rw [Binding.mapPartsList, Binding.mapPartsList, Binding.mapParts_congr b h.1,
      Binding.mapPartsList_congr bs h.2]

end

/-- A node depends on what its parts become, and on nothing else. -/
theorem Expr.mapChildren_congr {e : Expr} (h : ∀ c ∈ e.children, f c = g c) :
    e.mapChildren f = e.mapChildren g := by
  cases e with
  | memberInit c as ms bs =>
    rw [Expr.children, List.forall_mem_append] at h
    rw [Expr.mapChildren, Expr.mapChildren, List.map_congr_left h.1,
      ← Binding.mapPartsList_eq_map, ← Binding.mapPartsList_eq_map,
      Binding.mapPartsList_congr bs h.2]
  | _ => simp_all [Expr.mapChildren, Expr.children]

mutual

theorem Binding.mapParts_mapParts : (b : Binding) →
    (b.mapParts f).mapParts g = b.mapParts (g ∘ f)
  | .assignment _ _ => rfl
  | .list m is => by
    have hinit :
        ElementInit.mapParts g ∘ ElementInit.mapParts f = ElementInit.mapParts (g ∘ f) := by
      funext i
      simp [ElementInit.mapParts]
    rw [Binding.mapParts, Binding.mapParts, Binding.mapParts, List.map_map, hinit]
  | .nested m bs => by
    rw [Binding.mapParts, Binding.mapParts, Binding.mapParts, Binding.mapPartsList_mapPartsList bs]

theorem Binding.mapPartsList_mapPartsList : (bs : List Binding) →
    Binding.mapPartsList g (Binding.mapPartsList f bs) = Binding.mapPartsList (g ∘ f) bs
  | [] => rfl
  | b :: bs => by
    rw [Binding.mapPartsList, Binding.mapPartsList, Binding.mapPartsList,
      Binding.mapParts_mapParts b, Binding.mapPartsList_mapPartsList bs]

end

/-- Changing the parts twice changes them once by both. -/
theorem Expr.mapChildren_mapChildren (e : Expr) :
    (e.mapChildren f).mapChildren g = e.mapChildren (g ∘ f) := by
  cases e with
  | memberInit c as ms bs =>
    rw [Expr.mapChildren, Expr.mapChildren, Expr.mapChildren, List.map_map,
      ← Binding.mapPartsList_eq_map, ← Binding.mapPartsList_eq_map, ← Binding.mapPartsList_eq_map,
      Binding.mapPartsList_mapPartsList]
  | _ => simp [Expr.mapChildren]

end Images

/-- What holds of every node of an expression holds at its top and in all its direct parts. -/
theorem Expr.forall_subterms_iff {P : Expr → Prop} {e : Expr} :
    (∀ x ∈ e.subterms, P x) ↔ P e ∧ ∀ c ∈ e.children, ∀ x ∈ c.subterms, P x := by
  rw [Expr.subterms_eq, List.forall_mem_cons]
  simp only [List.mem_flatMap, forall_exists_index, and_imp]
  exact and_congr_right fun _ => ⟨fun h c hc x hx => h x c hc hx, fun h x c hc hx => h c hc x hx⟩

/-! ### Rewriting as one equation -/

section Rewrite

variable (enter : Expr → Option Expr) (leave : Expr → Expr)

theorem Expr.rewriteListM_run : (es : List Expr) →
    Expr.rewriteListM (m := Id) (fun x => pure (enter x)) (fun x => pure (leave x)) es =
      es.map (Expr.rewrite enter leave)
  | [] => rfl
  | e :: es => by
    rw [Expr.rewriteListM, Expr.rewriteListM_run es]
    rfl

theorem ElementInit.rewriteListM_run : (is : List ElementInit) →
    ElementInit.rewriteListM (m := Id) (fun x => pure (enter x)) (fun x => pure (leave x)) is =
      is.map (ElementInit.mapParts (Expr.rewrite enter leave))
  | [] => rfl
  | ⟨m, as⟩ :: is => by
    rw [ElementInit.rewriteListM, ElementInit.rewriteListM_run is, ElementInit.rewriteM,
      Expr.rewriteListM_run]
    rfl

mutual

theorem Binding.rewriteM_run : (b : Binding) →
    Binding.rewriteM (m := Id) (fun x => pure (enter x)) (fun x => pure (leave x)) b =
      b.mapParts (Expr.rewrite enter leave)
  | .assignment _ _ => rfl
  | .list _ is => by
    rw [Binding.rewriteM, ElementInit.rewriteListM_run]
    rfl
  | .nested _ bs => by
    rw [Binding.rewriteM, Binding.rewriteListM_run bs, Binding.mapParts,
      Binding.mapPartsList_eq_map]
    rfl

theorem Binding.rewriteListM_run : (bs : List Binding) →
    Binding.rewriteListM (m := Id) (fun x => pure (enter x)) (fun x => pure (leave x)) bs =
      bs.map (Binding.mapParts (Expr.rewrite enter leave))
  | [] => rfl
  | b :: bs => by
    rw [Binding.rewriteListM, Binding.rewriteM_run b, Binding.rewriteListM_run bs]
    rfl

end

theorem Expr.descend_run (e : Expr) (rebuilt : Id Expr) :
    Expr.descend (m := Id) (fun x => pure (enter x)) (fun x => pure (leave x)) e rebuilt =
      (enter e).getD (leave rebuilt) := by
  cases h : enter e <;> simp [Expr.descend, h] <;> rfl

/-- **A rewriter in one equation.**  Either `enter` replaces the node, or `leave` gets the node with
its parts rewritten. -/
theorem Expr.rewrite_eq (e : Expr) :
    e.rewrite enter leave = (enter e).getD (leave (e.mapChildren (Expr.rewrite enter leave))) := by
  show Expr.rewriteM (m := Id) _ _ e = _
  cases e with
  | staticCall f as =>
    rw [Expr.rewriteM, Expr.descend_run, Expr.rewriteListM_run]
    rfl
  | methodCall t f as =>
    rw [Expr.rewriteM, Expr.descend_run, Expr.rewriteListM_run]
    rfl
  | new c as ms =>
    rw [Expr.rewriteM, Expr.descend_run, Expr.rewriteListM_run]
    rfl
  | memberInit c as ms bs =>
    rw [Expr.rewriteM, Expr.descend_run, Expr.rewriteListM_run, Binding.rewriteListM_run]
    rfl
  | _ =>
    rw [Expr.rewriteM, Expr.descend_run]
    rfl

end Rewrite

/-! ### Induction on the parts -/

theorem ElementInit.sizeOf_lt_of_mem_arguments {is : List ElementInit} {c : Expr}
    (h : c ∈ is.flatMap ElementInit.arguments) : sizeOf c < sizeOf is := by
  obtain ⟨⟨m, as⟩, hi, hc⟩ := List.mem_flatMap.mp h
  have hi := List.sizeOf_lt_of_mem hi
  have hc := List.sizeOf_lt_of_mem (show c ∈ as from hc)
  rw [ElementInit.mk.sizeOf_spec] at hi
  omega

mutual

theorem Binding.sizeOf_lt_of_mem_parts {c : Expr} : (b : Binding) → c ∈ b.parts →
    sizeOf c < sizeOf b
  | .assignment m e, h => by
    rw [Binding.parts, List.mem_singleton] at h
    rw [h, Binding.assignment.sizeOf_spec]
    omega
  | .list m is, h => by
    have := ElementInit.sizeOf_lt_of_mem_arguments h
    rw [Binding.list.sizeOf_spec]
    omega
  | .nested m bs, h => by
    have := Binding.sizeOf_lt_of_mem_partsList bs h
    rw [Binding.nested.sizeOf_spec]
    omega

theorem Binding.sizeOf_lt_of_mem_partsList {c : Expr} : (bs : List Binding) →
    c ∈ Binding.partsList bs → sizeOf c < sizeOf bs
  | [], h => by cases h
  | b :: bs, h => by
    rw [Binding.partsList, List.mem_append] at h
    rw [List.cons.sizeOf_spec]
    rcases h with h | h
    · have := Binding.sizeOf_lt_of_mem_parts b h
      omega
    · have := Binding.sizeOf_lt_of_mem_partsList bs h
      omega

end

/-- A direct part is smaller than its node. -/
theorem Expr.sizeOf_lt_of_mem_children {c e : Expr} (h : c ∈ e.children) : sizeOf c < sizeOf e := by
  cases e with
  | constant v t => cases h
  | parameter p => cases h
  | staticMember m => cases h
  | reference s => cases h
  | subQuery q t => cases h
  | memberAccess t m =>
    rw [List.mem_singleton.mp h, Expr.memberAccess.sizeOf_spec]
    omega
  | unary o t y =>
    rw [List.mem_singleton.mp h, Expr.unary.sizeOf_spec]
    omega
  | lambda ps b =>
    rw [List.mem_singleton.mp h, Expr.lambda.sizeOf_spec]
    omega
  | binary o l r t =>
    rw [Expr.binary.sizeOf_spec]
    simp only [Expr.children, List.mem_cons, List.not_mem_nil, or_false] at h
    rcases h with rfl | rfl <;> omega
  | conditional k t f y =>
    rw [Expr.conditional.sizeOf_spec]
    simp only [Expr.children, List.mem_cons, List.not_mem_nil, or_false] at h
    rcases h with rfl | rfl | rfl <;> omega
  | staticCall m as =>
    have := List.sizeOf_lt_of_mem (show c ∈ as from h)
    rw [Expr.staticCall.sizeOf_spec]
    omega
  | methodCall t m as =>
    rw [Expr.methodCall.sizeOf_spec]
    rcases List.mem_cons.mp h with rfl | h
    · omega
    · have := List.sizeOf_lt_of_mem h
      omega
  | new k as ms =>
    have := List.sizeOf_lt_of_mem (show c ∈ as from h)
    rw [Expr.new.sizeOf_spec]
    omega
  | memberInit k as ms bs =>
    rw [Expr.memberInit.sizeOf_spec]
    rcases List.mem_append.mp h with h | h
    · have := List.sizeOf_lt_of_mem h
      omega
    · have := Binding.sizeOf_lt_of_mem_partsList bs h
      omega

/-- **Induction on the parts of a node.**  What holds of a node whenever it holds of all its direct
parts holds of every expression. -/
theorem Expr.induction_on_children {motive : Expr → Prop}
    (node : ∀ e, (∀ c ∈ e.children, motive c) → motive e) (e : Expr) : motive e :=
  node e fun c hc =>
    have := Expr.sizeOf_lt_of_mem_children hc
    Expr.induction_on_children node c
termination_by sizeOf e

theorem Expr.mem_subterms_of_child {c e : Expr} (hc : c ∈ e.children) : c ∈ e.subterms := by
  rw [Expr.subterms_eq e]
  refine List.mem_cons_of_mem _ (List.mem_flatMap.mpr ⟨c, hc, ?_⟩)
  rw [Expr.subterms_eq c]
  exact List.mem_cons_self ..

/-- The nodes of a part are nodes of the expression. -/
theorem Expr.subterms_trans {x y e : Expr} (hy : y ∈ x.subterms) (hx : x ∈ e.subterms) :
    y ∈ e.subterms := by
  induction e using Expr.induction_on_children with
  | node e ih =>
    rw [Expr.subterms_eq, List.mem_cons, List.mem_flatMap] at hx
    rcases hx with rfl | ⟨c, hc, hx⟩
    · exact hy
    · rw [Expr.subterms_eq]
      exact List.mem_cons_of_mem _ (List.mem_flatMap.mpr ⟨c, hc, ih c hc hx⟩)

end Comprehension
