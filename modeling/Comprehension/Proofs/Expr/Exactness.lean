import Comprehension.Proofs.Expr.Meaning

/-! # Exact types

An expression is exactly typed when what it initialises members with has the types of the members.
Then a member that is read from a fresh construction has the type of what is read, so collapse keeps
types.  Substitution keeps them when an expression of the type of the parameter is put in.

`Expr.HasType e t` says both that `e` is exactly typed and that its type is `t`. -/
namespace Comprehension

/-- The members that bindings assign directly, with their values. -/
def Binding.assignments (bs : List Binding) : List (Member × Expr) :=
  bs.filterMap fun
    | .assignment m e => some (m, e)
    | _ => none

theorem Binding.mem_assignments {bs : List Binding} {m : Member} {e : Expr} :
    (m, e) ∈ Binding.assignments bs ↔ .assignment m e ∈ bs := by
  rw [Binding.assignments, List.mem_filterMap]
  constructor
  · rintro ⟨b, hb, h⟩
    cases b with
    | assignment _ _ =>
      cases h
      exact hb
    | _ => cases h
  · exact fun h => ⟨_, h, rfl⟩

namespace Expr

/-- What the node initialises members with has the types of the members. -/
def NodeExact : Expr → Prop
  | .new _ as (some ms) => ∀ x ∈ ms.zip as, x.2.type = x.1.type
  | .memberInit _ _ _ bs => ∀ x ∈ Binding.assignments bs, x.2.type = x.1.type
  | _ => True

/-- Everywhere in the expression, what members are initialised with has the types of the members. -/
def Exact (e : Expr) : Prop := ∀ x ∈ e.subterms, x.NodeExact

instance (e : Expr) : Decidable e.NodeExact :=
  match e with
  | .new _ as (some ms) => inferInstanceAs (Decidable (∀ x ∈ ms.zip as, x.2.type = x.1.type))
  | .memberInit _ _ _ bs =>
    inferInstanceAs (Decidable (∀ x ∈ Binding.assignments bs, x.2.type = x.1.type))
  | .constant .. | .parameter .. | .staticMember .. | .memberAccess .. | .unary .. | .binary ..
  | .staticCall .. | .methodCall .. | .new _ _ none | .lambda .. | .conditional .. | .reference ..
  | .subQuery .. => inferInstanceAs (Decidable True)

instance (e : Expr) : Decidable e.Exact :=
  inferInstanceAs (Decidable (∀ x ∈ e.subterms, x.NodeExact))

/-- The expression is exactly typed, and this is its type. -/
structure HasType (e : Expr) (t : Ty) : Prop where
  exact : e.Exact
  type : e.type = t

theorem exact_iff {e : Expr} : e.Exact ↔ e.NodeExact ∧ ∀ c ∈ e.children, c.Exact :=
  forall_subterms_iff

theorem Exact.child {e c : Expr} (h : e.Exact) (hc : c ∈ e.children) : c.Exact :=
  (exact_iff.mp h).2 c hc

theorem Exact.hasType {e : Expr} (h : e.Exact) : e.HasType e.type := ⟨h, rfl⟩

theorem hasType_parameter (p : Parameter) : (Expr.parameter p).HasType p.type :=
  ⟨exact_iff.mpr ⟨trivial, fun _ hc => nomatch hc⟩, rfl⟩

theorem hasType_reference (s : Source) : (Expr.reference s).HasType s.itemType :=
  ⟨exact_iff.mpr ⟨trivial, fun _ hc => nomatch hc⟩, rfl⟩

section MapChildren

variable {f : Expr → Expr} {e : Expr}

theorem type_mapChildren (hf : ∀ c ∈ e.children, (f c).type = c.type) :
    (e.mapChildren f).type = e.type := by
  cases e with
  | lambda ps b =>
    have hbody : (f b).type = b.type := hf b (List.mem_singleton.mpr rfl)
    rw [mapChildren, type, type, hbody]
  | _ => rfl

theorem nodeExact_mapChildren (hf : ∀ c ∈ e.children, (f c).type = c.type) (he : e.NodeExact) :
    (e.mapChildren f).NodeExact := by
  cases e with
  | new ctor as ms =>
    cases ms with
    | none => trivial
    | some ms =>
      intro x hx
      rw [List.zip_map_right, List.mem_map] at hx
      obtain ⟨⟨m, a⟩, hma, rfl⟩ := hx
      exact (hf a (List.of_mem_zip hma).2).trans (he _ hma)
  | memberInit ctor as ms bs =>
    rintro ⟨m, v⟩ hx
    obtain ⟨b, hb, hbm⟩ := List.mem_map.mp (Binding.mem_assignments.mp hx)
    cases b with
    | assignment m' a =>
      cases hbm
      have hpart : a ∈ Binding.partsList bs :=
        Binding.mem_partsList.mpr ⟨_, hb, List.mem_singleton.mpr rfl⟩
      have hassigned := he (m, a) (Binding.mem_assignments.mpr hb)
      exact (hf a (List.mem_append_right _ hpart)).trans hassigned
    | _ => cases hbm
  | _ => trivial

/-- A node keeps its type when its parts keep theirs. -/
theorem HasType.mapChildren {t : Ty} (he : e.HasType t)
    (hf : ∀ c ∈ e.children, (f c).HasType c.type) : (e.mapChildren f).HasType t := by
  have htypes : ∀ c ∈ e.children, (f c).type = c.type := fun c hc => (hf c hc).type
  refine ⟨exact_iff.mpr ⟨nodeExact_mapChildren htypes (exact_iff.mp he.exact).1, ?_⟩, ?_⟩
  · intro d hd
    obtain ⟨c, hc, rfl⟩ := mem_children_mapChildren.mp hd
    exact (hf c hc).exact
  · rw [type_mapChildren htypes, he.type]

end MapChildren

/-- **Substitution keeps types**, when what is put in has the type of the parameter. -/
theorem HasType.replace {p : Parameter} {r e : Expr} {t : Ty} (he : e.HasType t)
    (hr : r.HasType p.type) : (Expr.replace (.parameter p) r e).HasType t := by
  induction e using Expr.induction_on_children generalizing t with
  | node e ih =>
    rcases Expr.replace_cases p r e with ⟨rfl, heq⟩ | ⟨-, heq⟩ | ⟨-, -, heq⟩
    · rw [heq, ← he.type]
      exact hr
    · rw [heq]
      exact he
    · rw [heq]
      exact he.mapChildren fun c hc => ih c hc (he.exact.child hc).hasType

end Expr

/-- Members that refer to the same thing have the same type. -/
theorem Member.refersToSame_type {f m : Member} (h : f.refersToSame m) : f.type = m.type := by
  rw [Member.refersToSame, beq_iff_eq] at h
  have hf : f.asProperty.type = f.type := by
    rw [Member.asProperty]
    split <;> rfl
  have hm : m.asProperty.type = m.type := by
    rw [Member.asProperty]
    split <;> rfl
  rw [← hf, h, hm]

namespace Expr

/-- What a member is initialised with has the type of the member. -/
theorem Exact.type_initialValue? {target v : Expr} {m : Member} (h : target.Exact)
    (hv : target.initialValue? m = some v) : v.type = m.type := by
  have hnode := (exact_iff.mp h).1
  cases target with
  | new c as ms =>
    cases ms with
    | none => cases hv
    | some ms =>
      obtain ⟨i, f, hf, ha, hsame⟩ := initialArgument?_getElem? ms as hv
      have hmem : (f, v) ∈ ms.zip as :=
        List.mem_of_getElem? (i := i) (by rw [List.getElem?_zip_eq_some]; exact ⟨hf, ha⟩)
      exact (hnode (f, v) hmem).trans (Member.refersToSame_type hsame)
  | memberInit c as ms bs =>
    obtain ⟨f, hf, hsame⟩ := assignedValue?_mem_assignment bs hv
    exact (hnode (f, v) (Binding.mem_assignments.mpr hf)).trans (Member.refersToSame_type hsame)
  | _ => cases hv

theorem HasType.collapseTop {e : Expr} {t : Ty} (he : e.HasType t) : e.collapseTop.HasType t := by
  rcases e.collapseTop_cases with heq | ⟨target, member, rfl, hv⟩
  · rw [heq]
    exact he
  · have htarget : target.Exact := he.exact.child (List.mem_singleton.mpr rfl)
    refine ⟨htarget.child (initialValue?_mem hv).1, ?_⟩
    rw [htarget.type_initialValue? hv, ← he.type]
    rfl

/-- **Collapse keeps types.** -/
theorem HasType.collapse {e : Expr} {t : Ty} (he : e.HasType t) : e.collapse.HasType t := by
  induction e using Expr.induction_on_children generalizing t with
  | node e ih =>
    rw [Expr.collapse_eq]
    exact (he.mapChildren fun c hc => ih c hc (he.exact.child hc).hasType).collapseTop

end Expr

end Comprehension
