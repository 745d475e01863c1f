import Comprehension.Expr.Collapse
import Comprehension.Expr.Replace
import Comprehension.Proofs.Expr.Parts

/-! # What occurs in an expression

A parameter occurs free where no lambda around it declares a parameter of the same name and type.
`Expr.freeParameters` lists the free occurrences in walk order, as `Expr.references` lists the query
sources referred to; neither looks into queries inside expressions.

Substitution and collapse add nothing of their own: what occurs afterwards was there before, or came
with what was put in (`freeParameters_replace`, `references_replace`, `freeParameters_collapse`,
`references_collapse`). -/
namespace Comprehension

/-! ### Free parameters -/

/-- The parameters that a node declares for what is below it. -/
def Expr.declared : Expr → List Parameter
  | .lambda ps _ => ps
  | _ => []

mutual

/-- The parameters that occur free, in walk order. -/
def Expr.freeParameters : Expr → List Parameter
  | .constant .. => []
  | .parameter p => [p]
  | .staticMember .. => []
  | .memberAccess e _ => e.freeParameters
  | .unary _ e _ => e.freeParameters
  | .binary _ l r _ => l.freeParameters ++ r.freeParameters
  | .staticCall _ as => Expr.freeParametersList as
  | .methodCall e _ as => e.freeParameters ++ Expr.freeParametersList as
  | .new _ as _ => Expr.freeParametersList as
  | .memberInit _ as _ bs => Expr.freeParametersList as ++ Binding.freeParametersList bs
  | .lambda ps b => b.freeParameters.filter fun p => p ∉ ps
  | .conditional c t f _ => c.freeParameters ++ t.freeParameters ++ f.freeParameters
  | .reference .. => []
  | .subQuery .. => []

def Expr.freeParametersList : List Expr → List Parameter
  | [] => []
  | e :: es => e.freeParameters ++ Expr.freeParametersList es

def Binding.freeParameters : Binding → List Parameter
  | .assignment _ e => e.freeParameters
  | .list _ is => ElementInit.freeParametersList is
  | .nested _ bs => Binding.freeParametersList bs

def Binding.freeParametersList : List Binding → List Parameter
  | [] => []
  | b :: bs => b.freeParameters ++ Binding.freeParametersList bs

def ElementInit.freeParameters : ElementInit → List Parameter
  | ⟨_, as⟩ => Expr.freeParametersList as

def ElementInit.freeParametersList : List ElementInit → List Parameter
  | [] => []
  | i :: is => i.freeParameters ++ ElementInit.freeParametersList is

end

theorem Expr.freeParametersList_eq_flatMap : (es : List Expr) →
    Expr.freeParametersList es = es.flatMap Expr.freeParameters
  | [] => rfl
  | e :: es => by
    rw [Expr.freeParametersList, Expr.freeParametersList_eq_flatMap es, List.flatMap_cons]

theorem ElementInit.freeParametersList_eq_flatMap : (is : List ElementInit) →
    ElementInit.freeParametersList is =
      (is.flatMap ElementInit.arguments).flatMap Expr.freeParameters
  | [] => rfl
  | ⟨m, as⟩ :: is => by
    rw [ElementInit.freeParametersList, ElementInit.freeParameters,
      Expr.freeParametersList_eq_flatMap, ElementInit.freeParametersList_eq_flatMap is,
      List.flatMap_cons, List.flatMap_append]

mutual

theorem Binding.freeParameters_eq_flatMap : (b : Binding) →
    b.freeParameters = b.parts.flatMap Expr.freeParameters
  | .assignment _ e => by simp [Binding.freeParameters, Binding.parts]
  | .list _ is => by
    rw [Binding.freeParameters, Binding.parts, ElementInit.freeParametersList_eq_flatMap]
  | .nested _ bs => by
    rw [Binding.freeParameters, Binding.parts, Binding.freeParametersList_eq_flatMap bs]

theorem Binding.freeParametersList_eq_flatMap : (bs : List Binding) →
    Binding.freeParametersList bs = (Binding.partsList bs).flatMap Expr.freeParameters
  | [] => rfl
  | b :: bs => by
    rw [Binding.freeParametersList, Binding.partsList, Binding.freeParameters_eq_flatMap b,
      Binding.freeParametersList_eq_flatMap bs, List.flatMap_append]

end

/-- A parameter occurs free in a node that does not declare it, when the node is the parameter or
one of its parts has it free. -/
theorem Expr.mem_freeParameters_iff {q : Parameter} {e : Expr} :
    q ∈ e.freeParameters ↔
      q ∉ e.declared ∧ (e = .parameter q ∨ ∃ c ∈ e.children, q ∈ c.freeParameters) := by
  cases e with
  | parameter p =>
    simp only [Expr.freeParameters, Expr.declared, Expr.children, List.mem_singleton]
    constructor
    · rintro rfl
      exact ⟨List.not_mem_nil, Or.inl rfl⟩
    · rintro ⟨-, h | ⟨c, hc, -⟩⟩
      · exact (Expr.parameter.inj h).symm
      · cases hc
  | lambda ps b =>
    simp [Expr.freeParameters, Expr.declared, Expr.children, and_comm]
  | _ =>
    simp [Expr.freeParameters, Expr.declared, Expr.children, Expr.freeParametersList_eq_flatMap,
      Binding.freeParametersList_eq_flatMap, or_and_right, exists_or]

/-- A node refers to a source when it is the reference or one of its parts refers to it. -/
theorem Expr.mem_references_iff {s : Source} {e : Expr} :
    s ∈ e.references ↔ e = .reference s ∨ ∃ c ∈ e.children, s ∈ c.references := by
  have htop : e.source? = some s ↔ e = .reference s := by
    cases e <;> simp [Expr.source?]
  rw [Expr.references, Expr.subterms_eq, List.filterMap_cons]
  have hrest : s ∈ (e.children.flatMap Expr.subterms).filterMap Expr.source? ↔
      ∃ c ∈ e.children, s ∈ c.references := by
    simp only [Expr.references, List.mem_filterMap, List.mem_flatMap]
    constructor
    · rintro ⟨x, ⟨c, hc, hx⟩, hs⟩
      exact ⟨c, hc, x, hx, hs⟩
    · rintro ⟨c, hc, x, hx, hs⟩
      exact ⟨x, ⟨c, hc, hx⟩, hs⟩
  rw [← htop, ← hrest]
  cases h : e.source? with
  | none => simp
  | some t => simp [eq_comm]

theorem Expr.mem_references_reference {s t : Source} :
    t ∈ (Expr.reference s).references ↔ t = s := List.mem_singleton

/-! ### Changing parts keeps the node -/

section MapChildren

variable (f : Expr → Expr) (e : Expr)

@[simp] theorem Expr.declared_mapChildren : (e.mapChildren f).declared = e.declared := by
  cases e <;> rfl

@[simp] theorem Expr.mapChildren_eq_parameter {q : Parameter} :
    e.mapChildren f = .parameter q ↔ e = .parameter q := by
  cases e <;> simp [Expr.mapChildren]

@[simp] theorem Expr.mapChildren_eq_reference {s : Source} :
    e.mapChildren f = .reference s ↔ e = .reference s := by
  cases e <;> simp [Expr.mapChildren]

end MapChildren

theorem Expr.mem_freeParameters_mapChildren {f : Expr → Expr} {q : Parameter} {e : Expr} :
    q ∈ (e.mapChildren f).freeParameters ↔
      q ∉ e.declared ∧ (e = .parameter q ∨ ∃ c ∈ e.children, q ∈ (f c).freeParameters) := by
  rw [Expr.mem_freeParameters_iff, Expr.declared_mapChildren, Expr.mapChildren_eq_parameter]
  simp only [Expr.mem_children_mapChildren]
  constructor
  · rintro ⟨hd, h | ⟨_, ⟨c, hc, rfl⟩, hq⟩⟩
    · exact ⟨hd, Or.inl h⟩
    · exact ⟨hd, Or.inr ⟨c, hc, hq⟩⟩
  · rintro ⟨hd, h | ⟨c, hc, hq⟩⟩
    · exact ⟨hd, Or.inl h⟩
    · exact ⟨hd, Or.inr ⟨f c, ⟨c, hc, rfl⟩, hq⟩⟩

theorem Expr.mem_references_mapChildren {f : Expr → Expr} {s : Source} {e : Expr} :
    s ∈ (e.mapChildren f).references ↔
      e = .reference s ∨ ∃ c ∈ e.children, s ∈ (f c).references := by
  rw [Expr.mem_references_iff, Expr.mapChildren_eq_reference]
  simp only [Expr.mem_children_mapChildren]
  constructor
  · rintro (h | ⟨_, ⟨c, hc, rfl⟩, hs⟩)
    · exact Or.inl h
    · exact Or.inr ⟨c, hc, hs⟩
  · rintro (h | ⟨c, hc, hs⟩)
    · exact Or.inl h
    · exact Or.inr ⟨f c, ⟨c, hc, rfl⟩, hs⟩

/-! ### Substitution -/

theorem Expr.equal_parameter_iff {e : Expr} {p : Parameter} :
    e.equal (.parameter p) = true ↔ e = .parameter p := by
  cases e <;> simp [Expr.equal]

theorem Expr.shadows_parameter_iff {e : Expr} {p : Parameter} :
    (Expr.parameter p).shadows e = true ↔ p ∈ e.declared := by
  cases e <;> simp [Expr.shadows, Expr.declared]

/-- **What substitution does at a node.**  The parameter itself gives way, a node that declares it
anew stays as it is, and every other node is built again around its substituted parts. -/
theorem Expr.replace_cases (p : Parameter) (r e : Expr) :
    (e = .parameter p ∧ Expr.replace (.parameter p) r e = r) ∨
    (p ∈ e.declared ∧ Expr.replace (.parameter p) r e = e) ∨
    (e ≠ .parameter p ∧ p ∉ e.declared ∧
      Expr.replace (.parameter p) r e = e.mapChildren (Expr.replace (.parameter p) r)) := by
  have heq : Expr.replace (.parameter p) r e =
      (Expr.substitute? (.parameter p) r e).getD
        (e.mapChildren (Expr.replace (.parameter p) r)) := Expr.rewrite_eq _ _ e
  rw [heq, Expr.substitute?]
  by_cases hp : e = .parameter p
  · exact Or.inl ⟨hp, by rw [if_pos (Expr.equal_parameter_iff.mpr hp)]; rfl⟩
  · rw [if_neg (fun h => hp (Expr.equal_parameter_iff.mp h))]
    by_cases hd : p ∈ e.declared
    · exact Or.inr (Or.inl ⟨hd, by rw [if_pos (Expr.shadows_parameter_iff.mpr hd)]; rfl⟩)
    · refine Or.inr (Or.inr ⟨hp, hd, ?_⟩)
      rw [if_neg (fun h => hd (Expr.shadows_parameter_iff.mp h))]
      rfl

theorem Expr.replace_parameter_self (p : Parameter) (r : Expr) :
    Expr.replace (.parameter p) r (.parameter p) = r := by
  rcases Expr.replace_cases p r (.parameter p) with ⟨-, heq⟩ | ⟨hd, -⟩ | ⟨hne, -, -⟩
  · exact heq
  · cases hd
  · exact absurd rfl hne

/-- A parameter that is free after a substitution was free before and is another one, or is free in
what was put in. -/
theorem Expr.freeParameters_replace {p q : Parameter} {r e : Expr}
    (h : q ∈ (Expr.replace (.parameter p) r e).freeParameters) :
    (q ∈ e.freeParameters ∧ q ≠ p) ∨ q ∈ r.freeParameters := by
  induction e using Expr.induction_on_children with
  | node e ih =>
    rcases Expr.replace_cases p r e with ⟨-, heq⟩ | ⟨hd, heq⟩ | ⟨hne, hd, heq⟩
    · rw [heq] at h
      exact Or.inr h
    · rw [heq] at h
      -- The node declares `p`, so `p` is not free in it.
      refine Or.inl ⟨h, ?_⟩
      rintro rfl
      exact (Expr.mem_freeParameters_iff.mp h).1 hd
    · rw [heq, Expr.mem_freeParameters_mapChildren] at h
      obtain ⟨hq, rfl | ⟨c, hc, hcq⟩⟩ := h
      · refine Or.inl ⟨Expr.mem_freeParameters_iff.mpr ⟨hq, Or.inl rfl⟩, ?_⟩
        rintro rfl
        exact hne rfl
      · rcases ih c hc hcq with ⟨hfree, hqp⟩ | hr
        · exact Or.inl ⟨Expr.mem_freeParameters_iff.mpr ⟨hq, Or.inr ⟨c, hc, hfree⟩⟩, hqp⟩
        · exact Or.inr hr

/-- A source referred to after a substitution was referred to before, or comes with what was put
in. -/
theorem Expr.references_replace {p : Parameter} {s : Source} {r e : Expr}
    (h : s ∈ (Expr.replace (.parameter p) r e).references) :
    s ∈ e.references ∨ s ∈ r.references := by
  induction e using Expr.induction_on_children with
  | node e ih =>
    rcases Expr.replace_cases p r e with ⟨-, heq⟩ | ⟨-, heq⟩ | ⟨-, -, heq⟩
    · rw [heq] at h
      exact Or.inr h
    · rw [heq] at h
      exact Or.inl h
    · rw [heq, Expr.mem_references_mapChildren] at h
      obtain rfl | ⟨c, hc, hcs⟩ := h
      · exact Or.inl (Expr.mem_references_iff.mpr (Or.inl rfl))
      · rcases ih c hc hcs with hs | hr
        · exact Or.inl (Expr.mem_references_iff.mpr (Or.inr ⟨c, hc, hs⟩))
        · exact Or.inr hr

/-! ### Collapse -/

theorem initialArgument?_mem {m : Member} {v : Expr} : (ms : List Member) → (as : List Expr) →
    initialArgument? m ms as = some v → v ∈ as
  | [], _, h => by cases h
  | f :: ms, as, h => by
    rw [initialArgument?] at h
    split at h
    · exact List.mem_of_head? h
    · exact List.mem_of_mem_tail (initialArgument?_mem ms as.tail h)

theorem assignedValue?_mem {m : Member} {v : Expr} : (bs : List Binding) →
    assignedValue? m bs = some v → v ∈ Binding.partsList bs
  | [], h => by cases h
  | .assignment f e :: bs, h => by
    rw [assignedValue?] at h
    split at h
    · rw [← Option.some.inj h]
      exact List.mem_cons_self ..
    · exact List.mem_cons_of_mem _ (assignedValue?_mem bs h)
  | .list f is :: bs, h => List.mem_append_right _ (assignedValue?_mem bs h)
  | .nested f bs' :: bs, h => List.mem_append_right _ (assignedValue?_mem bs h)

/-- The value of a member is a direct part of its construction. -/
theorem Expr.initialValue?_mem {m : Member} {target v : Expr}
    (h : target.initialValue? m = some v) : v ∈ target.children ∧ target.declared = [] := by
  cases target with
  | new c as ms =>
    cases ms with
    | none => cases h
    | some ms => exact ⟨initialArgument?_mem ms as h, rfl⟩
  | memberInit c as ms bs => exact ⟨List.mem_append_right _ (assignedValue?_mem bs h), rfl⟩
  | _ => cases h

section Initial

variable (f : Expr → Expr) (m : Member)

theorem initialArgument?_map : (ms : List Member) → (as : List Expr) →
    initialArgument? m ms (as.map f) = (initialArgument? m ms as).map f
  | [], _ => rfl
  | g :: ms, as => by
    rw [initialArgument?, initialArgument?, List.head?_map, ← List.map_tail,
      initialArgument?_map ms as.tail]
    split <;> rfl

theorem assignedValue?_map (bs : List Binding) :
    assignedValue? m (bs.map (Binding.mapParts f)) = (assignedValue? m bs).map f := by
  induction bs with
  | nil => rfl
  | cons b bs ih =>
    cases b with
    | assignment g e =>
      rw [List.map_cons, Binding.mapParts, assignedValue?, assignedValue?, ih]
      split <;> rfl
    | list g is => exact ih
    | nested g bs' => exact ih

/-- What a member is initialised with changes as a part. -/
theorem Expr.initialValue?_mapChildren (e : Expr) :
    (e.mapChildren f).initialValue? m = (e.initialValue? m).map f := by
  cases e with
  | new c as ms =>
    cases ms with
    | none => rfl
    | some ms => exact initialArgument?_map f m ms as
  | memberInit c as ms bs => exact assignedValue?_map f m bs
  | _ => rfl

end Initial

/-- **What collapse does at the top.**  It either leaves the node, or puts the value of a member in
the place of the read. -/
theorem Expr.collapseTop_cases (e : Expr) :
    e.collapseTop = e ∨ ∃ target member, e = .memberAccess target member ∧
      target.initialValue? member = some e.collapseTop := by
  cases e with
  | memberAccess target member =>
    rw [Expr.collapseTop]
    cases h : target.initialValue? member with
    | none => exact Or.inl rfl
    | some v => exact Or.inr ⟨target, member, rfl, h⟩
  | _ => exact Or.inl rfl

theorem Expr.collapse_eq (e : Expr) :
    e.collapse = (e.mapChildren Expr.collapse).collapseTop := Expr.rewrite_eq _ _ e

theorem Expr.freeParameters_collapseTop {q : Parameter} {e : Expr}
    (h : q ∈ e.collapseTop.freeParameters) : q ∈ e.freeParameters := by
  rcases e.collapseTop_cases with heq | ⟨target, member, rfl, hv⟩
  · rwa [heq] at h
  · obtain ⟨hmem, hdecl⟩ := Expr.initialValue?_mem hv
    have htarget : q ∈ target.freeParameters := by
      rw [Expr.mem_freeParameters_iff, hdecl]
      exact ⟨List.not_mem_nil, Or.inr ⟨_, hmem, h⟩⟩
    exact htarget

theorem Expr.references_collapseTop {s : Source} {e : Expr}
    (h : s ∈ e.collapseTop.references) : s ∈ e.references := by
  rcases e.collapseTop_cases with heq | ⟨target, member, rfl, hv⟩
  · rwa [heq] at h
  · have htarget : s ∈ target.references :=
      Expr.mem_references_iff.mpr (Or.inr ⟨_, (Expr.initialValue?_mem hv).1, h⟩)
    exact Expr.mem_references_iff.mpr (Or.inr ⟨target, List.mem_singleton.mpr rfl, htarget⟩)

/-- Collapse frees no parameter. -/
theorem Expr.freeParameters_collapse {q : Parameter} {e : Expr}
    (h : q ∈ e.collapse.freeParameters) : q ∈ e.freeParameters := by
  induction e using Expr.induction_on_children with
  | node e ih =>
    rw [Expr.collapse_eq] at h
    obtain ⟨hq, rfl | ⟨c, hc, hcq⟩⟩ :=
      Expr.mem_freeParameters_mapChildren.mp (Expr.freeParameters_collapseTop h)
    · exact Expr.mem_freeParameters_iff.mpr ⟨hq, Or.inl rfl⟩
    · exact Expr.mem_freeParameters_iff.mpr ⟨hq, Or.inr ⟨c, hc, ih c hc hcq⟩⟩

/-- Collapse refers to nothing new. -/
theorem Expr.references_collapse {s : Source} {e : Expr}
    (h : s ∈ e.collapse.references) : s ∈ e.references := by
  induction e using Expr.induction_on_children with
  | node e ih =>
    rw [Expr.collapse_eq] at h
    obtain rfl | ⟨c, hc, hcs⟩ := Expr.mem_references_mapChildren.mp (Expr.references_collapseTop h)
    · exact Expr.mem_references_iff.mpr (Or.inl rfl)
    · exact Expr.mem_references_iff.mpr (Or.inr ⟨c, hc, ih c hc hcs⟩)

end Comprehension
