import Comprehension.Proofs.Expr.Accessor
import Comprehension.Proofs.Expr.Contraction
import Comprehension.Proofs.Ty.Assignable
import Mathlib.Data.List.Forall2

/-! # Collapse and type checks

An expression is consistent when each of its nodes passes the checks of the function that builds
such nodes.  There are two sorts of checks.  Parameters and members ask for what they accept
(`Expr.NodeAccepts`), and operands, branches and targets of member reads for exact types
(`Expr.NodeAgrees`).

A member may be declared with a wider type than the value that it is bound to has.  When collapse
puts the value in the place of a read, the type gets narrower.  The first sort of checks bears that,
because what is accepted can be passed on (`Accepts.collapse`).  The second sort does not.  So
collapse keeps consistency where every read gives a value of the type of its member, and this is
just where it keeps all types. -/
namespace Comprehension

/-! ### Consistent expressions -/

mutual

/-- The expressions of a binding pass the checks with which they are bound. -/
def Binding.Consistent : Binding → Prop
  | .assignment m e => (Binding.assign m e).isOk
  | .list _ is => ∀ i ∈ is, (ElementInit.checked i.addMethod i.arguments).isOk
  | .nested _ bs => Binding.AllConsistent bs

def Binding.AllConsistent : List Binding → Prop
  | [] => True
  | b :: bs => b.Consistent ∧ Binding.AllConsistent bs

end

/-- The arguments of a construction pass its checks. -/
def Construction.Consistent (c : Construction) : Prop :=
  match c.members with
  | none => (Construction.positional c.ctor c.arguments).isOk
  | some members => (Construction.mapped c.ctor c.arguments members).isOk

namespace Expr

/-- The node passes the checks of the function that builds such nodes, and has the type which that
function gives to it. -/
def NodeConsistent : Expr → Prop
  | .memberAccess e m => (e.accessMember m).isOk
  | .binary o l r t => (applyBinary o l r).map type = .ok t
  | .staticCall m as => (call none m as).isOk
  | .methodCall e m as => (call (some e) m as).isOk
  | .new c as ms => Construction.Consistent ⟨c, as, ms⟩
  | .memberInit c as ms bs => Construction.Consistent ⟨c, as, ms⟩ ∧ Binding.AllConsistent bs
  | .conditional c t f y => (choose c t f).map type = .ok y
  | _ => True

/-- Every node of the expression passes the checks of the function that builds such nodes. -/
def Consistent (e : Expr) : Prop := ∀ x ∈ e.subterms, x.NodeConsistent

end Expr

/-! ### What the checks ask for -/

/-- Each type accepts the expression at its place, and there are as many of both. -/
def Accepted (types : List Ty) (values : List Expr) : Prop :=
  List.Forall₂ (fun t v => t.accepts v.type) types values

mutual

/-- Members and methods accept what the binding gives to them. -/
def Binding.Accepts : Binding → Prop
  | .assignment m e => m.type.accepts e.type
  | .list _ is => ∀ i ∈ is, Accepted i.addMethod.parameters i.arguments
  | .nested _ bs => Binding.AllAccept bs

def Binding.AllAccept : List Binding → Prop
  | [] => True
  | b :: bs => b.Accepts ∧ Binding.AllAccept bs

end

/-- Parameters accept the arguments of the construction, and so do the members that they
initialise. -/
def Construction.Accepts (c : Construction) : Prop :=
  Accepted c.ctor.parameters c.arguments ∧
    ∀ members ∈ c.members, Accepted (members.map Member.type) c.arguments

namespace Expr

/-- Parameters and members accept what the node gives to them. -/
def NodeAccepts : Expr → Prop
  | .staticCall m as => Accepted m.parameters as
  | .methodCall _ m as => Accepted m.parameters as
  | .new c as ms => Construction.Accepts ⟨c, as, ms⟩
  | .memberInit c as ms bs => Construction.Accepts ⟨c, as, ms⟩ ∧ Binding.AllAccept bs
  | _ => True

/-- Operands and branches have the types that they need, and a member is declared by the class that
it is read from. -/
def NodeAgrees : Expr → Prop
  | .memberAccess e m => e.type.canRead m
  | .binary o l r t =>
    (if o.isLogical then l.type = .boolean ∧ r.type = .boolean else l.type = r.type) ∧
      t = if o.isArithmetic then l.type else .boolean
  | .conditional c t f y => c.type = .boolean ∧ t.type = f.type ∧ y = t.type
  | _ => True

/-- Everywhere in the expression, parameters and members accept what is given to them. -/
def Accepts (e : Expr) : Prop := ∀ x ∈ e.subterms, x.NodeAccepts

end Expr

section Checks

theorem isOk_seq {ε α β : Type} {x : Except ε α} {y : Except ε β} :
    (x >>= fun _ => y).isOk = true ↔ x.isOk = true ∧ y.isOk = true := by
  cases x with
  | ok a => exact (and_iff_right rfl).symm
  | error e => exact iff_of_false Bool.false_ne_true fun h => Bool.false_ne_true h.1

theorem checkTypes_isOk_iff {target : String} {types : List Ty} {values : List Expr}
    (hlength : types.length = values.length) (position : Nat) :
    (checkTypes target position types values).isOk ↔ Accepted types values := by
  induction types generalizing values position with
  | nil =>
    cases values with
    | nil => exact iff_of_true rfl .nil
    | cons v vs => cases hlength
  | cons t ts ih =>
    cases values with
    | nil => cases hlength
    | cons v vs =>
      rw [checkTypes, Accepted, List.forall₂_cons]
      by_cases haccepts : t.accepts v.type
      · rw [if_pos haccepts, ih (Nat.succ.inj hlength)]
        exact (and_iff_right haccepts).symm
      · rw [if_neg haccepts]
        exact iff_of_false Bool.false_ne_true fun h => haccepts h.1

theorem checkArguments_isOk_iff {target : String} {types : List Ty} {values : List Expr} :
    (checkArguments target types values).isOk ↔ Accepted types values := by
  rw [checkArguments]
  by_cases hlength : types.length = values.length
  · rw [if_pos hlength]
    exact checkTypes_isOk_iff hlength 0
  · rw [if_neg hlength]
    exact iff_of_false Bool.false_ne_true fun h => hlength h.length_eq

theorem checkMember_isOk_iff {member : Member} {value : Expr} :
    (checkMember member value).isOk ↔ member.type.accepts value.type := by
  rw [checkMember]
  by_cases haccepts : member.type.accepts value.type
  · rw [if_pos haccepts]
    exact iff_of_true rfl haccepts
  · rw [if_neg haccepts]
    exact iff_of_false Bool.false_ne_true haccepts

theorem checkMembers_isOk_iff {members : List Member} {values : List Expr}
    (hlength : members.length = values.length) :
    (checkMembers members values).isOk ↔ Accepted (members.map Member.type) values := by
  induction members generalizing values with
  | nil =>
    cases values with
    | nil => exact iff_of_true rfl .nil
    | cons v vs => cases hlength
  | cons m ms ih =>
    cases values with
    | nil => cases hlength
    | cons v vs =>
      rw [checkMembers, List.map_cons, Accepted, List.forall₂_cons, ← checkMember_isOk_iff]
      cases checkMember m v with
      | ok _ => exact (ih (Nat.succ.inj hlength)).trans (and_iff_right rfl).symm
      | error _ => exact iff_of_false Bool.false_ne_true fun h => Bool.false_ne_true h.1

theorem Construction.positional_isOk_iff {ctor : Constructor} {arguments : List Expr} :
    (Construction.positional ctor arguments).isOk ↔ Accepted ctor.parameters arguments := by
  rw [Construction.positional, isOk_seq, checkArguments_isOk_iff]
  exact and_iff_left rfl

theorem Construction.mapped_isOk_iff {ctor : Constructor} {arguments : List Expr}
    {members : List Member} :
    (Construction.mapped ctor arguments members).isOk ↔
      Accepted ctor.parameters arguments ∧ Accepted (members.map Member.type) arguments := by
  rw [Construction.mapped, isOk_seq, Construction.positional_isOk_iff]
  refine and_congr_right fun _ => ?_
  by_cases hlength : members.length = arguments.length
  · rw [if_pos hlength, isOk_seq, checkMembers_isOk_iff hlength]
    exact and_iff_left rfl
  · rw [if_neg hlength]
    refine iff_of_false Bool.false_ne_true fun h => hlength ?_
    rw [← h.length_eq, List.length_map]

theorem Construction.consistent_iff {c : Construction} : c.Consistent ↔ c.Accepts := by
  obtain ⟨ctor, arguments, members⟩ := c
  cases members with
  | none =>
    refine Construction.positional_isOk_iff.trans (and_iff_left fun members h => ?_).symm
    cases h
  | some members =>
    refine Construction.mapped_isOk_iff.trans (and_congr_right fun _ => ?_)
    simp

mutual

theorem Binding.consistent_iff : (b : Binding) → (b.Consistent ↔ b.Accepts)
  | .assignment m e => by
    rw [Binding.Consistent, Binding.Accepts, Binding.assign, isOk_seq, checkMember_isOk_iff]
    exact and_iff_left rfl
  | .list m is => by
    rw [Binding.Consistent, Binding.Accepts]
    refine forall₂_congr fun i _ => ?_
    rw [ElementInit.checked, isOk_seq, checkArguments_isOk_iff]
    exact and_iff_left rfl
  | .nested m bs => Binding.allConsistent_iff bs

theorem Binding.allConsistent_iff : (bs : List Binding) →
    (Binding.AllConsistent bs ↔ Binding.AllAccept bs)
  | [] => Iff.rfl
  | b :: bs => and_congr (Binding.consistent_iff b) (Binding.allConsistent_iff bs)

end

namespace Expr

theorem call_isOk_iff {target : Option Expr} {method : Method} {arguments : List Expr} :
    (call target method arguments).isOk ↔ Accepted method.parameters arguments := by
  rw [call.eq_def, isOk_seq, checkArguments_isOk_iff]
  cases target <;> exact and_iff_left rfl

theorem accessMember_isOk_iff {target : Expr} {member : Member} :
    (target.accessMember member).isOk ↔ target.type.canRead member := by
  rcases target.accessMember_eq member with ⟨err, herr, hread⟩ | ⟨inner, hinner, hread, -⟩
  · rw [herr, hread]
    rfl
  · rw [hinner, hread]
    rfl

theorem applyBinary_type_iff {o : BinaryOp} {l r : Expr} {t : Ty} :
    (applyBinary o l r).map type = .ok t ↔
      (if o.isLogical then l.type = .boolean ∧ r.type = .boolean else l.type = r.type) ∧
        t = if o.isArithmetic then l.type else .boolean := by
  have hagree : (if o.isLogical then l.type == .boolean && r.type == .boolean
      else l.type == r.type) = true ↔
        if o.isLogical then l.type = .boolean ∧ r.type = .boolean else l.type = r.type := by
    split <;> simp
  rw [← hagree, applyBinary]
  by_cases h : (if o.isLogical then l.type == .boolean && r.type == .boolean
      else l.type == r.type) = true
  · rw [if_pos h]
    exact ⟨fun ht => ⟨h, (Except.ok.inj ht).symm⟩, fun ht => congrArg Except.ok ht.2.symm⟩
  · rw [if_neg h]
    exact iff_of_false (fun ht => by cases ht) fun ht => h ht.1

theorem choose_type_iff {c t f : Expr} {y : Ty} :
    (choose c t f).map type = .ok y ↔ c.type = .boolean ∧ t.type = f.type ∧ y = t.type := by
  rw [choose]
  by_cases htest : c.type = .boolean
  · rw [if_pos htest, and_iff_right htest]
    by_cases hbranches : t.type = f.type
    · rw [if_pos hbranches, and_iff_right hbranches]
      exact ⟨fun h => (Except.ok.inj h).symm, fun h => congrArg Except.ok h.symm⟩
    · rw [if_neg hbranches]
      exact iff_of_false (fun h => by cases h) fun h => hbranches h.1
  · rw [if_neg htest]
    exact iff_of_false (fun h => by cases h) fun h => htest h.1

/-- **The checks of a node**: parameters and members accept what they are given, and the other types
agree. -/
theorem nodeConsistent_iff {e : Expr} : e.NodeConsistent ↔ e.NodeAccepts ∧ e.NodeAgrees := by
  cases e with
  | memberAccess t m => exact accessMember_isOk_iff.trans (and_iff_right trivial).symm
  | binary o l r t => exact applyBinary_type_iff.trans (and_iff_right trivial).symm
  | conditional c t f y => exact choose_type_iff.trans (and_iff_right trivial).symm
  | staticCall m as => exact call_isOk_iff.trans (and_iff_left trivial).symm
  | methodCall t m as => exact call_isOk_iff.trans (and_iff_left trivial).symm
  | new c as ms => exact Construction.consistent_iff.trans (and_iff_left trivial).symm
  | memberInit c as ms bs =>
    exact (and_congr Construction.consistent_iff (Binding.allConsistent_iff bs)).trans
      (and_iff_left trivial).symm
  | _ => exact (and_self_iff (a := True)).symm

end Expr

end Checks

/-! ### Narrower parts -/

section Narrower

variable {f : Expr → Expr}

/-- What accepts expressions accepts narrower ones. -/
theorem Accepted.map {types : List Ty} {values : List Expr} (h : Accepted types values)
    (hf : ∀ v ∈ values, v.type.accepts (f v).type) : Accepted types (values.map f) := by
  induction h with
  | nil => exact .nil
  | @cons t v ts vs haccepts _ ih =>
    rw [List.forall_mem_cons] at hf
    exact .cons (Ty.accepts_trans haccepts hf.1) (ih hf.2)

theorem Construction.Accepts.map {c : Construction} (h : c.Accepts)
    (hf : ∀ v ∈ c.arguments, v.type.accepts (f v).type) :
    Construction.Accepts ⟨c.ctor, c.arguments.map f, c.members⟩ :=
  ⟨Accepted.map h.1 hf, fun members hmembers => Accepted.map (h.2 members hmembers) hf⟩

mutual

theorem Binding.Accepts.mapParts : (b : Binding) → b.Accepts →
    (∀ c ∈ b.parts, c.type.accepts (f c).type) → (b.mapParts f).Accepts
  | .assignment m e, h, hf => Ty.accepts_trans h (hf e (List.mem_singleton.mpr rfl))
  | .list m is, h, hf => by
    intro j hj
    obtain ⟨i, hi, rfl⟩ := List.mem_map.mp hj
    exact Accepted.map (h i hi) fun c hc => hf c (List.mem_flatMap.mpr ⟨i, hi, hc⟩)
  | .nested m bs, h, hf => Binding.AllAccept.mapPartsList bs h hf

theorem Binding.AllAccept.mapPartsList : (bs : List Binding) → Binding.AllAccept bs →
    (∀ c ∈ Binding.partsList bs, c.type.accepts (f c).type) →
    Binding.AllAccept (Binding.mapPartsList f bs)
  | [], _, _ => trivial
  | b :: bs, h, hf => by
    rw [Binding.partsList, List.forall_mem_append] at hf
    exact ⟨Binding.Accepts.mapParts b h.1 hf.1, Binding.AllAccept.mapPartsList bs h.2 hf.2⟩

end

namespace Expr

variable {e : Expr}

/-- A node still accepts what it is given when its parts get narrower. -/
theorem NodeAccepts.mapChildren (h : e.NodeAccepts)
    (hf : ∀ c ∈ e.children, c.type.accepts (f c).type) : (e.mapChildren f).NodeAccepts := by
  cases e with
  | staticCall m as => exact Accepted.map h hf
  | methodCall t m as => exact Accepted.map h (List.forall_mem_cons.mp hf).2
  | new c as ms => exact Construction.Accepts.map h hf
  | memberInit c as ms bs =>
    rw [children, List.forall_mem_append] at hf
    rw [Expr.mapChildren, ← Binding.mapPartsList_eq_map]
    exact ⟨Construction.Accepts.map h.1 hf.1, Binding.AllAccept.mapPartsList bs h.2 hf.2⟩
  | _ => trivial

/-- Narrower parts make a node narrower at most. -/
theorem accepts_type_mapChildren (hf : ∀ c ∈ e.children, c.type.accepts (f c).type) :
    e.type.accepts (e.mapChildren f).type := by
  cases e with
  | lambda ps b =>
    have hbody := Ty.accepts_iff.mp (hf b (List.mem_singleton.mpr rfl))
    exact Ty.accepts_iff.mpr (.result hbody)
  | _ => exact Ty.accepts_self _

/-- Types agree in a node whose parts keep their types. -/
theorem NodeAgrees.mapChildren (h : e.NodeAgrees) (hf : ∀ c ∈ e.children, (f c).type = c.type) :
    (e.mapChildren f).NodeAgrees := by
  cases e with
  | memberAccess t m =>
    have ht : (f t).type = t.type := hf t (List.mem_singleton.mpr rfl)
    rw [Expr.mapChildren, NodeAgrees, ht]
    exact h
  | binary o l r t =>
    have hl : (f l).type = l.type := hf l (by simp [children])
    have hr : (f r).type = r.type := hf r (by simp [children])
    rw [Expr.mapChildren, NodeAgrees, hl, hr]
    exact h
  | conditional c t e y =>
    have hc : (f c).type = c.type := hf c (by simp [children])
    have ht : (f t).type = t.type := hf t (by simp [children])
    have he : (f e).type = e.type := hf e (by simp [children])
    rw [Expr.mapChildren, NodeAgrees, hc, ht, he]
    exact h
  | _ => trivial

end Expr

end Narrower

/-! ### Collapse -/

namespace Expr

theorem accepts_iff {e : Expr} : e.Accepts ↔ e.NodeAccepts ∧ ∀ c ∈ e.children, c.Accepts :=
  forall_subterms_iff

theorem Consistent.accepts {e : Expr} (h : e.Consistent) : e.Accepts :=
  fun x hx => (nodeConsistent_iff.mp (h x hx)).1

end Expr

theorem Binding.AllAccept.of_mem {bs : List Binding} (h : Binding.AllAccept bs) {b : Binding}
    (hb : b ∈ bs) : b.Accepts := by
  induction bs with
  | nil => cases hb
  | cons d ds ih =>
    rcases List.mem_cons.mp hb with rfl | hb
    · exact h.1
    · exact ih h.2 hb

namespace Expr

/-- The type of a member accepts what a construction initialises the member with. -/
theorem NodeAccepts.initialises {target value : Expr} {member : Member} (h : target.NodeAccepts)
    (hvalue : target.Initialises member value) : member.type.accepts value.type := by
  cases hvalue with
  | @argument ctor arguments members i first _ _ mapped same _ given =>
    have htypes : (members.map Member.type)[i]? = some first.type := by
      rw [List.getElem?_map, mapped]
      rfl
    obtain ⟨hi, hfirst⟩ := List.getElem?_eq_some_iff.mp htypes
    obtain ⟨hi', rfl⟩ := List.getElem?_eq_some_iff.mp given
    have haccepts := (h.2 members rfl).get hi hi'
    rw [← Member.refersToSame_type same, ← hfirst]
    exact haccepts
  | @assignment _ _ _ before after first _ _ same _ =>
    rw [← Member.refersToSame_type same]
    exact Binding.AllAccept.of_mem h.2 (List.mem_append_right _ (List.mem_cons_self ..))

/-- What is read from a fresh construction has a type that the read accepts. -/
theorem ReadsFresh.accepts_type {e value : Expr} (h : e.ReadsFresh value)
    (hparts : ∀ c ∈ e.children, c.Accepts) : e.type.accepts value.type := by
  obtain ⟨target, member, rfl, hvalue⟩ := h
  have htarget : target.Accepts := hparts target (List.mem_singleton.mpr rfl)
  exact (accepts_iff.mp htarget).1.initialises hvalue

/-- **Collapse makes an expression narrower at most**, and parameters and members still accept what
they are given. -/
theorem Accepts.collapse {e : Expr} (h : e.Accepts) :
    e.collapse.Accepts ∧ e.type.accepts e.collapse.type := by
  induction e using Expr.induction_on_children with
  | node e ih =>
    obtain ⟨hnode, hparts⟩ := accepts_iff.mp h
    have hnarrower : ∀ c ∈ e.children, c.type.accepts c.collapse.type :=
      fun c hc => (ih c hc (hparts c hc)).2
    have hbelow : ∀ d ∈ (e.mapChildren Expr.collapse).children, d.Accepts := by
      intro d hd
      obtain ⟨c, hc, rfl⟩ := mem_children_mapChildren.mp hd
      exact (ih c hc (hparts c hc)).1
    rcases e.collapse_cases with hvalue | ⟨-, heq⟩
    · obtain ⟨target, htarget, hin⟩ := hvalue.exists_child
      refine ⟨(accepts_iff.mp (hbelow target htarget)).2 _ hin, ?_⟩
      exact Ty.accepts_trans (accepts_type_mapChildren hnarrower) (hvalue.accepts_type hbelow)
    · rw [heq]
      exact ⟨accepts_iff.mpr ⟨hnode.mapChildren hnarrower, hbelow⟩,
        accepts_type_mapChildren hnarrower⟩

/-- Every read that collapse makes gives a value of the type of the read. -/
def ReadsExactly (e : Expr) : Prop :=
  ∀ x ∈ e.subterms, ∀ value, (x.mapChildren collapse).ReadsFresh value → value.type = x.type

theorem readsExactly_iff {e : Expr} :
    e.ReadsExactly ↔
      (∀ value, (e.mapChildren collapse).ReadsFresh value → value.type = e.type) ∧
        ∀ c ∈ e.children, c.ReadsExactly := forall_subterms_iff

theorem ReadsExactly.type_collapse {e : Expr} (h : e.ReadsExactly) : e.collapse.type = e.type := by
  induction e using Expr.induction_on_children with
  | node e ih =>
    obtain ⟨hnode, hparts⟩ := readsExactly_iff.mp h
    rcases e.collapse_cases with hvalue | ⟨-, heq⟩
    · exact hnode _ hvalue
    · rw [heq]
      exact type_mapChildren fun c hc => ih c hc (hparts c hc)

/-- **Types are kept where reads are exact**, and nowhere else. -/
theorem type_collapse_iff {e : Expr} :
    (∀ x ∈ e.subterms, x.collapse.type = x.type) ↔ e.ReadsExactly := by
  constructor
  · intro h x hx value hvalue
    rw [← h x hx, Expr.collapse_eq, hvalue.collapseTop_eq]
  · intro h x hx
    exact ReadsExactly.type_collapse fun y hy => h y (subterms_trans hy hx)

/-- Where all types are kept, the nodes that collapse leaves still pass their checks. -/
theorem Consistent.collapse_of_readsExactly {e : Expr} (h : e.Consistent)
    (hexact : e.ReadsExactly) : e.collapse.Consistent := by
  refine forall_subterms_collapse fun x hx _ => ?_
  obtain ⟨haccepts, hagrees⟩ := nodeConsistent_iff.mp (h x hx)
  have htypes : ∀ c ∈ x.children, c.collapse.type = c.type :=
    fun c hc => type_collapse_iff.mpr hexact c (subterms_trans (mem_subterms_of_child hc) hx)
  have hnarrower : ∀ c ∈ x.children, c.type.accepts c.collapse.type := by
    intro c hc
    rw [htypes c hc]
    exact Ty.accepts_self _
  exact nodeConsistent_iff.mpr ⟨haccepts.mapChildren hnarrower, hagrees.mapChildren htypes⟩

/-- **What collapse does to a consistent expression.**  Every part gets narrower at most, and
parameters and members accept all that is given to them afterwards.  The parts keep their types
exactly when every read gives a value of the type of its member, and then the result is consistent
and has the type of the expression. -/
theorem collapse_of_consistent {e : Expr} (h : e.Consistent) :
    (∀ x ∈ e.subterms, x.type.accepts x.collapse.type) ∧
    (∀ x ∈ e.collapse.subterms, x.NodeAccepts) ∧
    ((∀ x ∈ e.subterms, x.collapse.type = x.type) ↔ e.ReadsExactly) ∧
    (e.ReadsExactly → e.collapse.Consistent ∧ e.collapse.type = e.type) := by
  refine ⟨fun x hx => ?_, h.accepts.collapse.1, type_collapse_iff, fun hexact => ?_⟩
  · have hpart : x.Accepts := fun y hy => h.accepts y (subterms_trans hy hx)
    exact hpart.collapse.2
  · exact ⟨h.collapse_of_readsExactly hexact, hexact.type_collapse⟩

end Expr

namespace Sample

/-- A box for anything. -/
def box : Ty := .classType (ClassType.ofName "Box" |>.withProperty "Content" .object)

/-- `new Box(Content = 1)` -/
def boxedOne : Expr :=
  .new ⟨box, [.object]⟩ [.constant (.int32 1) .int32] (some [⟨"Box", "Content", .object, .getter⟩])

/-- `new Box(Content = 1).Content` -/
def unboxedOne : Expr := .memberAccess boxedOne ⟨"Box", "Content", .object, .property⟩

/-- `new Box(Content = 1).Content == x` -/
def isUnboxedOne : Expr := .binary .equal unboxedOne (.parameter ⟨"x", .object⟩) .boolean

end Sample

/-- The kitchen's cook and the cook's name have just the types of the members that they are read
through. -/
theorem collapse_of_consistent_nameOfTheCook :
    Sample.nameOfTheCook.Consistent ∧ Sample.nameOfTheCook.collapse.Consistent ∧
      Sample.nameOfTheCook.collapse.type = Sample.nameOfTheCook.type := by
  have hconsistent : Sample.nameOfTheCook.Consistent := by
    have hann : Sample.ann.Consistent :=
      List.forall_mem_cons.mpr ⟨rfl, List.forall_mem_singleton.mpr trivial⟩
    have hcook : ∀ x ∈ Sample.ann.subterms ++ [], x.NodeConsistent := by rwa [List.append_nil]
    exact List.forall_mem_cons.mpr
      ⟨rfl, List.forall_mem_cons.mpr ⟨rfl, List.forall_mem_cons.mpr ⟨⟨rfl, rfl, trivial⟩, hcook⟩⟩⟩
  obtain ⟨-, -, hiff, hkept⟩ := Expr.collapse_of_consistent hconsistent
  have hexact : Sample.nameOfTheCook.ReadsExactly := by
    refine hiff.mp ?_
    decide
  exact ⟨hconsistent, hkept hexact⟩

/-- The box takes the number as an object, and the read gives back the number.  So the read gets
narrower, and a comparison of it with an object is none afterwards. -/
theorem collapse_unboxes :
    Sample.unboxedOne.Consistent ∧ Sample.unboxedOne.collapse.type ≠ Sample.unboxedOne.type ∧
      Sample.isUnboxedOne.Consistent ∧ ¬ Sample.isUnboxedOne.collapse.Consistent := by
  have hboxed : Sample.boxedOne.Consistent :=
    List.forall_mem_cons.mpr ⟨rfl, List.forall_mem_singleton.mpr trivial⟩
  have hunboxed : Sample.unboxedOne.Consistent := List.forall_mem_cons.mpr ⟨rfl, hboxed⟩
  have hcompared : Sample.isUnboxedOne.Consistent :=
    List.forall_mem_cons.mpr
      ⟨rfl, List.forall_mem_append.mpr ⟨hunboxed, List.forall_mem_singleton.mpr trivial⟩⟩
  refine ⟨hunboxed, by decide, hcompared, fun h => ?_⟩
  have hequal := (Expr.nodeConsistent_iff.mp (h _ (List.mem_cons_self ..))).2.1
  exact absurd hequal (by decide)

end Comprehension
