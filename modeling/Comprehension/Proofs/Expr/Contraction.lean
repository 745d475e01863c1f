import Comprehension.Proofs.Expr.Exactness
import Comprehension.Sample
import Mathlib.Data.List.Basic
import Mathlib.Logic.Relation

/-! # Collapse computes the normal form

A read of a member of a fresh construction can be contracted: the expression that initialises the
member takes its place.  `Expr.Contracts` contracts one read, anywhere in an expression.  The order
in which reads are contracted makes no difference, and one pass from the bottom up finds them all.
`Expr.collapse` is this pass: it ends without reads to contract (`redexFree_collapse`), it is made
of contractions (`contracts_collapse`), and a contraction done before it changes nothing
(`Contracts.collapse_eq`).

Contracting inside a node puts one part in the place of another.  `Expr.withChildren` builds a node
again around other parts, and the first section says how this goes with `Expr.children` and
`Expr.mapChildren`. -/
namespace Comprehension

/-! ### A node around other parts -/

/-- Elements with other arguments, which are taken from the front of a list. -/
def ElementInit.withParts : List ElementInit → List Expr → List ElementInit
  | [], _ => []
  | i :: is, cs => ⟨i.addMethod, cs.take i.arguments.length⟩ ::
      ElementInit.withParts is (cs.drop i.arguments.length)

mutual

/-- A binding around other expressions. -/
def Binding.withParts : Binding → List Expr → Binding
  | .assignment m e, cs => .assignment m (cs.headD e)
  | .list m is, cs => .list m (ElementInit.withParts is cs)
  | .nested m bs, cs => .nested m (Binding.withPartsList bs cs)

/-- Bindings around other expressions, which are taken from the front of a list. -/
def Binding.withPartsList : List Binding → List Expr → List Binding
  | [], _ => []
  | b :: bs, cs => b.withParts (cs.take b.parts.length) ::
      Binding.withPartsList bs (cs.drop b.parts.length)

end

/-- The node around other parts, of which there are as many as before. -/
def Expr.withChildren : Expr → List Expr → Expr
  | .constant v t, _ => .constant v t
  | .parameter p, _ => .parameter p
  | .staticMember m, _ => .staticMember m
  | .memberAccess e m, cs => .memberAccess (cs.headD e) m
  | .unary o e t, cs => .unary o (cs.headD e) t
  | .binary o l r t, cs => .binary o (cs.getD 0 l) (cs.getD 1 r) t
  | .staticCall m _, cs => .staticCall m cs
  | .methodCall e m _, cs => .methodCall (cs.headD e) m cs.tail
  | .new c _ ms, cs => .new c cs ms
  | .memberInit c as ms bs, cs =>
    .memberInit c (cs.take as.length) ms (Binding.withPartsList bs (cs.drop as.length))
  | .lambda ps b, cs => .lambda ps (cs.headD b)
  | .conditional c t f y, cs => .conditional (cs.getD 0 c) (cs.getD 1 t) (cs.getD 2 f) y
  | .reference s, _ => .reference s
  | .subQuery q t, _ => .subQuery q t

theorem length_take_drop {es : List Expr} {m n : Nat} (h : es.length = m + n) :
    (es.take m).length = m ∧ (es.drop m).length = n := by
  rw [List.length_take, List.length_drop]
  omega

theorem ElementInit.parts_withParts : (is : List ElementInit) → (cs : List Expr) →
    cs.length = (is.flatMap ElementInit.arguments).length →
    (ElementInit.withParts is cs).flatMap ElementInit.arguments = cs
  | [], cs, h => (List.length_eq_zero_iff.mp h).symm
  | i :: is, cs, h => by
    rw [List.flatMap_cons, List.length_append] at h
    obtain ⟨-, hrest⟩ := length_take_drop h
    rw [ElementInit.withParts, List.flatMap_cons, ElementInit.parts_withParts is _ hrest]
    exact List.take_append_drop i.arguments.length cs

mutual

theorem Binding.parts_withParts : (b : Binding) → (cs : List Expr) →
    cs.length = b.parts.length → (b.withParts cs).parts = cs
  | .assignment m e, cs, h => by
    obtain ⟨c, rfl⟩ := List.length_eq_one_iff.mp h
    rfl
  | .list m is, cs, h => ElementInit.parts_withParts is cs h
  | .nested m bs, cs, h => Binding.partsList_withPartsList bs cs h

theorem Binding.partsList_withPartsList : (bs : List Binding) → (cs : List Expr) →
    cs.length = (Binding.partsList bs).length →
    Binding.partsList (Binding.withPartsList bs cs) = cs
  | [], cs, h => (List.length_eq_zero_iff.mp h).symm
  | b :: bs, cs, h => by
    rw [Binding.partsList, List.length_append] at h
    obtain ⟨hfirst, hrest⟩ := length_take_drop h
    rw [Binding.withPartsList, Binding.partsList, Binding.parts_withParts b _ hfirst,
      Binding.partsList_withPartsList bs _ hrest]
    exact List.take_append_drop b.parts.length cs

end

/-- The parts of a node around other parts are these. -/
theorem Expr.children_withChildren {e : Expr} {cs : List Expr}
    (h : cs.length = e.children.length) : (e.withChildren cs).children = cs := by
  cases e with
  | constant _ _ | parameter _ | staticMember _ | reference _ | subQuery _ _ =>
    exact (List.length_eq_zero_iff.mp h).symm
  | memberAccess _ _ | unary _ _ _ | lambda _ _ =>
    obtain ⟨c, rfl⟩ := List.length_eq_one_iff.mp h
    rfl
  | binary o l r t =>
    obtain ⟨c, d, rfl⟩ := List.length_eq_two.mp h
    rfl
  | conditional c t f y =>
    obtain ⟨c, d, d', rfl⟩ := List.length_eq_three.mp h
    rfl
  | staticCall _ _ | new _ _ _ => rfl
  | methodCall e m as =>
    cases cs with
    | nil => cases h
    | cons c cs => rfl
  | memberInit c as ms bs =>
    rw [children, List.length_append] at h
    obtain ⟨-, hrest⟩ := length_take_drop h
    rw [withChildren, children, Binding.partsList_withPartsList bs _ hrest]
    exact List.take_append_drop as.length cs

section Images

variable (f : Expr → Expr)

theorem ElementInit.withParts_map (is : List ElementInit) :
    ElementInit.withParts is ((is.flatMap ElementInit.arguments).map f) =
      is.map (ElementInit.mapParts f) := by
  induction is with
  | nil => rfl
  | cons i is ih =>
    have hlength : (i.arguments.map f).length = i.arguments.length := List.length_map f
    rw [List.flatMap_cons, List.map_append, ElementInit.withParts, List.take_left' hlength,
      List.drop_left' hlength, ih]
    rfl

mutual

theorem Binding.withParts_map : (b : Binding) → b.withParts (b.parts.map f) = b.mapParts f
  | .assignment _ _ => rfl
  | .list m is => by
    rw [Binding.parts, Binding.withParts, ElementInit.withParts_map f is, Binding.mapParts]
  | .nested m bs => by
    rw [Binding.parts, Binding.withParts, Binding.withPartsList_map bs, Binding.mapParts]

theorem Binding.withPartsList_map : (bs : List Binding) →
    Binding.withPartsList bs ((Binding.partsList bs).map f) = Binding.mapPartsList f bs
  | [] => rfl
  | b :: bs => by
    have hlength : (b.parts.map f).length = b.parts.length := List.length_map f
    rw [Binding.partsList, List.map_append, Binding.withPartsList, List.take_left' hlength,
      List.drop_left' hlength, Binding.withParts_map b, Binding.withPartsList_map bs,
      Binding.mapPartsList]

end

/-- Changing the parts of a node is building it around the changed parts. -/
theorem Expr.withChildren_map (e : Expr) : e.withChildren (e.children.map f) = e.mapChildren f := by
  cases e with
  | memberInit c as ms bs =>
    have hlength : (as.map f).length = as.length := List.length_map f
    rw [children, List.map_append, withChildren, List.take_left' hlength, List.drop_left' hlength,
      Binding.withPartsList_map, Binding.mapPartsList_eq_map, mapChildren]
  | _ => rfl

end Images

theorem Expr.withChildren_children (e : Expr) : e.withChildren e.children = e := by
  have h := e.withChildren_map id
  rwa [List.map_id, Expr.mapChildren_id] at h

theorem ElementInit.withParts_withParts : (is : List ElementInit) → (cs ds : List Expr) →
    cs.length = (is.flatMap ElementInit.arguments).length →
    ElementInit.withParts (ElementInit.withParts is cs) ds = ElementInit.withParts is ds
  | [], _, _, _ => rfl
  | i :: is, cs, ds, h => by
    rw [List.flatMap_cons, List.length_append] at h
    obtain ⟨hfirst, hrest⟩ := length_take_drop h
    simp only [ElementInit.withParts, hfirst, ElementInit.withParts_withParts is _ _ hrest]

mutual

theorem Binding.withParts_withParts : (b : Binding) → (cs ds : List Expr) →
    cs.length = b.parts.length → ds.length = b.parts.length →
    (b.withParts cs).withParts ds = b.withParts ds
  | .assignment m e, cs, ds, _, h => by
    obtain ⟨d, rfl⟩ := List.length_eq_one_iff.mp h
    rfl
  | .list m is, cs, ds, h, _ => by
    rw [Binding.withParts, Binding.withParts, ElementInit.withParts_withParts is cs ds h,
      Binding.withParts]
  | .nested m bs, cs, ds, h, h' => by
    rw [Binding.withParts, Binding.withParts, Binding.withPartsList_withPartsList bs cs ds h h',
      Binding.withParts]

theorem Binding.withPartsList_withPartsList : (bs : List Binding) → (cs ds : List Expr) →
    cs.length = (Binding.partsList bs).length → ds.length = (Binding.partsList bs).length →
    Binding.withPartsList (Binding.withPartsList bs cs) ds = Binding.withPartsList bs ds
  | [], _, _, _, _ => rfl
  | b :: bs, cs, ds, h, h' => by
    rw [Binding.partsList, List.length_append] at h h'
    obtain ⟨hfirst, hrest⟩ := length_take_drop h
    obtain ⟨hfirst', hrest'⟩ := length_take_drop h'
    simp only [Binding.withPartsList, Binding.parts_withParts b _ hfirst, hfirst,
      Binding.withParts_withParts b _ _ hfirst hfirst',
      Binding.withPartsList_withPartsList bs _ _ hrest hrest']

end

/-- Of parts that are put in twice, the second ones stay. -/
theorem Expr.withChildren_withChildren {e : Expr} {cs ds : List Expr}
    (h : cs.length = e.children.length) (h' : ds.length = e.children.length) :
    (e.withChildren cs).withChildren ds = e.withChildren ds := by
  cases e with
  | memberAccess _ _ | unary _ _ _ | lambda _ _ =>
    obtain ⟨d, rfl⟩ := List.length_eq_one_iff.mp h'
    rfl
  | binary o l r t =>
    obtain ⟨d, d', rfl⟩ := List.length_eq_two.mp h'
    rfl
  | conditional c t f y =>
    obtain ⟨d, d', d'', rfl⟩ := List.length_eq_three.mp h'
    rfl
  | methodCall e m as =>
    cases ds with
    | nil => cases h'
    | cons d ds => rfl
  | memberInit c as ms bs =>
    rw [children, List.length_append] at h h'
    obtain ⟨hfirst, hrest⟩ := length_take_drop h
    obtain ⟨-, hrest'⟩ := length_take_drop h'
    simp only [withChildren, hfirst, Binding.withPartsList_withPartsList bs _ _ hrest hrest']
  | _ => rfl

theorem Expr.mapChildren_withChildren (f : Expr → Expr) {e : Expr} {cs : List Expr}
    (h : cs.length = e.children.length) :
    (e.withChildren cs).mapChildren f = e.withChildren (cs.map f) := by
  have h' : (cs.map f).length = e.children.length := by rw [List.length_map, h]
  rw [← Expr.withChildren_map, Expr.children_withChildren h, Expr.withChildren_withChildren h h']

/-! ### Contractions -/

/-- `target.Initialises member value`: the first member of a construction that refers to the same
thing is initialised with the value.  After a construction with bindings, the assignments count. -/
inductive Expr.Initialises : Expr → Member → Expr → Prop
  | argument {ctor : Constructor} {arguments : List Expr} {members : List Member} {i : Nat}
      {first member : Member} {value : Expr} (mapped : members[i]? = some first)
      (same : first.refersToSame member)
      (earlier : ∀ j < i, ∀ other, members[j]? = some other → other.refersToSame member = false)
      (given : arguments[i]? = some value) :
    Initialises (.new ctor arguments (some members)) member value
  | assignment {ctor : Constructor} {arguments : List Expr} {members : Option (List Member)}
      {before after : List Binding} {first member : Member} {value : Expr}
      (same : first.refersToSame member)
      (earlier : ∀ x ∈ Binding.assignments before, x.1.refersToSame member = false) :
    Initialises (.memberInit ctor arguments members (before ++ .assignment first value :: after))
      member value

/-- A read of a member of a fresh construction, and what it reads. -/
def Expr.ReadsFresh (e value : Expr) : Prop :=
  ∃ target member, e = .memberAccess target member ∧ target.Initialises member value

/-- `e.Contracts e'`: in one place of `e`, what a fresh construction initialises a member with takes
the place of the read of the member. -/
inductive Expr.Contracts : Expr → Expr → Prop
  | here {e value : Expr} (reads : e.ReadsFresh value) : Contracts e value
  | inside {e c c' : Expr} {before after : List Expr} (parts : e.children = before ++ c :: after)
      (step : Contracts c c') : Contracts e (e.withChildren (before ++ c' :: after))

/-- No node of the expression reads a member of a fresh construction. -/
def Expr.RedexFree (e : Expr) : Prop := ∀ x ∈ e.subterms, ∀ value, ¬ x.ReadsFresh value

theorem initialArgument?_eq_some {member : Member} {value : Expr} {members : List Member}
    {arguments : List Expr} :
    initialArgument? member members arguments = some value ↔
      ∃ (i : Nat) (first : Member), members[i]? = some first ∧ first.refersToSame member ∧
        (∀ j < i, ∀ other, members[j]? = some other → other.refersToSame member = false) ∧
        arguments[i]? = some value := by
  induction members generalizing arguments with
  | nil => simp [initialArgument?]
  | cons m ms ih =>
    rw [initialArgument?]
    by_cases hsame : m.refersToSame member
    · rw [if_pos hsame, List.head?_eq_getElem?]
      constructor
      · exact fun h => ⟨0, m, rfl, hsame, fun j hj => absurd hj (Nat.not_lt_zero j), h⟩
      · rintro ⟨i, first, -, -, hearlier, hvalue⟩
        cases i with
        | zero => exact hvalue
        | succ i =>
          have hother := hearlier 0 (Nat.succ_pos i) m rfl
          exact absurd (hother.symm.trans hsame) Bool.false_ne_true
    · rw [if_neg hsame, ih]
      constructor
      · rintro ⟨i, first, hfirst, hfirstSame, hearlier, hvalue⟩
        refine ⟨i + 1, first, hfirst, hfirstSame, fun j hj other hother => ?_, ?_⟩
        · cases j with
          | zero =>
            cases hother
            exact eq_false_of_ne_true hsame
          | succ j => exact hearlier j (Nat.lt_of_succ_lt_succ hj) other hother
        · rwa [List.getElem?_tail] at hvalue
      · rintro ⟨i, first, hfirst, hfirstSame, hearlier, hvalue⟩
        cases i with
        | zero =>
          cases hfirst
          exact absurd hfirstSame hsame
        | succ i =>
          refine ⟨i, first, hfirst, hfirstSame, fun j hj other hother => ?_, ?_⟩
          · exact hearlier (j + 1) (Nat.succ_lt_succ hj) other hother
          · rwa [List.getElem?_tail]

theorem assignedValue?_eq_some {member : Member} {value : Expr} {bs : List Binding} :
    assignedValue? member bs = some value ↔
      ∃ before after first, bs = before ++ .assignment first value :: after ∧
        first.refersToSame member ∧
        ∀ x ∈ Binding.assignments before, x.1.refersToSame member = false := by
  induction bs with
  | nil => simp [assignedValue?]
  | cons b bs ih =>
    by_cases hhit : ∃ m e, b = .assignment m e ∧ m.refersToSame member
    · obtain ⟨m, e, rfl, hsame⟩ := hhit
      rw [assignedValue?, if_pos hsame]
      constructor
      · rintro h
        cases h
        exact ⟨[], bs, m, rfl, hsame, fun _ hx => by cases hx⟩
      · rintro ⟨before, after, first, hsplit, -, hearlier⟩
        cases before with
        | nil =>
          cases hsplit
          rfl
        | cons b before =>
          cases hsplit
          have hother := hearlier (m, e) (List.mem_cons_self ..)
          exact absurd (hother.symm.trans hsame) Bool.false_ne_true
    · have hskip : assignedValue? member (b :: bs) = assignedValue? member bs := by
        cases b with
        | assignment m e =>
          rw [assignedValue?, if_neg fun hsame => hhit ⟨m, e, rfl, hsame⟩]
        | _ => rfl
      rw [hskip, ih]
      constructor
      · rintro ⟨before, after, first, rfl, hsame, hearlier⟩
        refine ⟨b :: before, after, first, rfl, hsame, ?_⟩
        rintro ⟨m, e⟩ hx
        rcases List.mem_cons.mp (Binding.mem_assignments.mp hx) with heq | hx
        · exact eq_false_of_ne_true fun hm => hhit ⟨m, e, heq.symm, hm⟩
        · exact hearlier (m, e) (Binding.mem_assignments.mpr hx)
      · rintro ⟨before, after, first, hsplit, hsame, hearlier⟩
        cases before with
        | nil =>
          cases hsplit
          exact absurd ⟨first, value, rfl, hsame⟩ hhit
        | cons b' before =>
          cases hsplit
          refine ⟨before, after, first, rfl, hsame, ?_⟩
          rintro ⟨m, e⟩ hx
          exact hearlier (m, e)
            (Binding.mem_assignments.mpr (List.mem_cons_of_mem _ (Binding.mem_assignments.mp hx)))

/-- What the collapse looks up is what the construction initialises the member with. -/
theorem Expr.initialValue?_eq_some {target value : Expr} {member : Member} :
    target.initialValue? member = some value ↔ target.Initialises member value := by
  constructor
  · intro h
    cases target with
    | new c as ms =>
      cases ms with
      | none => cases h
      | some ms =>
        obtain ⟨i, first, hmapped, hsame, hearlier, hgiven⟩ := initialArgument?_eq_some.mp h
        exact .argument hmapped hsame hearlier hgiven
    | memberInit c as ms bs =>
      obtain ⟨before, after, first, rfl, hsame, hearlier⟩ := assignedValue?_eq_some.mp h
      exact .assignment hsame hearlier
    | _ => cases h
  · intro h
    cases h with
    | argument mapped same earlier given =>
      exact initialArgument?_eq_some.mpr ⟨_, _, mapped, same, earlier, given⟩
    | assignment same earlier => exact assignedValue?_eq_some.mpr ⟨_, _, _, rfl, same, earlier⟩

namespace Expr

/-! ### Collapse at the top of a node -/

theorem ReadsFresh.collapseTop_eq {e value : Expr} (h : e.ReadsFresh value) :
    e.collapseTop = value := by
  obtain ⟨target, member, rfl, hvalue⟩ := h
  rw [collapseTop, initialValue?_eq_some.mpr hvalue]

theorem collapseTop_of_not_readsFresh {e : Expr} (h : ∀ value, ¬ e.ReadsFresh value) :
    e.collapseTop = e := by
  rcases e.collapseTop_cases with heq | ⟨target, member, heq, hvalue⟩
  · exact heq
  · exact absurd ⟨target, member, heq, initialValue?_eq_some.mp hvalue⟩ (h _)

/-- What a read gives is a part of a part of it. -/
theorem ReadsFresh.exists_child {e value : Expr} (h : e.ReadsFresh value) :
    ∃ target ∈ e.children, value ∈ target.children := by
  obtain ⟨target, member, rfl, hvalue⟩ := h
  exact ⟨target, List.mem_singleton.mpr rfl,
    (initialValue?_mem (initialValue?_eq_some.mpr hvalue)).1⟩

theorem redexFree_iff {e : Expr} :
    e.RedexFree ↔ (∀ value, ¬ e.ReadsFresh value) ∧ ∀ c ∈ e.children, c.RedexFree :=
  forall_subterms_iff

theorem RedexFree.child {e c : Expr} (h : e.RedexFree) (hc : c ∈ e.children) : c.RedexFree :=
  (redexFree_iff.mp h).2 c hc

/-- **What collapse does at a node.**  The parts are collapsed first.  Then the value takes the
place of a read of a fresh construction, and every other node stays. -/
theorem collapse_cases (e : Expr) :
    (e.mapChildren collapse).ReadsFresh e.collapse ∨
      (∀ value, ¬ (e.mapChildren collapse).ReadsFresh value) ∧
        e.collapse = e.mapChildren collapse := by
  rw [collapse_eq]
  by_cases hreads : ∃ value, (e.mapChildren collapse).ReadsFresh value
  · obtain ⟨value, hvalue⟩ := hreads
    rw [hvalue.collapseTop_eq]
    exact Or.inl hvalue
  · rw [not_exists] at hreads
    exact Or.inr ⟨hreads, collapseTop_of_not_readsFresh hreads⟩

/-- The nodes that collapse leaves are nodes of the expression around collapsed parts, and no reads
of fresh constructions: what a read at the top gives is a part of a construction that is collapsed
already. -/
theorem forall_subterms_collapse {P : Expr → Prop} {e : Expr}
    (h : ∀ x ∈ e.subterms, (∀ value, ¬ (x.mapChildren collapse).ReadsFresh value) →
      P (x.mapChildren collapse)) : ∀ y ∈ e.collapse.subterms, P y := by
  induction e using Expr.induction_on_children with
  | node e ih =>
    obtain ⟨htop, hparts⟩ := forall_subterms_iff.mp h
    have hbelow : ∀ d ∈ (e.mapChildren collapse).children, ∀ y ∈ d.subterms, P y := by
      intro d hd
      obtain ⟨c, hc, rfl⟩ := mem_children_mapChildren.mp hd
      exact ih c hc (hparts c hc)
    rcases e.collapse_cases with hvalue | ⟨hkept, heq⟩
    · obtain ⟨target, htarget, hmem⟩ := hvalue.exists_child
      exact (forall_subterms_iff.mp (hbelow target htarget)).2 _ hmem
    · rw [heq]
      exact forall_subterms_iff.mpr ⟨htop hkept, hbelow⟩

/-- **No read is left.** -/
theorem redexFree_collapse (e : Expr) : e.collapse.RedexFree :=
  forall_subterms_collapse fun _ _ hkept => hkept

/-- Collapse leaves an expression alone that has nothing to contract. -/
theorem RedexFree.collapse_eq {e : Expr} (h : e.RedexFree) : e.collapse = e := by
  induction e using Expr.induction_on_children with
  | node e ih =>
    have hparts : e.mapChildren collapse = e.mapChildren id :=
      mapChildren_congr fun c hc => ih c hc (h.child hc)
    rw [Expr.collapse_eq, hparts, mapChildren_id]
    exact collapseTop_of_not_readsFresh (redexFree_iff.mp h).1

/-! ### Contractions and collapse -/

/-- **A contraction changes nothing for collapse.** -/
theorem Contracts.collapse_eq {e e' : Expr} (h : e.Contracts e') : e'.collapse = e.collapse := by
  induction h with
  | here reads =>
    obtain ⟨target, member, rfl, hvalue⟩ := reads
    have hlookup := initialValue?_eq_some.mpr hvalue
    -- A construction stays one, and is initialised with collapsed expressions.
    have htarget : target.collapse = target.mapChildren collapse := by
      rw [Expr.collapse_eq]
      cases hvalue <;> rfl
    rw [Expr.collapse_eq (.memberAccess target member), mapChildren, collapseTop, htarget,
      initialValue?_mapChildren, hlookup]
    rfl
  | @inside e c c' before after parts _ ih =>
    have hlength : (before ++ c' :: after).length = e.children.length := by
      rw [parts, List.length_append, List.length_append]
      rfl
    have hmap : (before ++ c' :: after).map collapse = e.children.map collapse := by
      rw [parts, List.map_append, List.map_append, List.map_cons, List.map_cons, ih]
    rw [Expr.collapse_eq, mapChildren_withChildren collapse hlength, hmap, withChildren_map,
      ← Expr.collapse_eq]

open Relation (ReflTransGen)

theorem collapse_eq_of_contracts {e e' : Expr} (h : ReflTransGen Contracts e e') :
    e'.collapse = e.collapse := by
  induction h with
  | refl => rfl
  | tail _ step ih => exact step.collapse_eq.trans ih

/-- Contractions of a part are contractions of the node. -/
theorem contracts_inside {e c c' : Expr} {before after : List Expr}
    (hlength : (before ++ c :: after).length = e.children.length)
    (h : ReflTransGen Contracts c c') :
    ReflTransGen Contracts (e.withChildren (before ++ c :: after))
      (e.withChildren (before ++ c' :: after)) := by
  induction h with
  | refl => exact .refl
  | @tail d d' _ step ih =>
    have hd : ∀ x : Expr, (before ++ x :: after).length = e.children.length := by
      intro x
      rw [← hlength, List.length_append, List.length_append]
      rfl
    have hstep := Contracts.inside (children_withChildren (hd d)) step
    rw [withChildren_withChildren (hd d) (hd d')] at hstep
    exact ih.tail hstep

/-- Contractions of all parts are contractions of the node. -/
theorem contracts_mapChildren {f : Expr → Expr} {e : Expr}
    (h : ∀ c ∈ e.children, ReflTransGen Contracts c (f c)) :
    ReflTransGen Contracts e (e.mapChildren f) := by
  -- One part after the other: those before are changed, those after are not yet.
  have hparts : ∀ after before, e.children = before ++ after →
      ReflTransGen Contracts (e.withChildren (before.map f ++ after)) (e.mapChildren f) := by
    intro after
    induction after with
    | nil =>
      intro before hsplit
      rw [List.append_nil] at hsplit ⊢
      rw [← hsplit, withChildren_map]
    | cons c after ih =>
      intro before hsplit
      have hlength : (before.map f ++ c :: after).length = e.children.length := by
        rw [hsplit, List.length_append, List.length_append, List.length_map]
      have hc : c ∈ e.children := by
        rw [hsplit]
        exact List.mem_append_right _ (List.mem_cons_self ..)
      have hrest := ih (before ++ [c]) (by rw [hsplit, List.append_assoc]; rfl)
      rw [List.map_append, List.append_assoc] at hrest
      exact (contracts_inside hlength (h c hc)).trans hrest
  have hall := hparts e.children [] rfl
  rwa [List.map_nil, List.nil_append, withChildren_children] at hall

/-- **Collapse is made of contractions.** -/
theorem contracts_collapse (e : Expr) : ReflTransGen Contracts e e.collapse := by
  induction e using Expr.induction_on_children with
  | node e ih =>
    have hparts : ReflTransGen Contracts e (e.mapChildren collapse) :=
      contracts_mapChildren fun c hc => ih c hc
    rcases e.collapse_cases with hvalue | ⟨-, heq⟩
    · exact hparts.tail (.here hvalue)
    · rw [heq]
      exact hparts

/-- An expression that cannot be contracted has no read to contract, as contractions reach all
nodes. -/
theorem redexFree_of_not_contracts {e : Expr} (h : ∀ e', ¬ e.Contracts e') : e.RedexFree := by
  induction e using Expr.induction_on_children with
  | node e ih =>
    refine redexFree_iff.mpr ⟨fun value hvalue => h value (.here hvalue), fun c hc => ?_⟩
    obtain ⟨before, after, hsplit⟩ := List.append_of_mem hc
    exact ih c hc fun c' hc' => h _ (.inside hsplit hc')

/-- **Collapse computes the normal form.**  It leaves no read of a member of a fresh construction,
and finitely many contractions lead to it.  It is not changed by contracting an expression
beforehand, so it can be repeated without effect, and it is the only end that contractions can come
to. -/
theorem collapse_normalForm (e : Expr) :
    (∀ x ∈ e.collapse.subterms, ∀ value, ¬ x.ReadsFresh value) ∧
    ReflTransGen Contracts e e.collapse ∧
    (∀ e', e.Contracts e' → e'.collapse = e.collapse) ∧
    e.collapse.collapse = e.collapse ∧
    ∀ n, ReflTransGen Contracts e n → (∀ n', ¬ n.Contracts n') → n = e.collapse := by
  refine ⟨redexFree_collapse e, contracts_collapse e, fun e' h => h.collapse_eq,
    (redexFree_collapse e).collapse_eq, fun n hsteps hend => ?_⟩
  rw [← collapse_eq_of_contracts hsteps, (redexFree_of_not_contracts hend).collapse_eq]

end Expr

namespace Sample

/-- `new Cook(Name = "Ann")` -/
def ann : Expr :=
  .new ⟨cook, [.string]⟩ [.constant (.string "Ann") .string]
    (some [⟨"Cook", "Name", .string, .getter⟩])

/-- `new Cook(Name = "Ann").Name` -/
def nameOfAnn : Expr := .memberAccess ann ⟨"Cook", "Name", .string, .property⟩

/-- `new Kitchen() {Cook = new Cook(Name = "Ann")}.Cook.Name` -/
def nameOfTheCook : Expr :=
  .memberAccess
    (.memberAccess
      (.memberInit (.default kitchen) [] none
        [.assignment ⟨"Kitchen", "Cook", cook, .property⟩ ann])
      ⟨"Kitchen", "Cook", cook, .property⟩)
    ⟨"Cook", "Name", .string, .property⟩

end Sample

/-- Ann is read from the kitchen first, and then the name is read from Ann. -/
theorem collapse_normalForm_nameOfTheCook :
    Sample.nameOfTheCook.Contracts Sample.nameOfAnn ∧
      Sample.nameOfAnn.collapse = Sample.nameOfTheCook.collapse ∧
      Sample.nameOfTheCook.collapse = .constant (.string "Ann") .string ∧
      Relation.ReflTransGen Expr.Contracts Sample.nameOfTheCook
        (.constant (.string "Ann") .string) := by
  have hreads : (Expr.memberAccess
      (.memberInit (.default Sample.kitchen) [] none
        [.assignment ⟨"Kitchen", "Cook", Sample.cook, .property⟩ Sample.ann])
      ⟨"Kitchen", "Cook", Sample.cook, .property⟩).ReadsFresh Sample.ann :=
    ⟨_, _, rfl, Expr.initialValue?_eq_some.mp rfl⟩
  have hstep : Sample.nameOfTheCook.Contracts Sample.nameOfAnn :=
    @Expr.Contracts.inside Sample.nameOfTheCook _ Sample.ann [] [] rfl (.here hreads)
  have hcollapse : Sample.nameOfTheCook.collapse = .constant (.string "Ann") .string := rfl
  obtain ⟨-, hsteps, hinvariant, -, -⟩ := Expr.collapse_normalForm Sample.nameOfTheCook
  rw [hcollapse] at hsteps
  exact ⟨hstep, hinvariant _ hstep, hcollapse, hsteps⟩

end Comprehension
