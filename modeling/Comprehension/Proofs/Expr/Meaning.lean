import Comprehension.Proofs.Expr.Occurrences

/-! # What expressions mean

An `Interpretation` says what the nodes of expressions mean: each node is a pure function of the
values of its parts.  `Interpretation.eval` puts these meanings together, given what the variables
stand for (`Env`).  Lambdas and queries inside expressions have variables of their own; they are
interpreted as a whole.

An interpretation is lawful when reading a member of an object just constructed gives the value that
initialises the member.  Members are told apart by `Member.refersToSame`, and the laws are asked
only of constructions that initialise no member twice.

Two things that resolution does to expressions are then known in terms of meaning: substitution
changes what a parameter stands for (`eval_replace`), and collapse changes nothing
(`eval_collapse`). -/
namespace Comprehension

/-! ### Interpretations -/

/-- What the variables of an expression stand for: its parameters, and the current items of query
sources, by identity. -/
structure Env (V : Type) where
  parameter : Parameter → V
  item : Nat → V

/-- Bindings with values in place of expressions. -/
inductive Bound (V : Type) where
  | assigned (member : Member) (value : V)
  | filled (member : Member) (elements : List (Method × List V))
  | nested (member : Member) (bindings : List (Bound V))

/-- What the nodes of expressions mean, over values of type `V`. -/
structure Interpretation (V : Type) where
  constant : Value → Ty → V
  staticMember : Member → V
  read : Member → V → V
  unary : UnaryOp → Ty → V → V
  binary : BinaryOp → Ty → V → V → V
  staticCall : Method → List V → V
  methodCall : Method → V → List V → V
  construct : Constructor → Option (List Member) → List V → V
  constructWith : Constructor → Option (List Member) → List V → List (Bound V) → V
  conditional : Ty → V → V → V → V
  /-- A lambda or a query inside an expression, as a whole. -/
  closure : Expr → Env V → V
  /-- The items of a collection. -/
  elements : V → List V
  /-- Whether a condition holds. -/
  holds : V → Bool
  /-- Whether a sort key may stand before another. -/
  le : V → V → Bool

/-- No two of the members refer to the same thing. -/
def Different (members : List Member) : Prop :=
  members.Pairwise fun f g => f.refersToSame g = false

instance (members : List Member) : Decidable (Different members) :=
  inferInstanceAs (Decidable (members.Pairwise fun f g => f.refersToSame g = false))

/-- The members that are assigned, nested bindings apart. -/
def Binding.assignedMembers (bindings : List Binding) : List Member :=
  bindings.filterMap fun
    | .assignment m _ => some m
    | _ => none

def Bound.assignedMembers {V : Type} (bindings : List (Bound V)) : List Member :=
  bindings.filterMap fun
    | .assigned m _ => some m
    | _ => none

/-- Reading a member of an object just constructed gives the value that initialises it. -/
structure Interpretation.Lawful {V : Type} (I : Interpretation V) : Prop where
  read_construct : ∀ {c : Constructor} {ms : List Member} {vs : List V} {i : Nat} {f m : Member}
    {v : V}, Different ms → ms[i]? = some f → vs[i]? = some v → f.refersToSame m →
    I.read m (I.construct c (some ms) vs) = v
  read_constructWith : ∀ {c : Constructor} {ms : Option (List Member)} {vs : List V}
    {bs : List (Bound V)} {f m : Member} {v : V}, Different (Bound.assignedMembers bs) →
    .assigned f v ∈ bs → f.refersToSame m → I.read m (I.constructWith c ms vs bs) = v

namespace Env

variable {V : Type} (env : Env V)

/-- A parameter stands for a value. -/
def bind (p : Parameter) (v : V) : Env V :=
  { env with parameter := fun q => if q = p then v else env.parameter q }

/-- Parameters stand for values, one each; a later one counts before an earlier one. -/
def bindAll (env : Env V) : List Parameter → List V → Env V
  | p :: ps, v :: vs => (env.bind p v).bindAll ps vs
  | _, _ => env

theorem bindAll_singleton (p : Parameter) (v : V) : env.bindAll [p] [v] = env.bind p v := rfl

theorem bindAll_pair (p q : Parameter) (v w : V) :
    env.bindAll [p, q] [v, w] = (env.bind p v).bind q w := rfl

/-- A query source has a current item. -/
def withItem (source : Source) (v : V) : Env V :=
  { env with item := fun id => if id = source.id then v else env.item id }

@[simp] theorem bind_parameter_self (p : Parameter) (v : V) : (env.bind p v).parameter p = v :=
  if_pos rfl

theorem bind_parameter_of_ne {p q : Parameter} (h : q ≠ p) (v : V) :
    (env.bind p v).parameter q = env.parameter q := if_neg h

@[simp] theorem bind_item (p : Parameter) (v : V) : (env.bind p v).item = env.item := rfl

@[simp] theorem withItem_item_self (source : Source) (v : V) :
    (env.withItem source v).item source.id = v := if_pos rfl

theorem withItem_item_of_ne {source : Source} {id : Nat} (h : id ≠ source.id) (v : V) :
    (env.withItem source v).item id = env.item id := if_neg h

@[simp] theorem withItem_parameter (source : Source) (v : V) :
    (env.withItem source v).parameter = env.parameter := rfl

end Env

namespace Interpretation

variable {V : Type} (I : Interpretation V) (env : Env V)

mutual

/-- The value of an expression. -/
def eval : Expr → V
  | .constant v t => I.constant v t
  | .parameter p => env.parameter p
  | .staticMember m => I.staticMember m
  | .memberAccess e m => I.read m (eval e)
  | .unary o e t => I.unary o t (eval e)
  | .binary o l r t => I.binary o t (eval l) (eval r)
  | .staticCall m as => I.staticCall m (evalList as)
  | .methodCall e m as => I.methodCall m (eval e) (evalList as)
  | .new c as ms => I.construct c ms (evalList as)
  | .memberInit c as ms bs => I.constructWith c ms (evalList as) (evalBindings bs)
  | .lambda ps b => I.closure (.lambda ps b) env
  | .conditional c t f y => I.conditional y (eval c) (eval t) (eval f)
  | .reference s => env.item s.id
  | .subQuery q t => I.closure (.subQuery q t) env

def evalList : List Expr → List V
  | [] => []
  | e :: es => eval e :: evalList es

def evalBinding : Binding → Bound V
  | .assignment m e => .assigned m (eval e)
  | .list m is => .filled m (evalInits is)
  | .nested m bs => .nested m (evalBindings bs)

def evalBindings : List Binding → List (Bound V)
  | [] => []
  | b :: bs => evalBinding b :: evalBindings bs

def evalInit : ElementInit → Method × List V
  | ⟨m, as⟩ => (m, evalList as)

def evalInits : List ElementInit → List (Method × List V)
  | [] => []
  | i :: is => evalInit i :: evalInits is

end

theorem evalList_eq_map (es : List Expr) : I.evalList env es = es.map (I.eval env) := by
  induction es with
  | nil => rfl
  | cons e es ih => rw [evalList, ih, List.map_cons]

theorem evalBindings_eq_map (bs : List Binding) :
    I.evalBindings env bs = bs.map (I.evalBinding env) := by
  induction bs with
  | nil => rfl
  | cons b bs ih => rw [evalBindings, ih, List.map_cons]

theorem assignedMembers_evalBindings (bs : List Binding) :
    Bound.assignedMembers (I.evalBindings env bs) = Binding.assignedMembers bs := by
  induction bs with
  | nil => rfl
  | cons b bs ih =>
    rw [evalBindings, Bound.assignedMembers, Binding.assignedMembers, List.filterMap_cons,
      List.filterMap_cons, ← Bound.assignedMembers, ← Binding.assignedMembers, ih]
    cases b <;> rfl

end Interpretation

/-! ### Tidy expressions -/

/-- The node has no variables of its own, and initialises no member twice. -/
def Expr.NodeTidy : Expr → Prop
  | .lambda .. => False
  | .subQuery .. => False
  | .new _ _ (some ms) => Different ms
  | .memberInit _ _ _ bs => Different (Binding.assignedMembers bs)
  | _ => True

/-- No node of the expression has variables of its own or initialises a member twice. -/
def Expr.Tidy (e : Expr) : Prop := ∀ x ∈ e.subterms, x.NodeTidy

instance (e : Expr) : Decidable e.NodeTidy :=
  match e with
  | .lambda .. => inferInstanceAs (Decidable False)
  | .subQuery .. => inferInstanceAs (Decidable False)
  | .new _ _ (some ms) => inferInstanceAs (Decidable (Different ms))
  | .memberInit _ _ _ bs => inferInstanceAs (Decidable (Different (Binding.assignedMembers bs)))
  | .constant .. | .parameter .. | .staticMember .. | .memberAccess .. | .unary .. | .binary ..
  | .staticCall .. | .methodCall .. | .new _ _ none | .conditional .. | .reference .. =>
    inferInstanceAs (Decidable True)

instance (e : Expr) : Decidable e.Tidy :=
  inferInstanceAs (Decidable (∀ x ∈ e.subterms, x.NodeTidy))

namespace Expr

theorem tidy_iff {e : Expr} : e.Tidy ↔ e.NodeTidy ∧ ∀ c ∈ e.children, c.Tidy :=
  forall_subterms_iff

theorem Tidy.child {e c : Expr} (h : e.Tidy) (hc : c ∈ e.children) : c.Tidy :=
  (tidy_iff.mp h).2 c hc

theorem tidy_parameter {p : Parameter} : (Expr.parameter p).Tidy :=
  tidy_iff.mpr ⟨trivial, fun _ hc => nomatch hc⟩

theorem tidy_reference {s : Source} : (Expr.reference s).Tidy :=
  tidy_iff.mpr ⟨trivial, fun _ hc => nomatch hc⟩

theorem NodeTidy.declared_eq_nil {e : Expr} (h : e.NodeTidy) : e.declared = [] := by
  cases e with
  | lambda _ _ => cases h
  | _ => rfl

end Expr

theorem Binding.assignedMembers_mapPartsList (f : Expr → Expr) (bs : List Binding) :
    Binding.assignedMembers (Binding.mapPartsList f bs) = Binding.assignedMembers bs := by
  induction bs with
  | nil => rfl
  | cons b bs ih =>
    rw [Binding.mapPartsList, Binding.assignedMembers, Binding.assignedMembers,
      List.filterMap_cons, List.filterMap_cons, ← Binding.assignedMembers,
      ← Binding.assignedMembers, ih]
    cases b <;> rfl

namespace Expr

theorem nodeTidy_mapChildren {f : Expr → Expr} {e : Expr} :
    (e.mapChildren f).NodeTidy ↔ e.NodeTidy := by
  cases e with
  | memberInit c as ms bs =>
    rw [mapChildren, NodeTidy, NodeTidy, ← Binding.mapPartsList_eq_map,
      Binding.assignedMembers_mapPartsList]
  | new c as ms => cases ms <;> rfl
  | _ => rfl

theorem tidy_mapChildren {f : Expr → Expr} {e : Expr} (he : e.Tidy)
    (hf : ∀ c ∈ e.children, c.Tidy → (f c).Tidy) : (e.mapChildren f).Tidy := by
  refine tidy_iff.mpr ⟨nodeTidy_mapChildren.mpr (tidy_iff.mp he).1, ?_⟩
  intro d hd
  obtain ⟨c, hc, rfl⟩ := mem_children_mapChildren.mp hd
  exact hf c hc (he.child hc)

theorem Tidy.replace {p : Parameter} {r e : Expr} (he : e.Tidy) (hr : r.Tidy) :
    (Expr.replace (.parameter p) r e).Tidy := by
  induction e using Expr.induction_on_children with
  | node e ih =>
    rcases Expr.replace_cases p r e with ⟨-, heq⟩ | ⟨-, heq⟩ | ⟨-, -, heq⟩
    · rwa [heq]
    · rwa [heq]
    · rw [heq]
      exact tidy_mapChildren he fun c hc hctidy => ih c hc hctidy

theorem Tidy.collapseTop {e : Expr} (he : e.Tidy) : e.collapseTop.Tidy := by
  rcases e.collapseTop_cases with heq | ⟨target, member, rfl, hv⟩
  · rwa [heq]
  · have htarget : target.Tidy := he.child (List.mem_singleton.mpr rfl)
    exact htarget.child (initialValue?_mem hv).1

theorem Tidy.collapse {e : Expr} (he : e.Tidy) : e.collapse.Tidy := by
  induction e using Expr.induction_on_children with
  | node e ih =>
    rw [Expr.collapse_eq]
    exact (tidy_mapChildren he fun c hc hctidy => ih c hc hctidy).collapseTop

end Expr

/-! ### Meaning, node by node -/

/-- A node whose value comes from the values of its parts alone. -/
def Expr.IsComposite : Expr → Prop
  | .parameter _ => False
  | .reference _ => False
  | .lambda .. => False
  | .subQuery .. => False
  | _ => True

theorem Expr.NodeTidy.cases {e : Expr} (h : e.NodeTidy) :
    (∃ p, e = .parameter p) ∨ (∃ s, e = .reference s) ∨ e.IsComposite := by
  cases e with
  | parameter p => exact Or.inl ⟨p, rfl⟩
  | reference s => exact Or.inr (Or.inl ⟨s, rfl⟩)
  | lambda _ _ | subQuery _ _ => cases h
  | _ => exact Or.inr (Or.inr trivial)

namespace Interpretation

variable {V : Type} {I : Interpretation V} {env env' : Env V} {f : Expr → Expr}

theorem evalList_map {es : List Expr} (h : ∀ c ∈ es, I.eval env (f c) = I.eval env' c) :
    I.evalList env (es.map f) = I.evalList env' es := by
  rw [evalList_eq_map, evalList_eq_map, List.map_map]
  exact List.map_congr_left h

theorem evalInits_map {is : List ElementInit}
    (h : ∀ c ∈ is.flatMap ElementInit.arguments, I.eval env (f c) = I.eval env' c) :
    I.evalInits env (is.map (ElementInit.mapParts f)) = I.evalInits env' is := by
  induction is with
  | nil => rfl
  | cons i is ih =>
    obtain ⟨m, as⟩ := i
    rw [List.flatMap_cons, List.forall_mem_append] at h
    rw [List.map_cons, evalInits, evalInits, ih h.2, ElementInit.mapParts, evalInit, evalInit,
      evalList_map h.1]

mutual

theorem evalBinding_mapParts : (b : Binding) →
    (∀ c ∈ b.parts, I.eval env (f c) = I.eval env' c) →
    I.evalBinding env (b.mapParts f) = I.evalBinding env' b
  | .assignment m e, h => by
    rw [Binding.mapParts, evalBinding, evalBinding, h e (List.mem_singleton.mpr rfl)]
  | .list m is, h => by rw [Binding.mapParts, evalBinding, evalBinding, evalInits_map h]
  | .nested m bs, h => by
    rw [Binding.mapParts, evalBinding, evalBinding, evalBindings_mapPartsList bs h]

theorem evalBindings_mapPartsList : (bs : List Binding) →
    (∀ c ∈ Binding.partsList bs, I.eval env (f c) = I.eval env' c) →
    I.evalBindings env (Binding.mapPartsList f bs) = I.evalBindings env' bs
  | [], _ => rfl
  | b :: bs, h => by
    rw [Binding.partsList, List.forall_mem_append] at h
    rw [Binding.mapPartsList, evalBindings, evalBindings, evalBinding_mapParts b h.1,
      evalBindings_mapPartsList bs h.2]

end

/-- **Meaning is compositional.**  A composite node built again around other parts keeps its value
when the parts keep theirs. -/
theorem eval_mapChildren {e : Expr} (he : e.IsComposite)
    (h : ∀ c ∈ e.children, I.eval env (f c) = I.eval env' c) :
    I.eval env (e.mapChildren f) = I.eval env' e := by
  cases e with
  | parameter _ | reference _ | lambda _ _ | subQuery _ _ => cases he
  | constant _ _ | staticMember _ => rfl
  | memberAccess t m | unary o t y =>
    rw [Expr.mapChildren, eval, eval, h t (List.mem_singleton.mpr rfl)]
  | binary o l r y =>
    rw [Expr.mapChildren, eval, eval, h l (by simp [Expr.children]), h r (by simp [Expr.children])]
  | staticCall m as | new c as ms =>
    rw [Expr.children] at h
    rw [Expr.mapChildren, eval, eval, evalList_map h]
  | methodCall t m as =>
    rw [Expr.children, List.forall_mem_cons] at h
    rw [Expr.mapChildren, eval, eval, h.1, evalList_map h.2]
  | memberInit c as ms bs =>
    rw [Expr.children, List.forall_mem_append] at h
    rw [Expr.mapChildren, eval, eval, evalList_map h.1, ← Binding.mapPartsList_eq_map,
      evalBindings_mapPartsList bs h.2]
  | conditional c t r y =>
    rw [Expr.mapChildren, eval, eval, h c (by simp [Expr.children]), h t (by simp [Expr.children]),
      h r (by simp [Expr.children])]

/-! ### Substitution and collapse -/

/-- **Substitution changes what a parameter stands for.** -/
theorem eval_replace {p : Parameter} {r e : Expr} (he : e.Tidy) :
    I.eval env (Expr.replace (.parameter p) r e) = I.eval (env.bind p (I.eval env r)) e := by
  induction e using Expr.induction_on_children with
  | node e ih =>
    obtain ⟨hnode, hchildren⟩ := Expr.tidy_iff.mp he
    rcases Expr.replace_cases p r e with ⟨rfl, heq⟩ | ⟨hd, -⟩ | ⟨hne, -, heq⟩
    · rw [heq, eval, Env.bind_parameter_self]
    · -- A tidy node declares nothing, so nothing stops the substitution.
      rw [hnode.declared_eq_nil] at hd
      cases hd
    · rw [heq]
      rcases hnode.cases with ⟨q, rfl⟩ | ⟨s, rfl⟩ | hcomposite
      · have hqp : q ≠ p := fun h => hne (by rw [h])
        rw [Expr.mapChildren, eval, eval, Env.bind_parameter_of_ne env hqp]
      · rfl
      · exact eval_mapChildren hcomposite fun c hc => ih c hc (hchildren c hc)

/-- The value of an expression depends on what occurs in it. -/
theorem eval_congr {e : Expr} (he : e.Tidy)
    (hparameters : ∀ q ∈ e.freeParameters, env.parameter q = env'.parameter q)
    (hitems : ∀ s ∈ e.references, env.item s.id = env'.item s.id) :
    I.eval env e = I.eval env' e := by
  induction e using Expr.induction_on_children with
  | node e ih =>
    obtain ⟨hnode, hchildren⟩ := Expr.tidy_iff.mp he
    rcases hnode.cases with ⟨q, rfl⟩ | ⟨s, rfl⟩ | hcomposite
    · exact hparameters q (List.mem_singleton.mpr rfl)
    · exact hitems s (Expr.mem_references_iff.mpr (Or.inl rfl))
    · have hparts : ∀ c ∈ e.children, I.eval env (id c) = I.eval env' c := by
        intro c hc
        refine ih c hc (hchildren c hc) (fun q hq => hparameters q ?_) fun s hs => hitems s ?_
        · rw [Expr.mem_freeParameters_iff, hnode.declared_eq_nil]
          exact ⟨List.not_mem_nil, Or.inr ⟨c, hc, hq⟩⟩
        · exact Expr.mem_references_iff.mpr (Or.inr ⟨c, hc, hs⟩)
      have hmap := eval_mapChildren hcomposite hparts
      rwa [Expr.mapChildren_id] at hmap

end Interpretation

/-- What initialises a member is the argument at the place of a member that refers to the same. -/
theorem initialArgument?_getElem? {m : Member} {v : Expr} : (ms : List Member) → (as : List Expr) →
    initialArgument? m ms as = some v →
    ∃ (i : Nat) (f : Member), ms[i]? = some f ∧ as[i]? = some v ∧ f.refersToSame m
  | [], _, h => by cases h
  | f :: ms, as, h => by
    rw [initialArgument?] at h
    split at h
    · rename_i hsame
      exact ⟨0, f, rfl, by rwa [← List.head?_eq_getElem?], hsame⟩
    · obtain ⟨i, g, hg, ha, hsame⟩ := initialArgument?_getElem? ms as.tail h
      exact ⟨i + 1, g, hg, by rwa [List.getElem?_tail] at ha, hsame⟩

theorem assignedValue?_mem_assignment {m : Member} {v : Expr} : (bs : List Binding) →
    assignedValue? m bs = some v → ∃ f, .assignment f v ∈ bs ∧ f.refersToSame m
  | [], h => by cases h
  | .assignment f e :: bs, h => by
    rw [assignedValue?] at h
    split at h
    · rename_i hsame
      cases h
      exact ⟨f, List.mem_cons_self .., hsame⟩
    · obtain ⟨g, hg, hsame⟩ := assignedValue?_mem_assignment bs h
      exact ⟨g, List.mem_cons_of_mem _ hg, hsame⟩
  | .list f is :: bs, h => by
    obtain ⟨g, hg, hsame⟩ := assignedValue?_mem_assignment bs h
    exact ⟨g, List.mem_cons_of_mem _ hg, hsame⟩
  | .nested f bs' :: bs, h => by
    obtain ⟨g, hg, hsame⟩ := assignedValue?_mem_assignment bs h
    exact ⟨g, List.mem_cons_of_mem _ hg, hsame⟩

namespace Interpretation.Lawful

variable {V : Type} {I : Interpretation V} (hI : I.Lawful) {env : Env V}
include hI

/-- A member read of a fresh construction has the value of what initialises the member. -/
theorem read_initialValue {target v : Expr} {m : Member} (htidy : target.NodeTidy)
    (h : target.initialValue? m = some v) : I.read m (I.eval env target) = I.eval env v := by
  cases target with
  | new c as ms =>
    cases ms with
    | none => cases h
    | some ms =>
      obtain ⟨i, f, hf, hv, hsame⟩ := initialArgument?_getElem? ms as h
      refine hI.read_construct htidy hf ?_ hsame
      rw [Interpretation.evalList_eq_map, List.getElem?_map, hv]
      rfl
  | memberInit c as ms bs =>
    obtain ⟨f, hf, hsame⟩ := assignedValue?_mem_assignment bs h
    refine hI.read_constructWith ?_ ?_ hsame
    · rw [Interpretation.assignedMembers_evalBindings]
      exact htidy
    · rw [Interpretation.evalBindings_eq_map]
      exact List.mem_map.mpr ⟨_, hf, rfl⟩
  | _ => cases h

theorem eval_collapseTop {e : Expr} (he : e.Tidy) :
    I.eval env e.collapseTop = I.eval env e := by
  rcases e.collapseTop_cases with heq | ⟨target, member, rfl, hv⟩
  · rw [heq]
  · have htarget : target.Tidy := he.child (List.mem_singleton.mpr rfl)
    exact (hI.read_initialValue (Expr.tidy_iff.mp htarget).1 hv).symm

/-- **Collapse keeps the meaning.** -/
theorem eval_collapse {e : Expr} (he : e.Tidy) : I.eval env e.collapse = I.eval env e := by
  induction e using Expr.induction_on_children with
  | node e ih =>
    obtain ⟨hnode, hchildren⟩ := Expr.tidy_iff.mp he
    have hparts : I.eval env (e.mapChildren Expr.collapse) = I.eval env e := by
      rcases hnode.cases with ⟨q, rfl⟩ | ⟨s, rfl⟩ | hcomposite
      · rfl
      · rfl
      · exact Interpretation.eval_mapChildren hcomposite fun c hc => ih c hc (hchildren c hc)
    rw [Expr.collapse_eq, hI.eval_collapseTop, hparts]
    exact Expr.tidy_mapChildren he fun c _ hc => hc.collapse

end Interpretation.Lawful

/-! ### Records -/

/-- Plain values, collections and records. -/
inductive Datum where
  | plain (value : Value)
  | many (items : List Datum)
  | record (fields : List (Member × Datum))

namespace Datum

/-- The field of a record that a member refers to. -/
def read (m : Member) : Datum → Datum
  | .record fields => ((fields.find? fun f => f.1.refersToSame m).map Prod.snd).getD (.plain .null)
  | _ => .plain .null

/-- The fields that are assigned, nested bindings apart. -/
def assignedFields (bindings : List (Bound Datum)) : List (Member × Datum) :=
  bindings.filterMap fun
    | .assigned m d => some (m, d)
    | _ => none

theorem map_fst_assignedFields (bindings : List (Bound Datum)) :
    (assignedFields bindings).map Prod.fst = Bound.assignedMembers bindings := by
  rw [assignedFields, Bound.assignedMembers, List.map_filterMap]
  refine congrArg (List.filterMap · bindings) (funext fun b => ?_)
  cases b <;> rfl

theorem read_record {fields : List (Member × Datum)} {f m : Member} {d : Datum}
    (hdifferent : Different (fields.map Prod.fst)) (hf : (f, d) ∈ fields)
    (hsame : f.refersToSame m) : read m (.record fields) = d := by
  suffices key : fields.find? (fun g => g.1.refersToSame m) = some (f, d) by
    rw [read, key]
    rfl
  induction fields with
  | nil => cases hf
  | cons g fields ih =>
    obtain ⟨hhead, htail⟩ := List.pairwise_cons.mp hdifferent
    rcases List.mem_cons.mp hf with rfl | hf
    · exact List.find?_cons_of_pos hsame
    · have hother : g.1.refersToSame f = false := hhead f (List.mem_map.mpr ⟨_, hf, rfl⟩)
      -- Referring to the same is equality of property forms, so `m` cannot mean both fields.
      have hskip : ¬ g.1.refersToSame m := by
        intro hg
        rw [Member.refersToSame, beq_iff_eq] at hg hsame
        rw [Member.refersToSame, hg, hsame, beq_self_eq_true] at hother
        cases hother
      rw [List.find?_cons, Bool.eq_false_iff.mpr hskip]
      exact ih htail hf

end Datum

/-- Constructions as records, all else as it was. -/
def Interpretation.withRecords (I : Interpretation Datum) : Interpretation Datum :=
  { I with
    read := Datum.read
    construct := fun _ members values => .record ((members.getD []).zip values)
    constructWith := fun _ _ _ bindings => .record (Datum.assignedFields bindings) }

/-- Records are lawful. -/
theorem Interpretation.withRecords_lawful (I : Interpretation Datum) : I.withRecords.Lawful where
  read_construct := by
    intro c ms vs i f m v hdifferent hf hv hsame
    refine Datum.read_record ?_ ?_ hsame
    · show Different ((ms.zip vs).map Prod.fst)
      rw [List.zip_eq_zip_take_min, List.map_fst_zip (by simp)]
      exact List.Pairwise.sublist (List.take_sublist ..) hdifferent
    · exact List.mem_of_getElem? (List.getElem?_zip_eq_some.mpr ⟨hf, hv⟩)
  read_constructWith := by
    intro c ms vs bs f m v hdifferent hf hsame
    refine Datum.read_record ?_ ?_ hsame
    · rw [Datum.map_fst_assignedFields]
      exact hdifferent
    · exact List.mem_filterMap.mpr ⟨_, hf, rfl⟩

end Comprehension
