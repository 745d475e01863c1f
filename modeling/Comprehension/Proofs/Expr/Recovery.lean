import Comprehension.Proofs.Expr.Reversal
import Comprehension.Proofs.Expr.Sameness

/-! # What an accessor recovers

An accessor is found for an expression, and it leads to a part of the item that equals the
expression.  Equal is not the same: the search compares sources by their identities and doubles as
numbers.  So what the accessor recovers from the item is the expression up to the names and types of
sources, the from clauses of queries included, and up to the signs of zeros: the two have the same
standard form (`findAccessor_recovers`).  Where `-0` is searched, a `0` is found
(`findAccessor_recovers_other_zero`).

Equality passes through rewriting, as long as what happens at each node respects it
(`Expr.equal_rewrite`).  Taking conversions away and reading members of fresh constructions do, so
equal expressions have equal plain forms (`Expr.equal_plain`). -/
namespace Comprehension

/-! ### Equality and the parts of a node -/

section Parts

variable {f : Expr → Expr}

theorem Expr.equalList_map : (as as' : List Expr) →
    (∀ a ∈ as, ∀ a', a.equal a' → (f a).equal (f a')) → Expr.equalList as as' →
    Expr.equalList (as.map f) (as'.map f)
  | [], [], _, _ => rfl
  | [], _ :: _, _, h => by cases h
  | _ :: _, [], _, h => by cases h
  | a :: as, a' :: as', hf, h => by
    rw [Expr.equalList, Bool.and_eq_true] at h
    rw [List.forall_mem_cons] at hf
    rw [List.map_cons, List.map_cons, Expr.equalList, Bool.and_eq_true]
    exact ⟨hf.1 a' h.1, Expr.equalList_map as as' hf.2 h.2⟩

theorem ElementInit.equalList_mapParts : (is is' : List ElementInit) →
    (∀ a ∈ is.flatMap ElementInit.arguments, ∀ a', a.equal a' → (f a).equal (f a')) →
    ElementInit.equalList is is' →
    ElementInit.equalList (is.map (ElementInit.mapParts f)) (is'.map (ElementInit.mapParts f))
  | [], [], _, _ => rfl
  | [], _ :: _, _, h => by cases h
  | _ :: _, [], _, h => by cases h
  | ⟨m, as⟩ :: is, ⟨m', as'⟩ :: is', hf, h => by
    rw [ElementInit.equalList, ElementInit.equal, Bool.and_eq_true, Bool.and_eq_true] at h
    rw [List.flatMap_cons, List.forall_mem_append] at hf
    rw [List.map_cons, List.map_cons, ElementInit.equalList, ElementInit.mapParts,
      ElementInit.mapParts, ElementInit.equal, Bool.and_eq_true, Bool.and_eq_true]
    exact ⟨⟨h.1.1, Expr.equalList_map as as' hf.1 h.1.2⟩,
      ElementInit.equalList_mapParts is is' hf.2 h.2⟩

mutual

theorem Binding.equal_mapParts : (b b' : Binding) →
    (∀ a ∈ b.parts, ∀ a', a.equal a' → (f a).equal (f a')) → b.equal b' →
    (b.mapParts f).equal (b'.mapParts f)
  | .assignment m e, b', hf, h => by
    cases b' with
    | assignment m' e' =>
      rw [Binding.equal, Bool.and_eq_true] at h
      rw [Binding.mapParts, Binding.mapParts, Binding.equal, Bool.and_eq_true]
      exact ⟨h.1, hf e (List.mem_singleton.mpr rfl) e' h.2⟩
    | _ => cases h
  | .list m is, b', hf, h => by
    cases b' with
    | list m' is' =>
      rw [Binding.equal, Bool.and_eq_true] at h
      rw [Binding.mapParts, Binding.mapParts, Binding.equal, Bool.and_eq_true]
      exact ⟨h.1, ElementInit.equalList_mapParts is is' hf h.2⟩
    | _ => cases h
  | .nested m bs, b', hf, h => by
    cases b' with
    | nested m' bs' =>
      rw [Binding.equal, Bool.and_eq_true] at h
      rw [Binding.mapParts, Binding.mapParts, Binding.equal, Bool.and_eq_true]
      exact ⟨h.1, Binding.equalList_mapPartsList bs bs' hf h.2⟩
    | _ => cases h

theorem Binding.equalList_mapPartsList : (bs bs' : List Binding) →
    (∀ a ∈ Binding.partsList bs, ∀ a', a.equal a' → (f a).equal (f a')) →
    Binding.equalList bs bs' →
    Binding.equalList (Binding.mapPartsList f bs) (Binding.mapPartsList f bs')
  | [], [], _, _ => rfl
  | [], _ :: _, _, h => by cases h
  | _ :: _, [], _, h => by cases h
  | b :: bs, b' :: bs', hf, h => by
    rw [Binding.equalList, Bool.and_eq_true] at h
    rw [Binding.partsList, List.forall_mem_append] at hf
    rw [Binding.mapPartsList, Binding.mapPartsList, Binding.equalList, Bool.and_eq_true]
    exact ⟨Binding.equal_mapParts b b' hf.1 h.1, Binding.equalList_mapPartsList bs bs' hf.2 h.2⟩

end

/-- Equal nodes stay equal when equal parts do. -/
theorem Expr.equal_mapChildren {e e' : Expr}
    (hf : ∀ c ∈ e.children, ∀ c', c.equal c' → (f c).equal (f c')) (h : e.equal e') :
    (e.mapChildren f).equal (e'.mapChildren f) := by
  cases e with
  | constant _ _ | parameter _ | staticMember _ | reference _ | subQuery _ _ => cases e' <;> exact h
  | memberAccess t m =>
    cases e' with
    | memberAccess t' m' =>
      simp only [Expr.mapChildren, Expr.equal, Bool.and_eq_true] at h ⊢
      exact ⟨hf t (List.mem_singleton.mpr rfl) t' h.1, h.2⟩
    | _ => cases h
  | unary o t y =>
    cases e' with
    | unary o' t' y' =>
      simp only [Expr.mapChildren, Expr.equal, Bool.and_eq_true] at h ⊢
      exact ⟨⟨h.1.1, hf t (List.mem_singleton.mpr rfl) t' h.1.2⟩, h.2⟩
    | _ => cases h
  | binary o l r y =>
    cases e' with
    | binary o' l' r' y' =>
      simp only [Expr.mapChildren, Expr.equal, Bool.and_eq_true] at h ⊢
      obtain ⟨⟨⟨hop, hl⟩, hr⟩, hy⟩ := h
      have hleft := hf l (by simp [Expr.children]) l' hl
      have hright := hf r (by simp [Expr.children]) r' hr
      exact ⟨⟨⟨hop, hleft⟩, hright⟩, hy⟩
    | _ => cases h
  | staticCall m as =>
    cases e' with
    | staticCall m' as' =>
      simp only [Expr.mapChildren, Expr.equal, Bool.and_eq_true] at h ⊢
      exact ⟨h.1, Expr.equalList_map as as' hf h.2⟩
    | _ => cases h
  | methodCall t m as =>
    cases e' with
    | methodCall t' m' as' =>
      simp only [Expr.mapChildren, Expr.equal, Bool.and_eq_true] at h ⊢
      obtain ⟨⟨ht, hm⟩, has⟩ := h
      rw [Expr.children, List.forall_mem_cons] at hf
      exact ⟨⟨hf.1 t' ht, hm⟩, Expr.equalList_map as as' hf.2 has⟩
    | _ => cases h
  | new c as ms =>
    cases e' with
    | new c' as' ms' =>
      simp only [Expr.mapChildren, Expr.equal, Bool.and_eq_true] at h ⊢
      exact ⟨⟨h.1.1, Expr.equalList_map as as' hf h.1.2⟩, h.2⟩
    | _ => cases h
  | memberInit c as ms bs =>
    cases e' with
    | memberInit c' as' ms' bs' =>
      simp only [Expr.mapChildren, ← Binding.mapPartsList_eq_map, Expr.equal,
        Bool.and_eq_true] at h ⊢
      obtain ⟨⟨⟨hc, has⟩, hms⟩, hbs⟩ := h
      rw [Expr.children, List.forall_mem_append] at hf
      exact ⟨⟨⟨hc, Expr.equalList_map as as' hf.1 has⟩, hms⟩,
        Binding.equalList_mapPartsList bs bs' hf.2 hbs⟩
    | _ => cases h
  | lambda ps b =>
    cases e' with
    | lambda ps' b' =>
      simp only [Expr.mapChildren, Expr.equal, Bool.and_eq_true] at h ⊢
      exact ⟨h.1, hf b (List.mem_singleton.mpr rfl) b' h.2⟩
    | _ => cases h
  | conditional c t e y =>
    cases e' with
    | conditional c' t' e' y' =>
      simp only [Expr.mapChildren, Expr.equal, Bool.and_eq_true] at h ⊢
      obtain ⟨⟨⟨hc, ht⟩, he⟩, hy⟩ := h
      exact ⟨⟨⟨hf c (by simp [Expr.children]) c' hc, hf t (by simp [Expr.children]) t' ht⟩,
        hf e (by simp [Expr.children]) e' he⟩, hy⟩
    | _ => cases h

/-- **Equal expressions are rewritten to equal expressions**, when equal nodes are. -/
theorem Expr.equal_rewrite {leave : Expr → Expr}
    (hleave : ∀ a b, a.equal b → (leave a).equal (leave b)) {e e' : Expr} (h : e.equal e') :
    (e.rewrite (fun _ => none) leave).equal (e'.rewrite (fun _ => none) leave) := by
  induction e using Expr.induction_on_children generalizing e' with
  | node e ih =>
    rw [Expr.rewrite_eq, Expr.rewrite_eq _ _ e']
    exact hleave _ _ (Expr.equal_mapChildren (fun c hc c' hcc' => ih c hc hcc') h)

end Parts

/-! ### Equality and plain forms -/

namespace Expr

theorem equal_eraseTop {a b : Expr} (h : a.equal b) : a.eraseTop.equal b.eraseTop := by
  cases a with
  | unary op x t =>
    cases b with
    | unary op' x' t' =>
      have hparts := h
      rw [equal, Bool.and_eq_true, Bool.and_eq_true, beq_iff_eq] at hparts
      obtain ⟨⟨rfl, hx⟩, -⟩ := hparts
      rw [eraseTop, eraseTop, converted?, converted?]
      split
      · exact hx
      · exact h
    | _ => cases h
  | _ =>
    cases b with
    | unary _ _ _ => cases h
    | _ => exact h

end Expr

/-! A member is looked up in two equal constructions: it is initialised in neither, or in both and
with equal expressions. -/

theorem Expr.equalList_head? {as as' : List Expr} (h : Expr.equalList as as') :
    Option.Rel (fun a b => a.equal b) as.head? as'.head? := by
  cases as with
  | nil =>
    cases as' with
    | nil => exact .none
    | cons _ _ => cases h
  | cons a as =>
    cases as' with
    | nil => cases h
    | cons a' as' =>
      rw [Expr.equalList, Bool.and_eq_true] at h
      exact .some h.1

theorem Expr.equalList_tail {as as' : List Expr} (h : Expr.equalList as as') :
    Expr.equalList as.tail as'.tail := by
  cases as with
  | nil =>
    cases as' with
    | nil => rfl
    | cons _ _ => cases h
  | cons a as =>
    cases as' with
    | nil => cases h
    | cons a' as' =>
      rw [Expr.equalList, Bool.and_eq_true] at h
      exact h.2

theorem initialArgument?_equal (member : Member) (ms : List Member) {as as' : List Expr}
    (h : Expr.equalList as as') :
    Option.Rel (fun a b => a.equal b) (initialArgument? member ms as)
      (initialArgument? member ms as') := by
  induction ms generalizing as as' with
  | nil => exact .none
  | cons m ms ih =>
    simp only [initialArgument?]
    split
    · exact Expr.equalList_head? h
    · exact ih (Expr.equalList_tail h)

theorem assignedValue?_equal (member : Member) : (bs bs' : List Binding) →
    Binding.equalList bs bs' →
    Option.Rel (fun a b => a.equal b) (assignedValue? member bs) (assignedValue? member bs')
  | [], [], _ => .none
  | [], _ :: _, h => by cases h
  | _ :: _, [], h => by cases h
  | b :: bs, b' :: bs', h => by
    rw [Binding.equalList, Bool.and_eq_true] at h
    obtain ⟨hb, hbs⟩ := h
    have hrest := assignedValue?_equal member bs bs' hbs
    cases b with
    | assignment m e =>
      cases b' with
      | assignment m' e' =>
        rw [Binding.equal, Bool.and_eq_true, beq_iff_eq] at hb
        obtain ⟨rfl, he⟩ := hb
        rw [assignedValue?, assignedValue?]
        split
        · exact .some he
        · exact hrest
      | _ => cases hb
    | list m is =>
      cases b' with
      | list _ _ => exact hrest
      | _ => cases hb
    | nested m bs =>
      cases b' with
      | nested _ _ => exact hrest
      | _ => cases hb

namespace Expr

theorem initialValue?_equal (member : Member) {a b : Expr} (h : a.equal b) :
    Option.Rel (fun x y => x.equal y) (a.initialValue? member) (b.initialValue? member) := by
  cases a with
  | new c as ms =>
    cases b with
    | new c' as' ms' =>
      simp only [equal, Bool.and_eq_true, beq_iff_eq] at h
      obtain ⟨⟨-, has⟩, rfl⟩ := h
      cases ms with
      | none => exact .none
      | some ms => exact initialArgument?_equal member ms has
    | _ => cases h
  | memberInit c as ms bs =>
    cases b with
    | memberInit c' as' ms' bs' =>
      simp only [equal, Bool.and_eq_true] at h
      exact assignedValue?_equal member bs bs' h.2
    | _ => cases h
  | _ =>
    cases b with
    | new _ _ _ | memberInit _ _ _ _ => cases h
    | _ => exact .none

theorem equal_collapseTop {a b : Expr} (h : a.equal b) : a.collapseTop.equal b.collapseTop := by
  cases a with
  | memberAccess t m =>
    cases b with
    | memberAccess t' m' =>
      have hparts := h
      simp only [equal, Bool.and_eq_true, beq_iff_eq] at hparts
      obtain ⟨ht, rfl⟩ := hparts
      have hresults := initialValue?_equal m ht
      rw [collapseTop, collapseTop]
      generalize t.initialValue? m = value at hresults ⊢
      generalize t'.initialValue? m = value' at hresults ⊢
      cases hresults with
      | none => exact h
      | some hvalue => exact hvalue
    | _ => cases h
  | _ =>
    cases b with
    | memberAccess _ _ => cases h
    | _ => exact h

/-- **Equal expressions have equal plain forms.** -/
theorem equal_plain {a b : Expr} (h : a.equal b) : a.plain.equal b.plain :=
  equal_rewrite (fun _ _ => equal_collapseTop) (equal_rewrite (fun _ _ => equal_eraseTop) h)

end Expr

/-- A way leads to a part of the item. -/
theorem Way.mem_subterms {e accessor part w : Expr} (h : Way e accessor part w) :
    part ∈ e.subterms := by
  induction h with
  | here e _ =>
    rw [Expr.subterms_eq]
    exact List.mem_cons_self ..
  | @into e x _ _ _ _ _ entry _ _ ih =>
    rw [Expr.subterms_eq]
    exact List.mem_cons_of_mem _
      (List.mem_flatMap.mpr ⟨x, Expr.mem_children_of_entries entry, ih⟩)

/-- **An accessor recovers what was searched.**  The item initialises no member twice, and a
function of the input is found.  Putting the item in for the input gives the plain form of a part of
the item, one that equals what was searched.  So it gives what was searched, up to conversions and
reads of fresh constructions, and up to what equality does not tell apart: the names and types of
sources, and the signs of zeros. -/
theorem findAccessor_recovers {searched full : Expr} {input : Parameter} {l : Lambda}
    (honce : full.InitialisesOnce) (h : findAccessor searched full input = .ok l) :
    l.parameters = [input] ∧
      (∃ part ∈ full.subterms, part.equal searched ∧
        (Expr.replace (.parameter input) full l.body).plain = part.plain) ∧
      (Expr.replace (.parameter input) full l.body).plain.equal searched.plain ∧
      (Expr.replace (.parameter input) full l.body).plain.standard = searched.plain.standard := by
  obtain ⟨w, rest, hways, rfl⟩ := findAccessor_eq_ok.mp h
  have hfound : .ok w ∈ Expr.waysTo searched full input.toExpr := hways ▸ List.mem_cons_self ..
  obtain ⟨part, hequal, hway⟩ := Expr.way_of_mem_waysTo hfound
  have hplain : (Expr.replace (.parameter input) full w).plain = part.plain :=
    hway.plain honce (congrArg Expr.plain (Expr.replace_parameter_self input full))
  have hrecovered : (Expr.replace (.parameter input) full w).plain.equal searched.plain := by
    rw [hplain]
    exact Expr.equal_plain hequal
  exact ⟨rfl, ⟨part, hway.mem_subterms, hequal, hplain⟩, hrecovered,
    ((Expr.equal_iff _ _).mp hrecovered).2⟩

/-- `(Assistant)[helper]`, where the helper is the one called `a` in a team. -/
def Sample.helper : Expr := .unary .convertChecked (.reference ⟨1, "helper", assistant⟩) assistant

theorem findAccessor_recovers_helper :
    Sample.packed.InitialisesOnce ∧
      ∃ l, findAccessor Sample.helper Sample.packed ⟨"input", Sample.team⟩ = .ok l ∧
        l.parameters = [⟨"input", Sample.team⟩] ∧
        (∃ part ∈ Sample.packed.subterms, part.equal Sample.helper ∧
          (Expr.replace (.parameter ⟨"input", Sample.team⟩) Sample.packed l.body).plain =
            part.plain) ∧
        (Expr.replace (.parameter ⟨"input", Sample.team⟩) Sample.packed l.body).plain.equal
          Sample.helper.plain ∧
        (Expr.replace (.parameter ⟨"input", Sample.team⟩) Sample.packed l.body).plain.standard =
          Sample.helper.plain.standard := by
  have honce : Sample.packed.InitialisesOnce := by decide +kernel
  obtain ⟨l, hl⟩ : ∃ l, findAccessor Sample.helper Sample.packed ⟨"input", Sample.team⟩ = .ok l :=
    ⟨_, rfl⟩
  exact ⟨honce, l, hl, findAccessor_recovers honce hl⟩

namespace Sample

/-- What a dish weighs. -/
def portion : Ty := .classType (ClassType.ofName "Portion" |>.withProperty "Weight" .double)

def zero (negative : Bool) : Expr := .constant (.double (.ofParts negative 0)) .double

/-- `new Portion(Weight = 0)` -/
def emptyPortion : Expr :=
  .new ⟨portion, [.double]⟩ [zero false] (some [⟨"Portion", "Weight", .double, .getter⟩])

end Sample

/-- An empty portion has the weight `0`.  The search for `-0` finds it, but what is recovered is not
`-0`, not even up to the names and types of sources. -/
theorem findAccessor_recovers_other_zero :
    Sample.emptyPortion.InitialisesOnce ∧
      ∃ l, findAccessor (Sample.zero true) Sample.emptyPortion ⟨"input", Sample.portion⟩ = .ok l ∧
        (Expr.replace (.parameter ⟨"input", Sample.portion⟩) Sample.emptyPortion
          l.body).plain.anonymous ≠ (Sample.zero true).plain.anonymous := by
  refine ⟨by decide +kernel, _, rfl, ?_⟩
  have hrecovered : (Expr.replace (.parameter ⟨"input", Sample.portion⟩) Sample.emptyPortion
      (.memberAccess (.parameter ⟨"input", Sample.portion⟩)
        ⟨"Portion", "Weight", .double, .property⟩)).plain.anonymous = Sample.zero false := rfl
  intro h
  have hzeros : Sample.zero false = Sample.zero true := hrecovered.symm.trans h
  cases hzeros

end Comprehension
