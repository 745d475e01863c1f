import Comprehension.Model.Basic
import Comprehension.Proofs.Expr.Occurrences
import Mathlib.Data.List.Basic

/-! # Renaming query sources

A query source is known by its identity, and `Expr.rename ρ` changes every identity in an expression
by `ρ`, also inside queries, where sources are declared and referred to.  `Expr.ids` lists these
identities.  A renaming that keeps them keeps the expression (`Expr.rename_eq_self`).

Nothing that is computed from an expression looks at identities: its type and its written form stay
the same (`type_rename`, `text_rename`), and substitution and collapse go on under other names
(`rename_replace`, `rename_collapse`). -/
namespace Comprehension

/-! ### Identities and their renaming -/

/-- The source under another identity. -/
def Source.rename (ρ : Nat → Nat) (s : Source) : Source := { s with id := ρ s.id }

mutual

/-- Changes every identity in an expression, those inside queries included. -/
def Expr.rename (ρ : Nat → Nat) : Expr → Expr
  | .constant v t => .constant v t
  | .parameter p => .parameter p
  | .staticMember m => .staticMember m
  | .memberAccess e m => .memberAccess (e.rename ρ) m
  | .unary o e t => .unary o (e.rename ρ) t
  | .binary o l r t => .binary o (l.rename ρ) (r.rename ρ) t
  | .staticCall m as => .staticCall m (Expr.renameList ρ as)
  | .methodCall e m as => .methodCall (e.rename ρ) m (Expr.renameList ρ as)
  | .new c as ms => .new c (Expr.renameList ρ as) ms
  | .memberInit c as ms bs => .memberInit c (Expr.renameList ρ as) ms (Binding.renameList ρ bs)
  | .lambda ps b => .lambda ps (b.rename ρ)
  | .conditional c t f y => .conditional (c.rename ρ) (t.rename ρ) (f.rename ρ) y
  | .reference s => .reference (s.rename ρ)
  | .subQuery m t => .subQuery (m.rename ρ) t

def Expr.renameList (ρ : Nat → Nat) : List Expr → List Expr
  | [] => []
  | e :: es => e.rename ρ :: Expr.renameList ρ es

def Binding.rename (ρ : Nat → Nat) : Binding → Binding
  | .assignment m e => .assignment m (e.rename ρ)
  | .list m is => .list m (ElementInit.renameList ρ is)
  | .nested m bs => .nested m (Binding.renameList ρ bs)

def Binding.renameList (ρ : Nat → Nat) : List Binding → List Binding
  | [] => []
  | b :: bs => b.rename ρ :: Binding.renameList ρ bs

def ElementInit.rename (ρ : Nat → Nat) : ElementInit → ElementInit
  | ⟨m, as⟩ => ⟨m, Expr.renameList ρ as⟩

def ElementInit.renameList (ρ : Nat → Nat) : List ElementInit → List ElementInit
  | [] => []
  | i :: is => i.rename ρ :: ElementInit.renameList ρ is

def FromClause.rename (ρ : Nat → Nat) : FromClause → FromClause
  | ⟨s, e⟩ => ⟨s.rename ρ, e.rename ρ⟩

def SortKey.rename (ρ : Nat → Nat) : SortKey → SortKey
  | ⟨e, d⟩ => ⟨e.rename ρ, d⟩

def SortKey.renameList (ρ : Nat → Nat) : List SortKey → List SortKey
  | [] => []
  | o :: os => o.rename ρ :: SortKey.renameList ρ os

def BodyClause.rename (ρ : Nat → Nat) : BodyClause → BodyClause
  | .additionalFrom c => .additionalFrom (c.rename ρ)
  | .filter p => .filter (p.rename ρ)
  | .orderBy os => .orderBy (SortKey.renameList ρ os)

def BodyClause.renameList (ρ : Nat → Nat) : List BodyClause → List BodyClause
  | [] => []
  | c :: cs => c.rename ρ :: BodyClause.renameList ρ cs

def ResultOperator.rename (ρ : Nat → Nat) : ResultOperator → ResultOperator
  | .aggregate a => .aggregate a
  | .pick which orDefault => .pick which orDefault
  | .distinct => .distinct
  | .take e => .take (e.rename ρ)
  | .skip e => .skip (e.rename ρ)
  | .contains e => .contains (e.rename ρ)
  | .group n k e => .group n (k.rename ρ) (e.rename ρ)

def ResultOperator.renameList (ρ : Nat → Nat) : List ResultOperator → List ResultOperator
  | [] => []
  | o :: os => o.rename ρ :: ResultOperator.renameList ρ os

/-- Changes every identity in a model. -/
def Model.rename (ρ : Nat → Nat) : Model → Model
  | ⟨f, b, s, os⟩ =>
    ⟨f.rename ρ, BodyClause.renameList ρ b, s.rename ρ, ResultOperator.renameList ρ os⟩

end

mutual

/-- The identities in an expression, those inside queries included. -/
def Expr.ids : Expr → List Nat
  | .constant .. => []
  | .parameter .. => []
  | .staticMember .. => []
  | .memberAccess e _ => e.ids
  | .unary _ e _ => e.ids
  | .binary _ l r _ => l.ids ++ r.ids
  | .staticCall _ as => Expr.idsList as
  | .methodCall e _ as => e.ids ++ Expr.idsList as
  | .new _ as _ => Expr.idsList as
  | .memberInit _ as _ bs => Expr.idsList as ++ Binding.idsList bs
  | .lambda _ b => b.ids
  | .conditional c t f _ => c.ids ++ t.ids ++ f.ids
  | .reference s => [s.id]
  | .subQuery m _ => m.ids

def Expr.idsList : List Expr → List Nat
  | [] => []
  | e :: es => e.ids ++ Expr.idsList es

def Binding.ids : Binding → List Nat
  | .assignment _ e => e.ids
  | .list _ is => ElementInit.idsList is
  | .nested _ bs => Binding.idsList bs

def Binding.idsList : List Binding → List Nat
  | [] => []
  | b :: bs => b.ids ++ Binding.idsList bs

def ElementInit.ids : ElementInit → List Nat
  | ⟨_, as⟩ => Expr.idsList as

def ElementInit.idsList : List ElementInit → List Nat
  | [] => []
  | i :: is => i.ids ++ ElementInit.idsList is

def FromClause.ids : FromClause → List Nat
  | ⟨s, e⟩ => s.id :: e.ids

def SortKey.ids : SortKey → List Nat
  | ⟨e, _⟩ => e.ids

def SortKey.idsList : List SortKey → List Nat
  | [] => []
  | o :: os => o.ids ++ SortKey.idsList os

def BodyClause.ids : BodyClause → List Nat
  | .additionalFrom c => c.ids
  | .filter p => p.ids
  | .orderBy os => SortKey.idsList os

def BodyClause.idsList : List BodyClause → List Nat
  | [] => []
  | c :: cs => c.ids ++ BodyClause.idsList cs

def ResultOperator.ids : ResultOperator → List Nat
  | .aggregate _ => []
  | .pick .. => []
  | .distinct => []
  | .take e => e.ids
  | .skip e => e.ids
  | .contains e => e.ids
  | .group _ k e => k.ids ++ e.ids

def ResultOperator.idsList : List ResultOperator → List Nat
  | [] => []
  | o :: os => o.ids ++ ResultOperator.idsList os

/-- The identities in a model: of the sources that it declares, and of those that it refers to. -/
def Model.ids : Model → List Nat
  | ⟨f, b, s, os⟩ => f.ids ++ (BodyClause.idsList b ++ (s.ids ++ ResultOperator.idsList os))

end

/-! ### What a renaming keeps -/

section Keeps

variable {ρ : Nat → Nat}

theorem Source.rename_eq_self {s : Source} (h : ρ s.id = s.id) : s.rename ρ = s := by
  rw [Source.rename, h]

mutual

/-- A renaming that keeps all identities that occur keeps the expression. -/
theorem Expr.rename_eq_self : (e : Expr) → (∀ id ∈ e.ids, ρ id = id) → e.rename ρ = e
  | .constant .., _ => rfl
  | .parameter .., _ => rfl
  | .staticMember .., _ => rfl
  | .memberAccess e m, h => by simp only [Expr.rename, Expr.rename_eq_self e h]
  | .unary o e t, h => by simp only [Expr.rename, Expr.rename_eq_self e h]
  | .binary o l r t, h => by
    rw [Expr.ids, List.forall_mem_append] at h
    simp only [Expr.rename, Expr.rename_eq_self l h.1, Expr.rename_eq_self r h.2]
  | .staticCall m as, h => by simp only [Expr.rename, Expr.renameList_eq_self as h]
  | .methodCall e m as, h => by
    rw [Expr.ids, List.forall_mem_append] at h
    simp only [Expr.rename, Expr.rename_eq_self e h.1, Expr.renameList_eq_self as h.2]
  | .new c as ms, h => by simp only [Expr.rename, Expr.renameList_eq_self as h]
  | .memberInit c as ms bs, h => by
    rw [Expr.ids, List.forall_mem_append] at h
    simp only [Expr.rename, Expr.renameList_eq_self as h.1, Binding.renameList_eq_self bs h.2]
  | .lambda ps b, h => by simp only [Expr.rename, Expr.rename_eq_self b h]
  | .conditional c t f y, h => by
    rw [Expr.ids, List.forall_mem_append, List.forall_mem_append] at h
    simp only [Expr.rename, Expr.rename_eq_self c h.1.1, Expr.rename_eq_self t h.1.2,
      Expr.rename_eq_self f h.2]
  | .reference s, h => by
    simp only [Expr.rename, Source.rename_eq_self (h s.id (List.mem_singleton.mpr rfl))]
  | .subQuery m t, h => by simp only [Expr.rename, Model.rename_eq_self m h]

theorem Expr.renameList_eq_self : (es : List Expr) →
    (∀ id ∈ Expr.idsList es, ρ id = id) → Expr.renameList ρ es = es
  | [], _ => rfl
  | e :: es, h => by
    rw [Expr.idsList, List.forall_mem_append] at h
    simp only [Expr.renameList, Expr.rename_eq_self e h.1, Expr.renameList_eq_self es h.2]

theorem Binding.rename_eq_self : (b : Binding) → (∀ id ∈ b.ids, ρ id = id) → b.rename ρ = b
  | .assignment m e, h => by simp only [Binding.rename, Expr.rename_eq_self e h]
  | .list m is, h => by simp only [Binding.rename, ElementInit.renameList_eq_self is h]
  | .nested m bs, h => by simp only [Binding.rename, Binding.renameList_eq_self bs h]

theorem Binding.renameList_eq_self : (bs : List Binding) →
    (∀ id ∈ Binding.idsList bs, ρ id = id) → Binding.renameList ρ bs = bs
  | [], _ => rfl
  | b :: bs, h => by
    rw [Binding.idsList, List.forall_mem_append] at h
    simp only [Binding.renameList, Binding.rename_eq_self b h.1, Binding.renameList_eq_self bs h.2]

theorem ElementInit.rename_eq_self : (i : ElementInit) → (∀ id ∈ i.ids, ρ id = id) → i.rename ρ = i
  | ⟨m, as⟩, h => by simp only [ElementInit.rename, Expr.renameList_eq_self as h]

theorem ElementInit.renameList_eq_self : (is : List ElementInit) →
    (∀ id ∈ ElementInit.idsList is, ρ id = id) → ElementInit.renameList ρ is = is
  | [], _ => rfl
  | i :: is, h => by
    rw [ElementInit.idsList, List.forall_mem_append] at h
    simp only [ElementInit.renameList, ElementInit.rename_eq_self i h.1,
      ElementInit.renameList_eq_self is h.2]

theorem FromClause.rename_eq_self : (c : FromClause) → (∀ id ∈ c.ids, ρ id = id) → c.rename ρ = c
  | ⟨s, e⟩, h => by
    rw [FromClause.ids, List.forall_mem_cons] at h
    simp only [FromClause.rename, Source.rename_eq_self h.1, Expr.rename_eq_self e h.2]

theorem SortKey.rename_eq_self : (o : SortKey) → (∀ id ∈ o.ids, ρ id = id) → o.rename ρ = o
  | ⟨e, d⟩, h => by simp only [SortKey.rename, Expr.rename_eq_self e h]

theorem SortKey.renameList_eq_self : (os : List SortKey) →
    (∀ id ∈ SortKey.idsList os, ρ id = id) → SortKey.renameList ρ os = os
  | [], _ => rfl
  | o :: os, h => by
    rw [SortKey.idsList, List.forall_mem_append] at h
    simp only [SortKey.renameList, SortKey.rename_eq_self o h.1, SortKey.renameList_eq_self os h.2]

theorem BodyClause.rename_eq_self : (c : BodyClause) → (∀ id ∈ c.ids, ρ id = id) → c.rename ρ = c
  | .additionalFrom c, h => by simp only [BodyClause.rename, FromClause.rename_eq_self c h]
  | .filter p, h => by simp only [BodyClause.rename, Expr.rename_eq_self p h]
  | .orderBy os, h => by simp only [BodyClause.rename, SortKey.renameList_eq_self os h]

theorem BodyClause.renameList_eq_self : (cs : List BodyClause) →
    (∀ id ∈ BodyClause.idsList cs, ρ id = id) → BodyClause.renameList ρ cs = cs
  | [], _ => rfl
  | c :: cs, h => by
    rw [BodyClause.idsList, List.forall_mem_append] at h
    simp only [BodyClause.renameList, BodyClause.rename_eq_self c h.1,
      BodyClause.renameList_eq_self cs h.2]

theorem ResultOperator.rename_eq_self : (o : ResultOperator) →
    (∀ id ∈ o.ids, ρ id = id) → o.rename ρ = o
  | .aggregate _, _ => rfl
  | .pick .., _ => rfl
  | .distinct, _ => rfl
  | .take e, h => by simp only [ResultOperator.rename, Expr.rename_eq_self e h]
  | .skip e, h => by simp only [ResultOperator.rename, Expr.rename_eq_self e h]
  | .contains e, h => by simp only [ResultOperator.rename, Expr.rename_eq_self e h]
  | .group n k e, h => by
    rw [ResultOperator.ids, List.forall_mem_append] at h
    simp only [ResultOperator.rename, Expr.rename_eq_self k h.1, Expr.rename_eq_self e h.2]

theorem ResultOperator.renameList_eq_self : (os : List ResultOperator) →
    (∀ id ∈ ResultOperator.idsList os, ρ id = id) → ResultOperator.renameList ρ os = os
  | [], _ => rfl
  | o :: os, h => by
    rw [ResultOperator.idsList, List.forall_mem_append] at h
    simp only [ResultOperator.renameList, ResultOperator.rename_eq_self o h.1,
      ResultOperator.renameList_eq_self os h.2]

theorem Model.rename_eq_self : (m : Model) → (∀ id ∈ m.ids, ρ id = id) → m.rename ρ = m
  | ⟨f, b, s, os⟩, h => by
    rw [Model.ids, List.forall_mem_append, List.forall_mem_append, List.forall_mem_append] at h
    simp only [Model.rename, FromClause.rename_eq_self f h.1, BodyClause.renameList_eq_self b h.2.1,
      Expr.rename_eq_self s h.2.2.1, ResultOperator.renameList_eq_self os h.2.2.2]

end

variable (ρ)

/-- The type of an expression says nothing about identities. -/
@[simp] theorem Expr.type_rename : (e : Expr) → (e.rename ρ).type = e.type
  | .lambda ps b => by rw [Expr.rename, Expr.type, Expr.type, Expr.type_rename b]
  | .constant .. => rfl
  | .parameter .. => rfl
  | .staticMember .. => rfl
  | .memberAccess .. => rfl
  | .unary .. => rfl
  | .binary .. => rfl
  | .staticCall .. => rfl
  | .methodCall .. => rfl
  | .new .. => rfl
  | .memberInit .. => rfl
  | .conditional .. => rfl
  | .reference .. => rfl
  | .subQuery .. => rfl

mutual

/-- Identities are not written. -/
@[simp] theorem Expr.text_rename : (e : Expr) → (e.rename ρ).text = e.text
  | .constant .. => rfl
  | .parameter .. => rfl
  | .staticMember .. => rfl
  | .memberAccess e m => by rw [Expr.rename, Expr.text, Expr.text, Expr.text_rename e]
  | .unary o e t => by cases o <;> simp only [Expr.rename, Expr.text, Expr.text_rename e]
  | .binary o l r t => by
    rw [Expr.rename, Expr.text, Expr.text, Expr.text_rename l, Expr.text_rename r]
  | .staticCall m as => by rw [Expr.rename, Expr.text, Expr.text, Expr.texts_rename as]
  | .methodCall e m as => by
    rw [Expr.rename, Expr.text, Expr.text, Expr.text_rename e, Expr.texts_rename as]
  | .new c as ms => by rw [Expr.rename, Expr.text, Expr.text, Expr.texts_rename as]
  | .memberInit c as ms bs => by
    rw [Expr.rename, Expr.text, Expr.text, Expr.texts_rename as, Binding.texts_rename bs]
  | .lambda ps b => by rw [Expr.rename, Expr.text, Expr.text, Expr.text_rename b]
  | .conditional c t f y => by
    rw [Expr.rename, Expr.text, Expr.text, Expr.text_rename c, Expr.text_rename t,
      Expr.text_rename f]
  | .reference s => rfl
  | .subQuery m t => by rw [Expr.rename, Expr.text, Expr.text, Model.text_rename m]

theorem Expr.texts_rename : (es : List Expr) → Expr.texts (Expr.renameList ρ es) = Expr.texts es
  | [] => rfl
  | e :: es => by
    rw [Expr.renameList, Expr.texts, Expr.texts, Expr.text_rename e, Expr.texts_rename es]

theorem Binding.text_rename : (b : Binding) → (b.rename ρ).text = b.text
  | .assignment m e => by rw [Binding.rename, Binding.text, Binding.text, Expr.text_rename e]
  | .list m is => by rw [Binding.rename, Binding.text, Binding.text, ElementInit.texts_rename is]
  | .nested m bs => by rw [Binding.rename, Binding.text, Binding.text, Binding.texts_rename bs]

theorem Binding.texts_rename : (bs : List Binding) →
    Binding.texts (Binding.renameList ρ bs) = Binding.texts bs
  | [] => rfl
  | b :: bs => by
    rw [Binding.renameList, Binding.texts, Binding.texts, Binding.text_rename b,
      Binding.texts_rename bs]

theorem ElementInit.text_rename : (i : ElementInit) → (i.rename ρ).text = i.text
  | ⟨m, as⟩ => by
    rw [ElementInit.rename, ElementInit.text, ElementInit.text, Expr.texts_rename as]

theorem ElementInit.texts_rename : (is : List ElementInit) →
    ElementInit.texts (ElementInit.renameList ρ is) = ElementInit.texts is
  | [] => rfl
  | i :: is => by
    rw [ElementInit.renameList, ElementInit.texts, ElementInit.texts, ElementInit.text_rename i,
      ElementInit.texts_rename is]

theorem FromClause.text_rename : (c : FromClause) → (c.rename ρ).text = c.text
  | ⟨s, e⟩ => by
    rw [FromClause.rename, FromClause.text, FromClause.text, Expr.text_rename e]
    rfl

theorem SortKey.text_rename : (o : SortKey) → (o.rename ρ).text = o.text
  | ⟨e, d⟩ => by rw [SortKey.rename, SortKey.text, SortKey.text, Expr.text_rename e]

theorem SortKey.texts_rename : (os : List SortKey) →
    SortKey.texts (SortKey.renameList ρ os) = SortKey.texts os
  | [] => rfl
  | o :: os => by
    rw [SortKey.renameList, SortKey.texts, SortKey.texts, SortKey.text_rename o,
      SortKey.texts_rename os]

theorem BodyClause.text_rename : (c : BodyClause) → (c.rename ρ).text = c.text
  | .additionalFrom c => FromClause.text_rename c
  | .filter p => by rw [BodyClause.rename, BodyClause.text, BodyClause.text, Expr.text_rename p]
  | .orderBy os => by
    rw [BodyClause.rename, BodyClause.text, BodyClause.text, SortKey.texts_rename os]

theorem BodyClause.texts_rename : (cs : List BodyClause) →
    BodyClause.texts (BodyClause.renameList ρ cs) = BodyClause.texts cs
  | [] => rfl
  | c :: cs => by
    rw [BodyClause.renameList, BodyClause.texts, BodyClause.texts, BodyClause.text_rename c,
      BodyClause.texts_rename cs]

theorem ResultOperator.text_rename : (o : ResultOperator) → (o.rename ρ).text = o.text
  | .aggregate _ => rfl
  | .pick .. => rfl
  | .distinct => rfl
  | .take e => by
    rw [ResultOperator.rename, ResultOperator.text, ResultOperator.text, Expr.text_rename e]
  | .skip e => by
    rw [ResultOperator.rename, ResultOperator.text, ResultOperator.text, Expr.text_rename e]
  | .contains e => by
    rw [ResultOperator.rename, ResultOperator.text, ResultOperator.text, Expr.text_rename e]
  | .group n k e => by
    rw [ResultOperator.rename, ResultOperator.text, ResultOperator.text, Expr.text_rename k,
      Expr.text_rename e]

theorem ResultOperator.texts_rename : (os : List ResultOperator) →
    ResultOperator.texts (ResultOperator.renameList ρ os) = ResultOperator.texts os
  | [] => rfl
  | o :: os => by
    rw [ResultOperator.renameList, ResultOperator.texts, ResultOperator.texts,
      ResultOperator.text_rename o, ResultOperator.texts_rename os]

theorem Model.text_rename : (m : Model) → (m.rename ρ).text = m.text
  | ⟨f, b, s, os⟩ => by
    rw [Model.rename, Model.text, Model.text, FromClause.text_rename f, BodyClause.texts_rename b,
      Expr.text_rename s, ResultOperator.texts_rename os]

end

end Keeps

/-! ### Renaming part by part -/

section Parts

variable (ρ : Nat → Nat)

theorem Expr.renameList_eq_map : (es : List Expr) → Expr.renameList ρ es = es.map (Expr.rename ρ)
  | [] => rfl
  | e :: es => by rw [Expr.renameList, Expr.renameList_eq_map es, List.map_cons]

theorem ElementInit.renameList_eq_map : (is : List ElementInit) →
    ElementInit.renameList ρ is = is.map (ElementInit.mapParts (Expr.rename ρ))
  | [] => rfl
  | ⟨m, as⟩ :: is => by
    rw [ElementInit.renameList, ElementInit.renameList_eq_map is, ElementInit.rename,
      Expr.renameList_eq_map, List.map_cons]
    rfl

mutual

theorem Binding.rename_eq_mapParts : (b : Binding) → b.rename ρ = b.mapParts (Expr.rename ρ)
  | .assignment _ _ => rfl
  | .list m is => by rw [Binding.rename, ElementInit.renameList_eq_map, Binding.mapParts]
  | .nested m bs => by rw [Binding.rename, Binding.renameList_eq_mapParts bs, Binding.mapParts]

theorem Binding.renameList_eq_mapParts : (bs : List Binding) →
    Binding.renameList ρ bs = Binding.mapPartsList (Expr.rename ρ) bs
  | [] => rfl
  | b :: bs => by
    rw [Binding.renameList, Binding.rename_eq_mapParts b, Binding.renameList_eq_mapParts bs,
      Binding.mapPartsList]

end

theorem SortKey.renameList_eq_map : (os : List SortKey) →
    SortKey.renameList ρ os = os.map (SortKey.rename ρ)
  | [] => rfl
  | o :: os => by rw [SortKey.renameList, SortKey.renameList_eq_map os, List.map_cons]

theorem BodyClause.renameList_eq_map : (cs : List BodyClause) →
    BodyClause.renameList ρ cs = cs.map (BodyClause.rename ρ)
  | [] => rfl
  | c :: cs => by rw [BodyClause.renameList, BodyClause.renameList_eq_map cs, List.map_cons]

theorem ResultOperator.renameList_eq_map : (os : List ResultOperator) →
    ResultOperator.renameList ρ os = os.map (ResultOperator.rename ρ)
  | [] => rfl
  | o :: os => by
    rw [ResultOperator.renameList, ResultOperator.renameList_eq_map os, List.map_cons]

@[simp] theorem BodyClause.source?_rename (c : BodyClause) :
    (c.rename ρ).source? = c.source?.map (Source.rename ρ) := by
  cases c with
  | additionalFrom c =>
    obtain ⟨s, e⟩ := c
    rfl
  | filter _ | orderBy _ => rfl

theorem BodyClause.expressions_rename (c : BodyClause) :
    (c.rename ρ).expressions = c.expressions.map (Expr.rename ρ) := by
  cases c with
  | additionalFrom c =>
    obtain ⟨s, e⟩ := c
    rfl
  | filter p => rfl
  | orderBy os =>
    have hkey : SortKey.expression ∘ SortKey.rename ρ = Expr.rename ρ ∘ SortKey.expression := by
      funext ⟨e, d⟩
      rfl
    rw [BodyClause.rename, expressions, expressions, SortKey.renameList_eq_map, List.map_map,
      List.map_map, hkey]

theorem ResultOperator.expressions_rename (o : ResultOperator) :
    (o.rename ρ).expressions = o.expressions.map (Expr.rename ρ) := by
  cases o <;> rfl

/-- Changes the identities at the top of an expression: that of a reference, or those inside a
query. -/
def Expr.renameTop : Expr → Expr
  | .reference s => .reference (s.rename ρ)
  | .subQuery m t => .subQuery (m.rename ρ) t
  | e => e

/-- A renaming changes the top and the parts. -/
theorem Expr.rename_eq (e : Expr) :
    e.rename ρ = (e.renameTop ρ).mapChildren (Expr.rename ρ) := by
  cases e with
  | staticCall m as | new c as ms | methodCall t m as =>
    rw [Expr.rename, Expr.renameList_eq_map]
    rfl
  | memberInit c as ms bs =>
    rw [Expr.rename, Expr.renameList_eq_map, Binding.renameList_eq_mapParts,
      Binding.mapPartsList_eq_map]
    rfl
  | _ => rfl

theorem Expr.renameTop_mapChildren (f : Expr → Expr) (e : Expr) :
    (e.mapChildren f).renameTop ρ = (e.renameTop ρ).mapChildren f := by
  cases e <;> rfl

@[simp] theorem Expr.children_renameTop (e : Expr) : (e.renameTop ρ).children = e.children := by
  cases e <;> rfl

@[simp] theorem Expr.declared_rename (e : Expr) : (e.rename ρ).declared = e.declared := by
  cases e <;> rfl

theorem Expr.children_rename (e : Expr) :
    (e.rename ρ).children = e.children.map (Expr.rename ρ) := by
  rw [Expr.rename_eq, Expr.children_mapChildren, Expr.children_renameTop]

theorem Expr.rename_eq_parameter {p : Parameter} {e : Expr} :
    e.rename ρ = .parameter p ↔ e = .parameter p := by
  cases e <;> simp [Expr.rename]

/-- A node with changed parts is renamed when its parts are. -/
theorem Expr.rename_mapChildren {f g : Expr → Expr} {e : Expr}
    (h : ∀ c ∈ e.children, (f c).rename ρ = g (c.rename ρ)) :
    (e.mapChildren f).rename ρ = (e.rename ρ).mapChildren g := by
  rw [Expr.rename_eq, Expr.renameTop_mapChildren, Expr.mapChildren_mapChildren, Expr.rename_eq,
    Expr.mapChildren_mapChildren]
  refine Expr.mapChildren_congr fun c hc => h c ?_
  rwa [Expr.children_renameTop] at hc

/-! ### Substitution and collapse -/

/-- What is put in is renamed along. -/
theorem Expr.rename_replace (p : Parameter) (r e : Expr) :
    (Expr.replace (.parameter p) r e).rename ρ =
      Expr.replace (.parameter p) (r.rename ρ) (e.rename ρ) := by
  induction e using Expr.induction_on_children with
  | node e ih =>
    rcases Expr.replace_cases p r e with ⟨rfl, heq⟩ | ⟨hd, heq⟩ | ⟨hne, hd, heq⟩
    · rw [heq, Expr.rename, Expr.replace_parameter_self]
    · rw [heq]
      rcases Expr.replace_cases p (r.rename ρ) (e.rename ρ) with ⟨he, -⟩ | ⟨-, heq'⟩ | ⟨-, hd', -⟩
      · rw [(Expr.rename_eq_parameter ρ).mp he] at hd
        cases hd
      · exact heq'.symm
      · rw [Expr.declared_rename] at hd'
        exact absurd hd hd'
    · rw [heq, Expr.rename_mapChildren ρ ih]
      rcases Expr.replace_cases p (r.rename ρ) (e.rename ρ) with ⟨he, -⟩ | ⟨hd', -⟩ | ⟨-, -, heq'⟩
      · exact absurd ((Expr.rename_eq_parameter ρ).mp he) hne
      · rw [Expr.declared_rename] at hd'
        exact absurd hd' hd
      · exact heq'.symm

theorem Expr.initialValue?_rename (m : Member) (e : Expr) :
    (e.rename ρ).initialValue? m = (e.initialValue? m).map (Expr.rename ρ) := by
  rw [Expr.rename_eq, Expr.initialValue?_mapChildren]
  cases e <;> rfl

theorem Expr.rename_collapseTop (e : Expr) :
    e.collapseTop.rename ρ = (e.rename ρ).collapseTop := by
  cases e with
  | memberAccess target member =>
    rw [Expr.rename, Expr.collapseTop, Expr.collapseTop, Expr.initialValue?_rename]
    cases target.initialValue? member <;> rfl
  | _ => rfl

/-- The members that are read do not depend on identities. -/
theorem Expr.rename_collapse (e : Expr) : e.collapse.rename ρ = (e.rename ρ).collapse := by
  induction e using Expr.induction_on_children with
  | node e ih =>
    rw [Expr.collapse_eq, Expr.rename_collapseTop, Expr.rename_mapChildren ρ ih,
      ← Expr.collapse_eq]

/-! ### References -/

theorem Expr.references_eq (e : Expr) :
    e.references = e.source?.toList ++ e.children.flatMap Expr.references := by
  rw [Expr.references, Expr.subterms_eq, List.filterMap_cons, List.filterMap_flatMap]
  cases e.source? <;> rfl

/-- The references are those from before, in the same order. -/
theorem Expr.references_rename (e : Expr) :
    (e.rename ρ).references = e.references.map (Source.rename ρ) := by
  induction e using Expr.induction_on_children with
  | node e ih =>
    have hparts : (e.children.map (Expr.rename ρ)).flatMap Expr.references =
        (e.children.flatMap Expr.references).map (Source.rename ρ) := by
      rw [List.flatMap_map, List.map_flatMap]
      exact List.flatMap_congr ih
    have htop : (e.rename ρ).source? = e.source?.map (Source.rename ρ) := by
      cases e <;> rfl
    rw [Expr.references_eq, Expr.references_eq e, Expr.children_rename, hparts, htop,
      List.map_append]
    cases e.source? <;> rfl

end Parts

/-! ### Identities that occur -/

theorem Expr.idsList_eq_flatMap : (es : List Expr) → Expr.idsList es = es.flatMap Expr.ids
  | [] => rfl
  | e :: es => by rw [Expr.idsList, Expr.idsList_eq_flatMap es, List.flatMap_cons]

theorem ElementInit.idsList_eq_flatMap : (is : List ElementInit) →
    ElementInit.idsList is = (is.flatMap ElementInit.arguments).flatMap Expr.ids
  | [] => rfl
  | ⟨m, as⟩ :: is => by
    rw [ElementInit.idsList, ElementInit.ids, Expr.idsList_eq_flatMap,
      ElementInit.idsList_eq_flatMap is, List.flatMap_cons, List.flatMap_append]

mutual

theorem Binding.ids_eq_flatMap : (b : Binding) → b.ids = b.parts.flatMap Expr.ids
  | .assignment _ e => by simp [Binding.ids, Binding.parts]
  | .list _ is => by rw [Binding.ids, Binding.parts, ElementInit.idsList_eq_flatMap]
  | .nested _ bs => by rw [Binding.ids, Binding.parts, Binding.idsList_eq_flatMap bs]

theorem Binding.idsList_eq_flatMap : (bs : List Binding) →
    Binding.idsList bs = (Binding.partsList bs).flatMap Expr.ids
  | [] => rfl
  | b :: bs => by
    rw [Binding.idsList, Binding.partsList, Binding.ids_eq_flatMap b,
      Binding.idsList_eq_flatMap bs, List.flatMap_append]

end

theorem SortKey.idsList_eq_flatMap : (os : List SortKey) →
    SortKey.idsList os = (os.map SortKey.expression).flatMap Expr.ids
  | [] => rfl
  | ⟨e, d⟩ :: os => by
    rw [SortKey.idsList, SortKey.idsList_eq_flatMap os, List.map_cons, List.flatMap_cons]
    rfl

theorem BodyClause.idsList_eq_flatMap : (cs : List BodyClause) →
    BodyClause.idsList cs = cs.flatMap BodyClause.ids
  | [] => rfl
  | c :: cs => by rw [BodyClause.idsList, BodyClause.idsList_eq_flatMap cs, List.flatMap_cons]

theorem ResultOperator.idsList_eq_flatMap : (os : List ResultOperator) →
    ResultOperator.idsList os = os.flatMap ResultOperator.ids
  | [] => rfl
  | o :: os => by
    rw [ResultOperator.idsList, ResultOperator.idsList_eq_flatMap os, List.flatMap_cons]

/-- The identities of a clause are those of its source and of its expressions. -/
theorem BodyClause.ids_eq (c : BodyClause) :
    c.ids = c.source?.toList.map Source.id ++ c.expressions.flatMap Expr.ids := by
  cases c with
  | additionalFrom c =>
    obtain ⟨s, e⟩ := c
    simp [BodyClause.ids, FromClause.ids, BodyClause.source?, expressions]
  | filter p => simp [BodyClause.ids, BodyClause.source?, expressions]
  | orderBy os => simp [BodyClause.ids, BodyClause.source?, expressions, SortKey.idsList_eq_flatMap]

theorem ResultOperator.ids_eq (o : ResultOperator) : o.ids = o.expressions.flatMap Expr.ids := by
  cases o <;> simp [ResultOperator.ids, expressions]

/-- The identities at the top of an expression. -/
def Expr.idsTop : Expr → List Nat
  | .reference s => [s.id]
  | .subQuery m _ => m.ids
  | _ => []

/-- An identity occurs at the top of an expression, or in one of its parts. -/
theorem Expr.mem_ids_iff {id : Nat} {e : Expr} :
    id ∈ e.ids ↔ id ∈ e.idsTop ∨ ∃ c ∈ e.children, id ∈ c.ids := by
  cases e <;>
    simp [Expr.ids, Expr.idsTop, Expr.children, Expr.idsList_eq_flatMap,
      Binding.idsList_eq_flatMap, or_and_right, exists_or]

theorem Expr.mem_ids_mapChildren {f : Expr → Expr} {id : Nat} {e : Expr} :
    id ∈ (e.mapChildren f).ids ↔ id ∈ e.idsTop ∨ ∃ c ∈ e.children, id ∈ (f c).ids := by
  have htop : (e.mapChildren f).idsTop = e.idsTop := by
    cases e <;> rfl
  rw [Expr.mem_ids_iff, htop]
  simp only [Expr.mem_children_mapChildren]
  refine or_congr_right ⟨?_, ?_⟩
  · rintro ⟨_, ⟨c, hc, rfl⟩, hid⟩
    exact ⟨c, hc, hid⟩
  · rintro ⟨c, hc, hid⟩
    exact ⟨f c, ⟨c, hc, rfl⟩, hid⟩

/-- Substitution brings in only the identities of what is put in. -/
theorem Expr.ids_replace {p : Parameter} {id : Nat} {r e : Expr}
    (h : id ∈ (Expr.replace (.parameter p) r e).ids) : id ∈ e.ids ∨ id ∈ r.ids := by
  induction e using Expr.induction_on_children with
  | node e ih =>
    rcases Expr.replace_cases p r e with ⟨-, heq⟩ | ⟨-, heq⟩ | ⟨-, -, heq⟩
    · rw [heq] at h
      exact Or.inr h
    · rw [heq] at h
      exact Or.inl h
    · rw [heq, Expr.mem_ids_mapChildren] at h
      rcases h with htop | ⟨c, hc, hid⟩
      · exact Or.inl (Expr.mem_ids_iff.mpr (Or.inl htop))
      · exact (ih c hc hid).imp_left fun hid => Expr.mem_ids_iff.mpr (Or.inr ⟨c, hc, hid⟩)

theorem Expr.ids_collapseTop {id : Nat} {e : Expr} (h : id ∈ e.collapseTop.ids) : id ∈ e.ids := by
  rcases e.collapseTop_cases with heq | ⟨target, member, rfl, hv⟩
  · rwa [heq] at h
  · have htarget : id ∈ target.ids :=
      Expr.mem_ids_iff.mpr (Or.inr ⟨_, (Expr.initialValue?_mem hv).1, h⟩)
    exact htarget

/-- Collapse brings in no identity. -/
theorem Expr.ids_collapse {id : Nat} {e : Expr} (h : id ∈ e.collapse.ids) : id ∈ e.ids := by
  induction e using Expr.induction_on_children with
  | node e ih =>
    rw [Expr.collapse_eq] at h
    rcases Expr.mem_ids_mapChildren.mp (Expr.ids_collapseTop h) with htop | ⟨c, hc, hid⟩
    · exact Expr.mem_ids_iff.mpr (Or.inl htop)
    · exact Expr.mem_ids_iff.mpr (Or.inr ⟨c, hc, ih c hc hid⟩)

/-- The identity of a source that is referred to occurs. -/
theorem Expr.mem_ids_of_mem_references {s : Source} {e : Expr} (h : s ∈ e.references) :
    s.id ∈ e.ids := by
  induction e using Expr.induction_on_children with
  | node e ih =>
    rcases Expr.mem_references_iff.mp h with rfl | ⟨c, hc, hs⟩
    · exact List.mem_singleton.mpr rfl
    · exact Expr.mem_ids_iff.mpr (Or.inr ⟨c, hc, ih c hc hs⟩)

end Comprehension
