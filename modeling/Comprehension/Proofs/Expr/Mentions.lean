import Comprehension.Proofs.Expr.Capture
import Comprehension.Proofs.Expr.Substitution

/-! # What an expression mentions

An expression mentions the parameters that are free in it and the sources that it refers to.
`Expr.mentions` lists both as one list, in walk order, so that it says how they follow each other.

Substitution acts on this list occurrence by occurrence: wherever the parameter stands, it gives way
to all that the new part mentions, and everything else stays where it is (`mentions_replace`).  The
only condition is that no lambda captures a parameter of the new part. -/
namespace Comprehension

/-- A free parameter or a source referred to. -/
inductive Mention where
  | parameter (p : Parameter)
  | source (s : Source)
deriving DecidableEq

namespace Mention

def parameter? : Mention → Option Parameter
  | .parameter p => some p
  | .source _ => none

def source? : Mention → Option Source
  | .parameter _ => none
  | .source s => some s

/-- What stands for a mention after `p` has given way to `new`. -/
def put (p : Parameter) (new : List Mention) (m : Mention) : List Mention :=
  if m = .parameter p then new else [m]

variable {p : Parameter} {new ms : List Mention}

theorem flatMap_put_of_not_mem (h : .parameter p ∉ ms) : ms.flatMap (put p new) = ms := by
  have hkept : ∀ m ∈ ms, put p new m = [m] := by
    intro m hm
    rw [put, if_neg]
    rintro rfl
    exact h hm
  rw [List.flatMap_congr hkept, List.flatMap_singleton']

/-- Mentions can be dropped before or after, if neither `p` nor what is put in for it is dropped. -/
theorem filter_flatMap_put {keep : Mention → Bool} (hp : keep (.parameter p) = true)
    (hnew : ∀ m ∈ new, keep m = true) :
    (ms.flatMap (put p new)).filter keep = (ms.filter keep).flatMap (put p new) := by
  induction ms with
  | nil => rfl
  | cons m ms ih =>
    rw [List.flatMap_cons, List.filter_append, ih]
    by_cases hm : m = .parameter p
    · rw [hm, List.filter_cons_of_pos hp, List.flatMap_cons, put, if_pos rfl,
        List.filter_eq_self.mpr hnew]
    · have hput : put p new m = [m] := if_neg hm
      by_cases hkeep : keep m
      · rw [List.filter_cons_of_pos hkeep, List.flatMap_cons, hput, List.filter_cons_of_pos hkeep]
        rfl
      · rw [List.filter_cons_of_neg hkeep, hput, List.filter_cons_of_neg hkeep]
        rfl

/-- The sources that stand for a mention after `p` has given way to something that refers to
`new`. -/
def sourcesAfter (p : Parameter) (new : List Source) : Mention → List Source
  | .parameter q => if q = p then new else []
  | .source s => [s]

theorem filterMap_source?_put (m : Mention) :
    (put p new m).filterMap source? = m.sourcesAfter p (new.filterMap source?) := by
  cases m with
  | source s => rfl
  | parameter q => by_cases hq : q = p <;> simp [put, sourcesAfter, source?, hq]

end Mention

namespace Expr

/-- What a node mentions itself. -/
def mention? : Expr → Option Mention
  | .parameter p => some (.parameter p)
  | .reference s => some (.source s)
  | _ => none

/-- Whether a mention below a node is also one of the node: no parameter that the node declares
is. -/
def lets (e : Expr) : Mention → Bool
  | .parameter p => p ∉ e.declared
  | .source _ => true

/-- The free parameters and the sources referred to, in walk order. -/
def mentions (e : Expr) : List Mention :=
  e.mention?.toList ++ (e.children.attach.flatMap fun c => c.1.mentions).filter e.lets
termination_by sizeOf e
decreasing_by exact sizeOf_lt_of_mem_children c.2

theorem mentions_eq (e : Expr) :
    e.mentions = e.mention?.toList ++ (e.children.flatMap mentions).filter e.lets := by
  rw [mentions, List.flatMap_subtype fun _ _ => rfl, List.unattach_attach]

variable {p q : Parameter} {r e : Expr}

theorem freeParameters_eq (e : Expr) :
    e.freeParameters = e.mention?.toList.filterMap Mention.parameter? ++
      (e.children.flatMap freeParameters).filter fun q => q ∉ e.declared := by
  cases e with
  | lambda ps b =>
    rw [children, List.flatMap_singleton]
    rfl
  | _ =>
    simp [freeParameters, mention?, Mention.parameter?, children, declared,
      freeParametersList_eq_flatMap, Binding.freeParametersList_eq_flatMap]

/-- The parameters among the mentions are the free ones, in the same order. -/
theorem filterMap_parameter?_mentions (e : Expr) :
    e.mentions.filterMap Mention.parameter? = e.freeParameters := by
  induction e using induction_on_children with
  | node e ih =>
    have hlets : ∀ ms : List Mention, (ms.filter e.lets).filterMap Mention.parameter? =
        (ms.filterMap Mention.parameter?).filter fun q => q ∉ e.declared := by
      intro ms
      rw [List.filterMap_filter, List.filter_filterMap]
      refine List.filterMap_congr fun m _ => ?_
      cases m with
      | parameter q =>
        by_cases hq : q ∈ e.declared <;> simp [lets, Mention.parameter?, Option.filter, hq]
      | source s => rfl
    rw [mentions_eq, List.filterMap_append, hlets, List.filterMap_flatMap, List.flatMap_congr ih,
      freeParameters_eq]

theorem parameter_mem_mentions : .parameter q ∈ e.mentions ↔ q ∈ e.freeParameters := by
  rw [← filterMap_parameter?_mentions, List.mem_filterMap]
  constructor
  · exact fun h => ⟨_, h, rfl⟩
  · rintro ⟨m, hm, hq⟩
    cases m with
    | parameter p =>
      cases hq
      exact hm
    | source s => cases hq

/-- The sources among the mentions are those referred to, in the same order. -/
theorem filterMap_source?_mentions (e : Expr) :
    e.mentions.filterMap Mention.source? = e.references := by
  induction e using induction_on_children with
  | node e ih =>
    have htop : e.mention?.toList.filterMap Mention.source? = e.source?.toList := by
      cases e <;> rfl
    have hlets : ∀ ms : List Mention,
        (ms.filter e.lets).filterMap Mention.source? = ms.filterMap Mention.source? := by
      intro ms
      rw [List.filterMap_filter]
      refine List.filterMap_congr fun m _ => ?_
      cases m with
      | parameter p => simp [Mention.source?]
      | source s => rfl
    rw [mentions_eq, List.filterMap_append, htop, hlets, List.filterMap_flatMap,
      List.flatMap_congr ih, references, subterms_eq, List.filterMap_cons, List.filterMap_flatMap]
    cases e.source? <;> rfl

/-! ### Substitution -/

theorem mentions_mapChildren (f : Expr → Expr) (e : Expr) :
    (e.mapChildren f).mentions =
      e.mention?.toList ++ (e.children.flatMap fun c => (f c).mentions).filter e.lets := by
  have htop : (e.mapChildren f).mention? = e.mention? := by
    cases e <;> rfl
  have hlets : (e.mapChildren f).lets = e.lets := by
    funext m
    cases m <;> simp only [lets, declared_mapChildren]
  rw [mentions_eq, htop, hlets, children_mapChildren, List.flatMap_map]

/-- A parameter of a part that no node above declares is let through. -/
theorem lets_of_mem_mentions (hopen : ∀ q ∈ e.declared, q ∉ r.freeParameters) {m : Mention}
    (hm : m ∈ r.mentions) : e.lets m = true := by
  cases m with
  | source s => rfl
  | parameter q =>
    rw [lets, decide_eq_true_eq]
    exact fun hq => hopen q hq (parameter_mem_mentions.mp hm)

/-- **Substitution, mention by mention.**  Each free occurrence of the parameter gives way to what
the new part mentions, and all else stays, in the same order. -/
theorem mentions_replace (hopen : ∀ x ∈ e.subterms, ∀ q ∈ x.declared, q ∉ r.freeParameters) :
    (replace (.parameter p) r e).mentions = e.mentions.flatMap (Mention.put p r.mentions) := by
  induction e using induction_on_children with
  | node e ih =>
    obtain ⟨hnode, hbelow⟩ := forall_subterms_iff.mp hopen
    by_cases hp : e = .parameter p
    · rw [hp, replace_parameter_self, mentions_eq (.parameter p)]
      simp [mention?, children, Mention.put]
    by_cases hdeclared : p ∈ e.declared
    · -- The parameter is not free in a node that declares it.
      have habsent : .parameter p ∉ e.mentions := by
        rw [parameter_mem_mentions, mem_freeParameters_iff]
        exact fun h => h.1 hdeclared
      rw [replace_of_declared hdeclared, Mention.flatMap_put_of_not_mem habsent]
    · have hparts : ∀ c ∈ e.children, (replace (.parameter p) r c).mentions =
          c.mentions.flatMap (Mention.put p r.mentions) := fun c hc => ih c hc (hbelow c hc)
      have hself : .parameter p ∉ e.mention?.toList := by
        intro hmem
        cases e with
        | parameter q =>
          cases List.mem_singleton.mp hmem
          exact hp rfl
        | reference s => cases List.mem_singleton.mp hmem
        | _ => cases hmem
      have hlets : e.lets (.parameter p) = true := decide_eq_true hdeclared
      rw [replace_of_other hp hdeclared, mentions_mapChildren, List.flatMap_congr hparts,
        ← List.flatMap_assoc, Mention.filter_flatMap_put hlets fun m => lets_of_mem_mentions hnode,
        mentions_eq e, List.flatMap_append, Mention.flatMap_put_of_not_mem hself]

/-! ### Places -/

theorem nil_mem_freePlaces : [] ∈ e.freePlaces p ↔ e = .parameter p := by
  constructor
  · exact fun h => Option.some.inj h.1
  · rintro rfl
    exact ⟨rfl, List.not_mem_nil⟩

theorem cons_mem_freePlaces {i : Nat} {place : List Nat} :
    i :: place ∈ e.freePlaces p ↔
      p ∉ e.declared ∧ ∃ c, e.children[i]? = some c ∧ place ∈ c.freePlaces p := by
  constructor
  · rintro ⟨hplace, hscope⟩
    obtain ⟨c, hc, hrest⟩ := at?_cons_eq_some.mp hplace
    rw [scopeAt_cons hc, List.mem_append, not_or] at hscope
    exact ⟨hscope.1, c, hc, hrest, hscope.2⟩
  · rintro ⟨hdeclared, c, hc, hrest, hscope⟩
    refine ⟨at?_cons_eq_some.mpr ⟨c, hc, hrest⟩, ?_⟩
    rw [scopeAt_cons hc, List.mem_append, not_or]
    exact ⟨hdeclared, hscope⟩

/-- Nothing is free in a node that declares it. -/
theorem not_mem_freePlaces (hdeclared : p ∈ e.declared) (place : List Nat) :
    place ∉ e.freePlaces p := by
  intro h
  exact (mem_freeParameters_iff.mp (mem_freeParameters_iff_freePlaces.mpr ⟨place, h⟩)).1 hdeclared

/-- **Where references are after a substitution.**  They are where they were, or at their place in a
copy of the new part, which stands where the parameter was free. -/
theorem at?_replace_eq_reference {s : Source} {place : List Nat} :
    (replace (.parameter p) r e).at? place = some (.reference s) ↔
      e.at? place = some (.reference s) ∨
      ∃ above ∈ e.freePlaces p, ∃ below,
        place = above ++ below ∧ r.at? below = some (.reference s) := by
  induction e using induction_on_children generalizing place with
  | node e ih =>
    by_cases hp : e = .parameter p
    · subst hp
      rw [replace_parameter_self]
      constructor
      · exact fun h => Or.inr ⟨[], nil_mem_freePlaces.mpr rfl, place, rfl, h⟩
      · rintro (h | ⟨above, habove, below, rfl, hr⟩)
        · cases eq_nil_of_at? rfl h
          cases h
        · cases eq_nil_of_at? rfl habove.1
          exact hr
    by_cases hdeclared : p ∈ e.declared
    · rw [replace_of_declared hdeclared]
      constructor
      · exact Or.inl
      · rintro (h | ⟨above, habove, -⟩)
        · exact h
        · exact absurd habove (not_mem_freePlaces hdeclared above)
    rw [replace_of_other hp hdeclared]
    cases place with
    | nil =>
      rw [at?, at?, Option.some.injEq, Option.some.injEq, mapChildren_eq_reference]
      constructor
      · exact Or.inl
      · rintro (h | ⟨above, habove, below, hsplit, -⟩)
        · exact h
        · obtain ⟨rfl, -⟩ := List.append_eq_nil_iff.mp hsplit.symm
          exact absurd (nil_mem_freePlaces.mp habove) hp
    | cons i place =>
      rw [at?_cons_eq_some, at?_cons_eq_some, children_mapChildren, List.getElem?_map]
      constructor
      · rintro ⟨_, hpart, hplace⟩
        obtain ⟨c, hc, rfl⟩ := Option.map_eq_some_iff.mp hpart
        rcases (ih c (List.mem_of_getElem? hc)).mp hplace with
          hbefore | ⟨above, habove, below, rfl, hr⟩
        · exact Or.inl ⟨c, hc, hbefore⟩
        · have hfree := cons_mem_freePlaces.mpr ⟨hdeclared, c, hc, habove⟩
          exact Or.inr ⟨i :: above, hfree, below, rfl, hr⟩
      · rintro (⟨c, hc, hbefore⟩ | ⟨above, habove, below, hsplit, hr⟩)
        · have hpart := (ih c (List.mem_of_getElem? hc)).mpr (Or.inl hbefore)
          exact ⟨_, by rw [hc]; rfl, hpart⟩
        · cases above with
          | nil => exact absurd (nil_mem_freePlaces.mp habove) hp
          | cons j above =>
            obtain ⟨rfl, rfl⟩ := List.cons.inj hsplit
            obtain ⟨-, c, hc, habove⟩ := cons_mem_freePlaces.mp habove
            have hpart := (ih c (List.mem_of_getElem? hc)).mpr
              (Or.inr ⟨above, habove, below, rfl, hr⟩)
            exact ⟨_, by rw [hc]; rfl, hpart⟩

/-! ### What substitution leaves and brings in -/

/-- The free parameters after a substitution that finds a place. -/
theorem mem_freeParameters_replace_iff
    (hopen : ∀ x ∈ e.subterms, ∀ q ∈ x.declared, q ∉ r.freeParameters)
    (hfree : p ∈ e.freeParameters) :
    q ∈ (replace (.parameter p) r e).freeParameters ↔
      q ∈ e.freeParameters ∧ q ≠ p ∨ q ∈ r.freeParameters := by
  rw [← parameter_mem_mentions, mentions_replace hopen, List.mem_flatMap]
  constructor
  · rintro ⟨m, hm, hq⟩
    by_cases hmp : m = .parameter p
    · rw [hmp, Mention.put, if_pos rfl] at hq
      exact Or.inr (parameter_mem_mentions.mp hq)
    · rw [Mention.put, if_neg hmp, List.mem_singleton] at hq
      subst hq
      refine Or.inl ⟨parameter_mem_mentions.mp hm, ?_⟩
      rintro rfl
      exact hmp rfl
  · rintro (⟨hq, hqp⟩ | hq)
    · refine ⟨.parameter q, parameter_mem_mentions.mpr hq, ?_⟩
      rw [Mention.put, if_neg fun h => hqp (Mention.parameter.inj h)]
      exact List.mem_singleton.mpr rfl
    · refine ⟨.parameter p, parameter_mem_mentions.mpr hfree, ?_⟩
      rw [Mention.put, if_pos rfl]
      exact parameter_mem_mentions.mpr hq

/-- The sources referred to after a substitution, in walk order. -/
theorem references_replace_eq
    (hopen : ∀ x ∈ e.subterms, ∀ q ∈ x.declared, q ∉ r.freeParameters) :
    (replace (.parameter p) r e).references =
      e.mentions.flatMap (Mention.sourcesAfter p r.references) := by
  rw [← filterMap_source?_mentions, ← filterMap_source?_mentions r, mentions_replace hopen,
    List.filterMap_flatMap]
  exact List.flatMap_congr fun m _ => m.filterMap_source?_put

/-- **Putting an expression in for a parameter.**  It changes nothing if the parameter is not
free.  If it is, the other free parameters stay free, and those of the new part come in for it.
References are where they were, or at their place in a copy of the new part at a free place of the
parameter.  In walk order, each free occurrence of the parameter among the references gives way to
the references of the new part. -/
theorem replace_substitutes
    (hopen : ∀ x ∈ e.subterms, ∀ q ∈ x.declared, q ∉ r.freeParameters) :
    (p ∉ e.freeParameters → replace (.parameter p) r e = e) ∧
    (p ∈ e.freeParameters → ∀ q, q ∈ (replace (.parameter p) r e).freeParameters ↔
      q ∈ e.freeParameters ∧ q ≠ p ∨ q ∈ r.freeParameters) ∧
    (∀ place s, (replace (.parameter p) r e).at? place = some (.reference s) ↔
      e.at? place = some (.reference s) ∨
      ∃ above ∈ e.freePlaces p, ∃ below,
        place = above ++ below ∧ r.at? below = some (.reference s)) ∧
    (replace (.parameter p) r e).references =
      e.mentions.flatMap (Mention.sourcesAfter p r.references) :=
  ⟨replace_of_not_free, fun hfree _ => mem_freeParameters_replace_iff hopen hfree,
    fun _ _ => at?_replace_eq_reference, references_replace_eq hopen⟩

end Expr

namespace Sample

def busy : Parameter := ⟨"busy", .boolean⟩

def readName (e : Expr) : Expr := .memberAccess e ⟨"Cook", "Name", .string, .property⟩

/-- `x => (x.Name == c.Name) AndAlso (c.Name != [o].Name)` -/
def sharesName : Expr :=
  .lambda [⟨"x", cook⟩]
    (.binary .andAlso
      (.binary .equal (readName (.parameter ⟨"x", cook⟩)) (readName (.parameter ⟨"c", cook⟩))
        .boolean)
      (.binary .notEqual (readName (.parameter ⟨"c", cook⟩)) (readName (.reference ⟨3, "o", cook⟩))
        .boolean)
      .boolean)

/-- The cook of the kitchen, or another one while that cook is busy. -/
def cookOnDuty : Expr :=
  .conditional (.parameter busy) (.reference ⟨2, "d", cook⟩)
    (.memberAccess (.reference ⟨1, "k", kitchen⟩) ⟨"Kitchen", "Cook", cook, .property⟩) cook

end Sample

open Sample in
/-- The cook on duty is put in at two places.  The lambda declares another parameter than those that
come in. -/
theorem Expr.replace_substitutes_sharesName :
    (∀ x ∈ sharesName.subterms, ∀ q ∈ x.declared, q ∉ cookOnDuty.freeParameters) ∧
    (∀ q, q ∈ (replace (.parameter ⟨"c", cook⟩) cookOnDuty sharesName).freeParameters ↔ q = busy) ∧
    (replace (.parameter ⟨"c", cook⟩) cookOnDuty sharesName).at? [0, 1, 0, 0, 1] =
      some (.reference ⟨2, "d", cook⟩) ∧
    sharesName.mentions.flatMap (Mention.sourcesAfter ⟨"c", cook⟩ cookOnDuty.references) =
      [⟨2, "d", cook⟩, ⟨1, "k", kitchen⟩, ⟨2, "d", cook⟩, ⟨1, "k", kitchen⟩, ⟨3, "o", cook⟩] := by
  have hopen : ∀ x ∈ sharesName.subterms, ∀ q ∈ x.declared, q ∉ cookOnDuty.freeParameters := by
    decide +kernel
  have hfree : ⟨"c", cook⟩ ∈ sharesName.freeParameters := by decide +kernel
  obtain ⟨-, hparameters, hplaces, hreferences⟩ :=
    replace_substitutes (p := ⟨"c", cook⟩) hopen
  refine ⟨hopen, fun q => ?_, ?_, hreferences.symm⟩
  · rw [hparameters hfree]
    have hbefore : sharesName.freeParameters = [⟨"c", cook⟩, ⟨"c", cook⟩] := by decide +kernel
    have hnew : cookOnDuty.freeParameters = [busy] := rfl
    rw [hbefore, hnew]
    simp
  · exact (hplaces _ _).mpr (Or.inr ⟨[0, 1, 0, 0], ⟨rfl, by decide +kernel⟩, [1], rfl, rfl⟩)

end Comprehension
