import Comprehension.Proofs.Expr.Reversal
import Mathlib.Data.List.Lex
import Mathlib.Data.Set.Card
import Mathlib.Data.Set.Finite.Lattice
import Mathlib.Data.Set.Function

/-! # Capture

An expression is read back from an item by putting the way from the item in the place of each
reference.  All ways start at one parameter.  A reference may be below a lambda that declares this
very parameter, and then the way that is put in for it reads what the lambda is given, not the item.

Places are compared like words, which is walk order.  Below every reference there is one place of
the result where its way starts (`Expr.exists_place_of_reference`), and these places are in the
order of the references.  The parameter is free in those of them that were not captured, and nowhere
else (`reverseResolve_places`). -/
namespace Comprehension

/-! ### Places -/

namespace Expr

/-- The part at a place.  The place has the number of the part to take at each node on the way. -/
def at? : Expr → List Nat → Option Expr
  | e, [] => some e
  | e, i :: place => e.children[i]?.bind fun c => c.at? place

/-- The parameters that are declared around a place. -/
def scopeAt : Expr → List Nat → List Parameter
  | _, [] => []
  | e, i :: place => e.declared ++ e.children[i]?.elim [] fun c => c.scopeAt place

/-- The places where a parameter occurs free. -/
def freePlaces (e : Expr) (p : Parameter) : Set (List Nat) :=
  {place | e.at? place = some (.parameter p) ∧ p ∉ e.scopeAt place}

/-- The places of references. -/
def referencePlaces (e : Expr) : Set (List Nat) := {place | ∃ s, e.at? place = some (.reference s)}

theorem at?_cons_eq_some {e x : Expr} {i : Nat} {place : List Nat} :
    e.at? (i :: place) = some x ↔ ∃ c, e.children[i]? = some c ∧ c.at? place = some x :=
  Option.bind_eq_some_iff

theorem scopeAt_cons {e c : Expr} {i : Nat} (h : e.children[i]? = some c) (place : List Nat) :
    e.scopeAt (i :: place) = e.declared ++ c.scopeAt place := by
  rw [scopeAt, h]
  rfl

theorem at?_append (e : Expr) (place rest : List Nat) :
    e.at? (place ++ rest) = (e.at? place).bind fun x => x.at? rest := by
  induction place generalizing e with
  | nil => rfl
  | cons i place ih => simp only [List.cons_append, at?, ih, Option.bind_assoc]

theorem scopeAt_append {e x : Expr} {place : List Nat} (h : e.at? place = some x)
    (rest : List Nat) : e.scopeAt (place ++ rest) = e.scopeAt place ++ x.scopeAt rest := by
  induction place generalizing e with
  | nil =>
    cases h
    rfl
  | cons i place ih =>
    obtain ⟨c, hc, hplace⟩ := at?_cons_eq_some.mp h
    rw [List.cons_append, scopeAt_cons hc, scopeAt_cons hc, ih hplace, List.append_assoc]

/-- There are no places below a node without parts. -/
theorem eq_nil_of_at? {e x : Expr} {place : List Nat} (hleaf : e.children = [])
    (h : e.at? place = some x) : place = [] := by
  cases place with
  | nil => rfl
  | cons i place =>
    obtain ⟨c, hc, -⟩ := at?_cons_eq_some.mp h
    rw [hleaf] at hc
    cases hc

/-- An expression has finitely many places. -/
theorem finite_places (e : Expr) : {place | (e.at? place).isSome}.Finite := by
  induction e using Expr.induction_on_children with
  | node e ih =>
    have hbelow : ∀ i, {place | (e.at? (i :: place)).isSome}.Finite := by
      intro i
      cases hi : e.children[i]? with
      | none => simp [at?, hi]
      | some c => simpa [at?, hi] using ih c (List.mem_of_getElem? hi)
    have hall : (⋃ i ∈ {i | i < e.children.length},
        List.cons i '' {place | (e.at? (i :: place)).isSome}).Finite :=
      Set.Finite.biUnion (Set.finite_lt_nat _) fun i _ => (hbelow i).image _
    refine (hall.insert []).subset fun place hplace => ?_
    cases place with
    | nil => exact Set.mem_insert _ _
    | cons i place =>
      obtain ⟨x, hx⟩ := Option.isSome_iff_exists.mp hplace
      obtain ⟨c, hc, -⟩ := at?_cons_eq_some.mp hx
      have hi : i < e.children.length := (List.getElem?_eq_some_iff.mp hc).1
      exact Set.mem_insert_of_mem _ (Set.mem_biUnion hi ⟨place, hplace, rfl⟩)

/-- **A parameter is free when it is free at some place.** -/
theorem mem_freeParameters_iff_freePlaces {q : Parameter} {e : Expr} :
    q ∈ e.freeParameters ↔ (e.freePlaces q).Nonempty := by
  induction e using Expr.induction_on_children with
  | node e ih =>
    rw [mem_freeParameters_iff]
    constructor
    · rintro ⟨hdeclared, rfl | ⟨c, hc, hfree⟩⟩
      · exact ⟨[], rfl, List.not_mem_nil⟩
      · obtain ⟨place, hplace, hscope⟩ := (ih c hc).mp hfree
        obtain ⟨i, hi⟩ := List.mem_iff_getElem?.mp hc
        refine ⟨i :: place, at?_cons_eq_some.mpr ⟨c, hi, hplace⟩, ?_⟩
        rw [scopeAt_cons hi, List.mem_append]
        exact not_or.mpr ⟨hdeclared, hscope⟩
    · rintro ⟨place, hplace, hscope⟩
      cases place with
      | nil =>
        cases hplace
        exact ⟨List.not_mem_nil, Or.inl rfl⟩
      | cons i place =>
        obtain ⟨c, hi, hrest⟩ := at?_cons_eq_some.mp hplace
        have hc : c ∈ e.children := List.mem_of_getElem? hi
        rw [scopeAt_cons hi, List.mem_append, not_or] at hscope
        exact ⟨hscope.1, Or.inr ⟨c, hc, (ih c hc).mpr ⟨place, hrest, hscope.2⟩⟩⟩

/-- What is declared around a place is declared by some node. -/
theorem exists_declared_of_mem_scopeAt {e : Expr} {q : Parameter} {place : List Nat}
    (h : q ∈ e.scopeAt place) : ∃ x ∈ e.subterms, q ∈ x.declared := by
  induction place generalizing e with
  | nil => cases h
  | cons i place ih =>
    rw [subterms_eq]
    rw [scopeAt, List.mem_append] at h
    rcases h with hdeclared | hbelow
    · exact ⟨e, List.mem_cons_self .., hdeclared⟩
    · cases hi : e.children[i]? with
      | none =>
        rw [hi] at hbelow
        cases hbelow
      | some c =>
        rw [hi] at hbelow
        obtain ⟨x, hx, hdeclared⟩ := ih hbelow
        have hc : c ∈ e.children := List.mem_of_getElem? hi
        exact ⟨x, List.mem_cons_of_mem _ (List.mem_flatMap.mpr ⟨c, hc, hx⟩), hdeclared⟩

end Expr

/-! ### Where a way starts -/

/-- One step of a way is a node around what it steps on from, and declares nothing. -/
theorem Expr.enter_eq_ok {accessor inner x : Expr} {via : Option Member}
    (h : accessor.enter via x = .ok inner) :
    inner.children = [accessor] ∧ inner.declared = [] := by
  cases via with
  | none =>
    cases h
    exact ⟨rfl, rfl⟩
  | some m =>
    rw [Expr.eq_of_accessMember h]
    exact ⟨rfl, rfl⟩

/-- A way has the accessor that it starts from at one place.  Nothing is declared around it, and all
leaves are there or below. -/
theorem Way.exists_start {e accessor part w : Expr} (h : Way e accessor part w) :
    ∃ start, w.at? start = some accessor ∧ w.scopeAt start = [] ∧
      ∀ place x, w.at? place = some x → x.children = [] → start <+: place := by
  induction h with
  | here e accessor => exact ⟨[], rfl, rfl, fun place _ _ _ => List.nil_prefix⟩
  | @into e x accessor inner part w via _ enters _ ih =>
    obtain ⟨hchildren, hdeclared⟩ := Expr.enter_eq_ok enters
    obtain ⟨start, hstart, hscope, hleaves⟩ := ih
    have hchild : inner.children[0]? = some accessor := by rw [hchildren]; rfl
    refine ⟨start ++ [0], ?_, ?_, fun place y hplace hleaf => ?_⟩
    · rw [Expr.at?_append, hstart]
      exact Expr.at?_cons_eq_some.mpr ⟨accessor, hchild, rfl⟩
    · rw [Expr.scopeAt_append hstart, hscope, Expr.scopeAt_cons hchild, hdeclared]
      rfl
    · obtain ⟨rest, rfl⟩ := hleaves place y hplace hleaf
      rw [Expr.at?_append, hstart] at hplace
      cases rest with
      | nil =>
        cases hplace
        rw [hchildren] at hleaf
        cases hleaf
      | cons i rest =>
        obtain ⟨c, hc, -⟩ := Expr.at?_cons_eq_some.mp hplace
        rw [hchildren] at hc
        cases i with
        | zero => exact ⟨rest, by rw [List.append_assoc, List.singleton_append]⟩
        | succ i => cases hc

/-- A way from a parameter has it at one place only. -/
theorem Way.exists_parameter {e part w : Expr} {p : Parameter}
    (h : Way e (.parameter p) part w) :
    ∃ start, w.scopeAt start = [] ∧ ∀ place, w.at? place = some (.parameter p) ↔ place = start := by
  obtain ⟨start, hstart, hscope, hleaves⟩ := h.exists_start
  refine ⟨start, hscope, fun place => ⟨fun hplace => ?_, ?_⟩⟩
  · obtain ⟨rest, rfl⟩ := hleaves place _ hplace rfl
    rw [Expr.at?_append, hstart] at hplace
    have hrest : rest = [] := Expr.eq_nil_of_at? rfl hplace
    rw [hrest, List.append_nil]
  · rintro rfl
    exact hstart

/-! ### Places after reading back -/

section ReadingBack

variable {item : Expr} {input : Parameter}

/-- A node is a reference, or is read back part by part. -/
theorem readBack_cases {e e' : Expr} (h : e.rewriteM (readBack? item input) pure = .ok e') :
    (∃ s, e = .reference s) ∨
      (∀ c ∈ e.children, c.Rewritable (readBack? item input) pure) ∧
        e' = e.mapChildren (Expr.rewritten (readBack? item input) pure) := by
  by_cases href : ∃ s, e = .reference s
  · exact Or.inl href
  · exact Or.inr ((rewriteM_readBack?_other fun s hs => href ⟨s, hs⟩).mp h)

/-- What is at a place is read back at this place, with the same parameters around it. -/
theorem Expr.at?_readBack {e e' x : Expr} {place : List Nat}
    (h : e.rewriteM (readBack? item input) pure = .ok e') (hx : e.at? place = some x) :
    ∃ x', x.rewriteM (readBack? item input) pure = .ok x' ∧ e'.at? place = some x' ∧
      e'.scopeAt place = e.scopeAt place := by
  induction place generalizing e e' with
  | nil =>
    cases hx
    exact ⟨e', h, rfl, rfl⟩
  | cons i place ih =>
    obtain ⟨c, hc, hplace⟩ := Expr.at?_cons_eq_some.mp hx
    obtain ⟨s, rfl⟩ | ⟨hparts, rfl⟩ := readBack_cases h
    · cases hc
    have hpart := Expr.rewriteM_eq_rewritten.mpr ⟨hparts c (List.mem_of_getElem? hc), rfl⟩
    obtain ⟨x', hx', hat, hscope⟩ := ih hpart hplace
    have hd' : (e.mapChildren (Expr.rewritten (readBack? item input) pure)).children[i]? =
        some (c.rewritten (readBack? item input) pure) := by
      rw [Expr.children_mapChildren, List.getElem?_map, hc]
      rfl
    refine ⟨x', hx', Expr.at?_cons_eq_some.mpr ⟨_, hd', hat⟩, ?_⟩
    rw [Expr.scopeAt_cons hd', Expr.scopeAt_cons hc, hscope, Expr.declared_mapChildren]

/-- A place of the parameter was there before, or is below a reference. -/
theorem Expr.at?_readBack_parameter {e e' : Expr} {place : List Nat}
    (h : e.rewriteM (readBack? item input) pure = .ok e')
    (hplace : e'.at? place = some (.parameter input)) :
    e.at? place = some (.parameter input) ∨ ∃ above ∈ e.referencePlaces, above <+: place := by
  induction place generalizing e e' with
  | nil =>
    rcases readBack_cases h with ⟨s, rfl⟩ | ⟨-, rfl⟩
    · exact Or.inr ⟨[], ⟨s, rfl⟩, List.nil_prefix⟩
    · have htop : e = .parameter input :=
        (Expr.mapChildren_eq_parameter _ _).mp (Option.some.inj hplace)
      exact Or.inl (congrArg some htop)
  | cons i place ih =>
    rcases readBack_cases h with ⟨s, rfl⟩ | ⟨hparts, rfl⟩
    · exact Or.inr ⟨[], ⟨s, rfl⟩, List.nil_prefix⟩
    · obtain ⟨d, hd, hrest⟩ := Expr.at?_cons_eq_some.mp hplace
      rw [Expr.children_mapChildren, List.getElem?_map, Option.map_eq_some_iff] at hd
      obtain ⟨c, hc, rfl⟩ := hd
      have hpart := Expr.rewriteM_eq_rewritten.mpr ⟨hparts c (List.mem_of_getElem? hc), rfl⟩
      rcases ih hpart hrest with hbefore | ⟨above, ⟨s, hs⟩, hbegins⟩
      · exact Or.inl (Expr.at?_cons_eq_some.mpr ⟨c, hc, hbefore⟩)
      · refine Or.inr ⟨i :: above, ⟨s, Expr.at?_cons_eq_some.mpr ⟨c, hc, hs⟩⟩, ?_⟩
        exact List.cons_prefix_cons.mpr ⟨rfl, hbegins⟩

/-- Every reference has one place of the parameter below it, with the same parameters around it. -/
theorem Expr.exists_place_of_reference {e e' : Expr} {above : List Nat}
    (h : e.rewriteM (readBack? item input) pure = .ok e') (habove : above ∈ e.referencePlaces) :
    ∃ place, e'.scopeAt place = e.scopeAt above ∧ above <+: place ∧
      ∀ below, above <+: below → (e'.at? below = some (.parameter input) ↔ below = place) := by
  obtain ⟨s, hs⟩ := habove
  obtain ⟨w, hw, hat, hscope⟩ := Expr.at?_readBack h hs
  obtain ⟨s', -, hway⟩ := exists_way_of_readBack hw
  obtain ⟨start, hstart, hplaces⟩ := hway.exists_parameter
  refine ⟨above ++ start, ?_, List.prefix_append .., ?_⟩
  · rw [Expr.scopeAt_append hat, hscope, hstart, List.append_nil]
  · rintro _ ⟨rest, rfl⟩
    rw [Expr.at?_append, hat, List.append_cancel_left_eq]
    exact hplaces rest

end ReadingBack

/-- Nothing is below a reference. -/
theorem Expr.eq_of_prefix_of_referencePlaces {e x : Expr} {above below : List Nat}
    (habove : above ∈ e.referencePlaces) (hbelow : e.at? below = some x) (h : above <+: below) :
    above = below := by
  obtain ⟨s, hs⟩ := habove
  obtain ⟨rest, rfl⟩ := h
  rw [Expr.at?_append, hs] at hbelow
  have hrest : rest = [] := Expr.eq_nil_of_at? rfl hbelow
  rw [hrest, List.append_nil]

/-- Words that differ before the first one ends are in the order of their continuations. -/
theorem lt_of_prefix_of_lt {p q p' q' : List Nat} (h : p < q) (hdiffer : ¬ p <+: q)
    (hp : p <+: p') (hq : q <+: q') : p' < q' := by
  obtain ⟨a, rfl⟩ := hp
  obtain ⟨b, rfl⟩ := hq
  induction p generalizing q with
  | nil => exact absurd List.nil_prefix hdiffer
  | cons x p ih =>
    cases q with
    | nil => exact absurd h (List.not_lt_nil _)
    | cons y q =>
      rw [List.cons_append, List.cons_append, List.cons_lt_cons_iff]
      rcases List.cons_lt_cons_iff.mp h with hlt | ⟨rfl, hlt⟩
      · exact Or.inl hlt
      · exact Or.inr ⟨rfl, ih hlt fun hpq => hdiffer (List.cons_prefix_cons.mpr ⟨rfl, hpq⟩)⟩

/-- **Where the parameter comes in when an expression is read back.**  Each reference has its own
place of the parameter at or below it, these places are in the order of the references, and around
them the same parameters are declared as around the references.  So the free ones among them belong
to the references around which the parameter is not declared, and the parameter is free nowhere
else.  Free places and references are in one-to-one correspondence exactly when the parameter is
declared around no reference. -/
theorem reverseResolve_places {item resolved : Expr} {l : Lambda}
    (hfree : ⟨"input", item.type⟩ ∉ resolved.freeParameters)
    (h : reverseResolve item resolved = .ok l) :
    ∃ place : List Nat → List Nat,
      StrictMonoOn place resolved.referencePlaces ∧
      (∀ p ∈ resolved.referencePlaces, p <+: place p ∧
        l.body.at? (place p) = some (.parameter ⟨"input", item.type⟩) ∧
        l.body.scopeAt (place p) = resolved.scopeAt p) ∧
      Set.BijOn place
        {p ∈ resolved.referencePlaces | ⟨"input", item.type⟩ ∉ resolved.scopeAt p}
        (l.body.freePlaces ⟨"input", item.type⟩) ∧
      ((∃ f, Set.BijOn f resolved.referencePlaces (l.body.freePlaces ⟨"input", item.type⟩)) ↔
        ∀ p ∈ resolved.referencePlaces, ⟨"input", item.type⟩ ∉ resolved.scopeAt p) := by
  obtain ⟨hbody, -⟩ := reverseResolve_eq_ok.mp h
  have hplaces := fun p => @Expr.exists_place_of_reference item _ resolved l.body p hbody
  choose! place hscope hbelow honly using hplaces
  have hat : ∀ p ∈ resolved.referencePlaces,
      l.body.at? (place p) = some (.parameter ⟨"input", item.type⟩) :=
    fun p hp => (honly p hp (place p) (hbelow p hp)).mpr rfl
  have hordered : StrictMonoOn place resolved.referencePlaces := by
    intro p hp q hq hlt
    obtain ⟨s, hs⟩ := hq
    refine lt_of_prefix_of_lt hlt (fun hpq => ?_) (hbelow p hp) (hbelow q ⟨s, hs⟩)
    exact hlt.ne (Expr.eq_of_prefix_of_referencePlaces hp hs hpq)
  have hbij : Set.BijOn place
      {p ∈ resolved.referencePlaces | ⟨"input", item.type⟩ ∉ resolved.scopeAt p}
      (l.body.freePlaces ⟨"input", item.type⟩) := by
    refine ⟨?_, fun p hp q hq => hordered.injOn hp.1 hq.1, ?_⟩
    · rintro p ⟨hp, hopen⟩
      refine ⟨hat p hp, ?_⟩
      rwa [hscope p hp]
    · rintro below ⟨hparameter, hopen⟩
      rcases Expr.at?_readBack_parameter hbody hparameter with hbefore | ⟨p, hp, hbegins⟩
      · -- The parameter would have been free before.
        obtain ⟨_, -, -, hsame⟩ := Expr.at?_readBack hbody hbefore
        rw [hsame] at hopen
        exact absurd (Expr.mem_freeParameters_iff_freePlaces.mpr ⟨below, hbefore, hopen⟩) hfree
      · have hplace : below = place p := (honly p hp below hbegins).mp hparameter
        rw [hplace, hscope p hp] at hopen
        exact ⟨p, ⟨hp, hopen⟩, hplace.symm⟩
  refine ⟨place, hordered, fun p hp => ⟨hbelow p hp, hat p hp, hscope p hp⟩, hbij, ?_, ?_⟩
  · -- A reference that is captured leaves fewer free places than there are references.
    rintro ⟨f, hf⟩
    have hfinite : resolved.referencePlaces.Finite := by
      refine resolved.finite_places.subset fun p hp => ?_
      obtain ⟨s, hs⟩ := hp
      exact Option.isSome_iff_exists.mpr ⟨_, hs⟩
    have hcard := hf.ncard_eq.trans hbij.ncard_eq.symm
    exact Set.sep_eq_self_iff_mem_true.mp
      (Set.eq_of_subset_of_ncard_le (Set.sep_subset _ _) hcard.le hfinite)
  · intro hopen
    rw [Set.sep_eq_self_iff_mem_true.mpr hopen] at hbij
    exact ⟨place, hbij⟩

namespace Sample

/-- `input => input.Name == [c].Name` -/
def namesakes : Expr :=
  .lambda [⟨"input", cook⟩]
    (.binary .equal
      (.memberAccess (.parameter ⟨"input", cook⟩) ⟨"Cook", "Name", .string, .property⟩)
      (.memberAccess (.reference ⟨0, "c", cook⟩) ⟨"Cook", "Name", .string, .property⟩)
      .boolean)

end Sample

/-- The lambda in the expression declares another parameter than the one that is put in. -/
theorem reverseResolve_places_sameAge :
    ⟨"input", Sample.team⟩ ∉ Sample.sameAge.freeParameters ∧
      ∃ l, reverseResolve Sample.packed Sample.sameAge = .ok l ∧
        ∃ f, Set.BijOn f Sample.sameAge.referencePlaces
          (l.body.freePlaces ⟨"input", Sample.team⟩) := by
  have hfree : ⟨"input", Sample.team⟩ ∉ Sample.sameAge.freeParameters := by decide +kernel
  have hdeclared : ∀ x ∈ Sample.sameAge.subterms, ⟨"input", Sample.team⟩ ∉ x.declared := by
    decide +kernel
  obtain ⟨l, hl⟩ : ∃ l, reverseResolve Sample.packed Sample.sameAge = .ok l := ⟨_, rfl⟩
  obtain ⟨-, -, -, -, hall⟩ := reverseResolve_places hfree hl
  refine ⟨hfree, l, hl, hall.mpr fun p _ hp => ?_⟩
  obtain ⟨x, hx, hdeclares⟩ := Expr.exists_declared_of_mem_scopeAt hp
  exact hdeclared x hx hdeclares

/-- Read back from a cook, the lambda compares the cook that it is given with this very cook: the
only reference is captured, and nothing depends on the item any more. -/
theorem reverseResolve_captures :
    ⟨"input", Sample.cook⟩ ∉ Sample.namesakes.freeParameters ∧
      [0, 1, 0] ∈ Sample.namesakes.referencePlaces ∧
      ∃ l, reverseResolve (.reference ⟨0, "c", Sample.cook⟩) Sample.namesakes = .ok l ∧
        l.body.freePlaces ⟨"input", Sample.cook⟩ = ∅ ∧
        ¬ ∃ place, Set.BijOn place Sample.namesakes.referencePlaces
          (l.body.freePlaces ⟨"input", Sample.cook⟩) := by
  have hfree : ⟨"input", Sample.cook⟩ ∉ Sample.namesakes.freeParameters := by decide +kernel
  have hplace : [0, 1, 0] ∈ Sample.namesakes.referencePlaces := ⟨⟨0, "c", Sample.cook⟩, rfl⟩
  obtain ⟨l, hl, hbody⟩ : ∃ l,
      reverseResolve (.reference ⟨0, "c", Sample.cook⟩) Sample.namesakes = .ok l ∧
        ⟨"input", Sample.cook⟩ ∉ l.body.freeParameters := ⟨_, rfl, by decide +kernel⟩
  have hnowhere : l.body.freePlaces ⟨"input", Sample.cook⟩ = ∅ :=
    Set.not_nonempty_iff_eq_empty.mp fun h => hbody (Expr.mem_freeParameters_iff_freePlaces.mpr h)
  refine ⟨hfree, hplace, l, hl, hnowhere, ?_⟩
  rintro ⟨place, hplace'⟩
  have himage := hplace'.mapsTo hplace
  rw [hnowhere] at himage
  exact himage

end Comprehension
