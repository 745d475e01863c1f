import Comprehension.Sample
import Comprehension.Ty.Assignable

/-! # Rules of assignability

`Ty.fits` answers whether a value of one type may stand where another is asked for.  `Ty.Fits` says
the same by rules, without the order in which the cases are tried: every type fits itself and where
anything fits, a class fits where a type that it implements fits, whatever has items fits where an
enumerable of them is asked for, and a function fits where one with a wider result is asked for.

The rules make it plain that what fits can be passed on (`Ty.Fits.trans`).  Types that fit each
other are equal (`Ty.Fits.antisymm`), because a class is larger than the types it implements, so
that assignability is a partial order. -/
namespace Comprehension

/-- `found.Fits expected`: a value of type `found` may stand where `expected` is asked for. -/
inductive Ty.Fits : Ty → Ty → Prop
  | refl (t : Ty) : Fits t t
  | object (t : Ty) : Fits t .object
  | implements {c : ClassType} {t expected : Ty} (implemented : t ∈ c.interfaces)
      (fits : Fits t expected) : Fits (.classType c) expected
  | items {found element : Ty} (items : found.element? = some element) :
    Fits found (.enumerable element)
  | result {parameters : List Ty} {r s : Ty} (fits : Fits r s) :
    Fits (.function parameters r) (.function parameters s)

/-- For a type without interfaces and results, few rules are left. -/
theorem Ty.fits_iff_of_plain {found expected : Ty} (hclass : ∀ c, found ≠ .classType c)
    (hfunction : ∀ ps r, found ≠ .function ps r) :
    found.fits expected = true ↔ found.Fits expected := by
  rw [Ty.fits.eq_def]
  split
  · exact absurd rfl (hclass _)
  · exact absurd rfl (hfunction _ _)
  · simp only [Bool.or_eq_true, beq_iff_eq]
    constructor
    · rintro ((rfl | rfl) | hitems)
      · exact .refl _
      · exact .object _
      · split at hitems
        · exact .items (beq_iff_eq.mp hitems)
        · cases hitems
    · intro h
      cases h with
      | refl => exact Or.inl (Or.inl rfl)
      | object => exact Or.inl (Or.inr rfl)
      | implements _ _ => exact absurd rfl (hclass _)
      | items items => exact Or.inr (beq_iff_eq.mpr items)
      | result _ => exact absurd rfl (hfunction _ _)

mutual

/-- **The rules say what is computed.** -/
theorem Ty.fits_iff : (found expected : Ty) → (found.fits expected = true ↔ found.Fits expected)
  | .classType c, expected => by
    rw [Ty.fits.eq_def]
    simp only [Bool.or_eq_true, beq_iff_eq, ClassType.interfacesFit_iff c expected]
    constructor
    · rintro (((rfl | rfl) | ⟨t, ht, hfits⟩) | hitems)
      · exact .refl _
      · exact .object _
      · exact .implements ht hfits
      · split at hitems
        · exact .items (beq_iff_eq.mp hitems)
        · cases hitems
    · intro h
      cases h with
      | refl => exact Or.inl (Or.inl (Or.inl rfl))
      | object => exact Or.inl (Or.inl (Or.inr rfl))
      | implements implemented fits => exact Or.inl (Or.inr ⟨_, implemented, fits⟩)
      | items items => exact Or.inr (beq_iff_eq.mpr items)
  | .function ps r, expected => by
    rw [Ty.fits.eq_def]
    simp only [Bool.or_eq_true, beq_iff_eq]
    constructor
    · rintro ((rfl | rfl) | hresult)
      · exact .refl _
      · exact .object _
      · split at hresult
        · rw [Bool.and_eq_true, beq_iff_eq, Ty.fits_iff r] at hresult
          obtain ⟨rfl, hfits⟩ := hresult
          exact .result hfits
        · cases hresult
    · intro h
      cases h with
      | refl => exact Or.inl (Or.inl rfl)
      | object => exact Or.inl (Or.inr rfl)
      | items items => cases items
      | result fits =>
        refine Or.inr (Bool.and_eq_true_iff.mpr ⟨beq_self_eq_true _, ?_⟩)
        exact (Ty.fits_iff r _).mpr fits
  | .primitive _, _ => Ty.fits_iff_of_plain (fun _ h => by cases h) fun _ _ h => by cases h
  | .sequence _ _, _ => Ty.fits_iff_of_plain (fun _ h => by cases h) fun _ _ h => by cases h
  | .grouping _ _, _ => Ty.fits_iff_of_plain (fun _ h => by cases h) fun _ _ h => by cases h

theorem ClassType.interfacesFit_iff : (c : ClassType) → (expected : Ty) →
    (c.interfacesFit expected = true ↔ ∃ t ∈ c.interfaces, t.Fits expected)
  | ⟨_, _, _, interfaces⟩, expected => Ty.anyFits_iff interfaces expected

theorem Ty.anyFits_iff : (ts : List Ty) → (expected : Ty) →
    (Ty.anyFits ts expected = true ↔ ∃ t ∈ ts, t.Fits expected)
  | [], expected => by simp [Ty.anyFits]
  | t :: ts, expected => by
    simp [Ty.anyFits, Ty.fits_iff t, Ty.anyFits_iff ts]

end

/-- **What fits can be passed on.** -/
theorem Ty.Fits.trans {a b c : Ty} (h : a.Fits b) (h' : b.Fits c) : a.Fits c := by
  induction h generalizing c with
  | refl => exact h'
  | object t =>
    -- Only `object` takes whatever is an object.
    cases h' with
    | refl => exact .object t
    | object => exact .object t
    | items items => cases items
  | implements implemented _ ih => exact .implements implemented (ih h')
  | items items =>
    cases h' with
    | refl => exact .items items
    | object => exact .object _
    | items items' =>
      cases items'
      exact .items items
  | result fits ih =>
    cases h' with
    | refl => exact .result fits
    | object => exact .object _
    | items items => cases items
    | result fits' => exact .result (ih fits')

theorem Ty.accepts_iff {expected found : Ty} : expected.accepts found ↔ found.Fits expected :=
  Ty.fits_iff found expected

theorem Ty.accepts_self (t : Ty) : t.accepts t := Ty.accepts_iff.mpr (.refl t)

theorem Ty.accepts_trans {a b c : Ty} (h : a.accepts b) (h' : b.accepts c) : a.accepts c :=
  Ty.accepts_iff.mpr ((Ty.accepts_iff.mp h').trans (Ty.accepts_iff.mp h))

/-! ### A partial order -/

/-- A class is larger than each type it implements. -/
theorem ClassType.sizeOf_lt_of_mem_interfaces {c : ClassType} {t : Ty} (h : t ∈ c.interfaces) :
    sizeOf t < sizeOf (Ty.classType c) := by
  obtain ⟨name, typeArguments, members, interfaces⟩ := c
  have hlt : sizeOf t < sizeOf interfaces := List.sizeOf_lt_of_mem h
  simp only [Ty.classType.sizeOf_spec, ClassType.mk.sizeOf_spec]
  omega

/-- Where a class is asked for, nothing smaller fits. -/
theorem Ty.Fits.sizeOf_le {found : Ty} {c : ClassType} (h : found.Fits (.classType c)) :
    sizeOf (Ty.classType c) ≤ sizeOf found := by
  generalize hexpected : Ty.classType c = expected at h
  induction h with
  | refl t => exact Nat.le_refl _
  | object t => cases hexpected
  | implements implemented fits ih =>
    have hlt := ClassType.sizeOf_lt_of_mem_interfaces implemented
    have hle := ih hexpected
    omega
  | items items => cases hexpected
  | result fits ih => cases hexpected

/-- **Types that fit each other are equal.** -/
theorem Ty.Fits.antisymm {a b : Ty} (h : a.Fits b) (h' : b.Fits a) : a = b := by
  induction h with
  | refl => rfl
  | object t =>
    cases h' with
    | refl => rfl
    | object => rfl
    | items items => cases items
  | @implements c t expected implemented fits ih =>
    cases h' with
    | refl => rfl
    | @implements d t' _ implemented' fits' =>
      -- Two classes cannot both be larger than the other.
      have hc := ClassType.sizeOf_lt_of_mem_interfaces implemented
      have hd := ClassType.sizeOf_lt_of_mem_interfaces implemented'
      have hdt := fits.sizeOf_le
      have hct' := fits'.sizeOf_le
      omega
  | items items =>
    cases h' with
    | refl => rfl
    | object => cases items
    | items items' =>
      cases items'
      rfl
  | result fits ih =>
    cases h' with
    | refl => rfl
    | result fits' => rw [ih fits']

/-! ### Types with items -/

theorem Ty.firstElement?_isSome {ts : List Ty} :
    (Ty.firstElement? ts).isSome ↔ ∃ t ∈ ts, t.element?.isSome := by
  induction ts with
  | nil => simp [Ty.firstElement?]
  | cons t ts ih =>
    rw [Ty.firstElement?, Option.isSome_or, Bool.or_eq_true, ih]
    simp only [List.mem_cons, exists_eq_or_imp]

/-- A class has items when a type that it implements has. -/
theorem ClassType.element?_isSome {c : ClassType} :
    c.element?.isSome ↔ ∃ t ∈ c.interfaces, t.element?.isSome := by
  obtain ⟨name, typeArguments, members, interfaces⟩ := c
  exact Ty.firstElement?_isSome

/-- **What has items** fits where an enumerable is asked for, and nothing else does. -/
theorem Ty.element?_isSome_iff {t : Ty} :
    t.element?.isSome ↔ ∃ item, t.Fits (.enumerable item) := by
  constructor
  · intro h
    obtain ⟨item, hitem⟩ := Option.isSome_iff_exists.mp h
    exact ⟨item, .items hitem⟩
  · rintro ⟨item, h⟩
    generalize hexpected : Ty.enumerable item = expected at h
    induction h with
    | refl t =>
      rw [← hexpected]
      rfl
    | object t => cases hexpected
    | implements implemented fits ih =>
      exact ClassType.element?_isSome.mpr ⟨_, implemented, ih hexpected⟩
    | items items => exact Option.isSome_iff_exists.mpr ⟨_, items⟩
    | result fits ih => cases hexpected

/-- **Assignability is a partial order**, and items are inherited along it.  Whatever has items fits
where an enumerable of them is asked for, and what fits where a type with items is asked for has
items. -/
theorem Ty.accepts_partialOrder :
    (∀ a : Ty, a.accepts a) ∧
    (∀ a b c : Ty, a.accepts b → b.accepts c → a.accepts c) ∧
    (∀ a b : Ty, a.accepts b → b.accepts a → a = b) ∧
    (∀ t item : Ty, t.element? = some item → (Ty.enumerable item).accepts t) ∧
    ∀ a b : Ty, a.accepts b → a.element?.isSome → b.element?.isSome := by
  refine ⟨accepts_self, fun _ _ _ => accepts_trans, ?_, ?_, ?_⟩
  · intro a b hab hba
    exact (accepts_iff.mp hba).antisymm (accepts_iff.mp hab)
  · intro t item hitem
    exact accepts_iff.mpr (.items hitem)
  · intro a b hab ha
    obtain ⟨item, hitem⟩ := element?_isSome_iff.mp ha
    exact element?_isSome_iff.mpr ⟨item, (accepts_iff.mp hab).trans hitem⟩

/-- A class that has texts through its first interface, and cooks through its second. -/
def Sample.stock : Ty :=
  .classType (ClassType.ofName "Stock"
    |>.implementing (.classType (ClassType.ofName "Pantry" |>.implementing (.list .string)))
    |>.implementing cookTable)

open Sample in
/-- The items of a stock are those of its first interface, but it can also stand for a table of
cooks, which cannot stand for a stock. -/
theorem Ty.accepts_partialOrder_stock :
    stock.element? = some .string ∧ (Ty.enumerable .string).accepts stock ∧
      cookTable.accepts stock ∧ (Ty.enumerable cook).accepts cookTable ∧
      (Ty.enumerable cook).accepts stock ∧ ¬ stock.accepts cookTable ∧ stock.accepts stock ∧
      stock.element?.isSome := by
  obtain ⟨hrefl, htrans, hantisymm, hitems, hinherits⟩ := accepts_partialOrder
  have hstock : cookTable.accepts stock := rfl
  have hcook : (Ty.enumerable cook).accepts cookTable := hitems cookTable cook rfl
  refine ⟨rfl, hitems stock .string rfl, hstock, hcook, htrans _ _ _ hcook hstock, ?_, hrefl stock,
    hinherits _ _ hstock rfl⟩
  intro h
  have hequal : cookTable = stock := hantisymm _ _ hstock h
  exact absurd hequal (by decide)

end Comprehension
