import Comprehension.Expr.Accessor
import Comprehension.Proofs.Expr.Exactness
import Comprehension.Proofs.Expr.Rewriting
import Mathlib.Data.List.Basic

/-! # The search for a part of an item

The search goes from a node to its entries: the operand of a conversion, the arguments of a
construction by their members, the values assigned after a construction by theirs.  `Expr.search_eq`
says this in one equation for all kinds of nodes.

A search stops early: when it is done, in a loop at any depth, and at a member that cannot be read.
`Expr.waysTo` lists what a search would come to if nothing stopped it.  Any search goes through this
list from the front and stops where it has to (`Expr.search_eq_collect`), so how far a search gets
can be told from the list.

Two readings of the list follow.  `Way` traces one way that was found, from the item to the part.
`Expr.places` lists everything that the search meets, and with it `Expr.Shows` says when it finds a
query source: it meets a reference to it before any member that cannot be read.  So an expression
can be read back from an item exactly when the item shows all its sources
(`reverseResolve_isOk_iff`). -/
namespace Comprehension

/-! ### One step of the search -/

/-- Where the search goes on below a node: into the operand of a conversion, or into a part that
initialises a member. -/
def Expr.entries : Expr → List (Option Member × Expr)
  | .unary op e _ => if op.isConversion then [(none, e)] else []
  | .new _ as (some ms) => (ms.zip as).map fun x => (some x.1, x.2)
  | .memberInit _ _ _ bs => (Binding.assignments bs).map fun x => (some x.1, x.2)
  | _ => []

/-- The way to a part: a conversion to its type, or a read of the member that it initialises. -/
def Expr.enter (accessor : Expr) : Option Member → Expr → Except ModelError Expr
  | none, part => .ok (accessor.convert part.type)
  | some member, _ => accessor.accessMember member

theorem Expr.mem_children_of_entries {e x : Expr} {via : Option Member}
    (h : (via, x) ∈ e.entries) : x ∈ e.children := by
  cases e with
  | unary op y t =>
    rw [Expr.entries] at h
    split at h
    · simp only [List.mem_singleton, Prod.mk.injEq] at h
      simp [Expr.children, h.2]
    · cases h
  | new c as ms =>
    cases ms with
    | none => cases h
    | some ms =>
      obtain ⟨⟨m, a⟩, hma, heq⟩ := List.mem_map.mp h
      cases heq
      exact (List.of_mem_zip hma).2
  | memberInit c as ms bs =>
    obtain ⟨⟨m, a⟩, hma, heq⟩ := List.mem_map.mp h
    cases heq
    have hpart := Binding.mem_partsList.mpr
      ⟨_, Binding.mem_assignments.mp hma, List.mem_singleton.mpr rfl⟩
    exact List.mem_append_right _ hpart
  | _ => cases h

section Step

variable (mode : SearchMode) (searched accessor : Expr)

/-- Searches entries in order, until the search is done. -/
def Expr.searchEntries : List (Option Member × Expr) → (found : List Expr) →
    Except ModelError (List Expr)
  | [], found => .ok found
  | (via, x) :: entries, found => do
    let inner ← accessor.enter via x
    let found ← Expr.search mode searched x inner found
    if mode.isDone found then return found
    Expr.searchEntries entries found

theorem Expr.searchArguments_eq (as : List Expr) (ms : List Member) (found : List Expr) :
    Expr.searchArguments mode searched accessor as ms found =
      Expr.searchEntries mode searched accessor ((ms.zip as).map fun x => (some x.1, x.2))
        found := by
  induction as generalizing ms found with
  | nil => cases ms <;> rfl
  | cons a as ih =>
    cases ms with
    | nil => rfl
    | cons m ms =>
      rw [Expr.searchArguments, List.zip_cons_cons, List.map_cons, Expr.searchEntries]
      simp only [ih, Expr.enter]

theorem Binding.searchAssignments_eq (bs : List Binding) (found : List Expr) :
    Binding.searchAssignments mode searched accessor bs found =
      Expr.searchEntries mode searched accessor
        ((Binding.assignments bs).map fun x => (some x.1, x.2)) found := by
  induction bs generalizing found with
  | nil => rfl
  | cons b bs ih =>
    cases b with
    | assignment m e =>
      have hcons : Binding.assignments (.assignment m e :: bs) =
          (m, e) :: Binding.assignments bs := rfl
      rw [Binding.searchAssignments, hcons, List.map_cons, Expr.searchEntries]
      simp only [ih, Expr.enter]
    | list _ _ => exact ih found
    | nested _ _ => exact ih found

/-- **The search in one equation.**  A match is a way, and otherwise the search goes on below. -/
theorem Expr.search_eq (e : Expr) (found : List Expr) :
    Expr.search mode searched e accessor found =
      if e.equal searched then .ok (found ++ [accessor])
      else Expr.searchEntries mode searched accessor e.entries found := by
  cases e with
  | unary op x t =>
    rw [Expr.search, Expr.entries]
    cases op.isConversion with
    | false => rfl
    | true =>
      -- Behind the operand there is nothing more to search, whether the search is done or not.
      have hlast : Expr.searchEntries mode searched accessor [(none, x)] found =
          Expr.search mode searched x (accessor.convert x.type) found := by
        rw [Expr.searchEntries, Expr.enter]
        show (Expr.search mode searched x (accessor.convert x.type) found >>= _) = _
        cases Expr.search mode searched x (accessor.convert x.type) found with
        | error err => rfl
        | ok found' =>
          show (if mode.isDone found' then Except.ok found' else .ok found') = .ok found'
          rw [ite_self]
      simp only [if_true, hlast]
  | new c as ms =>
    cases ms with
    | none => rfl
    | some ms => rw [Expr.search, Expr.entries, ← Expr.searchArguments_eq]
  | memberInit c as ms bs => rw [Expr.search, Expr.entries, ← Binding.searchAssignments_eq]
  | _ => rfl

end Step

/-! ### How far a search gets -/

/-- What a search would come to if nothing stopped it, in order: a way at each match, and an error
at each member that cannot be read.  It looks below neither. -/
def Expr.waysTo (searched e accessor : Expr) : List (Except ModelError Expr) :=
  if e.equal searched then [.ok accessor]
  else e.entries.attach.flatMap fun entry =>
    match accessor.enter entry.1.1 entry.1.2 with
    | .ok inner => Expr.waysTo searched entry.1.2 inner
    | .error err => [.error err]
termination_by sizeOf e
decreasing_by exact Expr.sizeOf_lt_of_mem_children (Expr.mem_children_of_entries entry.2)

/-- What it would come to in a part. -/
def Expr.waysInto (searched accessor : Expr) (entry : Option Member × Expr) :
    List (Except ModelError Expr) :=
  match accessor.enter entry.1 entry.2 with
  | .ok inner => Expr.waysTo searched entry.2 inner
  | .error err => [.error err]

theorem Expr.waysTo_eq (searched e accessor : Expr) :
    Expr.waysTo searched e accessor =
      if e.equal searched then [.ok accessor]
      else e.entries.flatMap (Expr.waysInto searched accessor) := by
  rw [Expr.waysTo, List.flatMap_subtype (g := Expr.waysInto searched accessor) fun _ _ => rfl,
    List.unattach_attach]

namespace SearchMode

variable {mode : SearchMode}

/-- Goes through finds from the front: keeps the ways, stops where the search is done, and fails at
an error. -/
def collect (mode : SearchMode) : List (Except ModelError Expr) → (found : List Expr) →
    Except ModelError (List Expr)
  | [], found => .ok found
  | .error err :: _, _ => .error err
  | .ok way :: finds, found =>
    if mode.isDone (found ++ [way]) then .ok (found ++ [way])
    else mode.collect finds (found ++ [way])

/-- Finds in two parts: the second is looked at when the first leaves something to do. -/
theorem collect_append (first second : List (Except ModelError Expr)) {found : List Expr}
    (hgoing : mode.isDone found = false) :
    mode.collect (first ++ second) found = (mode.collect first found >>= fun found =>
      if mode.isDone found then .ok found else mode.collect second found) := by
  induction first generalizing found with
  | nil =>
    show _ = if mode.isDone found then Except.ok found else mode.collect second found
    rw [hgoing]
    rfl
  | cons find first ih =>
    cases find with
    | error err => rfl
    | ok way =>
      rw [List.cons_append, collect, collect]
      cases hdone : mode.isDone (found ++ [way]) with
      | true =>
        show _ = if mode.isDone (found ++ [way]) then Except.ok (found ++ [way]) else _
        rw [hdone]
        rfl
      | false => exact ih hdone

/-- The first find decides where one way is enough. -/
theorem collect_firstMatch (finds : List (Except ModelError Expr)) :
    firstMatch.collect finds [] =
      finds.head?.elim (.ok []) fun find => find.map fun way => [way] := by
  rcases finds with _ | ⟨err | way, finds⟩ <;> rfl

/-- Where all ways are wanted, they are all kept, or the first error is met. -/
theorem collect_allMatches (finds : List (Except ModelError Expr)) (found : List Expr) :
    (∃ ways : List Expr, finds = ways.map .ok ∧
        allMatches.collect finds found = .ok (found ++ ways)) ∨
      ∃ err, .error err ∈ finds ∧ allMatches.collect finds found = .error err := by
  induction finds generalizing found with
  | nil => exact Or.inl ⟨[], rfl, by rw [List.append_nil]; rfl⟩
  | cons find finds ih =>
    cases find with
    | error err => exact Or.inr ⟨err, List.mem_cons_self .., rfl⟩
    | ok way =>
      have hstep : allMatches.collect (.ok way :: finds) found =
          allMatches.collect finds (found ++ [way]) := rfl
      rcases ih (found ++ [way]) with ⟨ways, rfl, hways⟩ | ⟨err, hmem, herr⟩
      · exact Or.inl ⟨way :: ways, rfl, by rw [hstep, hways, List.append_assoc]; rfl⟩
      · exact Or.inr ⟨err, List.mem_cons_of_mem _ hmem, by rw [hstep, herr]⟩

end SearchMode

section Refinement

variable {mode : SearchMode} (searched : Expr)

/-- Where the searches of the entries go through their finds, the loop goes through all of them. -/
theorem Expr.searchEntries_eq_collect {entries : List (Option Member × Expr)} {accessor : Expr}
    (h : ∀ entry ∈ entries, ∀ inner found, mode.isDone found = false →
      Expr.search mode searched entry.2 inner found =
        mode.collect (Expr.waysTo searched entry.2 inner) found)
    {found : List Expr} (hgoing : mode.isDone found = false) :
    Expr.searchEntries mode searched accessor entries found =
      mode.collect (entries.flatMap (Expr.waysInto searched accessor)) found := by
  induction entries generalizing found with
  | nil => rfl
  | cons entry entries ih =>
    obtain ⟨via, x⟩ := entry
    rw [List.forall_mem_cons] at h
    rw [Expr.searchEntries, List.flatMap_cons, SearchMode.collect_append _ _ hgoing,
      Expr.waysInto]
    cases accessor.enter via x with
    | error err => rfl
    | ok inner =>
      have hx := h.1 inner found hgoing
      show (Expr.search mode searched x inner found >>= _) = _
      rw [hx]
      -- The rest is searched from what the entry leaves, if that leaves something to do.
      cases mode.collect (Expr.waysTo searched x inner) found with
      | error err => rfl
      | ok found' =>
        show (if mode.isDone found' then Except.ok found' else _) =
          if mode.isDone found' then Except.ok found' else _
        cases hdone : mode.isDone found' with
        | true => rfl
        | false => exact ih h.2 hdone

/-- **A search goes through its finds from the front**, as far as it has to. -/
theorem Expr.search_eq_collect (e accessor : Expr) {found : List Expr}
    (hgoing : mode.isDone found = false) :
    Expr.search mode searched e accessor found =
      mode.collect (Expr.waysTo searched e accessor) found := by
  induction e using Expr.induction_on_children generalizing accessor found with
  | node e ih =>
    rw [Expr.search_eq, Expr.waysTo_eq]
    by_cases hequal : e.equal searched
    · rw [if_pos hequal, if_pos hequal, SearchMode.collect, SearchMode.collect, ite_self]
    · rw [if_neg hequal, if_neg hequal]
      refine Expr.searchEntries_eq_collect searched (fun entry hentry => ?_) hgoing
      exact fun inner found => ih entry.2 (Expr.mem_children_of_entries hentry) inner

end Refinement

/-! ### Ways that were found -/

/-- `Way e accessor part w`: when `accessor` reads `e`, then `w` reads the part of `e`. -/
inductive Way : Expr → Expr → Expr → Expr → Prop
  | here (e accessor : Expr) : Way e accessor e accessor
  | into {e x accessor inner part w : Expr} {via : Option Member} (entry : (via, x) ∈ e.entries)
      (enters : accessor.enter via x = .ok inner) (rest : Way x inner part w) :
    Way e accessor part w

/-- What the search finds are ways to parts that equal what was searched. -/
theorem Expr.way_of_mem_waysTo {searched e accessor w : Expr}
    (h : .ok w ∈ Expr.waysTo searched e accessor) :
    ∃ part, part.equal searched ∧ Way e accessor part w := by
  induction e using Expr.induction_on_children generalizing accessor with
  | node e ih =>
    rw [Expr.waysTo_eq] at h
    by_cases hequal : e.equal searched
    · rw [if_pos hequal, List.mem_singleton] at h
      cases h
      exact ⟨e, hequal, .here e _⟩
    · rw [if_neg hequal] at h
      obtain ⟨⟨via, x⟩, hentry, hw⟩ := List.mem_flatMap.mp h
      rw [Expr.waysInto] at hw
      cases henter : accessor.enter via x with
      | error err => simp [henter] at hw
      | ok inner =>
        simp only [henter] at hw
        obtain ⟨part, hpart, hway⟩ := ih x (Expr.mem_children_of_entries hentry) hw
        exact ⟨part, hpart, .into hentry henter hway⟩

/-! ### What the search meets -/

/-- Something that the search meets: a place that it can look at, or a member that cannot be
read. -/
inductive Place where
  | open (e : Expr)
  | closed (member : Member)

/-- Whether a member can be read from a value of the type.  A class has to declare it. -/
def Ty.canRead (type : Ty) (member : Member) : Bool :=
  match type with
  | .classType c => (c.member? member.name).isSome
  | _ => true

mutual

/-- All that a search through an expression meets, in order, when the expression is read with a
type. -/
def Expr.places : Expr → (read : Ty) → List Place
  | .unary op e t, _ => .open (.unary op e t) :: if op.isConversion then e.places e.type else []
  | .new c as ms, read =>
    .open (.new c as ms) :: match ms with
      | some ms => Expr.placesOfArguments read as ms
      | none => []
  | .memberInit c as ms bs, read =>
    .open (.memberInit c as ms bs) :: Binding.placesOfList read bs
  | e, _ => [.open e]
termination_by structural e => e

def Expr.placesOfArguments (read : Ty) : List Expr → List Member → List Place
  | a :: as, m :: ms =>
    (if read.canRead m then a.places m.type else [.closed m]) ++
      Expr.placesOfArguments read as ms
  | _, _ => []
termination_by structural as => as

def Binding.placesOfList (read : Ty) : List Binding → List Place
  | [] => []
  | b :: bs => b.places read ++ Binding.placesOfList read bs
termination_by structural bs => bs

def Binding.places (read : Ty) : Binding → List Place
  | .assignment m e => if read.canRead m then e.places m.type else [.closed m]
  | .list .. => []
  | .nested .. => []
termination_by structural b => b

end

/-- What the search meets in a part. -/
def Expr.placesInto (read : Ty) : Option Member × Expr → List Place
  | (none, part) => part.places part.type
  | (some member, part) => if read.canRead member then part.places member.type else [.closed member]

theorem Expr.placesOfArguments_eq (read : Ty) : (as : List Expr) → (ms : List Member) →
    Expr.placesOfArguments read as ms =
      ((ms.zip as).map fun x => (some x.1, x.2)).flatMap (Expr.placesInto read)
  | [], ms => by cases ms <;> rfl
  | a :: as, [] => rfl
  | a :: as, m :: ms => by
    rw [Expr.placesOfArguments, Expr.placesOfArguments_eq read as ms, List.zip_cons_cons,
      List.map_cons, List.flatMap_cons]
    rfl

theorem Binding.placesOfList_eq (read : Ty) (bs : List Binding) :
    Binding.placesOfList read bs =
      ((Binding.assignments bs).map fun x => (some x.1, x.2)).flatMap (Expr.placesInto read) := by
  induction bs with
  | nil => rfl
  | cons b bs ih =>
    rw [Binding.placesOfList, ih]
    cases b <;> rfl

theorem Expr.places_eq (e : Expr) (read : Ty) :
    e.places read = .open e :: e.entries.flatMap (Expr.placesInto read) := by
  cases e with
  | unary op x t =>
    rw [Expr.places, Expr.entries]
    cases op.isConversion <;> simp [Expr.placesInto]
  | new c as ms =>
    cases ms with
    | none => rfl
    | some ms => rw [Expr.places, Expr.entries, ← Expr.placesOfArguments_eq]
  | memberInit c as ms bs => rw [Expr.places, Expr.entries, ← Binding.placesOfList_eq]
  | _ => rfl

/-- What a place says about a source: that it is there, that a member cannot be read, or nothing. -/
def Place.found? (s : Source) : Place → Option Bool
  | .open e => if e.equal (.reference s) then some true else none
  | .closed _ => some false

/-- **An item shows a source** when the search meets a reference to it before any member that cannot
be read. -/
def Expr.Shows (item : Expr) (s : Source) : Prop :=
  ∃ before e after, item.places item.type = before ++ .open e :: after ∧ e.equal (.reference s) ∧
    ∀ member, .closed member ∉ before

theorem Expr.accessMember_eq (target : Expr) (member : Member) :
    (∃ err, target.accessMember member = .error err ∧ target.type.canRead member = false) ∨
      ∃ inner, target.accessMember member = .ok inner ∧ target.type.canRead member ∧
        inner.type = member.type := by
  have htype : member.asProperty.type = member.type := by
    rw [Member.asProperty]
    split <;> rfl
  rw [Expr.accessMember.eq_def]
  cases target.type with
  | classType c =>
    by_cases h : (c.member? member.name).isSome
    · exact Or.inr ⟨.memberAccess target member.asProperty, by simp [h], h, htype⟩
    · exact Or.inl ⟨.memberNotFound member.name c.text, by simp [h], by simpa [Ty.canRead] using h⟩
  | _ => exact Or.inr ⟨.memberAccess target member.asProperty, rfl, rfl, htype⟩

theorem Expr.eq_of_accessMember {target inner : Expr} {member : Member}
    (h : target.accessMember member = .ok inner) :
    inner = .memberAccess target member.asProperty := by
  rw [Expr.accessMember.eq_def] at h
  split at h
  · split at h
    · exact (Except.ok.inj h).symm
    · cases h
  · exact (Except.ok.inj h).symm

/-- **The search for a source goes through the places in order.**  It finds a way at each reference
to the source and an error at each member that cannot be read. -/
theorem Expr.waysTo_reference (s : Source) (e accessor : Expr) :
    (Expr.waysTo (.reference s) e accessor).map Except.isOk =
      (e.places accessor.type).filterMap (Place.found? s) := by
  induction e using Expr.induction_on_children generalizing accessor with
  | node e ih =>
    rw [Expr.waysTo_eq, Expr.places_eq, List.filterMap_cons, Place.found?]
    -- Below the node, each part is searched with the accessor of its own.
    have hbelow : (e.entries.flatMap (Expr.waysInto (.reference s) accessor)).map Except.isOk =
        (e.entries.flatMap (Expr.placesInto accessor.type)).filterMap (Place.found? s) := by
      rw [List.map_flatMap, List.filterMap_flatMap]
      refine List.flatMap_congr fun ⟨via, x⟩ hentry => ?_
      have hx := ih x (Expr.mem_children_of_entries hentry)
      cases via with
      | none => exact hx (accessor.convert x.type)
      | some member =>
        rw [Expr.waysInto, Expr.placesInto]
        rcases accessor.accessMember_eq member with ⟨err, herr, hread⟩ | ⟨inner, hin, hread, htype⟩
        · simp [Expr.enter, herr, hread, Place.found?, Except.isOk, Except.toBool]
        · rw [Expr.enter, hin, if_pos hread, ← htype]
          exact hx inner
    by_cases hequal : e.equal (.reference s)
    · have hnone : e.entries = [] := by
        cases e with
        | reference _ => rfl
        | _ => simp [Expr.equal] at hequal
      simp [hequal, hnone, Except.isOk, Except.toBool]
    · simp [hequal, hbelow]

theorem head?_filterMap_found? (s : Source) (places : List Place) :
    (places.filterMap (Place.found? s)).head? = some true ↔
      ∃ before e after, places = before ++ .open e :: after ∧ e.equal (.reference s) ∧
        ∀ member, .closed member ∉ before := by
  induction places with
  | nil => simp
  | cons place places ih =>
    cases place with
    | closed m =>
      refine iff_of_false (by simp [Place.found?]) ?_
      rintro ⟨before, e, after, hsplit, -, hclosed⟩
      cases before with
      | nil => cases hsplit
      | cons p before =>
        cases hsplit
        exact hclosed m (List.mem_cons_self ..)
    | «open» e =>
      by_cases hequal : e.equal (.reference s)
      · refine iff_of_true (by simp [Place.found?, hequal]) ?_
        exact ⟨[], e, places, rfl, hequal, fun _ h => nomatch h⟩
      · rw [List.filterMap_cons, Place.found?, if_neg hequal]
        refine ih.trans ⟨?_, ?_⟩
        · rintro ⟨before, e', after, rfl, he', hclosed⟩
          exact ⟨.open e :: before, e', after, rfl, he', by simpa using hclosed⟩
        · rintro ⟨before, e', after, hsplit, he', hclosed⟩
          cases before with
          | nil =>
            cases hsplit
            exact absurd he' hequal
          | cons p before =>
            cases hsplit
            exact ⟨before, e', after, rfl, he', fun m hm => hclosed m (List.mem_cons_of_mem _ hm)⟩

instance (item : Expr) (s : Source) : Decidable (item.Shows s) :=
  decidable_of_iff _ (head?_filterMap_found? s (item.places item.type))

/-- The search for a source succeeds when its first find is a way. -/
theorem Expr.shows_iff {item : Expr} {s : Source} {input : Parameter}
    (hinput : input.type = item.type) :
    item.Shows s ↔ ∃ w rest, Expr.waysTo (.reference s) item input.toExpr = .ok w :: rest := by
  have hplaces := Expr.waysTo_reference s item input.toExpr
  rw [show input.toExpr.type = item.type from hinput] at hplaces
  rw [Expr.Shows, ← head?_filterMap_found?, ← hplaces]
  cases Expr.waysTo (.reference s) item input.toExpr with
  | nil => simp
  | cons first rest => cases first <;> simp [Except.isOk, Except.toBool]

/-! ### Reading back -/

section ReadBack

variable {item : Expr} {input : Parameter}

/-- The first search is decided by the first find. -/
theorem findAccessor_eq (searched full : Expr) :
    findAccessor searched full input =
      (Expr.waysTo searched full input.toExpr).head?.elim
        (.error (.accessorNotFound full.text searched.text))
        fun find => find.map fun way => ⟨[input], way⟩ := by
  rw [findAccessor, Expr.search_eq_collect searched full input.toExpr rfl,
    SearchMode.collect_firstMatch]
  rcases Expr.waysTo searched full input.toExpr with _ | ⟨err | way, finds⟩ <;> rfl

theorem findAccessor_eq_ok {searched full : Expr} {l : Lambda} :
    findAccessor searched full input = .ok l ↔
      ∃ w rest, Expr.waysTo searched full input.toExpr = .ok w :: rest ∧ l = ⟨[input], w⟩ := by
  rw [findAccessor_eq]
  rcases Expr.waysTo searched full input.toExpr with _ | ⟨first | w, rest⟩ <;>
    simp [Except.map, eq_comm]

/-- A reference is replaced by the first way to it. -/
theorem readBack?_reference {s : Source} {r : Option Expr} :
    readBack? item input (.reference s) = .ok r ↔
      ∃ w rest, Expr.waysTo (.reference s) item input.toExpr = .ok w :: rest ∧ r = some w := by
  rw [readBack?, bind_eq_ok]
  constructor
  · rintro ⟨l, hl, hr⟩
    obtain ⟨w, rest, hways, rfl⟩ := findAccessor_eq_ok.mp hl
    cases hr
    exact ⟨w, rest, hways, rfl⟩
  · rintro ⟨w, rest, hways, rfl⟩
    exact ⟨_, findAccessor_eq_ok.mpr ⟨w, rest, hways, rfl⟩, rfl⟩

theorem readBack?_other {e : Expr} (h : ∀ s, e ≠ .reference s) :
    readBack? item input e = .ok none := by
  cases e with
  | reference s => exact absurd rfl (h s)
  | _ => rfl

/-- Reading back a node that is no reference reads back its parts. -/
theorem rewriteM_readBack?_other {e e' : Expr} (h : ∀ s, e ≠ .reference s) :
    e.rewriteM (readBack? item input) pure = .ok e' ↔
      (∀ c ∈ e.children, c.Rewritable (readBack? item input) pure) ∧
        e' = e.mapChildren (Expr.rewritten (readBack? item input) pure) := by
  rw [Expr.rewriteM_eq_ok, readBack?_other h]
  simp [pure, Except.pure, eq_comm]

theorem rewriteM_readBack?_reference {s : Source} {e' : Expr} :
    (Expr.reference s).rewriteM (readBack? item input) pure = .ok e' ↔
      ∃ rest, Expr.waysTo (.reference s) item input.toExpr = .ok e' :: rest := by
  rw [Expr.rewriteM_eq_ok, readBack?_reference, readBack?_reference]
  simp

theorem reverseResolve_eq_ok {resolved : Expr} {l : Lambda} :
    reverseResolve item resolved = .ok l ↔
      resolved.rewriteM (readBack? item ⟨"input", item.type⟩) pure = .ok l.body ∧
        l.parameters = [⟨"input", item.type⟩] := by
  obtain ⟨parameters, body⟩ := l
  rw [reverseResolve, bind_eq_ok]
  constructor
  · rintro ⟨b, hb, h⟩
    cases h
    exact ⟨hb, rfl⟩
  · rintro ⟨hb, rfl⟩
    exact ⟨body, hb, rfl⟩

/-- **An expression can be read back from an item exactly when the item shows every source that it
refers to.** -/
theorem reverseResolve_isOk_iff {resolved : Expr} :
    (∃ l, reverseResolve item resolved = .ok l) ↔ ∀ s ∈ resolved.references, item.Shows s := by
  have hrewritable : (∃ l, reverseResolve item resolved = .ok l) ↔
      resolved.Rewritable (readBack? item ⟨"input", item.type⟩) pure := by
    simp only [reverseResolve_eq_ok]
    constructor
    · rintro ⟨l, h, -⟩
      exact ⟨_, h⟩
    · rintro ⟨b, h⟩
      exact ⟨⟨_, b⟩, h, rfl⟩
  rw [hrewritable]
  clear hrewritable
  induction resolved using Expr.induction_on_children with
  | node e ih =>
    by_cases href : ∃ s, e = .reference s
    · obtain ⟨s, rfl⟩ := href
      simp only [Expr.Rewritable, rewriteM_readBack?_reference, Expr.mem_references_reference,
        forall_eq]
      exact (Expr.shows_iff rfl).symm
    · have hother : ∀ s, e ≠ .reference s := fun s hs => href ⟨s, hs⟩
      simp only [Expr.Rewritable, rewriteM_readBack?_other hother]
      constructor
      · rintro ⟨_, hparts, -⟩ s hs
        obtain heq | ⟨c, hc, hcs⟩ := Expr.mem_references_iff.mp hs
        · exact absurd heq (hother s)
        · exact (ih c hc).mp (hparts c hc) s hcs
      · intro hshows
        refine ⟨_, fun c hc => (ih c hc).mpr fun s hs => ?_, rfl⟩
        exact hshows s (Expr.mem_references_iff.mpr (Or.inr ⟨c, hc, hs⟩))

end ReadBack

end Comprehension
