import Comprehension.Proofs.Expr.Reversal
import Mathlib.Data.List.Lex

/-! # The order of the search

The search for a part of an item goes from a node into its entries.  A position says, node by node,
which entry to take (`Expr.At`), so positions are lists of numbers.  Compared like words they are in
the order in which a walk comes to them: a node before everything below it, and an entry with all
that is below it before the next entry.

`Expr.Meets` tells what the search comes to at a position: a match, or a member that cannot be read.
`Expr.waysTo` lists exactly this, in the order of positions (`Expr.waysTo_listed`).  So the first
search ends at the first position where it cannot simply go on (`findAccessor_cases`), which settles
two things:

* where all members can be read, the first match is found, along the path to it and with its type;
* elsewhere a match is found if no unreadable member comes before it, and an unreadable member hides
  all matches behind it. -/
namespace Comprehension

/-! ### Positions -/

/-- `e.At position route part`: the part of `e` at a position.  The position has the number of the
entry that is taken at each node on the way down, and the route has these entries. -/
inductive Expr.At : Expr → List Nat → List (Option Member × Expr) → Expr → Prop
  | here (e : Expr) : At e [] [] e
  | into {e x part : Expr} {i : Nat} {via : Option Member} {position : List Nat}
      {route : List (Option Member × Expr)} (entry : e.entries[i]? = some (via, x))
      (rest : At x position route part) : At e (i :: position) ((via, x) :: route) part

/-- Reads along a route, as far as its members can be read. -/
def Expr.follow (accessor : Expr) : List (Option Member × Expr) → Except ModelError Expr
  | [] => .ok accessor
  | (via, x) :: route =>
    match accessor.enter via x with
    | .ok inner => inner.follow route
    | .error err => .error err

/-- The way along a route: each member is read in its property form, and each conversion is undone
by a conversion to the type of its operand. -/
def Expr.along (accessor : Expr) : List (Option Member × Expr) → Expr
  | [] => accessor
  | (some member, _) :: route => (Expr.memberAccess accessor member.asProperty).along route
  | (none, operand) :: route => (Expr.unary .convert accessor operand.type).along route

/-- There is one route to a position. -/
theorem Expr.At.unique {e part part' : Expr} {position : List Nat}
    {route route' : List (Option Member × Expr)} (h : e.At position route part)
    (h' : e.At position route' part') : route = route' ∧ part = part' := by
  induction h generalizing route' with
  | here e =>
    cases h'
    exact ⟨rfl, rfl⟩
  | into entry _ ih =>
    cases h' with
    | into entry' rest' =>
      cases entry.symm.trans entry'
      obtain ⟨rfl, rfl⟩ := ih rest'
      exact ⟨rfl, rfl⟩

/-! ### What the search meets -/

/-- What the search comes to at a position: a match, with the way to it, or a member that cannot be
read.  It looks below neither. -/
inductive Expr.Meets (searched : Expr) :
    Expr → Expr → List Nat → Except ModelError Expr → Prop
  | found {e accessor : Expr} (equal : e.equal searched) :
    Meets searched e accessor [] (.ok accessor)
  | unreadable {e accessor x : Expr} {i : Nat} {via : Option Member} {err : ModelError}
      (other : ¬ e.equal searched) (entry : e.entries[i]? = some (via, x))
      (refused : accessor.enter via x = .error err) : Meets searched e accessor [i] (.error err)
  | deeper {e accessor x inner : Expr} {i : Nat} {via : Option Member} {position : List Nat}
      {find : Except ModelError Expr} (other : ¬ e.equal searched)
      (entry : e.entries[i]? = some (via, x)) (enters : accessor.enter via x = .ok inner)
      (rest : Meets searched x inner position find) : Meets searched e accessor (i :: position) find

/-- `Listed finds results P`: the finds have these results, they are in the order of their
positions, and they are all that `P` tells of. -/
structure Listed (finds : List (List Nat × Except ModelError Expr))
    (results : List (Except ModelError Expr)) (P : List Nat → Except ModelError Expr → Prop) :
    Prop where
  results_eq : finds.map Prod.snd = results
  ordered : finds.Pairwise fun a b => a.1 < b.1
  mem_iff : ∀ position find, (position, find) ∈ finds ↔ P position find

theorem Listed.singleton (find : Except ModelError Expr) :
    Listed [([], find)] [find] fun position r => position = [] ∧ r = find := by
  refine ⟨rfl, List.pairwise_singleton .., fun position r => ?_⟩
  rw [List.mem_singleton, Prod.mk.injEq]

theorem Listed.congr {finds : List (List Nat × Except ModelError Expr)}
    {results : List (Except ModelError Expr)} {P Q : List Nat → Except ModelError Expr → Prop}
    (h : Listed finds results P) (hPQ : ∀ position find, P position find ↔ Q position find) :
    Listed finds results Q :=
  ⟨h.results_eq, h.ordered,
    fun position find => (h.mem_iff position find).trans (hPQ position find)⟩

/-- The numbers of a list grow. -/
theorem pairwise_lt_zipIdx {α : Type} (entries : List α) :
    entries.zipIdx.Pairwise fun a b => a.2 < b.2 := by
  apply List.pairwise_map.mp
  rw [List.zipIdx_map_snd]
  exact List.pairwise_lt_range'

/-- Lists for the entries of a node, one after the other, make a list for the node, when the
position of each find is put behind the number of its entry. -/
theorem Listed.numbered {α : Type} {entries : List α}
    {finds : Nat → List (List Nat × Except ModelError Expr)}
    {results : α → List (Except ModelError Expr)} {P : List Nat → Except ModelError Expr → Prop}
    (hentry : ∀ i entry, entries[i]? = some entry →
      Listed (finds i) (results entry) fun position => P (i :: position))
    (hP : ∀ position find, P position find →
      ∃ i below entry, position = i :: below ∧ entries[i]? = some entry) :
    Listed (entries.zipIdx.flatMap fun entry =>
      (finds entry.2).map fun find => (entry.2 :: find.1, find.2)) (entries.flatMap results) P := by
  have hnumbered : ∀ entry ∈ entries.zipIdx,
      Listed (finds entry.2) (results entry.1) fun position => P (entry.2 :: position) :=
    fun entry h => hentry entry.2 entry.1 (List.mem_zipIdx_iff_getElem?.mp h)
  constructor
  · rw [List.map_flatMap]
    conv_rhs => rw [← List.zipIdx_map_fst 0 entries, List.flatMap_map]
    refine List.flatMap_congr fun entry h => ?_
    rw [List.map_map]
    exact (hnumbered entry h).results_eq
  · rw [List.pairwise_flatMap]
    constructor
    · intro entry h
      rw [List.pairwise_map]
      exact (hnumbered entry h).ordered.imp fun hlt => .cons hlt
    · refine (pairwise_lt_zipIdx entries).imp fun hlt a ha b hb => ?_
      obtain ⟨a, -, rfl⟩ := List.mem_map.mp ha
      obtain ⟨b, -, rfl⟩ := List.mem_map.mp hb
      exact .rel hlt
  · intro position find
    rw [List.mem_flatMap]
    constructor
    · rintro ⟨entry, h, hfind⟩
      obtain ⟨⟨below, r⟩, hbelow, heq⟩ := List.mem_map.mp hfind
      cases heq
      exact ((hnumbered entry h).mem_iff below r).mp hbelow
    · intro h
      obtain ⟨i, below, entry, rfl, hi⟩ := hP position find h
      refine ⟨(entry, i), List.mem_zipIdx_iff_getElem?.mpr hi, List.mem_map.mpr ⟨(below, find), ?_⟩⟩
      exact ⟨((hentry i entry hi).mem_iff below find).mpr h, rfl⟩

section Search

variable {searched : Expr}

/-- What the search meets below a node is what it meets in the entries of the node. -/
theorem Expr.meets_cons_iff {e x : Expr} {i : Nat} {via : Option Member}
    (other : ¬ e.equal searched) (entry : e.entries[i]? = some (via, x)) (accessor : Expr)
    (position : List Nat) (find : Except ModelError Expr) :
    Expr.Meets searched e accessor (i :: position) find ↔
      match accessor.enter via x with
      | .ok inner => Expr.Meets searched x inner position find
      | .error err => position = [] ∧ find = .error err := by
  constructor
  · intro h
    cases h with
    | unreadable _ entry' refused =>
      cases entry.symm.trans entry'
      rw [refused]
      exact ⟨rfl, rfl⟩
    | deeper _ entry' enters rest =>
      cases entry.symm.trans entry'
      rw [enters]
      exact rest
  · intro h
    cases henter : accessor.enter via x with
    | ok inner =>
      rw [henter] at h
      exact .deeper other entry henter h
    | error err =>
      rw [henter] at h
      obtain ⟨rfl, rfl⟩ := h
      exact .unreadable other entry henter

/-- Where the search lists what it meets in the children of a node, each entry of the node has a
list of its own, with the positions below the entry. -/
theorem Expr.waysInto_listed {e : Expr} (other : ¬ e.equal searched) (accessor : Expr)
    (h : ∀ x ∈ e.children, ∀ inner,
      ∃ finds, Listed finds (Expr.waysTo searched x inner) (Expr.Meets searched x inner))
    (i : Nat) :
    ∃ finds, ∀ entry, e.entries[i]? = some entry →
      Listed finds (Expr.waysInto searched accessor entry)
        fun position => Expr.Meets searched e accessor (i :: position) := by
  cases hi : e.entries[i]? with
  | none => exact ⟨[], fun _ h => by cases h⟩
  | some entry =>
    obtain ⟨via, x⟩ := entry
    have hmeets := fun position find =>
      (Expr.meets_cons_iff other hi accessor position find).symm
    simp only [Option.some.injEq, forall_eq', Expr.waysInto]
    cases henter : accessor.enter via x with
    | ok inner =>
      rw [henter] at hmeets
      obtain ⟨finds, hfinds⟩ := h x (Expr.mem_children_of_entries (List.mem_of_getElem? hi)) inner
      exact ⟨finds, hfinds.congr hmeets⟩
    | error err =>
      rw [henter] at hmeets
      exact ⟨_, (Listed.singleton _).congr hmeets⟩

/-- **The search lists what it meets, in the order of positions.** -/
theorem Expr.waysTo_listed (searched e accessor : Expr) :
    ∃ finds, Listed finds (Expr.waysTo searched e accessor) (Expr.Meets searched e accessor) := by
  induction e using Expr.induction_on_children generalizing accessor with
  | node e ih =>
    rw [Expr.waysTo_eq]
    by_cases hequal : e.equal searched
    · rw [if_pos hequal]
      refine ⟨_, (Listed.singleton _).congr fun position find => ?_⟩
      constructor
      · rintro ⟨rfl, rfl⟩
        exact .found hequal
      · intro h
        cases h with
        | found _ => exact ⟨rfl, rfl⟩
        | unreadable other _ _ => exact absurd hequal other
        | deeper other _ _ _ => exact absurd hequal other
    · rw [if_neg hequal]
      choose finds hfinds using Expr.waysInto_listed hequal accessor ih
      refine ⟨_, Listed.numbered hfinds fun position find h => ?_⟩
      cases h with
      | found equal => exact absurd equal hequal
      | unreadable _ entry _ => exact ⟨_, _, _, rfl, entry⟩
      | deeper _ entry _ _ => exact ⟨_, _, _, rfl, entry⟩

/-- What the search meets at a position is a match, or the error of reading along the route to
it. -/
theorem Expr.Meets.exists_at {e accessor : Expr} {position : List Nat}
    {find : Except ModelError Expr} (h : Expr.Meets searched e accessor position find) :
    ∃ route part, e.At position route part ∧ accessor.follow route = find ∧
      (find.isOk → part.equal searched) := by
  induction h with
  | @found e accessor equal => exact ⟨[], e, .here e, rfl, fun _ => equal⟩
  | @unreadable e accessor x i via err _ entry refused =>
    refine ⟨[(via, x)], x, .into entry (.here x), ?_, fun h => by cases h⟩
    rw [Expr.follow, refused]
  | @deeper e accessor x inner i via position find _ entry enters _ ih =>
    obtain ⟨route, part, hat, hfollow, hequal⟩ := ih
    refine ⟨(via, x) :: route, part, .into entry hat, ?_, hequal⟩
    rw [Expr.follow, enters]
    exact hfollow

/-- The search goes past a position: there is another expression there, and it can be read. -/
def Expr.Passed (searched e accessor : Expr) (position : List Nat) : Prop :=
  ∀ route part, e.At position route part →
    part.equal searched = false ∧ ∃ way, accessor.follow route = .ok way

/-- Where the search does not go past a position, it has met something there or before. -/
theorem Expr.exists_meets {e accessor part : Expr} {position : List Nat}
    {route : List (Option Member × Expr)} (hat : e.At position route part)
    (h : part.equal searched ∨ ∃ err, accessor.follow route = .error err) :
    ∃ before find, before ≤ position ∧ Expr.Meets searched e accessor before find := by
  induction hat generalizing accessor with
  | here e =>
    refine ⟨[], _, le_refl _, .found (h.resolve_right ?_)⟩
    rintro ⟨err, herr⟩
    cases herr
  | @into e x part i via position route entry _ ih =>
    by_cases hequal : e.equal searched
    · exact ⟨[], _, le_of_lt .nil, .found hequal⟩
    · cases henter : accessor.enter via x with
      | error err =>
        refine ⟨[i], _, List.cons_le_cons i ?_, .unreadable hequal entry henter⟩
        rcases position with _ | ⟨j, position⟩
        · exact le_refl _
        · exact le_of_lt .nil
      | ok inner =>
        simp only [Expr.follow, henter] at h
        obtain ⟨before, find, hle, hmeets⟩ := ih h
        exact ⟨i :: before, find, List.cons_le_cons i hle, .deeper hequal entry henter hmeets⟩

theorem Expr.passed_of_not_meets {e accessor : Expr} {position : List Nat}
    (h : ∀ before find, before ≤ position → ¬ Expr.Meets searched e accessor before find) :
    Expr.Passed searched e accessor position := by
  intro route part hat
  have hnone : ¬ (part.equal searched ∨ ∃ err, accessor.follow route = .error err) := by
    intro hmet
    obtain ⟨before, find, hle, hmeets⟩ := Expr.exists_meets hat hmet
    exact h before find hle hmeets
  rw [not_or] at hnone
  refine ⟨eq_false_of_ne_true hnone.1, ?_⟩
  cases hfollow : accessor.follow route with
  | ok way => exact ⟨way, rfl⟩
  | error err => exact absurd ⟨err, hfollow⟩ hnone.2

/-- A search that finds nothing goes past every position. -/
theorem Expr.passed_of_waysTo_nil {e accessor : Expr} (h : Expr.waysTo searched e accessor = [])
    (position : List Nat) : Expr.Passed searched e accessor position := by
  obtain ⟨finds, hfinds⟩ := Expr.waysTo_listed searched e accessor
  have hnil : finds = [] := List.map_eq_nil_iff.mp (hfinds.results_eq.trans h)
  refine Expr.passed_of_not_meets fun before find _ hmeets => ?_
  have hmem := (hfinds.mem_iff before find).mpr hmeets
  rw [hnil] at hmem
  cases hmem

/-- **The first find.**  The search goes past every position before it. -/
theorem Expr.exists_first_find {e accessor : Expr} {find : Except ModelError Expr}
    {rest : List (Except ModelError Expr)}
    (h : Expr.waysTo searched e accessor = find :: rest) :
    ∃ position, Expr.Meets searched e accessor position find ∧
      ∀ before < position, Expr.Passed searched e accessor before := by
  obtain ⟨finds, hfinds⟩ := Expr.waysTo_listed searched e accessor
  obtain ⟨⟨position, first⟩, others, rfl, rfl, -⟩ :=
    List.map_eq_cons_iff.mp (hfinds.results_eq.trans h)
  obtain ⟨hfirst, -⟩ := List.pairwise_cons.mp hfinds.ordered
  refine ⟨position, (hfinds.mem_iff _ _).mp (List.mem_cons_self ..), fun before hlt => ?_⟩
  refine Expr.passed_of_not_meets fun earlier other hle hmeets => ?_
  rcases List.mem_cons.mp ((hfinds.mem_iff earlier other).mpr hmeets) with heq | hmem
  · cases heq
    exact absurd hlt (not_lt_of_ge hle)
  · exact absurd ((hfirst _ hmem).trans_le hle) (lt_asymm hlt)

end Search

/-! ### The outcome of the search -/

section Outcome

variable (searched full : Expr) (input : Parameter)

/-- **The three outcomes of the search.**  It finds a match at a position, it fails with the error
of a member that cannot be read on the way to a position, or it goes past all positions.  In the
first two cases it has gone past all positions before. -/
theorem findAccessor_cases :
    (∃ position route part way, full.At position route part ∧ part.equal searched ∧
      input.toExpr.follow route = .ok way ∧ findAccessor searched full input = .ok ⟨[input], way⟩ ∧
      ∀ before < position, Expr.Passed searched full input.toExpr before) ∨
    (∃ position route part err, full.At position route part ∧
      input.toExpr.follow route = .error err ∧ findAccessor searched full input = .error err ∧
      ∀ before < position, Expr.Passed searched full input.toExpr before) ∨
    (findAccessor searched full input = .error (.accessorNotFound full.text searched.text) ∧
      ∀ position, Expr.Passed searched full input.toExpr position) := by
  cases hways : Expr.waysTo searched full input.toExpr with
  | nil =>
    refine Or.inr (Or.inr ⟨?_, Expr.passed_of_waysTo_nil hways⟩)
    rw [findAccessor_eq, hways]
    rfl
  | cons find rest =>
    obtain ⟨position, hmeets, hpassed⟩ := Expr.exists_first_find hways
    obtain ⟨route, part, hat, hfollow, hequal⟩ := hmeets.exists_at
    cases find with
    | ok way =>
      refine Or.inl ⟨position, route, part, way, hat, hequal rfl, hfollow, ?_, hpassed⟩
      rw [findAccessor_eq, hways]
      rfl
    | error err =>
      refine Or.inr (Or.inl ⟨position, route, part, err, hat, hfollow, ?_, hpassed⟩)
      rw [findAccessor_eq, hways]
      rfl

/-- **What the search finds among members that cannot be read.**  It succeeds when a match can be
read and every position before it can be read as well. -/
theorem findAccessor_isOk_iff_readable :
    (∃ l, findAccessor searched full input = .ok l) ↔
      ∃ position route part way, full.At position route part ∧ part.equal searched ∧
        input.toExpr.follow route = .ok way ∧
        ∀ before route' part', before < position → full.At before route' part' →
          ∃ way', input.toExpr.follow route' = .ok way' := by
  constructor
  · rintro ⟨l, hl⟩
    rcases findAccessor_cases searched full input with
      ⟨position, route, part, way, hat, hequal, hfollow, -, hpassed⟩ |
      ⟨_, _, _, err, -, -, herr, -⟩ | ⟨herr, -⟩
    · refine ⟨position, route, part, way, hat, hequal, hfollow, ?_⟩
      exact fun before route' part' hlt hat' => (hpassed before hlt route' part' hat').2
    · cases hl.symm.trans herr
    · cases hl.symm.trans herr
  · rintro ⟨position, route, part, way, hat, hequal, hfollow, hbefore⟩
    have hmatch : ¬ Expr.Passed searched full input.toExpr position := fun hpassed =>
      Bool.false_ne_true ((hpassed route part hat).1.symm.trans hequal)
    rcases findAccessor_cases searched full input with
      ⟨_, _, _, way', -, -, -, hok, -⟩ | ⟨refused, route', part', err, hat', herr, -, hpassed⟩ |
      ⟨-, hpassed⟩
    · exact ⟨_, hok⟩
    · -- The refused position is neither behind the match nor at it, and before it all can be read.
      rcases lt_trichotomy refused position with hlt | rfl | hgt
      · obtain ⟨way', hway'⟩ := hbefore refused route' part' hlt hat'
        cases hway'.symm.trans herr
      · obtain ⟨rfl, -⟩ := hat.unique hat'
        cases hfollow.symm.trans herr
      · exact absurd (hpassed position hgt) hmatch
    · exact absurd (hpassed position) hmatch

end Outcome

namespace Sample

def person : Ty := .classType (ClassType.ofName "Person" |>.withProperty "Name" .string)

/-- A trainee is a person with a level. -/
def trainee : Ty :=
  .classType (ClassType.ofName "Trainee"
    |>.withProperty "Name" .string
    |>.withProperty "Level" .int32
    |>.implementing person)

/-- A cook and whoever helps them. -/
def duty : Ty :=
  .classType (ClassType.ofName "Duty"
    |>.withProperty "Helper" person
    |>.withProperty "Cook" cook)

/-- `new Duty(Helper = new Trainee(Name = "Ann", Level = 2), Cook = [c])`, with all checks. -/
def onDuty : Except ModelError Expr := do
  let helper ← Construction.mapped ⟨trainee, [.string, .int32]⟩
    [.constant (.string "Ann") .string, .constant (.int32 2) .int32]
    [⟨"Trainee", "Name", .string, .getter⟩, ⟨"Trainee", "Level", .int32, .getter⟩]
  let item ← Construction.mapped ⟨duty, [person, cook]⟩
    [helper.toExpr, .reference ⟨0, "c", cook⟩]
    [⟨"Duty", "Helper", person, .getter⟩, ⟨"Duty", "Cook", cook, .getter⟩]
  return item.toExpr

end Sample

/-- The cook of a duty can be read, but the search comes to the trainee first.  They are read as a
person, and a person has no level. -/
theorem findAccessor_hidden_behind_trainee :
    ∃ full, Sample.onDuty = .ok full ∧
      (∃ position route part way, full.At position route part ∧
        part.equal (.reference ⟨0, "c", Sample.cook⟩) ∧
        (Expr.parameter ⟨"input", full.type⟩).follow route = .ok way) ∧
      findAccessor (.reference ⟨0, "c", Sample.cook⟩) full ⟨"input", full.type⟩ =
        .error (.memberNotFound "Level" "Person") := by
  refine ⟨_, rfl, ⟨[1], _, _, _, .into rfl (.here _), rfl, rfl⟩, rfl⟩

/-! ### Items whose members can all be read -/

namespace Expr

/-- A node of class type declares the members that it initialises. -/
def NodeDeclares (e : Expr) : Prop :=
  ∀ entry ∈ e.entries, ∀ member ∈ entry.1, e.type.canRead member

/-- Every construction of class type in the expression declares the members that it initialises. -/
def Declares (e : Expr) : Prop := ∀ x ∈ e.subterms, x.NodeDeclares

instance (e : Expr) : Decidable e.NodeDeclares :=
  inferInstanceAs (Decidable (∀ entry ∈ e.entries, ∀ member ∈ entry.1, e.type.canRead member))

instance (e : Expr) : Decidable e.Declares :=
  inferInstanceAs (Decidable (∀ x ∈ e.subterms, x.NodeDeclares))

theorem Declares.child {e c : Expr} (h : e.Declares) (hc : c ∈ e.children) : c.Declares :=
  (forall_subterms_iff.mp h).2 c hc

/-- What a member is initialised with has the type of the member. -/
theorem NodeExact.type_entry {e x : Expr} {member : Member} (h : e.NodeExact)
    (hentry : (some member, x) ∈ e.entries) : x.type = member.type := by
  cases e with
  | unary op y t =>
    rw [entries] at hentry
    split at hentry <;> simp at hentry
  | new c as ms =>
    cases ms with
    | none => cases hentry
    | some ms =>
      obtain ⟨y, hy, heq⟩ := List.mem_map.mp hentry
      cases heq
      exact h y hy
  | memberInit c as ms bs =>
    obtain ⟨y, hy, heq⟩ := List.mem_map.mp hentry
    cases heq
    exact h y hy
  | _ => cases hentry

/-- **Every position can be read**, along the route to it, and what is read has the type of the part
there.  The accessor of a node keeps the type of the node, so its class declares the next member. -/
theorem At.readable {e part : Expr} {position : List Nat} {route : List (Option Member × Expr)}
    (hat : e.At position route part) (hexact : e.Exact) (hdeclares : e.Declares) {accessor : Expr}
    (htype : accessor.type = e.type) :
    accessor.follow route = .ok (accessor.along route) ∧
      (accessor.along route).type = part.type := by
  induction hat generalizing accessor with
  | here e => exact ⟨rfl, htype⟩
  | @into e x part i via position route entry _ ih =>
    have hmem : (via, x) ∈ e.entries := List.mem_of_getElem? entry
    have hchild : x ∈ e.children := mem_children_of_entries hmem
    have hrest := @ih (hexact.child hchild) (hdeclares.child hchild)
    rw [follow]
    cases via with
    | none => exact hrest rfl
    | some member =>
      have hread : accessor.type.canRead member := by
        rw [htype]
        exact (forall_subterms_iff.mp hdeclares).1 _ hmem member rfl
      rcases accessor.accessMember_eq member with
        ⟨err, -, hrefused⟩ | ⟨inner, hinner, -, hinnertype⟩
      · exact absurd (hrefused.symm.trans hread) Bool.false_ne_true
      · rw [enter, hinner]
        obtain rfl := eq_of_accessMember hinner
        exact hrest (hinnertype.trans ((exact_iff.mp hexact).1.type_entry hmem).symm)

end Expr

section FirstMatch

variable {full : Expr} {input : Parameter}

theorem Expr.Passed.not_equal {searched e accessor part : Expr} {position : List Nat}
    {route : List (Option Member × Expr)} (h : Expr.Passed searched e accessor position)
    (hat : e.At position route part) : ¬ part.equal searched := by
  rw [(h route part hat).1]
  exact Bool.false_ne_true

/-- Where every position can be read, the search finds a match or goes past all positions. -/
theorem findAccessor_cases_of_readable (searched : Expr) (hinput : input.type = full.type)
    (hexact : full.Exact) (hdeclares : full.Declares) :
    (∃ position route part, full.At position route part ∧ part.equal searched ∧
      findAccessor searched full input = .ok ⟨[input], input.toExpr.along route⟩ ∧
      (input.toExpr.along route).type = part.type ∧
      ∀ before < position, Expr.Passed searched full input.toExpr before) ∨
    (findAccessor searched full input = .error (.accessorNotFound full.text searched.text) ∧
      ∀ position, Expr.Passed searched full input.toExpr position) := by
  have hreadable {position : List Nat} {route : List (Option Member × Expr)} {part : Expr}
      (hat : full.At position route part) : input.toExpr.follow route =
        .ok (input.toExpr.along route) ∧ (input.toExpr.along route).type = part.type :=
    hat.readable hexact hdeclares hinput
  rcases findAccessor_cases searched full input with
    ⟨position, route, part, way, hat, hequal, hfollow, hok, hpassed⟩ |
    ⟨_, _, _, err, hat, herr, -, -⟩ | hnone
  · obtain ⟨hway, htype⟩ := hreadable hat
    cases hway.symm.trans hfollow
    exact Or.inl ⟨position, route, part, hat, hequal, hok, htype, hpassed⟩
  · cases (hreadable hat).1.symm.trans herr
  · exact Or.inr hnone

/-- **The first match is found.**  The input has the type of the item, and the item declares the
members that it initialises and initialises them with what has their types.  Then the search
succeeds exactly when a position holds what is searched, and otherwise says so.  It finds the first
such position: the body of the function is the way along the route there, and has the type of what
is there. -/
theorem findAccessor_first_match (searched : Expr) (hinput : input.type = full.type)
    (hexact : full.Exact) (hdeclares : full.Declares) :
    ((∃ l, findAccessor searched full input = .ok l) ↔
      ∃ position route part, full.At position route part ∧ part.equal searched) ∧
    ((¬ ∃ position route part, full.At position route part ∧ part.equal searched) →
      findAccessor searched full input = .error (.accessorNotFound full.text searched.text)) ∧
    ∀ l, findAccessor searched full input = .ok l →
      ∃ position route part, full.At position route part ∧ part.equal searched ∧
        (∀ other route' part', full.At other route' part' → part'.equal searched →
          position ≤ other) ∧
        l = ⟨[input], input.toExpr.along route⟩ ∧ l.body.type = part.type := by
  rcases findAccessor_cases_of_readable searched hinput hexact hdeclares with
    ⟨position, route, part, hat, hequal, hok, htype, hpassed⟩ | ⟨hnone, hpassed⟩
  · have hmatch : ∃ position route part, full.At position route part ∧ part.equal searched :=
      ⟨position, route, part, hat, hequal⟩
    refine ⟨⟨fun _ => hmatch, fun _ => ⟨_, hok⟩⟩, fun h => absurd hmatch h, fun l hl => ?_⟩
    cases hok.symm.trans hl
    refine ⟨position, route, part, hat, hequal, fun other route' part' hat' hequal' => ?_, rfl,
      htype⟩
    exact not_lt.mp fun hlt => (hpassed other hlt).not_equal hat' hequal'
  · have hnomatch : ¬ ∃ position route part, full.At position route part ∧ part.equal searched := by
      rintro ⟨position, route, part, hat, hequal⟩
      exact (hpassed position).not_equal hat hequal
    refine ⟨⟨?_, fun h => absurd h hnomatch⟩, fun _ => hnone, fun l hl => ?_⟩
    · rintro ⟨l, hl⟩
      cases hnone.symm.trans hl
    · cases hnone.symm.trans hl

end FirstMatch

namespace Sample

/-- A team at work, and who steps in for them. -/
def shift : Ty :=
  .classType (ClassType.ofName "Shift"
    |>.withProperty "Team" team
    |>.withProperty "Deputy" assistant)

/-- `new Shift(Team = (Team)new Team(Cook = [c], Assistant = (Assistant)[a]), Deputy = [a])` -/
def doubleShift : Expr :=
  .new ⟨shift, [team, assistant]⟩ [packed, .reference ⟨1, "a", assistant⟩]
    (some [⟨"Shift", "Team", team, .getter⟩, ⟨"Shift", "Deputy", assistant, .getter⟩])

/-- The assistant called `a` in a shift, under another name. -/
def deputy : Expr := .reference ⟨1, "deputy", assistant⟩

end Sample

/-- The helper of a team is searched under another name, and steps in for the team as well. -/
theorem findAccessor_first_match_deputy :
    (⟨"input", Sample.shift⟩ : Parameter).type = Sample.doubleShift.type ∧
      Sample.doubleShift.Exact ∧ Sample.doubleShift.Declares ∧
      ∃ l, findAccessor Sample.deputy Sample.doubleShift ⟨"input", Sample.shift⟩ = .ok l ∧
        l.text = "input => Convert(Convert(input.Team).Assistant)" ∧
        ∃ position route part, Sample.doubleShift.At position route part ∧
          part.equal Sample.deputy ∧
          (∀ other route' part', Sample.doubleShift.At other route' part' →
            part'.equal Sample.deputy → position ≤ other) ∧
          l = ⟨[⟨"input", Sample.shift⟩], (Expr.parameter ⟨"input", Sample.shift⟩).along route⟩ ∧
          l.body.type = part.type := by
  have hinput : (⟨"input", Sample.shift⟩ : Parameter).type = Sample.doubleShift.type := rfl
  have hexact : Sample.doubleShift.Exact := by decide +kernel
  have hdeclares : Sample.doubleShift.Declares := by decide +kernel
  obtain ⟨l, hl, htext⟩ : ∃ l,
      findAccessor Sample.deputy Sample.doubleShift ⟨"input", Sample.shift⟩ = .ok l ∧
        l.text = "input => Convert(Convert(input.Team).Assistant)" := ⟨_, rfl, by decide +kernel⟩
  obtain ⟨-, -, hfirst⟩ := findAccessor_first_match Sample.deputy hinput hexact hdeclares
  exact ⟨hinput, hexact, hdeclares, l, hl, htext, hfirst l hl⟩

end Comprehension
