import Comprehension.Proofs.Expr.Search

/-! # The only way to a part of an item

`findAccessor` stops at the first way that its search comes to.  `findUniqueAccessor` goes through
the whole item: it wants one way, and no member that cannot be read.  The search that stops does
what the other does up to there.  So what the one search comes to tells much of what the other comes
to (`accessors_side_by_side`).

Where the whole search meets no unreadable member, it meets exactly the outermost matches
(`Expr.outermost_iff_meets`): a match is not searched further, and every other node is.  So there is
one way when there is one outermost match. -/
namespace Comprehension

/-! ### Outermost matches -/

/-- A position holds what is searched, and no position above it does. -/
structure Expr.OutermostMatch (searched e : Expr) (position : List Nat) : Prop where
  holds : ∃ route part, e.At position route part ∧ part.equal searched
  outermost : ∀ above route part, above <+: position → above ≠ position →
    e.At above route part → part.equal searched = false

section Outermost

variable {searched : Expr}

/-- Where the search meets something, it has seen no match above. -/
theorem Expr.Meets.not_equal_above {e accessor : Expr} {position : List Nat}
    {find : Except ModelError Expr} (h : Expr.Meets searched e accessor position find)
    {above : List Nat} {route : List (Option Member × Expr)} {part : Expr}
    (hbegins : above <+: position) (hne : above ≠ position) (hat : e.At above route part) :
    part.equal searched = false := by
  induction h generalizing above route with
  | found _ => exact absurd (List.prefix_nil.mp hbegins) hne
  | unreadable other _ _ =>
    cases hat with
    | here => exact eq_false_of_ne_true other
    | into _ _ =>
      obtain ⟨rfl, hrest⟩ := List.cons_prefix_cons.mp hbegins
      exact absurd (by rw [List.prefix_nil.mp hrest]) hne
  | deeper other entry _ _ ih =>
    cases hat with
    | here => exact eq_false_of_ne_true other
    | into entry' rest =>
      obtain ⟨rfl, hrest⟩ := List.cons_prefix_cons.mp hbegins
      cases entry.symm.trans entry'
      exact ih hrest (fun heq => hne (by rw [heq])) rest

theorem Expr.OutermostMatch.below {e x : Expr} {i : Nat} {via : Option Member}
    {position : List Nat} (h : Expr.OutermostMatch searched e (i :: position))
    (entry : e.entries[i]? = some (via, x)) : Expr.OutermostMatch searched x position := by
  obtain ⟨⟨route, part, hat, hequal⟩, habove⟩ := h
  refine ⟨?_, fun above route' part' hbegins hne hat' => ?_⟩
  · cases hat with
    | into entry' rest =>
      cases entry.symm.trans entry'
      exact ⟨_, part, rest, hequal⟩
  · refine habove (i :: above) _ part' (List.cons_prefix_cons.mpr ⟨rfl, hbegins⟩) ?_
      (.into entry hat')
    exact fun heq => hne (List.cons.inj heq).2

/-- **The search meets the outermost matches**, where it meets no member that cannot be read. -/
theorem Expr.outermost_iff_meets {e accessor : Expr} {position : List Nat}
    (hread : ∀ position err, ¬ Expr.Meets searched e accessor position (.error err)) :
    Expr.OutermostMatch searched e position ↔
      ∃ way, Expr.Meets searched e accessor position (.ok way) := by
  constructor
  · intro h
    induction position generalizing e accessor with
    | nil =>
      obtain ⟨⟨route, part, hat, hequal⟩, -⟩ := h
      cases hat
      exact ⟨accessor, .found hequal⟩
    | cons i position ih =>
      have hother : ¬ e.equal searched := by
        rw [h.outermost [] [] e List.nil_prefix (List.cons_ne_nil i position).symm (.here e)]
        exact Bool.false_ne_true
      obtain ⟨route, part, hat, -⟩ := h.holds
      cases hat with
      | @into _ x _ _ via _ _ entry _ =>
        cases henter : accessor.enter via x with
        | error err => exact absurd (.unreadable hother entry henter) (hread [i] err)
        | ok inner =>
          have hbelow : ∀ position err, ¬ Expr.Meets searched x inner position (.error err) :=
            fun below err hmeets => hread (i :: below) err (.deeper hother entry henter hmeets)
          obtain ⟨way, hway⟩ := ih hbelow (h.below entry)
          exact ⟨way, .deeper hother entry henter hway⟩
  · rintro ⟨way, hmeets⟩
    obtain ⟨route, part, hat, -, hequal⟩ := hmeets.exists_at
    exact ⟨⟨route, part, hat, hequal rfl⟩, fun above route' part' hbegins hne hat' =>
      hmeets.not_equal_above hbegins hne hat'⟩

/-- A member that cannot be read is the only error of the search. -/
theorem Expr.Meets.memberNotFound {e accessor : Expr} {position : List Nat} {err : ModelError}
    (h : Expr.Meets searched e accessor position (.error err)) :
    ∃ member typeName, err = .memberNotFound member typeName := by
  generalize hfind : (.error err : Except ModelError Expr) = find at h
  induction h with
  | found _ => cases hfind
  | @unreadable _ accessor x _ via _ _ _ refused =>
    cases hfind
    cases via with
    | none => cases refused
    | some member =>
      rw [Expr.enter, Expr.accessMember.eq_def] at refused
      split at refused
      · split at refused
        · cases refused
        · exact ⟨_, _, (Except.error.inj refused).symm⟩
      · cases refused
  | deeper _ _ _ _ ih => exact ih hfind

end Outermost

/-! ### One result or several -/

/-- A list of finds has one result when there is one position to find something at. -/
theorem Listed.singleton_iff {finds : List (List Nat × Except ModelError Expr)}
    {results : List (Except ModelError Expr)} {P : List Nat → Except ModelError Expr → Prop}
    (h : Listed finds results P) :
    (∃ find, results = [find]) ↔ ∃! position, ∃ find, P position find := by
  simp only [← h.results_eq, ← h.mem_iff]
  have hordered := h.ordered
  rcases finds with _ | ⟨first, _ | ⟨second, rest⟩⟩
  · refine iff_of_false (by simp) ?_
    rintro ⟨position, ⟨find, hmem⟩, -⟩
    cases hmem
  · refine iff_of_true ⟨_, rfl⟩ ⟨first.1, ⟨first.2, List.mem_singleton.mpr rfl⟩, ?_⟩
    rintro position ⟨find, hmem⟩
    cases List.mem_singleton.mp hmem
    rfl
  · refine iff_of_false (by simp) fun hunique => ?_
    -- The first two finds are at different positions.
    have hlt : first.1 < second.1 := (List.pairwise_cons.mp hordered).1 _ (List.mem_cons_self ..)
    have hsame : first.1 = second.1 :=
      hunique.unique ⟨first.2, List.mem_cons_self ..⟩
        ⟨second.2, List.mem_cons_of_mem _ (List.mem_cons_self ..)⟩
    exact absurd hsame (ne_of_lt hlt)

/-- A search that finds ways only finds as many as there are outermost matches: one way for one. -/
theorem Expr.existsUnique_outermost_iff {searched e accessor : Expr} {ways : List Expr}
    (h : Expr.waysTo searched e accessor = ways.map .ok) :
    (∃! position, Expr.OutermostMatch searched e position) ↔ ∃ way, ways = [way] := by
  obtain ⟨finds, hfinds⟩ := Expr.waysTo_listed searched e accessor
  have hread : ∀ position err, ¬ Expr.Meets searched e accessor position (.error err) := by
    intro position err hmeets
    have hmem : .error err ∈ finds.map Prod.snd :=
      List.mem_map_of_mem ((hfinds.mem_iff position (.error err)).mpr hmeets)
    rw [hfinds.results_eq, h] at hmem
    simp at hmem
  have houtermost : ∀ position, Expr.OutermostMatch searched e position ↔
      ∃ find, Expr.Meets searched e accessor position find := by
    intro position
    rw [Expr.outermost_iff_meets hread]
    constructor
    · rintro ⟨way, hway⟩
      exact ⟨.ok way, hway⟩
    · rintro ⟨find, hfind⟩
      cases find with
      | ok way => exact ⟨way, hfind⟩
      | error err => exact absurd hfind (hread position err)
  simp only [houtermost, ← hfinds.singleton_iff, h, List.map_eq_singleton_iff]
  constructor
  · rintro ⟨_, way, hways, -⟩
    exact ⟨way, hways⟩
  · rintro ⟨way, hways⟩
    exact ⟨.ok way, way, hways, rfl⟩

/-! ### The two searches -/

section Agreement

variable (searched full : Expr) (input : Parameter)

/-- **The two searches side by side.**  Either both fail in the same way at the first find, or there
is a first way.  Then the second search succeeds when that was all, and otherwise fails: because of
a member that cannot be read, or because there are more ways. -/
theorem accessors_side_by_side :
    (∃ err, findAccessor searched full input = .error err ∧
      findUniqueAccessor searched full input = .error err ∧
      ∀ a b, err ≠ .ambiguousAccessor a b) ∨
    ∃ way, findAccessor searched full input = .ok ⟨[input], way⟩ ∧
      ((∃ position err, Expr.Meets searched full input.toExpr position (.error err) ∧
          findUniqueAccessor searched full input = .error err) ∨
        ∃ others : List Expr,
          Expr.waysTo searched full input.toExpr = (way :: others).map .ok ∧
          findUniqueAccessor searched full input =
            if others = [] then .ok ⟨[input], way⟩
            else .error (.ambiguousAccessor full.text searched.text)) := by
  obtain ⟨finds, hfinds⟩ := Expr.waysTo_listed searched full input.toExpr
  have hmeets : ∀ find ∈ Expr.waysTo searched full input.toExpr,
      ∃ position, Expr.Meets searched full input.toExpr position find := by
    intro find hmem
    rw [← hfinds.results_eq] at hmem
    obtain ⟨⟨position, _⟩, hpair, rfl⟩ := List.mem_map.mp hmem
    exact ⟨position, (hfinds.mem_iff _ _).mp hpair⟩
  rw [findAccessor_eq, findUniqueAccessor, Expr.search_eq_collect searched full input.toExpr rfl]
  cases hways : Expr.waysTo searched full input.toExpr with
  | nil => exact Or.inl ⟨_, rfl, rfl, fun _ _ h => by cases h⟩
  | cons first rest =>
    rw [hways] at hmeets
    cases first with
    | error err =>
      refine Or.inl ⟨err, rfl, rfl, fun a b h => ?_⟩
      obtain ⟨position, hfirst⟩ := hmeets _ (List.mem_cons_self ..)
      obtain ⟨member, typeName, rfl⟩ := hfirst.memberNotFound
      cases h
    | ok way =>
      -- The search that stops has its way; the other goes on through the rest of the finds.
      refine Or.inr ⟨way, rfl, ?_⟩
      rcases SearchMode.collect_allMatches (.ok way :: rest) [] with
        ⟨all, hall, hok⟩ | ⟨err, hmem, herr⟩
      · cases all with
        | nil => cases hall
        | cons other others =>
          cases (List.cons.inj hall).1
          refine Or.inr ⟨others, hall, ?_⟩
          rw [hok]
          cases others <;> rfl
      · obtain ⟨position, hposition⟩ := hmeets _ hmem
        refine Or.inl ⟨position, err, hposition, ?_⟩
        rw [herr]
        rfl

/-- **The two searches agree.**  A function that is found as the only one is the one found first.
If there are too many, there is a first one.  Where the first search fails, the second fails in the
same way, and it finds nothing only where the first finds nothing.

Now let the first search succeed and let the second come to no member that cannot be read.  Then the
second succeeds exactly when there is one outermost match, and otherwise says that there are
more. -/
theorem findUniqueAccessor_agrees :
    (∀ l, findUniqueAccessor searched full input = .ok l →
      findAccessor searched full input = .ok l) ∧
    (∀ a b, findUniqueAccessor searched full input = .error (.ambiguousAccessor a b) →
      ∃ l, findAccessor searched full input = .ok l) ∧
    (∀ err, findAccessor searched full input = .error err →
      findUniqueAccessor searched full input = .error err) ∧
    (∀ a b, findUniqueAccessor searched full input = .error (.accessorNotFound a b) →
      findAccessor searched full input = .error (.accessorNotFound a b)) ∧
    ((∃ l, findAccessor searched full input = .ok l) →
      (∀ member typeName, findUniqueAccessor searched full input ≠
        .error (.memberNotFound member typeName)) →
      ((∃ l, findUniqueAccessor searched full input = .ok l) ↔
        ∃! position, Expr.OutermostMatch searched full position) ∧
      ((¬ ∃! position, Expr.OutermostMatch searched full position) →
        findUniqueAccessor searched full input =
          .error (.ambiguousAccessor full.text searched.text))) := by
  rcases accessors_side_by_side searched full input with
    ⟨err, hfirst, hunique, hsingle⟩ | ⟨way, hfirst, hunreadable | ⟨others, hways, hunique⟩⟩
  · -- Both fail in the same way.
    rw [hfirst, hunique]
    refine ⟨by simp, fun a b h => ?_, fun _ h => h, fun _ _ h => h, by simp⟩
    exact absurd (Except.error.inj h) (hsingle a b)
  · -- There is a first way, and a member that cannot be read somewhere behind it.
    obtain ⟨position, err, hmeets, hunique⟩ := hunreadable
    obtain ⟨member, typeName, rfl⟩ := hmeets.memberNotFound
    rw [hfirst, hunique]
    refine ⟨by simp, by simp, by simp, by simp, fun _ hread => ?_⟩
    exact absurd rfl (hread member typeName)
  · have houtermost := Expr.existsUnique_outermost_iff hways
    by_cases hothers : others = []
    · -- There is one way.
      rw [if_pos hothers] at hunique
      rw [hfirst, hunique]
      refine ⟨fun _ h => h, by simp, by simp, by simp, fun _ _ => ?_⟩
      have hone : ∃! position, Expr.OutermostMatch searched full position :=
        houtermost.mpr ⟨way, by rw [hothers]⟩
      exact ⟨iff_of_true ⟨_, rfl⟩ hone, fun hnot => absurd hone hnot⟩
    · -- There are more ways than the first.
      rw [if_neg hothers] at hunique
      rw [hfirst, hunique]
      have hmore : ¬ ∃! position, Expr.OutermostMatch searched full position := by
        intro hone
        obtain ⟨_, heq⟩ := houtermost.mp hone
        exact hothers (List.cons.inj heq).2
      refine ⟨by simp, fun _ _ _ => ⟨_, rfl⟩, by simp, by simp, fun _ _ => ?_⟩
      exact ⟨iff_of_false (by simp) hmore, fun _ => rfl⟩

end Agreement

/-- There is one way to the cook of a shift.  There are two to the assistant, who is in the team and
steps in for it as well. -/
theorem findUniqueAccessor_agrees_shift :
    (∃ l, findUniqueAccessor (.reference ⟨0, "c", Sample.cook⟩) Sample.doubleShift
        ⟨"input", Sample.shift⟩ = .ok l ∧
      findAccessor (.reference ⟨0, "c", Sample.cook⟩) Sample.doubleShift
        ⟨"input", Sample.shift⟩ = .ok l ∧
      ∃! position, Expr.OutermostMatch (.reference ⟨0, "c", Sample.cook⟩) Sample.doubleShift
        position) ∧
    findUniqueAccessor Sample.deputy Sample.doubleShift ⟨"input", Sample.shift⟩ =
      .error (.ambiguousAccessor Sample.doubleShift.text Sample.deputy.text) ∧
    (∃ l, findAccessor Sample.deputy Sample.doubleShift ⟨"input", Sample.shift⟩ = .ok l) ∧
    ¬ ∃! position, Expr.OutermostMatch Sample.deputy Sample.doubleShift position := by
  constructor
  · obtain ⟨hsame, -, -, -, hone⟩ := findUniqueAccessor_agrees (.reference ⟨0, "c", Sample.cook⟩)
      Sample.doubleShift ⟨"input", Sample.shift⟩
    obtain ⟨l, hl⟩ : ∃ l, findUniqueAccessor (.reference ⟨0, "c", Sample.cook⟩) Sample.doubleShift
        ⟨"input", Sample.shift⟩ = .ok l := ⟨_, rfl⟩
    refine ⟨l, hl, hsame l hl, ?_⟩
    exact (hone ⟨l, hsame l hl⟩ (by simp [hl])).1.mp ⟨l, hl⟩
  · obtain ⟨-, hfirst, -, -, hone⟩ := findUniqueAccessor_agrees Sample.deputy Sample.doubleShift
      ⟨"input", Sample.shift⟩
    have hmore : findUniqueAccessor Sample.deputy Sample.doubleShift ⟨"input", Sample.shift⟩ =
        .error (.ambiguousAccessor Sample.doubleShift.text Sample.deputy.text) := rfl
    have hfound := hfirst _ _ hmore
    refine ⟨hmore, hfound, fun hunique => ?_⟩
    obtain ⟨l, hl⟩ := (hone hfound (by simp [hmore])).1.mpr hunique
    cases hmore.symm.trans hl

end Comprehension
