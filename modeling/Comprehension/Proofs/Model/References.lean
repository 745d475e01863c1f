import Comprehension.Model.References
import Comprehension.Proofs.Success
import Comprehension.Sample

/-! # References and the clauses before them

`Model.EachReference ok model` says that every reference in a model stands in the relation `ok` to
the sources that were declared before its clause: none before the main from clause, the main source
and those of earlier from clauses before a body clause, all of them before the selector and the
operators.  The check of a model decides one such statement, about identities
(`Model.checkReferences_eq_ok`).

The check goes through the clauses of a model in order, each with the identities that are declared
by then (`Model.clauses`, `Model.checkReferences_eq_forM`).  So it fails at the first clause that
holds a reference to anything else, and reports the first such reference in it. -/
namespace Comprehension

/-- Every source that the expressions refer to satisfies `ok`. -/
def RefersOnly (ok : Source → Prop) (expressions : List Expr) : Prop :=
  ∀ x ∈ expressions, ∀ s ∈ x.references, ok s

theorem RefersOnly.imp {ok ok' : Source → Prop} {expressions : List Expr}
    (h : RefersOnly ok expressions) (himp : ∀ s, ok s → ok' s) : RefersOnly ok' expressions :=
  fun x hx s hs => himp s (h x hx s hs)

/-- Every reference in a clause stands in a relation to the sources declared before the clause. -/
structure Model.EachReference (ok : List Source → Source → Prop) (model : Model) : Prop where
  mainFrom : RefersOnly (ok []) [model.mainFrom.expression]
  body : ∀ before clause after, model.body = before ++ clause :: after →
    RefersOnly (ok (model.mainFrom.source :: before.filterMap BodyClause.source?))
      clause.expressions
  selector : RefersOnly (ok model.sources) [model.selector]
  operators : ∀ op ∈ model.operators, RefersOnly (ok model.sources) op.expressions

theorem Model.EachReference.imp {ok ok' : List Source → Source → Prop} {model : Model}
    (h : model.EachReference ok) (himp : ∀ declared s, ok declared s → ok' declared s) :
    model.EachReference ok' where
  mainFrom := h.mainFrom.imp (himp _)
  body before clause after hbody := (h.body before clause after hbody).imp (himp _)
  selector := h.selector.imp (himp _)
  operators op hop := (h.operators op hop).imp (himp _)

/-! ### Clauses in order -/

/-- A clause as the check meets it: its text, the identities that earlier clauses declare, and its
expressions. -/
structure PlacedClause where
  text : String
  declared : List Nat
  expressions : List Expr

namespace PlacedClause

/-- The references of a clause, in walk order. -/
def references (c : PlacedClause) : List Source := c.expressions.flatMap Expr.references

/-- Every reference of the clause has the identity of a source that was declared before. -/
def PointsBack (c : PlacedClause) : Prop := RefersOnly (fun s => s.id ∈ c.declared) c.expressions

/-- The error names the clause and its first reference that does not point back. -/
def Reports (c : PlacedClause) (error : ModelError) : Prop :=
  ∃ before s after, c.references = before ++ s :: after ∧ (∀ r ∈ before, r.id ∈ c.declared) ∧
    s.id ∉ c.declared ∧ error = .forwardReference c.text s.itemName

def check (c : PlacedClause) : Except ModelError Unit := checkClause c.declared c.text c.expressions

/-- Body clauses, each with what is declared at first and by the clauses before it. -/
def ofBody (declared : List Nat) (body : List BodyClause) : List PlacedClause :=
  body.mapIdx fun i clause =>
    ⟨clause.text, declared ++ ((body.take i).filterMap BodyClause.source?).map Source.id,
      clause.expressions⟩

def ofOperator (declared : List Nat) (operator : ResultOperator) : PlacedClause :=
  ⟨operator.text, declared, operator.expressions⟩

theorem ofBody_cons (declared : List Nat) (c : BodyClause) (cs : List BodyClause) :
    ofBody declared (c :: cs) =
      ⟨c.text, declared, c.expressions⟩ ::
        ofBody (declared ++ (c.source?.map Source.id).toList) cs := by
  rw [ofBody, List.mapIdx_cons, ofBody]
  cases hsource : c.source? <;> simp [hsource]

theorem forall_mem_ofBody {P : PlacedClause → Prop} {declared : List Nat} {body : List BodyClause} :
    (∀ c ∈ ofBody declared body, P c) ↔
      ∀ before clause after, body = before ++ clause :: after →
        P ⟨clause.text, declared ++ (before.filterMap BodyClause.source?).map Source.id,
          clause.expressions⟩ := by
  constructor
  · rintro h before clause after rfl
    refine h _ (List.mem_mapIdx.mpr ⟨before.length, by simp, ?_⟩)
    simp
  · intro h c hc
    obtain ⟨i, hi, rfl⟩ := List.mem_mapIdx.mp hc
    exact h (body.take i) body[i] (body.drop (i + 1)) (by simp)

end PlacedClause

/-- The clauses of a model in order.  The main source can be used from the first body clause on,
each further source from the next clause on, and all of them in the selector and the operators. -/
def Model.clauses (model : Model) : List PlacedClause :=
  ⟨"main from clause", [], [model.mainFrom.expression]⟩ ::
    (PlacedClause.ofBody [model.mainFrom.source.id] model.body ++
      ⟨model.selector.selectText, model.sources.map Source.id, [model.selector]⟩ ::
        model.operators.map (PlacedClause.ofOperator (model.sources.map Source.id)))

/-- Going through the clauses of a model is going through its references, each with the sources
declared before it. -/
theorem Model.forall_clauses_pointsBack {model : Model} :
    (∀ c ∈ model.clauses, c.PointsBack) ↔
      model.EachReference fun declared s => s.id ∈ declared.map Source.id := by
  simp only [clauses, List.forall_mem_cons, List.forall_mem_append,
    PlacedClause.forall_mem_ofBody, List.forall_mem_map]
  constructor
  · rintro ⟨hmain, hbody, hselector, hoperators⟩
    exact ⟨hmain, hbody, hselector, hoperators⟩
  · rintro ⟨hmain, hbody, hselector, hoperators⟩
    exact ⟨hmain, hbody, hselector, hoperators⟩

/-! ### The check -/

section Check

variable {declared : List Nat}

theorem firstUndeclared_eq_none {expressions : List Expr} :
    firstUndeclared declared expressions = none ↔
      RefersOnly (fun s => s.id ∈ declared) expressions := by
  rw [firstUndeclared, List.find?_eq_none]
  simp only [List.mem_flatMap, Bool.not_eq_true', Bool.not_eq_false, List.contains_iff_mem,
    forall_exists_index, and_imp]
  exact ⟨fun h x hx s hs => h s x hx hs, fun h s x hx hs => h x hx s hs⟩

theorem PlacedClause.check_eq_ok {c : PlacedClause} : c.check = .ok () ↔ c.PointsBack := by
  rw [check, checkClause, PointsBack, ← firstUndeclared_eq_none]
  cases firstUndeclared c.declared c.expressions <;> simp

theorem PlacedClause.check_eq_error {c : PlacedClause} {error : ModelError} :
    c.check = .error error ↔ c.Reports error := by
  have hfirst : c.check = .error error ↔ ∃ s, firstUndeclared c.declared c.expressions = some s ∧
      error = .forwardReference c.text s.itemName := by
    rw [check, checkClause]
    cases firstUndeclared c.declared c.expressions <;> simp [eq_comm]
  rw [hfirst]
  simp only [firstUndeclared, List.find?_eq_some_iff_append, Bool.not_not, Bool.not_eq_true',
    List.contains_iff_mem]
  constructor
  · rintro ⟨s, ⟨hs, before, after, hsplit, hbefore⟩, herror⟩
    exact ⟨before, s, after, hsplit, hbefore, by simpa using hs, herror⟩
  · rintro ⟨before, s, after, hsplit, hbefore, hs, herror⟩
    exact ⟨s, ⟨by simpa using hs, before, after, hsplit, hbefore⟩, herror⟩

/-- Each clause is checked against what was declared at first and by the clauses before it. -/
theorem checkBody_eq {body : List BodyClause} :
    checkBody declared body = do
      forM (PlacedClause.ofBody declared body) PlacedClause.check
      return declared ++ (body.filterMap BodyClause.source?).map Source.id := by
  induction body generalizing declared with
  | nil =>
    show Except.ok declared = Except.ok (declared ++ [])
    rw [List.append_nil]
  | cons c cs ih =>
    have hids : declared ++ (c.source?.map Source.id).toList ++
          (cs.filterMap BodyClause.source?).map Source.id =
        declared ++ ((c :: cs).filterMap BodyClause.source?).map Source.id := by
      cases h : c.source? <;> simp [h]
    rw [checkBody, ih, hids, PlacedClause.ofBody_cons, List.forM_cons, bind_assoc]
    rfl

/-- After the clauses, their sources are declared as well. -/
theorem checkBody_declares {body : List BodyClause} {result : List Nat}
    (h : checkBody declared body = .ok result) :
    result = declared ++ (body.filterMap BodyClause.source?).map Source.id := by
  rw [checkBody_eq] at h
  obtain ⟨_, -, h⟩ := bind_eq_ok.mp h
  exact pure_eq_ok.mp h

theorem checkOperators_eq {operators : List ResultOperator} :
    checkOperators declared operators =
      forM (operators.map (PlacedClause.ofOperator declared)) PlacedClause.check := by
  induction operators with
  | nil => rfl
  | cons op ops ih =>
    rw [checkOperators, ih, List.map_cons, List.forM_cons]
    rfl

end Check

/-- **The check goes through the clauses in order.** -/
theorem Model.checkReferences_eq_forM (model : Model) :
    model.checkReferences = forM model.clauses PlacedClause.check := by
  rw [checkReferences, clauses, List.forM_cons, List.forM_append, List.forM_cons, checkBody_eq]
  simp only [checkOperators_eq, bind_assoc, pure_bind]
  rfl

theorem Model.checkReferences_ok_iff_clauses {model : Model} :
    model.checkReferences = .ok () ↔ ∀ c ∈ model.clauses, c.PointsBack := by
  rw [checkReferences_eq_forM, forM_eq_ok]
  simp only [PlacedClause.check_eq_ok]

/-- The check fails at the first clause with a reference that does not point back. -/
theorem Model.checkReferences_eq_error {model : Model} {error : ModelError} :
    model.checkReferences = .error error ↔
      ∃ before c after, model.clauses = before ++ c :: after ∧ (∀ d ∈ before, d.PointsBack) ∧
        c.Reports error := by
  rw [checkReferences_eq_forM, forM_eq_error]
  simp only [PlacedClause.check_eq_ok, PlacedClause.check_eq_error]

/-- **What the check of references decides.**  Every reference has the identity of a source that was
declared before its clause. -/
theorem Model.checkReferences_eq_ok {model : Model} :
    model.checkReferences = .ok () ↔
      model.EachReference fun declared s => s.id ∈ declared.map Source.id := by
  rw [checkReferences_ok_iff_clauses, forall_clauses_pointsBack]

/-- The check fails at a reference that does not point back, and in no other way. -/
theorem Model.checkReferences_fails {model : Model} :
    FailsWith (fun error => ∃ clause item, error = .forwardReference clause item)
      model.checkReferences := by
  intro error h
  obtain ⟨_, c, _, _, _, _, s, _, _, _, _, herror⟩ := checkReferences_eq_error.mp h
  exact ⟨c.text, s.itemName, herror⟩

/-- **The check finds the first reference that does not point back.**  A model passes exactly when
every reference in a clause has the identity of a source that an earlier clause declares.  Otherwise
the first clause that breaks this is reported, with its first reference that does. -/
theorem Model.checkReferences_finds_first (model : Model) :
    (model.checkReferences = .ok () ↔
      model.EachReference fun declared s => s.id ∈ declared.map Source.id) ∧
    ∀ error, model.checkReferences = .error error ↔
      ∃ before c after, model.clauses = before ++ c :: after ∧ (∀ d ∈ before, d.PointsBack) ∧
        c.Reports error :=
  ⟨checkReferences_eq_ok, fun _ => checkReferences_eq_error⟩

/-- A further source whose items come from itself. -/
def Sample.circular : Model :=
  let n : Source := ⟨1, "n", .int32⟩
  let m : Source := ⟨2, "m", .int32⟩
  ⟨⟨n, numbers [1, 2]⟩,
    [.filter (.binary .equal (.reference n) (.reference n) .boolean),
      .additionalFrom ⟨m, .reference m⟩],
    .reference m, []⟩

/-- A source cannot be used in its own clause. -/
theorem Model.checkReferences_finds_first_circular :
    Sample.circular.checkReferences = .error (.forwardReference "from Int32 m in [m]" "m") ∧
    (¬ Sample.circular.EachReference fun declared s => s.id ∈ declared.map Source.id) ∧
    ∃ before c after, Sample.circular.clauses = before ++ c :: after ∧
      (∀ d ∈ before, d.PointsBack) ∧ c.Reports (.forwardReference "from Int32 m in [m]" "m") := by
  obtain ⟨hok, herror⟩ := checkReferences_finds_first Sample.circular
  have hfails : Sample.circular.checkReferences =
      .error (.forwardReference "from Int32 m in [m]" "m") := rfl
  refine ⟨hfails, ?_, (herror _).mp hfails⟩
  intro hall
  have hpasses := hok.mpr hall
  rw [hfails] at hpasses
  cases hpasses

end Comprehension
