import Comprehension.Proofs.Chain.Counter

/-! # Spellings of a query

The same operator is declared for queryables and for enumerables, and a lambda can be passed to it
quoted or as it is.  Two call trees that differ in such details only (`Respelled`) are read as the
same chain (`Reader.readFrom_respelled`), with the same kinds, sources and identifiers, so they have
the same model.

Three parts of reading look at these details: the registry, by the key of a method; the recognizers,
by the lambdas of a call; and the choice of an identifier, by the lambdas again.  Each of them sees
the same in both spellings. -/
namespace Comprehension

/-! ### Spellings -/

/-- The methods are spellings of the same operator: they agree in name and number of parameters, and
are declared for queryables or enumerables unless they have the same declaring type. -/
structure Method.Respelled (m m' : Method) : Prop where
  name : m.name = m'.name
  count : m.parameters.length = m'.parameters.length
  declaringType : m.declaringType = m'.declaringType ∨
    m.declaringType ∈ ["Queryable", "Enumerable"] ∧ m'.declaringType ∈ ["Queryable", "Enumerable"]

/-- The arguments of an operator are the same, or both are the same lambda under any number of
quotes.  Only operators that work with lambdas can tell a lambda. -/
def RespelledArgument (operator : String) (a a' : Expr) : Prop :=
  a = a' ∨ operator ∈ lambdaOperators ∧ ∃ l, a.asLambda? = some l ∧ a'.asLambda? = some l

/-- Two call trees differ in the spelling of operators only, from the outermost call down to the
source. -/
inductive Respelled : Expr → Expr → Prop
  | refl (e : Expr) : Respelled e e
  | call {m m' : Method} {source source' : Expr} {arguments arguments' : List Expr}
      (method : m.Respelled m') (rest : Respelled source source')
      (same : List.Forall₂ (RespelledArgument m.name) arguments arguments') :
    Respelled (.staticCall m (source :: arguments)) (.staticCall m' (source' :: arguments'))
  /-- A call without a source. -/
  | bare {m m' : Method} (method : m.Respelled m') :
    Respelled (.staticCall m []) (.staticCall m' [])
  /-- A lambda in the place of a source. -/
  | lambda {e e' : Expr} {l : Lambda} (first : e.asLambda? = some l)
    (second : e'.asLambda? = some l) : Respelled e e'

theorem Method.Respelled.symm {m m' : Method} (h : m.Respelled m') : m'.Respelled m :=
  ⟨h.name.symm, h.count.symm, h.declaringType.imp Eq.symm And.symm⟩

theorem RespelledArgument.symm {operator : String} {a a' : Expr}
    (h : RespelledArgument operator a a') : RespelledArgument operator a' a :=
  h.imp Eq.symm fun ⟨hmem, l, hl, hl'⟩ => ⟨hmem, l, hl', hl⟩

theorem Respelled.symm {e e' : Expr} (h : Respelled e e') : Respelled e' e := by
  induction h with
  | refl e => exact .refl e
  | @call m m' _ _ _ _ method _ same ih =>
    refine .call method.symm ih (List.Forall₂.flip (same.imp fun a a' h => ?_))
    rw [← method.name]
    exact h.symm
  | bare method => exact .bare method.symm
  | lambda first second => exact .lambda second first

/-! ### What the registry sees -/

namespace Registry

theorem find?_register_self (registry : Registry) (key : MethodKey) (recognize : Recognizer) :
    (registry.register key recognize).find? key = some recognize := by
  have hnone : (registry.entries.filter fun entry => entry.1 != key).find?
      (fun entry => entry.1 == key) = none := by
    rw [List.find?_eq_none]
    intro entry hentry
    have hne := (List.mem_filter.mp hentry).2
    simpa using hne
  rw [find?, register, List.find?_append, hnone]
  simp

theorem find?_register_of_ne (registry : Registry) {key key' : MethodKey} (hne : key ≠ key')
    (recognize : Recognizer) :
    (registry.register key recognize).find? key' = registry.find? key' := by
  have hsame : (registry.entries.filter fun entry => entry.1 != key).find?
      (fun entry => entry.1 == key') = registry.entries.find? fun entry => entry.1 == key' := by
    rw [List.find?_filter]
    refine congrArg (List.find? · registry.entries) (funext fun entry => ?_)
    by_cases hentry : entry.1 = key'
    · simp [hentry, hne.symm]
    · simp [hentry]
  rw [find?, find?, register, List.find?_append, hsame]
  simp [hne]

/-- The recognizer that stands last in a catalog for a name and number of parameters, if one does,
and otherwise the given one. -/
def lastOr (found : Option Recognizer) (name : String) (count : Nat)
    (catalog : List (String × Nat × Recognizer)) : Option Recognizer :=
  catalog.foldl
    (fun found entry => if entry.1 = name ∧ entry.2.1 = count then some entry.2.2 else found) found

theorem find?_registerAll (registry : Registry) (declaringType : String) (key : MethodKey) :
    (registry.registerAll declaringType).find? key =
      if declaringType = key.declaringType then
        lastOr (registry.find? key) key.name key.parameterCount operatorCatalog
      else registry.find? key := by
  suffices hfold : ∀ (catalog : List (String × Nat × Recognizer)) (r : Registry),
      (catalog.foldl
        (fun r entry => r.register ⟨declaringType, entry.1, entry.2.1⟩ entry.2.2) r).find? key =
        if declaringType = key.declaringType then
          lastOr (r.find? key) key.name key.parameterCount catalog
        else r.find? key from hfold operatorCatalog registry
  intro catalog
  induction catalog with
  | nil => simp [lastOr]
  | cons entry catalog ih =>
    intro r
    obtain ⟨declared, name, count⟩ := key
    rw [List.foldl_cons, ih, lastOr, lastOr, List.foldl_cons]
    by_cases hkey : (⟨declaringType, entry.1, entry.2.1⟩ : MethodKey) = ⟨declared, name, count⟩
    · obtain ⟨rfl, hname, hcount⟩ := MethodKey.mk.injEq .. ▸ hkey
      rw [hkey, find?_register_self, if_pos rfl, if_pos rfl, if_pos ⟨hname, hcount⟩]
    · rw [find?_register_of_ne _ hkey]
      by_cases hdeclared : declaringType = declared
      · have hentry : ¬ (entry.1 = name ∧ entry.2.1 = count) := by
          rintro ⟨rfl, rfl⟩
          exact hkey (by rw [hdeclared])
        rw [if_pos hdeclared, if_pos hdeclared, if_neg hentry]
      · rw [if_neg hdeclared, if_neg hdeclared]

/-- **Both spellings of an operator are registered alike.** -/
theorem recognizer?_respelled {m m' : Method} (h : m.Respelled m') :
    default.recognizer? m = default.recognizer? m' := by
  have hdefault : ∀ {declaringType : String} (name : String) (count : Nat),
      declaringType ∈ ["Queryable", "Enumerable"] →
      default.find? ⟨declaringType, name, count⟩ = lastOr none name count operatorCatalog := by
    intro declaringType name count hmem
    rw [default, find?_registerAll, find?_registerAll]
    rcases List.mem_cons.mp hmem with rfl | hmem
    · rw [if_neg (show ¬ "Enumerable" = "Queryable" by decide), if_pos rfl]
      rfl
    · rw [List.mem_singleton.mp hmem, if_pos rfl,
        if_neg (show ¬ "Queryable" = "Enumerable" by decide)]
      rfl
  rw [recognizer?, recognizer?, Method.key, Method.key, ← h.name, ← h.count]
  rcases h.declaringType with hsame | ⟨hm, hm'⟩
  · rw [hsame]
  · rw [hdefault _ _ hm, hdefault _ _ hm']

end Registry

/-! ### What recognizers see -/

section Arguments

variable {operator : String} {arguments arguments' : List Expr}
  (h : List.Forall₂ (RespelledArgument operator) arguments arguments')
include h

/-- The lambdas of a call stand at the same places. -/
theorem asLambda?_respelled : arguments.map Expr.asLambda? = arguments'.map Expr.asLambda? := by
  induction h with
  | nil => rfl
  | cons same _ ih =>
    rw [List.map_cons, List.map_cons, ih]
    rcases same with rfl | ⟨-, l, hl, hl'⟩
    · rfl
    · rw [hl, hl']

theorem lambdaAt_respelled {index count : Nat} {l : Lambda}
    (hl : LambdaAt arguments index count l) : LambdaAt arguments' index count l := by
  obtain ⟨a, ha, hl, hcount⟩ := hl
  have hat : (arguments'.map Expr.asLambda?)[index]? = some (some l) := by
    rw [← asLambda?_respelled h, List.getElem?_map, ha, Option.map_some, hl]
  rw [List.getElem?_map] at hat
  obtain ⟨a', ha', hl'⟩ := Option.map_eq_some_iff.mp hat
  exact ⟨a', ha', hl', hcount⟩

theorem sourceIdentifier?_respelled :
    sourceIdentifier? arguments = sourceIdentifier? arguments' := by
  have hlambdas : ∀ as : List Expr,
      as.filterMap Expr.asLambda? = (as.map Expr.asLambda?).filterMap id := by
    intro as
    rw [List.filterMap_map]
    rfl
  rw [sourceIdentifier?, sourceIdentifier?, hlambdas, hlambdas, asLambda?_respelled h]

/-- An operator that works without lambdas has the same arguments. -/
theorem arguments_respelled (hname : operator ∉ lambdaOperators) : arguments = arguments' := by
  induction h with
  | nil => rfl
  | cons same _ ih => rw [same.resolve_right fun hmem => hname hmem.1, ih]

end Arguments

section Recognize

variable {call call' : CallSite}

/-- **Recognizers see the same in both spellings of a call.** -/
theorem recognize_respelled {name : String} {count : Nat} {recognize : Recognizer}
    (hmem : (name, count, recognize) ∈ operatorCatalog)
    (h : List.Forall₂ (RespelledArgument name) call.arguments call'.arguments) {kind : NodeKind}
    (hkind : recognize call = .ok kind) : recognize call' = .ok kind := by
  cases catalogEntry_of_mem hmem with
  | ofLambda _ =>
    obtain ⟨l, hl, rfl⟩ := Recognizer.ofLambda_eq_ok.mp hkind
    exact Recognizer.ofLambda_eq_ok.mpr ⟨l, lambdaAt_respelled h hl, rfl⟩
  | ofLambdas _ =>
    obtain ⟨l, hl, l', hl', rfl⟩ := Recognizer.ofLambdas_eq_ok.mp hkind
    exact Recognizer.ofLambdas_eq_ok.mpr
      ⟨l, lambdaAt_respelled h hl, l', lambdaAt_respelled h hl', rfl⟩
  | operator _ _ _ => exact hkind
  | operatorOf isNot _ _ =>
    -- An operator that works without lambdas has the same arguments in both spellings.
    rw [Recognizer.operatorOf_eq_ok] at hkind ⊢
    rwa [← arguments_respelled h isNot]

end Recognize

/-! ### Reading -/

namespace Reader

variable {settings : Settings}

theorem readFrom_lambda_ne_ok {e : Expr} {l : Lambda} (hl : e.asLambda? = some l) {position : Nat}
    {identifier : Option String} {reading : Reading} :
    (ofSettings settings).readFrom e position identifier ≠ .ok reading := by
  intro h
  cases e with
  | lambda ps b =>
    simp only [readFrom] at h
    split at h <;> cases h
  | unary op a t =>
    simp only [readFrom] at h
    split at h <;> cases h
  | _ => cases hl

/-- **One spelling is read as the other.** -/
theorem readFrom_respelled {e e' : Expr} (h : Respelled e e') {position : Nat}
    {identifier : Option String} {reading : Reading}
    (hread : (ofSettings settings).readFrom e position identifier = .ok reading) :
    (ofSettings settings).readFrom e' position identifier = .ok reading := by
  induction h generalizing position identifier reading with
  | refl e => exact hread
  | lambda first _ => exact absurd hread (readFrom_lambda_ne_ok first)
  | bare _ =>
    rw [readFrom] at hread
    split at hread
    · cases hread
    · split at hread <;> cases hread
  | @call m m' source source' arguments arguments' method _ same ih =>
    rw [readFrom] at hread ⊢
    split at hread
    · cases hread
    · rename_i hdepth
      rw [if_neg hdepth]
      have hregistry : (ofSettings settings).registry.recognizer? m' =
          (ofSettings settings).registry.recognizer? m :=
        (Registry.recognizer?_respelled method).symm
      rw [hregistry]
      cases hrecognize : (ofSettings settings).registry.recognizer? m with
      | none =>
        rw [hrecognize] at hread
        cases hread
      | some recognize =>
        rw [hrecognize] at hread
        obtain ⟨kind, hkind, hread⟩ := bind_eq_ok.mp hread
        obtain ⟨read, hsource, hread⟩ := bind_eq_ok.mp hread
        have hmem := Registry.mem_catalog_of_default hrecognize
        refine bind_eq_ok.mpr ⟨kind, recognize_respelled hmem same hkind, ?_⟩
        rw [sourceIdentifier?_respelled same] at hsource
        exact bind_eq_ok.mpr ⟨read, ih hsource, hread⟩

/-- A chain that is read from one spelling is read from the other. -/
theorem read_ok_respelled {e e' : Expr} (h : Respelled e e') {chain : Chain}
    (hread : (ofSettings settings).read e = .ok chain) :
    (ofSettings settings).read e' = .ok chain := by
  obtain ⟨reading, hreading, hchain⟩ := read_eq_ok.mp hread
  exact read_eq_ok.mpr ⟨reading, readFrom_respelled h hreading, hchain⟩

/-- **Spellings do not matter.**  Two spellings of a query are read as the same chain, or neither is
read.  So they have the same model from the same start of the counter, and from different starts
models that differ in the identities given out only. -/
theorem read_respelled {e e' : Expr} (h : Respelled e e') :
    (∀ chain, (ofSettings settings).read e = .ok chain ↔
        (ofSettings settings).read e' = .ok chain) ∧
      (∀ k model, ((ofSettings settings).parse e k).1 = .ok model ↔
        ((ofSettings settings).parse e' k).1 = .ok model) ∧
      ∀ k k' model, (∀ id ∈ e.ids, id < k ∧ id < k') →
        ((ofSettings settings).parse e k).1 = .ok model →
        ((ofSettings settings).parse e' k').1 = .ok (model.rename (moved k k')) := by
  refine ⟨fun chain => ⟨read_ok_respelled h, read_ok_respelled h.symm⟩, fun k model => ?_, ?_⟩
  · rw [parse_eq_ok, parse_eq_ok]
    constructor
    · rintro ⟨chain, hread, hmodel⟩
      exact ⟨chain, read_ok_respelled h hread, hmodel⟩
    · rintro ⟨chain, hread, hmodel⟩
      exact ⟨chain, read_ok_respelled h.symm hread, hmodel⟩
  · intro k k' model hids hmodel
    obtain ⟨chain, hread, hmodel⟩ := parse_eq_ok.mp hmodel
    refine parse_eq_ok.mpr ⟨chain, read_ok_respelled h hread, ?_⟩
    have hmoved := Chain.toModel_moved fun node hnode id hid =>
      hids id (read_ids hread node hnode id hid)
    rw [hmoved, hmodel]
    rfl

end Reader

namespace Sample

def isStarred : Lambda := ⟨[c], property "Cook" "IsStarredCook" .boolean (.parameter c)⟩

/-- `….Where(c => c.IsStarredCook).Take(10)`, over queryables. -/
def firstStarred (source : Expr) : Expr :=
  call (call source "Where" [isStarred.quote] (.queryable cook)) "Take"
    [.constant (.int32 10) .int32] (.queryable cook)

/-- The same over enumerables, where lambdas are not quoted. -/
def firstStarredListed (source : Expr) : Expr :=
  let filtered : Expr :=
    .staticCall (.extensionMethod "Enumerable" "Where" [cook] [.enumerable cook, .boolean]
      (.enumerable cook)) [source, isStarred.toExpr]
  .staticCall (.extensionMethod "Enumerable" "Take" [cook] [.enumerable cook, .int32]
    (.enumerable cook)) [filtered, .constant (.int32 10) .int32]

theorem firstStarred_respelled (source : Expr) :
    Respelled (firstStarred source) (firstStarredListed source) := by
  have hflavors : "Queryable" ∈ ["Queryable", "Enumerable"] ∧
      "Enumerable" ∈ ["Queryable", "Enumerable"] := by
    decide
  refine .call ⟨rfl, rfl, .inr hflavors⟩ ?_ (.cons (.inl rfl) .nil)
  refine .call ⟨rfl, rfl, .inr hflavors⟩ (.refl source) (.cons (.inr ?_) .nil)
  exact ⟨show "Where" ∈ lambdaOperators by decide, isStarred, rfl, rfl⟩

end Sample

theorem Reader.read_respelled_firstStarred :
    Respelled (Sample.firstStarred Sample.innerCooks)
        (Sample.firstStarredListed Sample.innerCooks) ∧
      3 ∈ (Sample.firstStarred Sample.innerCooks).ids ∧
      ∃ chain model,
        (ofSettings .default).read (Sample.firstStarred Sample.innerCooks) = .ok chain ∧
        (ofSettings .default).read (Sample.firstStarredListed Sample.innerCooks) = .ok chain ∧
        ((ofSettings .default).parse (Sample.firstStarred Sample.innerCooks) 4).1 = .ok model ∧
        ((ofSettings .default).parse (Sample.firstStarredListed Sample.innerCooks) 4).1 =
          .ok model ∧
        ((ofSettings .default).parse (Sample.firstStarredListed Sample.innerCooks) 9).1 =
          .ok (model.rename (moved 4 9)) := by
  have hspelled := Sample.firstStarred_respelled Sample.innerCooks
  obtain ⟨hread, hparse, hmoved⟩ := @Reader.read_respelled .default _ _ hspelled
  have hids : ∀ id ∈ (Sample.firstStarred Sample.innerCooks).ids, id < 4 ∧ id < 9 := by decide
  exact ⟨hspelled, by decide, _, _, rfl, (hread _).mp rfl, rfl, (hparse 4 _).mp rfl,
    hmoved 4 9 _ hids rfl⟩

end Comprehension
