import Comprehension.Chain.Reading
import Comprehension.Model.Basic
import Comprehension.Model.Grouping
import Comprehension.Proofs.Expr.Occurrences
import Comprehension.Proofs.Success

/-! # What reading a call tree gives

The usual operators are known by name and number of parameters, and each of them says which lambdas
or arguments of a call it keeps.  `Recognized` lists what a node can be for a given call, and
`Reads e kinds` says that the calls of `e`, from the source outwards, give nodes of these kinds.

A chain that was read is linear: every node takes the items of the node right before it.  So the
lineage of a node is the list of the nodes up to it (`Chain.Linear.lineage_eq`), and nothing that
follows sources back has to be followed through identities. -/
namespace Comprehension

/-! ### Calls of the usual operators -/

/-- The argument at an index is a lambda, quoted or not, with so many parameters. -/
def LambdaAt (arguments : List Expr) (index count : Nat) (l : Lambda) : Prop :=
  ∃ a, arguments[index]? = some a ∧ a.asLambda? = some l ∧ l.parameters.length = count

theorem CallSite.argument_eq_ok {call : CallSite} {index : Nat} {a : Expr} :
    call.argument index = .ok a ↔ call.arguments[index]? = some a := by
  rw [CallSite.argument]
  cases call.arguments[index]? <;> simp

theorem CallSite.lambdaAt {call : CallSite} {index count : Nat} {l : Lambda}
    (h : call.lambda index count = .ok l) : LambdaAt call.arguments index count l := by
  obtain ⟨a, ha, h⟩ := bind_eq_ok.mp h
  refine ⟨a, CallSite.argument_eq_ok.mp ha, ?_⟩
  split at h
  · cases h
  · rename_i l' hl
    split at h
    · rename_i hcount
      cases h
      exact ⟨hl, hcount⟩
    · cases h

theorem CallSite.lambda_eq_ok {call : CallSite} {index count : Nat} {l : Lambda} :
    call.lambda index count = .ok l ↔ LambdaAt call.arguments index count l := by
  refine ⟨CallSite.lambdaAt, ?_⟩
  rintro ⟨a, ha, hl, hcount⟩
  refine bind_eq_ok.mpr ⟨a, CallSite.argument_eq_ok.mpr ha, ?_⟩
  simp only [hl, hcount, if_true]
  rfl

/-- The method has the given name and number of parameters. -/
def Method.Is (method : Method) (name : String) (count : Nat) : Prop :=
  method.name = name ∧ method.parameters.length = count

/-- The operators that work with lambdas.  All others give result operators. -/
def lambdaOperators : List String :=
  ["Where", "Select", "SelectMany", "OrderBy", "OrderByDescending", "ThenBy", "ThenByDescending",
    "GroupBy"]

/-- What the node of a call can be, given the method and the arguments behind the source. -/
inductive Recognized (method : Method) (arguments : List Expr) : NodeKind → Prop
  | filter {l : Lambda} (is : method.Is "Where" 2) (lambda : LambdaAt arguments 0 1 l) :
    Recognized method arguments (.filter l)
  | select {l : Lambda} (is : method.Is "Select" 2) (lambda : LambdaAt arguments 0 1 l) :
    Recognized method arguments (.select l)
  | selectMany {c : Lambda} (is : method.Is "SelectMany" 2) (lambda : LambdaAt arguments 0 1 c) :
    Recognized method arguments (.selectMany c none)
  | selectManyWithResult {c r : Lambda} (is : method.Is "SelectMany" 3)
      (collection : LambdaAt arguments 0 1 c) (result : LambdaAt arguments 1 2 r) :
    Recognized method arguments (.selectMany c (some r))
  | orderBy {k : Lambda} (is : method.Is "OrderBy" 2) (lambda : LambdaAt arguments 0 1 k) :
    Recognized method arguments (.orderBy k .ascending)
  | orderByDescending {k : Lambda} (is : method.Is "OrderByDescending" 2)
      (lambda : LambdaAt arguments 0 1 k) :
    Recognized method arguments (.orderBy k .descending)
  | thenBy {k : Lambda} {direction : Direction}
      (is : method.Is "ThenBy" 2 ∨ method.Is "ThenByDescending" 2)
      (lambda : LambdaAt arguments 0 1 k) :
    Recognized method arguments (.thenBy k direction)
  | groupBy {k : Lambda} (is : method.Is "GroupBy" 2) (lambda : LambdaAt arguments 0 1 k) :
    Recognized method arguments (.groupBy k none)
  | groupByWithElement {k e : Lambda} (is : method.Is "GroupBy" 3)
      (key : LambdaAt arguments 0 1 k) (element : LambdaAt arguments 1 1 e) :
    Recognized method arguments (.groupBy k (some e))
  | operator {op : ResultOperator} (isNot : method.name ∉ lambdaOperators)
      (groupless : op.grouping? = none) (held : ∀ x ∈ op.expressions, x ∈ arguments) :
    Recognized method arguments (.operator op)

/-! Four families of recognizers make up the catalog.  An entry says what its family keeps of a
call, and that this is listed above for the method of the entry. -/

/-- What the recognizer of a method in the catalog can be. -/
inductive CatalogEntry (name : String) (count : Nat) : Recognizer → Prop
  | ofLambda {make : Lambda → NodeKind}
      (recognized : ∀ {method arguments l}, method.Is name count → LambdaAt arguments 0 1 l →
        Recognized method arguments (make l)) :
    CatalogEntry name count (.ofLambda make)
  | ofLambdas {parameterCount : Nat} {make : Lambda → Lambda → NodeKind}
      (recognized : ∀ {method arguments l l'}, method.Is name count → LambdaAt arguments 0 1 l →
        LambdaAt arguments 1 parameterCount l' → Recognized method arguments (make l l')) :
    CatalogEntry name count (.ofLambdas parameterCount make)
  | operator {op : ResultOperator} (isNot : name ∉ lambdaOperators)
      (groupless : op.grouping? = none) (bare : op.expressions = []) :
    CatalogEntry name count (.operator op)
  | operatorOf {op : Expr → ResultOperator} (isNot : name ∉ lambdaOperators)
      (groupless : ∀ a, (op a).grouping? = none) (held : ∀ a, (op a).expressions = [a]) :
    CatalogEntry name count (.operatorOf op)

/-- **The catalog by families**, entry by entry in its order. -/
theorem catalogEntry_of_mem {name : String} {count : Nat} {recognize : Recognizer}
    (h : (name, count, recognize) ∈ operatorCatalog) : CatalogEntry name count recognize := by
  have hentries : ∀ entry ∈ operatorCatalog, CatalogEntry entry.1 entry.2.1 entry.2.2 := by
    simp only [operatorCatalog, List.forall_mem_cons]
    exact ⟨.ofLambda .filter, .ofLambda .select, .ofLambda .selectMany,
      .ofLambdas .selectManyWithResult, .ofLambda .orderBy, .ofLambda .orderByDescending,
      .ofLambda fun is => .thenBy (.inl is), .ofLambda fun is => .thenBy (.inr is),
      .ofLambda .groupBy, .ofLambdas .groupByWithElement,
      -- Counting, picking and aggregating operators keep nothing of the call.
      .operator (by decide) rfl rfl, .operator (by decide) rfl rfl, .operator (by decide) rfl rfl,
      .operator (by decide) rfl rfl, .operator (by decide) rfl rfl, .operator (by decide) rfl rfl,
      .operator (by decide) rfl rfl, .operator (by decide) rfl rfl, .operator (by decide) rfl rfl,
      .operator (by decide) rfl rfl, .operator (by decide) rfl rfl, .operator (by decide) rfl rfl,
      .operator (by decide) rfl rfl, .operator (by decide) rfl rfl,
      .operatorOf (by decide) (fun _ => rfl) fun _ => rfl,
      .operatorOf (by decide) (fun _ => rfl) fun _ => rfl,
      .operatorOf (by decide) (fun _ => rfl) fun _ => rfl, List.forall_mem_nil _⟩
  exact hentries _ h

section Families

variable {call : CallSite} {kind : NodeKind}

theorem Recognizer.ofLambda_eq_ok {make : Lambda → NodeKind} :
    Recognizer.ofLambda make call = .ok kind ↔
      ∃ l, LambdaAt call.arguments 0 1 l ∧ kind = make l := by
  simp only [Recognizer.ofLambda, bind_eq_ok, CallSite.lambda_eq_ok, pure_eq_ok]

theorem Recognizer.ofLambdas_eq_ok {parameterCount : Nat} {make : Lambda → Lambda → NodeKind} :
    Recognizer.ofLambdas parameterCount make call = .ok kind ↔
      ∃ l, LambdaAt call.arguments 0 1 l ∧
        ∃ l', LambdaAt call.arguments 1 parameterCount l' ∧ kind = make l l' := by
  simp only [Recognizer.ofLambdas, bind_eq_ok, CallSite.lambda_eq_ok, pure_eq_ok]

theorem Recognizer.operatorOf_eq_ok {op : Expr → ResultOperator} :
    Recognizer.operatorOf op call = .ok kind ↔
      ∃ a, call.arguments[0]? = some a ∧ kind = .operator (op a) := by
  simp only [Recognizer.operatorOf, bind_eq_ok, CallSite.argument_eq_ok, pure_eq_ok]

/-- Every entry of the catalog recognizes calls of its method as listed. -/
theorem recognized_of_mem_catalog {name : String} {count : Nat} {recognize : Recognizer}
    (hmem : (name, count, recognize) ∈ operatorCatalog) (his : call.method.Is name count)
    (h : recognize call = .ok kind) : Recognized call.method call.arguments kind := by
  cases catalogEntry_of_mem hmem with
  | ofLambda recognized =>
    obtain ⟨l, hl, rfl⟩ := Recognizer.ofLambda_eq_ok.mp h
    exact recognized his hl
  | ofLambdas recognized =>
    obtain ⟨l, hl, l', hl', rfl⟩ := Recognizer.ofLambdas_eq_ok.mp h
    exact recognized his hl hl'
  | operator isNot groupless bare =>
    cases h
    rw [← his.1] at isNot
    refine .operator isNot groupless fun x hx => ?_
    rw [bare] at hx
    cases hx
  | operatorOf isNot groupless held =>
    obtain ⟨a, ha, rfl⟩ := Recognizer.operatorOf_eq_ok.mp h
    rw [← his.1] at isNot
    refine .operator isNot (groupless a) fun x hx => ?_
    rw [held, List.mem_singleton] at hx
    rw [hx]
    exact List.mem_of_getElem? ha

end Families

/-! ### What nodes hold -/

/-- The expressions that a node holds: its lambdas, or the arguments of its operator. -/
def NodeKind.expressions : NodeKind → List Expr
  | .operator op => op.expressions
  | kind => kind.lambdas.map Lambda.toExpr

/-- The lambdas of a node take as many parameters as the node has values for. -/
def NodeKind.WellFormed : NodeKind → Prop
  | .filter l => l.parameters.length = 1
  | .select l => l.parameters.length = 1
  | .selectMany c r => c.parameters.length = 1 ∧ ∀ l, r = some l → l.parameters.length = 2
  | .orderBy l _ => l.parameters.length = 1
  | .thenBy l _ => l.parameters.length = 1
  | .groupBy k e => k.parameters.length = 1 ∧ ∀ l, e = some l → l.parameters.length = 1
  | _ => True

/-- A parameter that is free in the body of a lambda is one of its own, or free in the lambda. -/
theorem Lambda.freeParameters_body {l : Lambda} {q : Parameter} (h : q ∈ l.body.freeParameters) :
    q ∈ l.parameters ∨ q ∈ l.toExpr.freeParameters := by
  by_cases hq : q ∈ l.parameters
  · exact Or.inl hq
  · exact Or.inr (Expr.mem_freeParameters_iff.mpr
      ⟨hq, Or.inr ⟨l.body, List.mem_singleton.mpr rfl, h⟩⟩)

theorem Lambda.references_body {l : Lambda} {s : Source} (h : s ∈ l.body.references) :
    s ∈ l.toExpr.references :=
  Expr.mem_references_iff.mpr (Or.inr ⟨l.body, List.mem_singleton.mpr rfl, h⟩)

/-- In the body of a lambda with one parameter, only that and what is free in the lambda is free. -/
theorem Lambda.freeParameters_of_first {P : Parameter → Prop} {l : Lambda} {p : Parameter}
    (hlength : l.parameters.length = 1) (hfirst : l.parameters.head? = some p)
    (hfree : ∀ q ∈ l.toExpr.freeParameters, P q) :
    ∀ q ∈ l.body.freeParameters, q = p ∨ P q := by
  obtain ⟨p', hp'⟩ := List.length_eq_one_iff.mp hlength
  intro q hq
  rcases Lambda.freeParameters_body hq with hq | hq
  · rw [hp'] at hfirst hq
    cases hfirst
    exact Or.inl (List.mem_singleton.mp hq)
  · exact Or.inr (hfree q hq)

/-! ### The usual registry -/

namespace Registry

/-- Every entry stands in the catalog. -/
def FromCatalog (registry : Registry) : Prop :=
  ∀ entry ∈ registry.entries, (entry.1.name, entry.1.parameterCount, entry.2) ∈ operatorCatalog

theorem FromCatalog.register {registry : Registry} (h : registry.FromCatalog) {key : MethodKey}
    {recognize : Recognizer} (hnew : (key.name, key.parameterCount, recognize) ∈ operatorCatalog) :
    (registry.register key recognize).FromCatalog := by
  intro entry hentry
  rcases List.mem_append.mp hentry with hold | hadded
  · exact h entry (List.mem_filter.mp hold).1
  · rw [List.mem_singleton.mp hadded]
    exact hnew

theorem FromCatalog.registerAll {registry : Registry} (h : registry.FromCatalog)
    (declaringType : String) : (registry.registerAll declaringType).FromCatalog := by
  suffices key : ∀ (operators : List (String × Nat × Recognizer)) (r : Registry),
      (∀ operator ∈ operators, operator ∈ operatorCatalog) → r.FromCatalog →
      (operators.foldl (fun r operator =>
        r.register ⟨declaringType, operator.1, operator.2.1⟩ operator.2.2) r).FromCatalog from
    key operatorCatalog registry (fun _ hx => hx) h
  intro operators
  induction operators with
  | nil => exact fun r _ hr => hr
  | cons operator operators ih =>
    intro r hmem hr
    refine ih _ (fun x hx => hmem x (List.mem_cons_of_mem _ hx)) ?_
    exact hr.register (hmem operator (List.mem_cons_self ..))

theorem default_fromCatalog : default.FromCatalog := by
  have hempty : empty.FromCatalog := fun _ h => nomatch h
  exact (hempty.registerAll "Queryable").registerAll "Enumerable"

/-- A method known to the usual registry stands in the catalog by its name and parameter count. -/
theorem mem_catalog_of_default {method : Method} {recognize : Recognizer}
    (h : default.recognizer? method = some recognize) :
    (method.name, method.parameters.length, recognize) ∈ operatorCatalog := by
  obtain ⟨⟨key, r⟩, hfind, hr⟩ := Option.map_eq_some_iff.mp h
  have hkey : key = method.key := by simpa using List.find?_some hfind
  have hmem := default_fromCatalog _ (List.mem_of_find?_eq_some hfind)
  rw [hkey] at hmem
  rw [← hr]
  exact hmem

end Registry

/-! ### Linear chains -/

namespace Chain

/-- Every node has its position for its identity and takes the items of the node before it. -/
structure Linear (chain : Chain) : Prop where
  id_eq : ∀ {i : Nat} {node : Node}, chain.nodes[i]? = some node → node.id = i
  source_zero : ∀ {node : Node}, chain.nodes[0]? = some node → node.source = none
  source_succ : ∀ {i : Nat} {node : Node}, chain.nodes[i + 1]? = some node → node.source = some i

theorem Linear.empty : Chain.empty.Linear where
  id_eq h := nomatch h
  source_zero h := nomatch h
  source_succ h := nomatch h

/-- A position of a longer chain is one of the chain before, or the new last one. -/
theorem push_getElem? {chain : Chain} {source : Option Nat} {identifier : String} {kind : NodeKind}
    {i : Nat} {node : Node} (h : (chain.push source identifier kind).2.nodes[i]? = some node) :
    chain.nodes[i]? = some node ∨
      i = chain.nodes.length ∧ node = ⟨chain.nodes.length, source, identifier, kind⟩ := by
  have h : (chain.nodes ++ [⟨chain.nodes.length, source, identifier, kind⟩])[i]? = some node := h
  rcases Nat.lt_trichotomy i chain.nodes.length with hlt | heq | hgt
  · rw [List.getElem?_append_left hlt] at h
    exact Or.inl h
  · rw [heq, List.getElem?_concat_length] at h
    exact Or.inr ⟨heq, (Option.some.inj h).symm⟩
  · rw [List.getElem?_eq_none (by rw [List.length_append, List.length_singleton]; omega)] at h
    cases h

theorem Linear.push {chain : Chain} (h : chain.Linear) {source : Option Nat}
    (hzero : chain.nodes.length = 0 → source = none)
    (hsucc : ∀ n, chain.nodes.length = n + 1 → source = some n)
    (identifier : String) (kind : NodeKind) : (chain.push source identifier kind).2.Linear where
  id_eq hn := by
    rcases push_getElem? hn with hold | ⟨rfl, rfl⟩
    · exact h.id_eq hold
    · rfl
  source_zero hn := by
    rcases push_getElem? hn with hold | ⟨hi, rfl⟩
    · exact h.source_zero hold
    · exact hzero hi.symm
  source_succ hn := by
    rcases push_getElem? hn with hold | ⟨hi, rfl⟩
    · exact h.source_succ hold
    · exact hsucc _ hi.symm

end Chain

/-- The lineage that runs back through a list of nodes. -/
def Lineage.back (error : ParseError) (nodes : List Node) : Lineage :=
  nodes.foldl (fun before node => .step node before) (.broken error)

@[simp] theorem Lineage.back_nil (error : ParseError) : Lineage.back error [] = .broken error := rfl

@[simp] theorem Lineage.back_concat (error : ParseError) (nodes : List Node) (node : Node) :
    Lineage.back error (nodes ++ [node]) = .step node (Lineage.back error nodes) := by
  rw [Lineage.back, List.foldl_append]
  rfl

namespace Chain

theorem Linear.lineageUpTo_eq {chain : Chain} (h : chain.Linear) {error : ParseError}
    (herror : ∀ {first}, chain.nodes[0]? = some first → error = .missingSource first.typeName)
    {i fuel : Nat} {node : Node} (hnode : chain.nodes[i]? = some node) (hfuel : i < fuel) :
    chain.lineageUpTo fuel node = Lineage.back error (chain.nodes.take (i + 1)) := by
  induction i generalizing fuel node with
  | zero =>
    obtain ⟨fuel, rfl⟩ := Nat.exists_eq_add_of_lt hfuel
    rw [lineageUpTo, h.source_zero hnode]
    rw [List.take_add_one, hnode, List.take_zero]
    simp [Lineage.back, herror hnode]
  | succ i ih =>
    obtain ⟨fuel, rfl⟩ := Nat.exists_eq_add_of_lt hfuel
    have hi : i < chain.nodes.length := by
      have := (List.getElem?_eq_some_iff.mp hnode).1
      omega
    have hbefore : chain.nodes[i]? = some chain.nodes[i] := List.getElem?_eq_getElem hi
    rw [lineageUpTo, h.source_succ hnode]
    have hrec : chain.lineageUpTo (i + 1 + fuel) chain.nodes[i] =
        Lineage.back error (chain.nodes.take (i + 1)) := ih hbefore (by omega)
    rw [List.take_add_one, hnode]
    simp only [node?, hbefore, Option.toList_some, Lineage.back_concat, hrec]

theorem Linear.id_of_split {chain : Chain} (h : chain.Linear) {before after : List Node}
    {node : Node} (hsplit : chain.nodes = before ++ node :: after) : node.id = before.length := by
  refine h.id_eq ?_
  rw [hsplit, List.getElem?_append_right (Nat.le_refl _), Nat.sub_self]
  rfl

/-- **The lineage of a node of a linear chain** is the list of nodes up to it. -/
theorem Linear.lineage_eq {chain : Chain} (h : chain.Linear) :
    ∃ error, ∀ before node after, chain.nodes = before ++ node :: after →
      chain.lineage node = .step node (Lineage.back error before) := by
  let error := ParseError.missingSource ((chain.nodes[0]?.map Node.typeName).getD "")
  have herror : ∀ {first}, chain.nodes[0]? = some first →
      error = .missingSource first.typeName := by
    intro first hfirst
    simp [error, hfirst]
  refine ⟨error, ?_⟩
  intro before node after hsplit
  have hnode : chain.nodes[before.length]? = some node := by
    rw [hsplit, List.getElem?_append_right (Nat.le_refl _), Nat.sub_self]
    rfl
  have hlength : before.length < chain.nodes.length + 1 := by
    rw [hsplit, List.length_append]
    omega
  rw [lineage, h.lineageUpTo_eq herror hnode hlength,
    List.take_add_one, hnode, hsplit, List.take_left]
  exact Lineage.back_concat ..

/-- The lineage of the last node goes through the whole chain. -/
theorem lineage_last_eq {chain : Chain} {error : ParseError} {last : Node}
    (hlineage : ∀ before node after, chain.nodes = before ++ node :: after →
      chain.lineage node = .step node (Lineage.back error before))
    (hlast : chain.last? = some last) : chain.lineage last = Lineage.back error chain.nodes := by
  obtain ⟨before, hsplit⟩ := List.getLast?_eq_some_iff.mp hlast
  rw [hlineage before last [] hsplit, hsplit, Lineage.back_concat]

theorem Linear.lineage_last {chain : Chain} (h : chain.Linear) {last : Node}
    (hlast : chain.last? = some last) :
    ∃ error, chain.lineage last = Lineage.back error chain.nodes := by
  obtain ⟨error, hlineage⟩ := h.lineage_eq
  exact ⟨error, lineage_last_eq hlineage hlast⟩

end Chain

/-! ### Reading -/

/-- The calls of an expression, from the source outwards, give nodes of these kinds. -/
inductive Reads : Expr → List NodeKind → Prop
  | constant {v : Value} {t item : Ty} (items : t.element? = some item) :
    Reads (.constant v t) [.constant ⟨v, t, item⟩]
  | subQuery {q : Model} {t item : Ty} (items : t.element? = some item) :
    Reads (.subQuery q t) [.subQuery ⟨q, t, item⟩]
  | call {method : Method} {source : Expr} {arguments : List Expr} {kinds : List NodeKind}
      {kind : NodeKind} (before : Reads source kinds)
      (recognized : Recognized method arguments kind) :
    Reads (.staticCall method (source :: arguments)) (kinds ++ [kind])

theorem itemsOf_eq_ok {t item : Ty} : itemsOf t = .ok item ↔ t.element? = some item := by
  rw [itemsOf]
  cases t.element? <;> simp

namespace Reader

variable {settings : Settings}

/-- The node is appended under some name. -/
theorem append_chain (reader : Reader) (chain : Chain) (source : Option Nat)
    (identifier : Option String) (generated : Nat) (kind : NodeKind) :
    ∃ name, (reader.append chain source identifier generated kind).chain =
        (chain.push source name kind).2 ∧
      (reader.append chain source identifier generated kind).last = chain.nodes.length := by
  cases identifier with
  | some name => exact ⟨name, rfl, rfl⟩
  | none => exact ⟨reader.settings.generatedIdentifier generated, rfl, rfl⟩

theorem append_map_kind (reader : Reader) (chain : Chain) (source : Option Nat)
    (identifier : Option String) (generated : Nat) (kind : NodeKind) :
    (reader.append chain source identifier generated kind).chain.nodes.map Node.kind =
      chain.nodes.map Node.kind ++ [kind] := by
  obtain ⟨name, hchain, -⟩ := append_chain reader chain source identifier generated kind
  rw [hchain]
  exact List.map_append

/-- What was read so far: a linear chain that ends with the node read last. -/
structure Reading.Wellformed (reading : Reading) : Prop where
  linear : reading.chain.Linear
  length_eq : reading.chain.nodes.length = reading.last + 1

theorem append_first (reader : Reader) (identifier : Option String) (generated : Nat)
    (kind : NodeKind) :
    Reading.Wellformed (reader.append .empty none identifier generated kind) := by
  obtain ⟨name, hchain, hlast⟩ := append_chain reader .empty none identifier generated kind
  refine ⟨?_, ?_⟩
  · rw [hchain]
    exact Chain.Linear.empty.push (fun _ => rfl) (fun n hn => nomatch hn) name kind
  · rw [hchain, hlast]
    rfl

theorem append_next (reader : Reader) {reading : Reading} (h : Reading.Wellformed reading)
    (identifier : Option String) (kind : NodeKind) :
    Reading.Wellformed
      (reader.append reading.chain (some reading.last) identifier reading.generated kind) := by
  obtain ⟨name, hchain, hlast⟩ :=
    append_chain reader reading.chain (some reading.last) identifier reading.generated kind
  have hlength := h.length_eq
  refine ⟨?_, ?_⟩
  · rw [hchain]
    refine h.linear.push (fun hzero => ?_) (fun n hn => ?_) name kind
    · omega
    · rw [show reading.last = n from by omega]
  · rw [hchain, hlast]
    exact List.length_append

/-- **What was read.**  The chain is linear, it ends with the node read last, and its kinds are
those that the calls give. -/
theorem readFrom_reads {e : Expr} {position : Nat} {identifier : Option String} {reading : Reading}
    (h : (ofSettings settings).readFrom e position identifier = .ok reading) :
    Reading.Wellformed reading ∧ Reads e (reading.chain.nodes.map Node.kind) := by
  induction e using Expr.induction_on_children generalizing position identifier reading with
  | node e ih =>
    cases e with
    | constant v t =>
      rw [readFrom] at h
      split at h
      · cases h
      · obtain ⟨source, hsource, h⟩ := bind_eq_ok.mp h
        obtain ⟨item, hitem, hsource⟩ := bind_eq_ok.mp hsource
        cases h
        cases hsource
        refine ⟨append_first .., ?_⟩
        rw [append_map_kind]
        exact .constant (itemsOf_eq_ok.mp hitem)
    | subQuery q t =>
      rw [readFrom] at h
      split at h
      · cases h
      · obtain ⟨source, hsource, h⟩ := bind_eq_ok.mp h
        obtain ⟨item, hitem, hsource⟩ := bind_eq_ok.mp hsource
        cases h
        cases hsource
        refine ⟨append_first .., ?_⟩
        rw [append_map_kind]
        exact .subQuery (itemsOf_eq_ok.mp hitem)
    | staticCall method arguments =>
      rw [readFrom] at h
      split at h
      · cases h
      · split at h
        · cases h
        · rename_i recognize hrecognize
          cases arguments with
          | nil => cases h
          | cons source rest =>
            obtain ⟨kind, hkind, h⟩ := bind_eq_ok.mp h
            obtain ⟨read, hread, h⟩ := bind_eq_ok.mp h
            cases h
            obtain ⟨hwell, hreads⟩ := ih source (List.mem_cons_self ..) hread
            refine ⟨append_next _ hwell identifier kind, ?_⟩
            rw [append_map_kind]
            have hmem := Registry.mem_catalog_of_default hrecognize
            exact hreads.call (recognized_of_mem_catalog hmem ⟨rfl, rfl⟩ hkind)
    | _ =>
      simp only [readFrom] at h
      split at h <;> cases h

theorem read_eq_ok {reader : Reader} {e : Expr} {chain : Chain} :
    reader.read e = .ok chain ↔
      ∃ reading, reader.readFrom e 0 none = .ok reading ∧ reading.chain = chain := by
  rw [read]
  cases reader.readFrom e 0 none <;> simp [Except.map]

/-- A chain that was read is linear and not empty, and its kinds are those that the calls give. -/
theorem read_reads {e : Expr} {chain : Chain} (h : (ofSettings settings).read e = .ok chain) :
    chain.Linear ∧ Reads e (chain.nodes.map Node.kind) := by
  obtain ⟨reading, hreading, rfl⟩ := read_eq_ok.mp h
  obtain ⟨hwell, hreads⟩ := readFrom_reads hreading
  exact ⟨hwell.linear, hreads⟩

end Reader

/-! ### What was read occurs in the call tree -/

theorem Expr.freeParameters_asLambda? {q : Parameter} {l : Lambda} {a : Expr}
    (h : a.asLambda? = some l) (hq : q ∈ l.toExpr.freeParameters) : q ∈ a.freeParameters := by
  induction a using Expr.induction_on_children with
  | node a ih =>
    cases a with
    | lambda ps b =>
      cases h
      exact hq
    | unary op operand type =>
      cases op with
      | quote => exact ih operand (List.mem_singleton.mpr rfl) h
      | _ => cases h
    | _ => cases h

theorem Expr.references_asLambda? {s : Source} {l : Lambda} {a : Expr}
    (h : a.asLambda? = some l) (hs : s ∈ l.toExpr.references) : s ∈ a.references := by
  induction a using Expr.induction_on_children with
  | node a ih =>
    cases a with
    | lambda ps b =>
      cases h
      exact hs
    | unary op operand type =>
      cases op with
      | quote =>
        have hmem : operand ∈ (Expr.unary .quote operand type).children :=
          List.mem_singleton.mpr rfl
        exact Expr.mem_references_iff.mpr (Or.inr ⟨operand, hmem, ih operand hmem h⟩)
      | _ => cases h
    | _ => cases h

/-- Every expression that a node holds is an argument of its call, or a lambda that an argument is
under its quotes. -/
theorem Recognized.expressions {method : Method} {arguments : List Expr} {kind : NodeKind}
    (h : Recognized method arguments kind) :
    ∀ x ∈ kind.expressions, ∃ a ∈ arguments, x = a ∨ ∃ l, a.asLambda? = some l ∧ x = l.toExpr := by
  have hlambda : ∀ {index count : Nat} {l : Lambda}, LambdaAt arguments index count l →
      ∃ a ∈ arguments, l.toExpr = a ∨ ∃ l', a.asLambda? = some l' ∧ l.toExpr = l'.toExpr := by
    rintro index count l ⟨a, ha, hl, -⟩
    exact ⟨a, List.mem_of_getElem? ha, Or.inr ⟨l, hl, rfl⟩⟩
  intro x hx
  cases h with
  | operator _ _ held => exact ⟨x, held x hx, Or.inl rfl⟩
  | selectManyWithResult _ first second | groupByWithElement _ first second =>
    rcases List.mem_cons.mp hx with rfl | hx
    · exact hlambda first
    · rw [List.mem_singleton.mp hx]
      exact hlambda second
  | filter _ l | select _ l | selectMany _ l | orderBy _ l | orderByDescending _ l | thenBy _ l
  | groupBy _ l =>
    rw [List.mem_singleton.mp hx]
    exact hlambda l

theorem Recognized.wellFormed {method : Method} {arguments : List Expr} {kind : NodeKind}
    (h : Recognized method arguments kind) : kind.WellFormed := by
  have hcount : ∀ {index count : Nat} {l : Lambda}, LambdaAt arguments index count l →
      l.parameters.length = count := fun ⟨_, _, _, hlength⟩ => hlength
  cases h with
  | operator => trivial
  | selectManyWithResult _ first second | groupByWithElement _ first second =>
    refine ⟨hcount first, ?_⟩
    intro l hl
    cases hl
    exact hcount second
  | selectMany _ l | groupBy _ l => exact ⟨hcount l, fun _ h => nomatch h⟩
  | filter _ l | select _ l | orderBy _ l | orderByDescending _ l | thenBy _ l => exact hcount l

/-- What reading keeps of a call tree: each node has its lambdas in order, and holds nothing that
did not occur in the tree. -/
structure NodeKind.Within (e : Expr) (kind : NodeKind) : Prop where
  wellFormed : kind.WellFormed
  freeParameters : ∀ x ∈ kind.expressions, ∀ q ∈ x.freeParameters, q ∈ e.freeParameters
  references : ∀ x ∈ kind.expressions, ∀ s ∈ x.references, s ∈ e.references

theorem Reads.within {e : Expr} {kinds : List NodeKind} (h : Reads e kinds) :
    ∀ kind ∈ kinds, kind.Within e := by
  induction h with
  | constant _ | subQuery _ =>
    intro kind hkind
    rw [List.mem_singleton.mp hkind]
    exact ⟨trivial, fun x hx => (nomatch hx), fun x hx => (nomatch hx)⟩
  | @call method source arguments kinds kind _ recognized ih =>
    have hfree : ∀ {a : Expr}, a ∈ source :: arguments → ∀ q ∈ a.freeParameters,
        q ∈ (Expr.staticCall method (source :: arguments)).freeParameters :=
      fun ha q hq => Expr.mem_freeParameters_iff.mpr ⟨List.not_mem_nil, Or.inr ⟨_, ha, hq⟩⟩
    have hrefs : ∀ {a : Expr}, a ∈ source :: arguments → ∀ s ∈ a.references,
        s ∈ (Expr.staticCall method (source :: arguments)).references :=
      fun ha s hs => Expr.mem_references_iff.mpr (Or.inr ⟨_, ha, hs⟩)
    intro k hk
    rcases List.mem_append.mp hk with hk | hk
    · obtain ⟨hwell, hqs, hss⟩ := ih k hk
      exact ⟨hwell, fun x hx q hq => hfree (List.mem_cons_self ..) q (hqs x hx q hq),
        fun x hx s hs => hrefs (List.mem_cons_self ..) s (hss x hx s hs)⟩
    · rw [List.mem_singleton.mp hk]
      refine ⟨recognized.wellFormed, ?_, ?_⟩
      · intro x hx q hq
        obtain ⟨a, ha, rfl | ⟨l, hl, rfl⟩⟩ := recognized.expressions x hx
        · exact hfree (List.mem_cons_of_mem _ ha) q hq
        · exact hfree (List.mem_cons_of_mem _ ha) q (Expr.freeParameters_asLambda? hl hq)
      · intro x hx s hs
        obtain ⟨a, ha, rfl | ⟨l, hl, rfl⟩⟩ := recognized.expressions x hx
        · exact hrefs (List.mem_cons_of_mem _ ha) s hs
        · exact hrefs (List.mem_cons_of_mem _ ha) s (Expr.references_asLambda? hl hs)

end Comprehension
