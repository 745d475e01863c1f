import Comprehension.Proofs.Chain.Failure
import Comprehension.Proofs.Chain.Scope

/-! # The spine of a call tree

The spine of a call tree has the calls from the outermost one inwards, each the source of the one
before, and ends with what the query starts from.  Reading a tree goes along its spine.  What stands
at a place becomes a node, or is faulty, whatever stands at other places (`Reader.kindAt`); a place
can also lie beyond the depth that is allowed.  If no place is faulty, the chain has one node for
each of them, in opposite order.  Otherwise the outermost fault is reported.

All this holds for any registry, whatever its recognizers do.  `Reader.readFrom_end` and
`Reader.readFrom_staticCall` say once what reading does at a place, and the rest follows by
induction along the spine. -/
namespace Comprehension

/-! ### Places of the spine -/

namespace Expr

/-- The calls of a tree, from the outermost one inwards, and what the innermost one starts from. -/
def spine : Expr → List Expr
  | .staticCall method arguments =>
    match arguments with
    | [] => [.staticCall method []]
    | source :: rest => .staticCall method (source :: rest) :: source.spine
  | e => [e]
termination_by structural e => e

/-- The expression is no call with a source, so the spine does not go on. -/
def EndsSpine (e : Expr) : Prop := ∀ method source rest, e ≠ .staticCall method (source :: rest)

/-- A constant or a query whose type has items. -/
def IsSequence : Expr → Prop
  | .constant _ type => type.element?.isSome
  | .subQuery _ type => type.element?.isSome
  | _ => False

/-- Induction along the spine. -/
@[elab_as_elim]
theorem spine_induction {P : Expr → Prop} (last : ∀ e, e.EndsSpine → P e)
    (call : ∀ method source rest, P source → P (.staticCall method (source :: rest)))
    (e : Expr) : P e := by
  induction e using Expr.induction_on_children with
  | node e ih =>
    cases e with
    | staticCall method arguments =>
      cases arguments with
      | nil => exact last _ fun _ _ _ h => by cases h
      | cons source rest => exact call method source rest (ih source (List.mem_cons_self ..))
    | _ => exact last _ fun _ _ _ h => by cases h

theorem spine_call (method : Method) (source : Expr) (rest : List Expr) :
    (staticCall method (source :: rest)).spine =
      staticCall method (source :: rest) :: source.spine := rfl

theorem EndsSpine.spine_eq {e : Expr} (h : e.EndsSpine) : e.spine = [e] := by
  cases e with
  | staticCall method arguments =>
    cases arguments with
    | nil => rfl
    | cons source rest => exact absurd rfl (h method source rest)
  | _ => rfl

theorem spine_zero (e : Expr) : e.spine[0]? = some e := by
  cases e using spine_induction with
  | last e hend => rw [hend.spine_eq]; rfl
  | call method source rest => rfl

theorem length_spine_pos (e : Expr) : 0 < e.spine.length :=
  (List.getElem?_eq_some_iff.mp e.spine_zero).1

/-- The spine ends at its last place, and at no other. -/
theorem endsSpine_iff {e x : Expr} {i : Nat} (h : e.spine[i]? = some x) :
    x.EndsSpine ↔ i + 1 = e.spine.length := by
  induction e using spine_induction generalizing i with
  | last e hend =>
    rw [hend.spine_eq] at h ⊢
    cases i with
    | zero =>
      cases h
      exact iff_of_true hend rfl
    | succ i => cases h
  | call method source rest ih =>
    rw [spine_call] at h ⊢
    cases i with
    | zero =>
      cases h
      have hlength := source.length_spine_pos
      rw [List.length_cons]
      exact iff_of_false (fun hend => hend _ _ _ rfl) (by omega)
    | succ i =>
      rw [List.length_cons, ih h]
      omega

end Expr

/-- If the error names a position, it is this one. -/
def ParseError.PlacedAt (position : Nat) (error : ParseError) : Prop :=
  ∀ text named reason, error = .unsupportedExpression text named reason → named = position

namespace Reader

variable (reader : Reader)

/-- What an expression at a place of the spine becomes, or what is wrong with it. -/
def kindAt (position : Nat) : Expr → Except ParseError NodeKind
  | .constant value type => do return .constant (← ConstantSource.ofValue value type)
  | .subQuery model type => do return .subQuery (← SubQuerySource.ofModel model type)
  | .staticCall method arguments =>
    match reader.registry.recognizer? method with
    | none =>
      .error (.unsupportedExpression (Expr.staticCall method arguments).text position
        (.notAnOperator method.key.text))
    | some recognize =>
      match arguments with
      | [] => .error (.unsupportedExpression (Expr.staticCall method []).text position .noSource)
      | source :: rest => recognize ⟨.staticCall method (source :: rest), method, rest, position⟩
  | e => .error (.unsupportedExpression e.text position (.notAQuery e.kindName))

/-- The method of a call is registered, and its recognizer answers the call at a position. -/
def Answers (position : Nat) (e : Expr) (recognize : Recognizer)
    (answer : Except ParseError NodeKind) : Prop :=
  ∃ method source rest, e = .staticCall method (source :: rest) ∧
    reader.registry.recognizer? method = some recognize ∧
    recognize ⟨e, method, rest, position⟩ = answer

/-- A place is faulty when it is the first one beyond the limit, or when its expression is. -/
inductive FaultAt (position : Nat) (e : Expr) : ParseError → Prop
  | tooDeep (limit : position = reader.settings.maxChainDepth) :
    FaultAt position e (.recursionLimitExceeded (reader.settings.maxChainDepth + 1)
      reader.settings.maxChainDepth)
  | own {error : ParseError} (within : position < reader.settings.maxChainDepth)
      (fault : reader.kindAt position e = .error error) : FaultAt position e error

variable {reader} {position : Nat} {e : Expr}

/-- What becomes a node is not faulty. -/
theorem FaultAt.not_of_kindAt {kind : NodeKind} {error : ParseError}
    (hwithin : position < reader.settings.maxChainDepth)
    (hkind : reader.kindAt position e = .ok kind) : ¬ reader.FaultAt position e error := by
  rintro (limit | ⟨-, fault⟩)
  · omega
  · rw [hkind] at fault
    cases fault

/-- A place has one fault. -/
theorem FaultAt.unique {error error' : ParseError} (h : reader.FaultAt position e error)
    (h' : reader.FaultAt position e error') : error = error' := by
  rcases h with limit | ⟨hwithin, fault⟩ <;> rcases h' with limit' | ⟨hwithin', fault'⟩
  · rfl
  · omega
  · omega
  · exact Except.error.inj (fault.symm.trans fault')

/-- Inside the spine, a registered method has to recognize the call. -/
theorem kindAt_isOk_of_call {method : Method} {source : Expr} {rest : List Expr} :
    (∃ kind, reader.kindAt position (.staticCall method (source :: rest)) = .ok kind) ↔
      ∃ recognize kind,
        reader.Answers position (.staticCall method (source :: rest)) recognize (.ok kind) := by
  constructor
  · rintro ⟨kind, h⟩
    rw [kindAt] at h
    cases hregistered : reader.registry.recognizer? method with
    | none =>
      rw [hregistered] at h
      cases h
    | some recognize =>
      rw [hregistered] at h
      exact ⟨recognize, kind, method, source, rest, rfl, hregistered, h⟩
  · rintro ⟨recognize, kind, _, _, _, heq, hregistered, h⟩
    cases heq
    refine ⟨kind, ?_⟩
    rw [kindAt, hregistered]
    exact h

/-- Where the spine ends, there has to be a sequence. -/
theorem kindAt_isOk_of_end (hend : e.EndsSpine) :
    (∃ kind, reader.kindAt position e = .ok kind) ↔ e.IsSequence := by
  cases e with
  | constant value type | subQuery model type =>
    simp only [kindAt, ConstantSource.ofValue, SubQuerySource.ofModel, itemsOf, Expr.IsSequence]
    cases type.element? with
    | none =>
      refine iff_of_false ?_ (by simp)
      rintro ⟨kind, h⟩
      cases h
    | some item => exact iff_of_true ⟨_, rfl⟩ rfl
  | staticCall method arguments =>
    cases arguments with
    | nil =>
      refine iff_of_false ?_ id
      rintro ⟨kind, h⟩
      rw [kindAt] at h
      cases hregistered : reader.registry.recognizer? method <;> rw [hregistered] at h <;> cases h
    | cons source rest => exact absurd rfl (hend method source rest)
  | _ =>
    refine iff_of_false ?_ id
    rintro ⟨kind, h⟩
    cases h

/-- A fault names its own place, unless a recognizer from outside the catalog names another one. -/
theorem kindAt_fails (position : Nat) (e : Expr) :
    FailsWith (fun error => error.PlacedAt position ∨
        ∃ recognize, (∀ name count, (name, count, recognize) ∉ operatorCatalog) ∧
          reader.Answers position e recognize (.error error))
      (reader.kindAt position e) := by
  have hitems : ∀ type, FailsWith (ParseError.PlacedAt position) (itemsOf type) := by
    intro type
    rw [itemsOf]
    cases type.element? with
    | some t => exact .ok
    | none => exact .error fun _ _ _ h => by cases h
  have hplaced : ∀ (e : Expr) (reason : Unsupported),
      (ParseError.unsupportedExpression e.text position reason).PlacedAt position :=
    fun _ _ _ _ _ h => by cases h; rfl
  intro error h
  cases e with
  | constant value type =>
    exact Or.inl (FailsWith.bind (.bind (hitems type) fun _ => .ok) (fun _ => .ok) error h)
  | subQuery model type =>
    exact Or.inl (FailsWith.bind (.bind (hitems type) fun _ => .ok) (fun _ => .ok) error h)
  | staticCall method arguments =>
    rw [kindAt] at h
    cases hregistered : reader.registry.recognizer? method with
    | none =>
      rw [hregistered] at h
      cases h
      exact Or.inl (hplaced _ _)
    | some recognize =>
      rw [hregistered] at h
      cases arguments with
      | nil =>
        cases h
        exact Or.inl (hplaced _ _)
      | cons source rest =>
        by_cases hcatalog : ∃ name count, (name, count, recognize) ∈ operatorCatalog
        · obtain ⟨name, count, hmem⟩ := hcatalog
          obtain ⟨reason, -, rfl⟩ := operatorCatalog_fails hmem _ _ h
          exact Or.inl (hplaced _ _)
        · simp only [not_exists] at hcatalog
          exact Or.inr ⟨recognize, hcatalog, method, source, rest, rfl, hregistered, h⟩
  | _ =>
    cases h
    exact Or.inl (hplaced _ _)

/-! ### Reading at a place -/

theorem readFrom_tooDeep (hdeep : reader.settings.maxChainDepth ≤ position)
    (identifier : Option String) :
    reader.readFrom e position identifier =
      .error (.recursionLimitExceeded (position + 1) reader.settings.maxChainDepth) := by
  cases e <;> simp only [readFrom, if_pos hdeep]

theorem within_of_readFrom {identifier : Option String} {reading : Reading}
    (h : reader.readFrom e position identifier = .ok reading) :
    position < reader.settings.maxChainDepth := by
  by_cases hwithin : position < reader.settings.maxChainDepth
  · exact hwithin
  · rw [readFrom_tooDeep (by omega)] at h
    cases h

theorem faultAt_of_tooDeep {identifier : Option String} {error : ParseError}
    (hdeep : position = reader.settings.maxChainDepth)
    (h : reader.readFrom e position identifier = .error error) :
    reader.FaultAt position e error := by
  rw [readFrom_tooDeep (by omega)] at h
  cases h
  rw [hdeep]
  exact .tooDeep rfl

/-- Where the spine ends, the first node is made. -/
theorem readFrom_end (hwithin : position < reader.settings.maxChainDepth) (hend : e.EndsSpine)
    (identifier : Option String) :
    reader.readFrom e position identifier =
      do return reader.append .empty none identifier 0 (← reader.kindAt position e) := by
  have hlimit : ¬ reader.settings.maxChainDepth ≤ position := by omega
  cases e with
  | constant value type =>
    rw [readFrom, if_neg hlimit, kindAt]
    cases ConstantSource.ofValue value type <;> rfl
  | subQuery model type =>
    rw [readFrom, if_neg hlimit, kindAt]
    cases SubQuerySource.ofModel model type <;> rfl
  | staticCall method arguments =>
    cases arguments with
    | nil =>
      rw [readFrom, if_neg hlimit, kindAt]
      cases reader.registry.recognizer? method <;> rfl
    | cons source rest => exact absurd rfl (hend method source rest)
  | _ =>
    simp only [readFrom, if_neg hlimit]
    rfl

/-- A call is looked at before its source is read, and its node is appended afterwards. -/
theorem readFrom_staticCall (hwithin : position < reader.settings.maxChainDepth) (method : Method)
    (source : Expr) (rest : List Expr) (identifier : Option String) :
    reader.readFrom (.staticCall method (source :: rest)) position identifier = do
      let kind ← reader.kindAt position (.staticCall method (source :: rest))
      let read ← reader.readFrom source (position + 1) (sourceIdentifier? rest)
      return reader.append read.chain (some read.last) identifier read.generated kind := by
  have hlimit : ¬ reader.settings.maxChainDepth ≤ position := by omega
  rw [readFrom, if_neg hlimit, kindAt]
  cases reader.registry.recognizer? method <;> rfl

/-! ### Reading along the spine -/

/-- The reading follows the spine from a position on: the chain has a node for each place, in
opposite order, and each node is what its place becomes. -/
structure Follows (reader : Reader) (position : Nat) (e : Expr) (reading : Reading) : Prop where
  wellformed : Reading.Wellformed reading
  within : position + e.spine.length ≤ reader.settings.maxChainDepth
  length_eq : reading.chain.nodes.length = e.spine.length
  built : ∀ {i j : Nat} {node : Node}, i + j + 1 = e.spine.length →
    reading.chain.nodes[j]? = some node →
    ∃ x, e.spine[i]? = some x ∧ reader.kindAt (position + i) x = .ok node.kind

/-- The `i`-th place of a spine that begins at a position is the outermost faulty one. -/
structure FirstFault (reader : Reader) (position : Nat) (e : Expr) (i : Nat) (error : ParseError) :
    Prop where
  fault : ∃ x, e.spine[i]? = some x ∧ reader.FaultAt (position + i) x error
  before : ∀ {j : Nat} {x : Expr}, j < i → e.spine[j]? = some x →
    ∀ error', ¬ reader.FaultAt (position + j) x error'

theorem Follows.last (hwithin : position < reader.settings.maxChainDepth) (hend : e.EndsSpine)
    {kind : NodeKind} (hkind : reader.kindAt position e = .ok kind) (identifier : Option String) :
    reader.Follows position e (reader.append .empty none identifier 0 kind) := by
  obtain ⟨name, hchain, -⟩ := append_chain reader .empty none identifier 0 kind
  refine ⟨append_first .., ?_, ?_, ?_⟩
  · rw [hend.spine_eq]
    exact hwithin
  · rw [hchain, hend.spine_eq]
    rfl
  · intro i j node hij hnode
    rw [hchain] at hnode
    rw [hend.spine_eq] at hij ⊢
    have hij : i + j + 1 = 1 := hij
    have hi : i = 0 := by omega
    rcases Chain.push_getElem? hnode with hold | ⟨-, rfl⟩
    · cases hold
    · subst hi
      exact ⟨e, rfl, hkind⟩

theorem Follows.call {method : Method} {source : Expr} {rest : List Expr}
    {kind : NodeKind}
    (hkind : reader.kindAt position (.staticCall method (source :: rest)) = .ok kind)
    {read : Reading} (h : reader.Follows (position + 1) source read) (identifier : Option String) :
    reader.Follows position (.staticCall method (source :: rest))
      (reader.append read.chain (some read.last) identifier read.generated kind) := by
  obtain ⟨name, hchain, -⟩ :=
    append_chain reader read.chain (some read.last) identifier read.generated kind
  have hdeep := h.within
  have hlength := h.length_eq
  refine ⟨append_next _ h.wellformed identifier kind, ?_, ?_, ?_⟩
  · rw [Expr.spine_call, List.length_cons]
    omega
  · rw [hchain, Expr.spine_call, List.length_cons, ← hlength]
    exact List.length_append
  · intro i j node hij hnode
    rw [hchain] at hnode
    rw [Expr.spine_call, List.length_cons] at hij
    rw [Expr.spine_call]
    rcases Chain.push_getElem? hnode with hold | ⟨hj, rfl⟩
    · -- An older node stands for a place behind the first.
      have hj := (List.getElem?_eq_some_iff.mp hold).1
      obtain ⟨k, rfl⟩ : ∃ k, i = k + 1 := ⟨i - 1, by omega⟩
      obtain ⟨x, hx, hbuilt⟩ := h.built (i := k) (by omega) hold
      refine ⟨x, hx, ?_⟩
      rw [← hbuilt, Nat.add_assoc, Nat.add_comm 1 k]
    · have hi : i = 0 := by omega
      subst hi
      exact ⟨_, rfl, hkind⟩

/-- **A reading follows the spine.** -/
theorem readFrom_follows {identifier : Option String} {reading : Reading}
    (h : reader.readFrom e position identifier = .ok reading) :
    reader.Follows position e reading := by
  induction e using Expr.spine_induction generalizing position identifier reading with
  | last e hend =>
    have hwithin := within_of_readFrom h
    rw [readFrom_end hwithin hend] at h
    obtain ⟨kind, hkind, h⟩ := bind_eq_ok.mp h
    cases h
    exact .last hwithin hend hkind identifier
  | call method source rest ih =>
    have hwithin := within_of_readFrom h
    rw [readFrom_staticCall hwithin] at h
    obtain ⟨kind, hkind, h⟩ := bind_eq_ok.mp h
    obtain ⟨read, hread, h⟩ := bind_eq_ok.mp h
    cases h
    exact .call hkind (ih hread) identifier

/-- Every place of a spine that was followed is within the limit and becomes a node. -/
theorem Follows.kindAt_isOk {reading : Reading} (h : reader.Follows position e reading) {i : Nat}
    {x : Expr} (hx : e.spine[i]? = some x) :
    position + i < reader.settings.maxChainDepth ∧
      ∃ kind, reader.kindAt (position + i) x = .ok kind := by
  have hi := (List.getElem?_eq_some_iff.mp hx).1
  have hwithin := h.within
  have hj : e.spine.length - 1 - i < reading.chain.nodes.length := by
    rw [h.length_eq]
    omega
  obtain ⟨y, hy, hkind⟩ := h.built (i := i) (by omega) (List.getElem?_eq_getElem hj)
  cases hx.symm.trans hy
  exact ⟨by omega, _, hkind⟩

theorem FirstFault.first {error : ParseError} (h : reader.FaultAt position e error) :
    reader.FirstFault position e 0 error where
  fault := ⟨e, e.spine_zero, h⟩
  before hj := absurd hj (Nat.not_lt_zero _)

theorem FirstFault.call {i : Nat} {error : ParseError} {method : Method} {source : Expr}
    {rest : List Expr} {kind : NodeKind} (hwithin : position < reader.settings.maxChainDepth)
    (hkind : reader.kindAt position (.staticCall method (source :: rest)) = .ok kind)
    (h : reader.FirstFault (position + 1) source i error) :
    reader.FirstFault position (.staticCall method (source :: rest)) (i + 1) error where
  fault := by
    obtain ⟨x, hx, hfault⟩ := h.fault
    rw [Nat.add_assoc, Nat.add_comm 1 i] at hfault
    exact ⟨x, hx, hfault⟩
  before := by
    intro j x hj hx error'
    cases j with
    | zero =>
      cases hx
      exact FaultAt.not_of_kindAt hwithin hkind
    | succ j =>
      have hbefore := h.before (by omega) hx error'
      rwa [Nat.add_assoc, Nat.add_comm 1 j] at hbefore

/-- There is at most one outermost fault. -/
theorem FirstFault.unique {i i' : Nat} {error error' : ParseError}
    (h : reader.FirstFault position e i error) (h' : reader.FirstFault position e i' error') :
    i = i' ∧ error = error' := by
  obtain ⟨x, hx, hfault⟩ := h.fault
  obtain ⟨x', hx', hfault'⟩ := h'.fault
  rcases Nat.lt_trichotomy i i' with hlt | rfl | hgt
  · exact absurd hfault (h'.before hlt hx error)
  · cases hx.symm.trans hx'
    exact ⟨rfl, hfault.unique hfault'⟩
  · exact absurd hfault' (h.before hgt hx' error')

/-- **A failed reading reports the outermost fault.** -/
theorem readFrom_firstFault {identifier : Option String} {error : ParseError}
    (hposition : position ≤ reader.settings.maxChainDepth)
    (h : reader.readFrom e position identifier = .error error) :
    ∃ i, reader.FirstFault position e i error := by
  induction e using Expr.spine_induction generalizing position identifier with
  | last e hend =>
    by_cases hwithin : position < reader.settings.maxChainDepth
    · rw [readFrom_end hwithin hend] at h
      rcases bind_eq_error.mp h with hkind | ⟨_, -, h⟩
      · exact ⟨0, .first (.own hwithin hkind)⟩
      · cases h
    · exact ⟨0, .first (faultAt_of_tooDeep (by omega) h)⟩
  | call method source rest ih =>
    by_cases hwithin : position < reader.settings.maxChainDepth
    · rw [readFrom_staticCall hwithin] at h
      rcases bind_eq_error.mp h with hkind | ⟨kind, hkind, h⟩
      · exact ⟨0, .first (.own hwithin hkind)⟩
      · rcases bind_eq_error.mp h with hsource | ⟨_, -, h⟩
        · obtain ⟨i, hi⟩ := ih (by omega) hsource
          exact ⟨i + 1, hi.call hwithin hkind⟩
        · cases h
    · exact ⟨0, .first (faultAt_of_tooDeep (by omega) h)⟩

/-! ### What is read -/

/-- The tree can be read: its spine is not too long, it starts from a sequence, and the recognizers
of its calls accept them. -/
structure Accepts (reader : Reader) (e : Expr) : Prop where
  short : e.spine.length ≤ reader.settings.maxChainDepth
  source : ∃ x, e.spine.getLast? = some x ∧ x.IsSequence
  calls : ∀ {i : Nat} {x : Expr}, i + 1 < e.spine.length → e.spine[i]? = some x →
    ∃ recognize kind, reader.Answers i x recognize (.ok kind)

/-- The nodes of the chain are what the places of the spine become, from the last place to the
first, each at the position that the chain has for it. -/
structure Unrolls (reader : Reader) (e : Expr) (chain : Chain) : Prop where
  linear : chain.Linear
  length_eq : chain.nodes.length = e.spine.length
  built : ∀ {j : Nat} {node : Node}, chain.nodes[j]? = some node →
    ∃ x, e.spine[e.spine.length - 1 - j]? = some x ∧
      reader.kindAt (chain.positionOf j) x = .ok node.kind

/-- A place of the spine becomes a node if a recognizer accepts it, or, at the end, if it is a
sequence. -/
theorem kindAt_isOk_iff {i : Nat} {x : Expr} (hx : e.spine[i]? = some x) :
    (∃ kind, reader.kindAt position x = .ok kind) ↔
      if i + 1 = e.spine.length then x.IsSequence
      else ∃ recognize kind, reader.Answers position x recognize (.ok kind) := by
  have hends := Expr.endsSpine_iff hx
  split
  · next hlast => exact kindAt_isOk_of_end (hends.mpr hlast)
  · next hcall =>
    cases x using Expr.spine_induction with
    | last x hend => exact absurd (hends.mp hend) hcall
    | call method source rest => exact kindAt_isOk_of_call

/-- A tree can be read when no place of its spine is faulty. -/
theorem accepts_iff :
    reader.Accepts e ↔ ∀ {i x}, e.spine[i]? = some x → i < reader.settings.maxChainDepth ∧
      ∃ kind, reader.kindAt i x = .ok kind := by
  have hne := e.length_spine_pos
  constructor
  · intro h i x hx
    have hi := (List.getElem?_eq_some_iff.mp hx).1
    have hshort := h.short
    refine ⟨by omega, (kindAt_isOk_iff hx).mpr ?_⟩
    split
    · next hlast =>
      obtain ⟨y, hy, hsequence⟩ := h.source
      rw [List.getLast?_eq_getElem?, ← hlast, Nat.add_sub_cancel] at hy
      cases hx.symm.trans hy
      exact hsequence
    · exact h.calls (by omega) hx
  · intro h
    have hbound : e.spine.length - 1 < e.spine.length := by omega
    have hlast := List.getElem?_eq_getElem hbound
    obtain ⟨hdeep, hkind⟩ := h hlast
    refine ⟨by omega, ⟨_, by rw [List.getLast?_eq_getElem?, hlast], ?_⟩, ?_⟩
    · rwa [kindAt_isOk_iff hlast, if_pos (by omega)] at hkind
    · intro i x hi hx
      have hkind := (kindAt_isOk_iff hx).mp (h hx).2
      rwa [if_neg (by omega)] at hkind

theorem read_unrolls {chain : Chain} (h : reader.read e = .ok chain) : reader.Unrolls e chain := by
  obtain ⟨reading, hreading, rfl⟩ := read_eq_ok.mp h
  have hfollows := readFrom_follows hreading
  refine ⟨hfollows.wellformed.linear, hfollows.length_eq, ?_⟩
  intro j node hnode
  have hj := (List.getElem?_eq_some_iff.mp hnode).1
  have hlength := hfollows.length_eq
  obtain ⟨x, hx, hkind⟩ := hfollows.built (i := e.spine.length - 1 - j) (by omega) hnode
  refine ⟨x, hx, ?_⟩
  have hposition : reading.chain.positionOf j = 0 + (e.spine.length - 1 - j) := by
    rw [Chain.positionOf]
    omega
  rw [hposition]
  exact hkind

/-- A chain that was read is not longer than the settings allow. -/
theorem length_le_of_read {chain : Chain} (h : reader.read e = .ok chain) :
    chain.nodes.length ≤ reader.settings.maxChainDepth := by
  obtain ⟨reading, hreading, rfl⟩ := read_eq_ok.mp h
  have hfollows := readFrom_follows hreading
  have hwithin := hfollows.within
  rw [hfollows.length_eq]
  omega

/-- A tree that cannot be read has an outermost fault, and that is reported. -/
theorem read_eq_error {error : ParseError} :
    reader.read e = .error error ↔ ∃ i, reader.FirstFault 0 e i error := by
  rw [read]
  cases hread : reader.readFrom e 0 none with
  | ok reading =>
    refine iff_of_false (fun h => by cases h) ?_
    rintro ⟨i, ⟨x, hx, hfault⟩, -⟩
    obtain ⟨hwithin, kind, hkind⟩ := (readFrom_follows hread).kindAt_isOk hx
    exact FaultAt.not_of_kindAt hwithin hkind hfault
  | error error' =>
    have hfirst := readFrom_firstFault (Nat.zero_le _) hread
    constructor
    · intro h
      cases h
      exact hfirst
    · rintro ⟨i, hi⟩
      obtain ⟨i', hi'⟩ := hfirst
      rw [(hi.unique hi').2]
      rfl

/-- **Reading goes along the spine.**  A tree is read exactly when it can be, its chain is then the
spine from the source outwards, and otherwise the outermost fault is reported.  A fault that names a
position names the one where it is, unless it comes from a recognizer outside the catalog. -/
theorem read_spine (reader : Reader) (e : Expr) :
    ((∃ chain, reader.read e = .ok chain) ↔ reader.Accepts e) ∧
      (∀ chain, reader.read e = .ok chain → reader.Unrolls e chain) ∧
      (∀ error, reader.read e = .error error ↔ ∃ i, reader.FirstFault 0 e i error) ∧
      ∀ i error, reader.FirstFault 0 e i error →
        error.PlacedAt i ∨
          ∃ x recognize, e.spine[i]? = some x ∧
            (∀ name count, (name, count, recognize) ∉ operatorCatalog) ∧
            reader.Answers i x recognize (.error error) := by
  refine ⟨?_, fun chain h => read_unrolls h, fun error => read_eq_error, ?_⟩
  · rw [accepts_iff]
    constructor
    · rintro ⟨chain, h⟩ i x hx
      obtain ⟨reading, hreading, -⟩ := read_eq_ok.mp h
      have hplace := (readFrom_follows hreading).kindAt_isOk hx
      rwa [Nat.zero_add] at hplace
    · intro h
      cases hread : reader.read e with
      | ok chain => exact ⟨chain, rfl⟩
      | error error =>
        obtain ⟨i, ⟨x, hx, hfault⟩, -⟩ := read_eq_error.mp hread
        obtain ⟨hwithin, kind, hkind⟩ := h hx
        rw [Nat.zero_add] at hfault
        exact absurd hfault (FaultAt.not_of_kindAt hwithin hkind)
  · rintro i error ⟨⟨x, hx, hfault⟩, -⟩
    rw [Nat.zero_add] at hfault
    rcases hfault with limit | ⟨-, fault⟩
    · exact Or.inl fun _ _ _ h => by cases h
    · rcases kindAt_fails i x error fault with hplaced | ⟨recognize, houtside, hanswer⟩
      · exact Or.inl hplaced
      · exact Or.inr ⟨x, recognize, hx, houtside, hanswer⟩

end Reader

/-- Refuses filters, in its own words and without looking where they are. -/
def Sample.unfiltered : Reader :=
  ⟨Registry.default.register ⟨"Queryable", "Where", 2⟩ fun call =>
    .error (.unsupportedExpression call.method.name 0 (.other "filters are not allowed")), .default⟩

/-- Seven places are read at the usual depth.  At a depth of three, the fourth place is too deep;
and a recognizer from elsewhere is reported with what it says, at the place that it names. -/
theorem Reader.read_spine_groups :
    default.Accepts Sample.groups ∧
      (∃ chain, default.read Sample.groups = .ok chain ∧ default.Unrolls Sample.groups chain) ∧
      (∃ i, (ofSettings (Settings.default.withMaxChainDepth 3)).FirstFault 0 Sample.groups i
        (.recursionLimitExceeded 4 3)) ∧
      ∃ i, Sample.unfiltered.FirstFault 0 Sample.groups i
        (.unsupportedExpression "Where" 0 (.other "filters are not allowed")) := by
  obtain ⟨chain, hchain⟩ : ∃ chain, default.read Sample.groups = .ok chain := ⟨_, rfl⟩
  refine ⟨(read_spine _ _).1.mp ⟨chain, hchain⟩, ⟨chain, hchain, ?_⟩, ?_, ?_⟩
  · exact (read_spine _ _).2.1 chain hchain
  · exact ((read_spine _ _).2.2.1 _).mp rfl
  · exact ((read_spine _ _).2.2.1 _).mp rfl

end Comprehension
