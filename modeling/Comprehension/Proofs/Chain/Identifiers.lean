import Comprehension.Proofs.Chain.Spine

/-! # Where identifiers come from

A node is called what its consumer calls its items: the consumer is the next call outwards, and its
first lambda with a parameter has a name for them (`Expr.NamedAt`).  All other nodes get generated
identifiers.  Names are handed inwards along the spine, but identifiers are numbered on the way
back, from the source on, so that the generated ones have the numbers 0, 1, 2, … in the order of the
chain (`Reader.Numbered`). -/
namespace Comprehension

/-! ### Names for items -/

/-- The arguments have a name for the items: the first parameter of their first lambda, under quotes
or not, that has a parameter. -/
def FirstParameter (arguments : List Expr) (name : String) : Prop :=
  ∃ before x after l p ps, arguments = before ++ x :: after ∧
    (∀ y ∈ before, ∀ k, y.asLambda? = some k → k.parameters = []) ∧
    x.asLambda? = some l ∧ l.parameters = p :: ps ∧ p.name = name

/-- The name that an argument has for the items, if it is a lambda with a parameter. -/
def Expr.firstName? (argument : Expr) : Option String :=
  argument.asLambda?.bind fun l => l.parameters.head?.map Parameter.name

theorem Expr.firstName?_eq_some {x : Expr} {name : String} :
    x.firstName? = some name ↔
      ∃ l p ps, x.asLambda? = some l ∧ l.parameters = p :: ps ∧ p.name = name := by
  simp only [firstName?, Option.bind_eq_some_iff, Option.map_eq_some_iff, List.head?_eq_some_iff]
  constructor
  · rintro ⟨l, hl, p, ⟨ps, hps⟩, hname⟩
    exact ⟨l, p, ps, hl, hps, hname⟩
  · rintro ⟨l, p, ps, hl, hps, hname⟩
    exact ⟨l, hl, p, ⟨ps, hps⟩, hname⟩

theorem Expr.firstName?_eq_none {x : Expr} :
    x.firstName? = none ↔ ∀ l, x.asLambda? = some l → l.parameters = [] := by
  simp only [firstName?, Option.bind_eq_none_iff, Option.map_eq_none_iff, List.head?_eq_none_iff]

theorem sourceIdentifier?_eq_findSome? (arguments : List Expr) :
    sourceIdentifier? arguments = arguments.findSome? Expr.firstName? := by
  unfold sourceIdentifier?
  induction arguments with
  | nil => rfl
  | cons x xs ih =>
    rw [List.findSome?_cons, ← ih, Expr.firstName?, List.filterMap_cons]
    cases x.asLambda? with
    | none => rfl
    | some l =>
      rw [List.findSome?_cons]
      rfl

theorem sourceIdentifier?_eq_some {arguments : List Expr} {name : String} :
    sourceIdentifier? arguments = some name ↔ FirstParameter arguments name := by
  rw [sourceIdentifier?_eq_findSome?, List.findSome?_eq_some_iff]
  simp only [Expr.firstName?_eq_some, Expr.firstName?_eq_none]
  constructor
  · rintro ⟨before, x, after, hsplit, ⟨l, p, ps, hl, hps, hname⟩, hbefore⟩
    exact ⟨before, x, after, l, p, ps, hsplit, hbefore, hl, hps, hname⟩
  · rintro ⟨before, x, after, l, p, ps, hsplit, hbefore, hl, hps, hname⟩
    exact ⟨before, x, after, hsplit, ⟨l, p, ps, hl, hps, hname⟩, hbefore⟩

namespace Expr

/-- The name that a call has for the items that flow into it. -/
def itemName? : Expr → Option String
  | .staticCall _ (_ :: rest) => sourceIdentifier? rest
  | _ => none

/-- The consumer of the `j`-th node, counted from the source, has this name for its items. -/
def NamedAt (e : Expr) (j : Nat) (name : String) : Prop :=
  ∃ method source rest, e.spine.reverse[j + 1]? = some (.staticCall method (source :: rest)) ∧
    FirstParameter rest name

theorem itemName?_eq_some {e : Expr} {name : String} :
    e.itemName? = some name ↔
      ∃ method source rest, e = .staticCall method (source :: rest) ∧ FirstParameter rest name := by
  cases e using spine_induction with
  | last e hend =>
    have hnone : e.itemName? = none := by
      unfold itemName?
      split
      · exact absurd rfl (hend _ _ _)
      · rfl
    rw [hnone]
    refine iff_of_false (fun h => by cases h) ?_
    rintro ⟨method, source, rest, heq, -⟩
    exact hend method source rest heq
  | call method source rest =>
    rw [itemName?, sourceIdentifier?_eq_some]
    constructor
    · exact fun h => ⟨method, source, rest, rfl, h⟩
    · rintro ⟨_, _, _, heq, h⟩
      cases heq
      exact h

/-- The names for the nodes of a tree, from the source on, where the last one is given. -/
def names (e : Expr) (identifier : Option String) : List (Option String) :=
  e.spine.reverse.tail.map itemName? ++ [identifier]

theorem EndsSpine.names_eq {e : Expr} (h : e.EndsSpine) (identifier : Option String) :
    e.names identifier = [identifier] := by
  rw [names, h.spine_eq]
  rfl

theorem names_call (method : Method) (source : Expr) (rest : List Expr)
    (identifier : Option String) :
    (staticCall method (source :: rest)).names identifier =
      source.names (sourceIdentifier? rest) ++ [identifier] := by
  have hne : source.spine.reverse ≠ [] := by
    rw [← List.length_pos_iff, List.length_reverse]
    exact source.length_spine_pos
  rw [names, spine_call, List.reverse_cons, List.tail_append_of_ne_nil hne, List.map_append, names]
  rfl

theorem names_getElem? {e : Expr} {j : Nat} {name : String} :
    (e.names none)[j]? = some (some name) ↔ e.NamedAt j name := by
  have hinner : (e.names none)[j]? = some (some name) ↔
      ∃ call, e.spine.reverse[j + 1]? = some call ∧ call.itemName? = some name := by
    rw [← List.getElem?_tail, ← Option.map_eq_some_iff, ← List.getElem?_map, names]
    by_cases hj : j < (e.spine.reverse.tail.map itemName?).length
    · rw [List.getElem?_append_left hj]
    · have hout : (e.spine.reverse.tail.map itemName?)[j]? = none :=
        List.getElem?_eq_none (by omega)
      rw [List.getElem?_append_right (by omega), hout]
      refine iff_of_false ?_ (fun h => by cases h)
      intro h
      cases List.mem_singleton.mp (List.mem_of_getElem? h)
  rw [hinner]
  simp only [itemName?_eq_some]
  constructor
  · rintro ⟨_, hcall, method, source, rest, rfl, h⟩
    exact ⟨method, source, rest, hcall, h⟩
  · rintro ⟨method, source, rest, hcall, h⟩
    exact ⟨_, hcall, method, source, rest, rfl, h⟩

instance (e : Expr) (j : Nat) : Decidable (∃ name, e.NamedAt j name) :=
  decidable_of_iff ((e.names none)[j]?.join.isSome) (by
    simp only [Option.isSome_iff_exists, Option.join_eq_some_iff, names_getElem?])

end Expr

/-! ### Numbered identifiers -/

theorem Settings.generatedIdentifier_injective (settings : Settings) {k l : Nat}
    (h : settings.generatedIdentifier k = settings.generatedIdentifier l) : k = l := by
  unfold generatedIdentifier at h
  have hrepr : k.repr = l.repr := (String.append_right_inj _).mp h
  have hdigits : Nat.toDigits 10 k = Nat.toDigits 10 l := by
    rw [← Nat.toList_repr, ← Nat.toList_repr, hrepr]
  calc k = Nat.ofDigitChars 10 (Nat.toDigits 10 k) 0 :=
        (Nat.ofDigitChars_toDigits (by decide) (by decide)).symm
    _ = Nat.ofDigitChars 10 (Nat.toDigits 10 l) 0 := by rw [hdigits]
    _ = l := Nat.ofDigitChars_toDigits (by decide) (by decide)

namespace Reader

/-- The nodes of a chain have the names given for them and, where no name is given, so many
generated identifiers in order. -/
structure Numbered (reader : Reader) (names : List (Option String)) (chain : Chain)
    (generated : Nat) : Prop where
  length_eq : chain.nodes.length = names.length
  named : ∀ {j : Nat} {node : Node} {name : String}, chain.nodes[j]? = some node →
    names[j]? = some (some name) → node.identifier = name
  generated : (chain.nodes.filter fun node => names[node.id]? = some none).map Node.identifier =
    (List.range generated).map reader.settings.generatedIdentifier

variable {reader : Reader} {names : List (Option String)} {chain : Chain} {generated : Nat}

/-- What appending does: one more node, called what was given for it or the next number. -/
theorem append_eq (reader : Reader) (chain : Chain) (source : Option Nat)
    (identifier : Option String) (generated : Nat) (kind : NodeKind) :
    reader.append chain source identifier generated kind =
      ⟨⟨chain.nodes ++ [⟨chain.nodes.length, source,
          identifier.getD (reader.settings.generatedIdentifier generated), kind⟩]⟩,
        chain.nodes.length, if identifier.isNone then generated + 1 else generated⟩ := by
  cases identifier <;> rfl

/-- **Appending a node** keeps the numbering: the node takes the name given for it, or the next
number. -/
theorem Numbered.append (h : reader.Numbered names chain generated) (hlinear : chain.Linear)
    (source : Option Nat) (identifier : Option String) (kind : NodeKind) :
    reader.Numbered (names ++ [identifier])
      (reader.append chain source identifier generated kind).chain
      (reader.append chain source identifier generated kind).generated := by
  have hlength := h.length_eq
  have hnew : (names ++ [identifier])[chain.nodes.length]? = some identifier := by
    rw [hlength, List.getElem?_concat_length]
  -- What is said of the nodes before stays as it is.
  have hold : chain.nodes.filter (fun node => (names ++ [identifier])[node.id]? = some none) =
      chain.nodes.filter fun node => names[node.id]? = some none := by
    refine List.filter_congr fun node hnode => ?_
    obtain ⟨j, hj⟩ := List.mem_iff_getElem?.mp hnode
    have hlt := (List.getElem?_eq_some_iff.mp hj).1
    rw [hlinear.id_eq hj, List.getElem?_append_left (by omega)]
  rw [append_eq]
  refine ⟨?_, ?_, ?_⟩
  · simp [hlength]
  · intro j node name hnode hname
    by_cases hj : j < chain.nodes.length
    · rw [List.getElem?_append_left hj] at hnode
      rw [List.getElem?_append_left (by omega)] at hname
      exact h.named hnode hname
    · have hlast : j = chain.nodes.length := by
        have hlt := (List.getElem?_eq_some_iff.mp hnode).1
        rw [List.length_append, List.length_singleton] at hlt
        omega
      subst j
      rw [List.getElem?_concat_length] at hnode
      rw [hnew] at hname
      cases hnode
      cases hname
      rfl
  · rw [List.filter_append, hold, List.map_append, h.generated]
    cases identifier with
    | none => simp [hnew, List.range_succ]
    | some name => simp [hnew]

/-- **A reading is numbered.**  The name for a place of the spine comes from the call before it. -/
theorem readFrom_numbered {e : Expr} {position : Nat} {identifier : Option String}
    {reading : Reading} (h : reader.readFrom e position identifier = .ok reading) :
    reader.Numbered (e.names identifier) reading.chain reading.generated := by
  induction e using Expr.spine_induction generalizing position identifier reading with
  | last e hend =>
    have hwithin := within_of_readFrom h
    rw [readFrom_end hwithin hend] at h
    obtain ⟨kind, -, h⟩ := bind_eq_ok.mp h
    cases h
    have hempty : reader.Numbered [] .empty 0 := ⟨rfl, fun h => (by cases h), rfl⟩
    rw [hend.names_eq]
    exact hempty.append .empty none identifier kind
  | call method source rest ih =>
    have hwithin := within_of_readFrom h
    rw [readFrom_staticCall hwithin] at h
    obtain ⟨kind, -, h⟩ := bind_eq_ok.mp h
    obtain ⟨read, hread, h⟩ := bind_eq_ok.mp h
    cases h
    rw [Expr.names_call]
    exact (ih hread).append (readFrom_follows hread).wellformed.linear _ identifier kind

end Reader

/-! ### The identifiers of a chain -/

/-- Nothing consumes the outermost call. -/
theorem Expr.not_namedAt_of_last {e : Expr} {j : Nat} (hj : e.spine.length ≤ j + 1)
    (name : String) : ¬ e.NamedAt j name := by
  rintro ⟨method, source, rest, hcall, -⟩
  rw [List.getElem?_eq_none (by rwa [List.length_reverse])] at hcall
  cases hcall

/-- The nodes of a chain for whose items no consumer has a name. -/
def Chain.unnamed (chain : Chain) (e : Expr) : List Node :=
  chain.nodes.filter fun node => ¬ ∃ name, e.NamedAt node.id name

namespace Reader

variable {reader : Reader} {e : Expr} {chain : Chain}

theorem Numbered.unnamed_eq {generated : Nat}
    (h : reader.Numbered (e.names none) chain generated) (hlinear : chain.Linear) :
    chain.unnamed e = chain.nodes.filter fun node => (e.names none)[node.id]? = some none := by
  refine List.filter_congr fun node hnode => ?_
  obtain ⟨j, hj⟩ := List.mem_iff_getElem?.mp hnode
  have hlt : j < (e.names none).length := by
    rw [← h.length_eq]
    exact (List.getElem?_eq_some_iff.mp hj).1
  rw [hlinear.id_eq hj, decide_eq_decide]
  simp only [← Expr.names_getElem?]
  rw [List.getElem?_eq_getElem hlt]
  cases (e.names none)[j] <;> simp

/-- The outermost call is unnamed, and so it is the last unnamed node. -/
theorem Unrolls.getLast?_unnamed (h : reader.Unrolls e chain) :
    ∃ last, chain.last? = some last ∧ (chain.unnamed e).getLast? = some last := by
  have hlength := h.length_eq
  have hne : chain.nodes ≠ [] := by
    rw [← List.length_pos_iff, hlength]
    exact e.length_spine_pos
  obtain ⟨last, hlast⟩ : ∃ last, chain.nodes.getLast? = some last :=
    ⟨_, List.getLast?_eq_some_getLast hne⟩
  obtain ⟨before, hsplit⟩ := List.getLast?_eq_some_iff.mp hlast
  have hid := h.linear.id_of_split hsplit
  rw [hsplit, List.length_append, List.length_singleton] at hlength
  have hunnamed : ¬ ∃ name, e.NamedAt last.id name := by
    rintro ⟨name, hname⟩
    exact Expr.not_namedAt_of_last (by omega) name hname
  refine ⟨last, hlast, ?_⟩
  rw [Chain.unnamed, hsplit, List.filter_append, List.filter_cons_of_pos (by simpa using hunnamed),
    List.filter_nil, List.getLast?_concat]

/-- **Identifiers follow consumers.**  A node is called what its consumer calls its items.  All
other nodes, the last one among them, are numbered in the order of the chain, without gaps, so that
no two of them are called the same. -/
theorem read_identifiers (h : reader.read e = .ok chain) :
    reader.Unrolls e chain ∧
    (∀ node ∈ chain.nodes, ∀ name, e.NamedAt node.id name → node.identifier = name) ∧
    (chain.unnamed e).map Node.identifier =
      (List.range (chain.unnamed e).length).map reader.settings.generatedIdentifier ∧
    ((chain.unnamed e).map Node.identifier).Nodup ∧
    ∃ last, chain.last? = some last ∧ (chain.unnamed e).getLast? = some last := by
  have hunrolls := read_unrolls h
  obtain ⟨reading, hreading, rfl⟩ := read_eq_ok.mp h
  have hnumbered := readFrom_numbered hreading
  have hgenerated := hnumbered.generated
  rw [← hnumbered.unnamed_eq hunrolls.linear] at hgenerated
  have hcount : (reading.chain.unnamed e).length = reading.generated := by
    have hlengths := congrArg List.length hgenerated
    rwa [List.length_map, List.length_map, List.length_range] at hlengths
  refine ⟨hunrolls, ?_, by rw [hcount, hgenerated], ?_, hunrolls.getLast?_unnamed⟩
  · intro node hnode name hname
    obtain ⟨j, hj⟩ := List.mem_iff_getElem?.mp hnode
    rw [hunrolls.linear.id_eq hj, ← Expr.names_getElem?] at hname
    exact hnumbered.named hj hname
  · rw [hgenerated]
    refine List.pairwise_map.mpr (List.nodup_range.imp ?_)
    intro k l hne heq
    exact hne (reader.settings.generatedIdentifier_injective heq)

end Reader

/-- `….Where(c => …).Distinct().SelectMany(c => …, …).GroupBy(c => …).Take(10)` -/
def Sample.distinctGroups : Expr := grouped (pairs (call starred "Distinct" [] (.queryable cook)))

/-- `Distinct` and `Take` have no names for their items, and nothing consumes `Take`. -/
theorem Reader.read_identifiers_distinctGroups :
    ∃ chain, default.read Sample.distinctGroups = .ok chain ∧
      chain.nodes.map Node.identifier =
        ["c", "<generated>_0", "c", "c", "<generated>_1", "<generated>_2"] ∧
      (∀ node ∈ chain.nodes, ∀ name, Sample.distinctGroups.NamedAt node.id name →
        node.identifier = name) ∧
      (chain.unnamed Sample.distinctGroups).map Node.id = [1, 4, 5] ∧
      (chain.unnamed Sample.distinctGroups).map Node.identifier =
        (List.range 3).map Settings.default.generatedIdentifier := by
  obtain ⟨chain, hchain⟩ : ∃ chain, default.read Sample.distinctGroups = .ok chain := ⟨_, rfl⟩
  obtain ⟨-, hnamed, hgenerated, -, -⟩ := read_identifiers hchain
  refine ⟨chain, hchain, ?_, hnamed, ?_, ?_⟩
  · cases hchain
    rfl
  · cases hchain
    rfl
  · cases hchain
    exact hgenerated

end Comprehension
