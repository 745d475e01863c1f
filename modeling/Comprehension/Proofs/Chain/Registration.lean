import Comprehension.Proofs.Chain.Resolvability

/-! # What making a clause leaves behind

A context remembers the query source that was made for a node.  Making a clause changes this in
one place, at the very end, so a failure leaves everything as it was (`createClause_clean`), and a
result adds the new source or nothing (`createClause_cases`).

Calls can come in any order, for nodes of any chain, and go on after failures.  Along all of them
the context only grows (`sources_grow`).  So a node for which a source was made gets no other one
later (`createClause_atomic`).  A call that failed is as good as none, and may be made again. -/
namespace Comprehension

/-- The source that a clause brings in, if it is a from clause. -/
def Clause.source? : Clause → Option Source
  | .mainFrom c => some c.source
  | .body c => c.source?
  | _ => none

/-! ### Failures -/

namespace Build

variable {α β : Type}

/-- The sources stay as they are. -/
def Keeps (x : Build α) : Prop := ∀ s, (x.after s).sources = s.sources

/-- A failure leaves the sources as they were. -/
def FailsClean (x : Build α) : Prop := ∀ s e t, x.run s = .error e t → t.sources = s.sources

theorem Keeps.ofExcept (x : Except ParseError α) : Keeps (ofExcept x) := by
  intro s
  cases x <;> rfl

theorem Keeps.failsClean {x : Build α} (h : Keeps x) : FailsClean x := by
  intro s e t herror
  rw [← h s, after_of_error herror]

/-- What comes before the first change may fail anywhere. -/
theorem FailsClean.bind {x : Build α} {f : α → Build β} (hx : Keeps x)
    (hf : ∀ a, FailsClean (f a)) : FailsClean (x >>= f) := by
  intro s e t h
  rcases run_bind_eq_error.mp h with herror | ⟨a, u, hok, herror⟩
  · exact hx.failsClean s e t herror
  · rw [hf a u e t herror, ← after_of_ok hok, hx s]

/-- What comes behind the last change must not fail. -/
theorem FailsClean.map {x : Build α} (hx : FailsClean x) (f : α → β) :
    FailsClean (x >>= fun a => (pure (f a) : Build β)) := by
  intro s e t h
  rcases run_bind_eq_error.mp h with herror | ⟨_, _, -, herror⟩
  · exact hx s e t herror
  · cases herror

theorem FailsClean.newSourceFor (node : Node) (name : String) (type : Ty) :
    FailsClean (newSourceFor node name type) := by
  refine .bind (fun _ => rfl) fun source => .map ?_ _
  refine .bind (fun _ => rfl) fun context => .bind (.ofExcept _) fun sources => ?_
  intro _ _ _ h
  cases h

end Build

namespace Chain

variable (chain : Chain) (node : Node)

theorem laterClause_clean : Build.FailsClean (chain.laterClause node) := by
  refine .bind (fun _ => rfl) fun context => ?_
  cases node.kind with
  | constant _ | subQuery _ | select _ | operator _ => exact Build.Keeps.failsClean fun _ => rfl
  | filter _ | orderBy _ _ | thenBy _ _ => exact .map (Build.Keeps.ofExcept _).failsClean _
  | selectMany c r =>
    refine .bind (.ofExcept _) fun e => .bind (.ofExcept _) fun itemType => ?_
    exact .map (.newSourceFor node _ itemType) _
  | groupBy k element =>
    exact .bind (.ofExcept _) fun _ => .map (Build.Keeps.ofExcept _).failsClean _

/-- **A clause that cannot be made leaves no trace.** -/
theorem createClause_clean (previous : Option Clause) :
    Build.FailsClean (chain.createClause node previous) := by
  have hthrow : ∀ error : ParseError, Build.FailsClean (throw error : Build (Option Clause)) :=
    fun _ => Build.Keeps.failsClean fun _ => rfl
  rw [createClause.eq_def]
  cases node.kind with
  | constant _ | subQuery _ =>
    cases previous with
    | none => exact .map (.newSourceFor node _ _) _
    | some _ => exact hthrow _
  | _ =>
    cases previous with
    | none => exact hthrow _
    | some _ => exact chain.laterClause_clean node

/-! ### Results -/

variable {chain node} {previous made : Option Clause} {s t : Context}

/-- **What a result changes.**  A node that makes a source had none, and has the one of its clause
now; any other node leaves the context alone. -/
theorem createClause_cases (h : (chain.createClause node previous).run s = .ok made t) :
    node.kind.makesSource = false ∧ t = s ∨
      node.kind.makesSource = true ∧ s.sources.contains node.id = false ∧
        ∃ clause source, made = some clause ∧ clause.source? = some source ∧
          t = s.withSource node source := by
  cases horigin : node.kind.origin? with
  | some origin =>
    obtain ⟨-, hnew, rfl, rfl⟩ := (run_createClause_source horigin).mp h
    have hmakes := NodeKind.makesSource_of_isSource (NodeKind.isSource_of_origin? horigin)
    exact Or.inr ⟨hmakes, hnew, _, _, rfl, rfl, rfl⟩
  | none =>
    obtain ⟨-, hlater⟩ := (run_createClause_later horigin).mp h
    cases hkind : node.kind with
    | constant _ | subQuery _ =>
      rw [hkind] at horigin
      cases horigin
    | selectMany c r =>
      obtain ⟨_, _, -, -, hnew, rfl, rfl⟩ := (run_laterClause_selectMany hkind).mp hlater
      exact Or.inr ⟨rfl, hnew, _, _, rfl, rfl, rfl⟩
    | filter _ | orderBy _ _ | thenBy _ _ =>
      obtain ⟨_, -, -, rfl⟩ := (run_laterClause_single (by rw [hkind]; rfl)).mp hlater
      exact Or.inl ⟨rfl, rfl⟩
    | select l =>
      obtain ⟨-, rfl⟩ := (run_laterClause_select hkind).mp hlater
      exact Or.inl ⟨rfl, rfl⟩
    | groupBy k element =>
      obtain ⟨_, _, -, -, -, rfl⟩ := (run_laterClause_groupBy hkind).mp hlater
      exact Or.inl ⟨rfl, rfl⟩
    | operator op =>
      obtain ⟨-, rfl⟩ := (run_laterClause_operator hkind).mp hlater
      exact Or.inl ⟨rfl, rfl⟩

/-! ### Calls in any order -/

/-- A call that makes a clause. -/
structure Call where
  chain : Chain
  node : Node
  previous : Option Clause

def Call.make (call : Call) : Build (Option Clause) :=
  call.chain.createClause call.node call.previous

/-- The context behind several calls, each of which gives a result or fails. -/
def afterCalls (calls : List Call) (context : Context) : Context :=
  calls.foldl (fun context call => call.make.after context) context

/-- One call adds at most one source, at the end. -/
theorem Call.sources_grow (call : Call) (s : Context) :
    s.sources.entries <+: (call.make.after s).sources.entries := by
  cases h : call.make.run s with
  | error e t =>
    have hsame := createClause_clean call.chain call.node call.previous s e t h
    exact ⟨[], by rw [Build.after_of_error h, hsame, List.append_nil]⟩
  | ok made t =>
    rw [Build.after_of_ok h]
    rcases createClause_cases h with ⟨-, rfl⟩ | ⟨-, -, _, _, -, -, rfl⟩
    · exact List.prefix_rfl
    · exact List.prefix_append _ _

/-- **Sources are only added**, whatever is called. -/
theorem sources_grow (calls : List Call) (s : Context) :
    s.sources.entries <+: (afterCalls calls s).sources.entries := by
  induction calls generalizing s with
  | nil => exact List.prefix_rfl
  | cons call calls ih => exact (call.sources_grow s).trans (ih _)

end Chain

/-- A source stays the one of its node when others are added behind it. -/
theorem SourceMap.find?_of_prefix {map map' : SourceMap} (h : map.entries <+: map'.entries)
    {id : Nat} {source : Source} (hfound : map.find? id = some source) :
    map'.find? id = some source := by
  obtain ⟨added, hadded⟩ := h
  obtain ⟨entry, hentry, rfl⟩ := Option.map_eq_some_iff.mp hfound
  rw [SourceMap.find?, ← hadded, List.find?_append, hentry]
  rfl

namespace Chain

/-- A call for a node that has a source fails, if it would make another. -/
theorem Call.fails_of_mapped {call : Call} (hmakes : call.node.kind.makesSource = true)
    {s : Context} (hmapped : s.sources.contains call.node.id = true) :
    ∃ e t, call.make.run s = .error e t ∧ t.sources = s.sources := by
  cases h : call.make.run s with
  | error e t =>
    exact ⟨e, t, rfl, createClause_clean call.chain call.node call.previous s e t h⟩
  | ok made t =>
    rcases createClause_cases h with ⟨hnot, -⟩ | ⟨-, hnew, -⟩
    · rw [hmakes] at hnot
      cases hnot
    · rw [hmapped] at hnew
      cases hnew

/-- **Making a clause is all or nothing.**  A failure leaves the sources as they were.  A result
adds one entry for a node that makes a source, with the source of the clause that was made, and
nothing for any other node.  Over any calls the entries only grow.  Once a source was made for a
node, every later call that would make one for it fails and changes nothing. -/
theorem createClause_atomic (chain : Chain) (node : Node) (previous : Option Clause) (s : Context) :
    (∀ e t, (chain.createClause node previous).run s = .error e t → t.sources = s.sources) ∧
    (∀ made t, (chain.createClause node previous).run s = .ok made t →
      if node.kind.makesSource then
        s.sources.find? node.id = none ∧
          ∃ clause source, made = some clause ∧ clause.source? = some source ∧
            t.sources.entries = s.sources.entries ++ [(node.id, source)]
      else t.sources = s.sources) ∧
    (∀ calls : List Call,
      s.sources.entries <+: (afterCalls calls s).sources.entries ∧
      ∀ id source, s.sources.find? id = some source →
        (afterCalls calls s).sources.find? id = some source) ∧
    ∀ made t, (chain.createClause node previous).run s = .ok made t → node.kind.makesSource →
      ∀ (calls : List Call) (again : Call), again.node.id = node.id → again.node.kind.makesSource →
        ∃ e u, again.make.run (afterCalls calls t) = .error e u ∧
          u.sources = (afterCalls calls t).sources := by
  refine ⟨createClause_clean chain node previous s, fun made t h => ?_, fun calls => ?_, ?_⟩
  · rcases createClause_cases h with
      ⟨hnot, rfl⟩ | ⟨hmakes, hnew, clause, source, hmade, hsource, rfl⟩
    · rw [if_neg (by rw [hnot]; exact Bool.false_ne_true)]
    · rw [if_pos hmakes]
      exact ⟨SourceMap.find?_eq_none_iff.mpr hnew, clause, source, hmade, hsource, rfl⟩
  · have hgrow := sources_grow calls s
    exact ⟨hgrow, fun id source hfound => SourceMap.find?_of_prefix hgrow hfound⟩
  · intro made t h hmakes calls again hid hagain
    rcases createClause_cases h with ⟨hnot, -⟩ | ⟨-, hnew, -, source, -, -, rfl⟩
    · rw [hnot] at hmakes
      cases hmakes
    · have hself : (s.withSource node source).sources.find? node.id = some source :=
        Context.find?_withSource_self hnew
      have hlater := SourceMap.find?_of_prefix (sources_grow calls _) hself
      apply again.fails_of_mapped hagain
      rw [hid, SourceMap.contains, hlater]
      rfl

end Chain

namespace Sample

def cooksNode : Node := ⟨0, none, "c", .constant ⟨.source "Cooks", .queryable cook, cook⟩⟩

/-- The assistants of the cooks. -/
def assistantsNode : Node :=
  ⟨1, some 0, "a",
    .selectMany ⟨[c], property "Cook" "Assistants" (.list assistant) (.parameter c)⟩ none⟩

def cooksAndAssistants : Chain := ⟨[cooksNode, assistantsNode]⟩

def callCooks : Chain.Call := ⟨cooksAndAssistants, cooksNode, none⟩

def callAssistants : Chain.Call :=
  ⟨cooksAndAssistants, assistantsNode, some (.operator .distinct)⟩

end Sample

open Sample Chain in
/-- The cooks get their source once, also after the assistants got theirs. -/
theorem Chain.createClause_atomic_cooks :
    ∃ made t, callCooks.make.run ⟨.empty, 7⟩ = .ok made t ∧
      t.sources.entries = [(0, ⟨7, "c", cook⟩)] ∧
      ∃ e u, callCooks.make.run (afterCalls [callAssistants] t) = .error e u ∧
        u.sources = (afterCalls [callAssistants] t).sources := by
  obtain ⟨made, t, hrun, hentries⟩ : ∃ made t, callCooks.make.run ⟨.empty, 7⟩ = .ok made t ∧
      t.sources.entries = [(0, ⟨7, "c", cook⟩)] := ⟨_, _, rfl, rfl⟩
  obtain ⟨-, -, -, hagain⟩ := createClause_atomic cooksAndAssistants cooksNode none ⟨.empty, 7⟩
  exact ⟨made, t, hrun, hentries, hagain made t hrun rfl [callAssistants] callCooks rfl rfl⟩

open Sample Chain in
/-- The assistants are called for too early, before there is a source of cooks.  This fails, and
leaves nothing behind that would hinder the second call for them. -/
theorem Chain.createClause_succeeds_again :
    ∃ e t made u, callAssistants.make.run ⟨.empty, 7⟩ = .error e t ∧
      callAssistants.node.kind.makesSource = true ∧
      callAssistants.make.run (afterCalls [callCooks] t) = .ok made u ∧
      (afterCalls [callCooks] t).sources.contains 1 = false ∧
      u.sources.contains 1 = true := ⟨_, _, _, _, rfl, rfl, rfl, rfl, rfl⟩

end Comprehension
