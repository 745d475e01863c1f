import Comprehension.Proofs.Chain.References
import Mathlib.Data.List.Induction

/-! # The grammar of chains

Four rules about the kinds of the nodes behind a source say whether a chain has a model (`Grammar`):
clauses come before results, a further sort key follows a sort key, there is at most one grouping,
and an operator that gives no sequence is the last node.

The first three can be told node by node: they hold when every kind fits behind those before it
(`AllFit`).  Kinds that fit are clauses first and results behind them (`results_after`). -/
namespace Comprehension

/-! ### The rules -/

namespace NodeKind

/-- Whether a node contributes to the clauses or to the selector. -/
def isClause : NodeKind → Bool
  | .filter _ => true
  | .select _ => true
  | .selectMany .. => true
  | .orderBy .. => true
  | .thenBy .. => true
  | _ => false

/-- Whether a node contributes a result operator. -/
def isResult : NodeKind → Bool
  | .groupBy .. => true
  | .operator _ => true
  | _ => false

def isSelect : NodeKind → Bool
  | .select _ => true
  | _ => false

def isThenBy : NodeKind → Bool
  | .thenBy .. => true
  | _ => false

def isGroup : NodeKind → Bool
  | .groupBy .. => true
  | _ => false

/-- Whether a node sorts. -/
def sorts : NodeKind → Bool
  | .orderBy .. => true
  | .thenBy .. => true
  | _ => false

end NodeKind

theorem NodeKind.isClause_of_isThenBy {kind : NodeKind} (h : kind.isThenBy) : kind.isClause := by
  cases kind with
  | thenBy _ _ => rfl
  | _ => cases h

theorem NodeKind.isResult_of_isGroup {kind : NodeKind} (h : kind.isGroup) : kind.isResult := by
  cases kind with
  | groupBy _ _ => rfl
  | _ => cases h

theorem NodeKind.isGroup_eq_false {kind : NodeKind} (h : kind.isResult = false) :
    kind.isGroup = false := by
  cases kind with
  | groupBy _ _ => cases h
  | _ => rfl

/-- A node behind the source that gives no result is a clause. -/
theorem NodeKind.isClause_of_later {kind : NodeKind} (hlater : kind.isSource = false)
    (hresult : kind.isResult = false) : kind.isClause := by
  cases kind with
  | constant _ | subQuery _ => cases hlater
  | groupBy _ _ | operator _ => cases hresult
  | _ => rfl

/-- Whether the operator gives some of the items of a sequence, as a sequence. -/
def ResultOperator.isPartial : ResultOperator → Bool
  | .distinct => true
  | .take _ => true
  | .skip _ => true
  | _ => false

/-- The last node that is not a selection sorts. -/
def EndsSorted (kinds : List NodeKind) : Prop :=
  ∃ earlier kind selects, kinds = earlier ++ kind :: selects ∧ kind.sorts ∧
    ∀ k ∈ selects, k.isSelect

/-- **The rules for the nodes behind the source.** -/
structure Grammar (kinds : List NodeKind) : Prop where
  /-- No clause stands behind a result. -/
  clausesFirst : ∀ before kind after, kinds = before ++ kind :: after → kind.isClause →
    ∀ k ∈ before, k.isResult = false
  /-- A further sort key directly follows a sort key, selections apart. -/
  thenByFollows : ∀ before kind after, kinds = before ++ kind :: after → kind.isThenBy →
    EndsSorted before
  oneGroup : kinds.countP NodeKind.isGroup ≤ 1
  /-- Operators that give no sequence come last. -/
  finalOperators : ∀ before op after, kinds = before ++ .operator op :: after →
    op.isPartial ∨ after = []

/-- A kind can stand behind others. -/
structure Fits (before : List NodeKind) (kind : NodeKind) : Prop where
  clause : kind.isClause → ∀ k ∈ before, k.isResult = false
  thenBy : kind.isThenBy → EndsSorted before
  group : kind.isGroup → ∀ k ∈ before, k.isGroup = false

/-- Every kind fits behind those before it. -/
def AllFit (kinds : List NodeKind) : Prop :=
  ∀ before kind after, kinds = before ++ kind :: after → Fits before kind

theorem allFit_concat {kinds : List NodeKind} {kind : NodeKind} :
    AllFit (kinds ++ [kind]) ↔ AllFit kinds ∧ Fits kinds kind := by
  constructor
  · intro h
    refine ⟨?_, h kinds kind [] rfl⟩
    rintro before k after rfl
    exact h before k (after ++ [kind]) (by simp)
  · rintro ⟨hall, hlast⟩ before k after hsplit
    rcases split_concat hsplit with ⟨after', hkinds, -⟩ | ⟨rfl, rfl, -⟩
    · exact hall before k after' hkinds
    · exact hlast

theorem endsSorted_concat {kinds : List NodeKind} {kind : NodeKind} :
    EndsSorted (kinds ++ [kind]) ↔ kind.sorts ∨ kind.isSelect ∧ EndsSorted kinds := by
  constructor
  · rintro ⟨earlier, k, selects, hsplit, hsorts, hselects⟩
    rcases split_concat hsplit with ⟨selects', hkinds, rfl⟩ | ⟨-, rfl, -⟩
    · refine Or.inr ⟨hselects _ (List.mem_append_right _ (List.mem_singleton.mpr rfl)), ?_⟩
      exact ⟨earlier, k, selects', hkinds, hsorts,
        fun s hs => hselects s (List.mem_append_left _ hs)⟩
    · exact Or.inl hsorts
  · rintro (hsorts | ⟨hselect, earlier, k, selects, rfl, hsorts, hselects⟩)
    · exact ⟨kinds, kind, [], rfl, hsorts, fun _ h => nomatch h⟩
    · refine ⟨earlier, k, selects ++ [kind], by simp, hsorts, ?_⟩
      intro s hs
      rcases List.mem_append.mp hs with hs | hs
      · exact hselects s hs
      · rw [List.mem_singleton.mp hs]
        exact hselect

/-- There is at most one grouping when none stands behind another. -/
theorem countP_isGroup_le_one {kinds : List NodeKind} :
    kinds.countP NodeKind.isGroup ≤ 1 ↔
      ∀ before kind after, kinds = before ++ kind :: after → kind.isGroup →
        ∀ k ∈ before, k.isGroup = false := by
  constructor
  · rintro hcount before kind after rfl hgroup k hk
    rw [List.countP_append, List.countP_cons, if_pos hgroup] at hcount
    have hbefore : before.countP NodeKind.isGroup = 0 := by omega
    simpa using List.countP_eq_zero.mp hbefore k hk
  · intro h
    induction kinds using List.reverseRecOn with
    | nil => exact Nat.zero_le _
    | append_singleton kinds kind ih =>
      have hkinds := ih fun before k after hsplit =>
        h before k (after ++ [kind]) (by rw [hsplit, List.append_assoc]; rfl)
      rw [List.countP_append, List.countP_singleton]
      split
      · rename_i hgroup
        have hnone : kinds.countP NodeKind.isGroup = 0 :=
          List.countP_eq_zero.mpr fun k hk => by simpa using h kinds kind [] rfl hgroup k hk
        omega
      · exact hkinds

theorem grammar_iff {kinds : List NodeKind} :
    Grammar kinds ↔ AllFit kinds ∧
      ∀ before op after, kinds = before ++ .operator op :: after → op.isPartial ∨ after = [] := by
  constructor
  · rintro ⟨hclauses, hthenBy, hgroup, hfinal⟩
    refine ⟨fun before kind after hsplit => ⟨?_, ?_, ?_⟩, hfinal⟩
    · exact hclauses before kind after hsplit
    · exact hthenBy before kind after hsplit
    · exact countP_isGroup_le_one.mp hgroup before kind after hsplit
  · rintro ⟨hall, hfinal⟩
    refine ⟨?_, ?_, ?_, hfinal⟩
    · exact fun before kind after hsplit => (hall before kind after hsplit).clause
    · exact fun before kind after hsplit => (hall before kind after hsplit).thenBy
    · exact countP_isGroup_le_one.mpr fun before kind after hsplit =>
        (hall before kind after hsplit).group

theorem not_endsSorted_nil : ¬ EndsSorted [] := by
  rintro ⟨earlier, kind, selects, hsplit, -⟩
  cases earlier <;> cases hsplit

section SourceInFront

variable {first : NodeKind} (hfirst : first.isSource)
include hfirst

/-- A source is nothing else. -/
theorem NodeKind.sourceOnly : first.isClause = false ∧ first.isResult = false ∧
    first.isSelect = false ∧ first.isThenBy = false ∧ first.isGroup = false ∧
    first.sorts = false := by
  cases first with
  | constant _ | subQuery _ => exact ⟨rfl, rfl, rfl, rfl, rfl, rfl⟩
  | _ => cases hfirst

theorem endsSorted_cons_source {kinds : List NodeKind} :
    EndsSorted (first :: kinds) ↔ EndsSorted kinds := by
  obtain ⟨-, -, hselect, -, -, hsorts⟩ := NodeKind.sourceOnly hfirst
  induction kinds using List.reverseRecOn with
  | nil =>
    rw [← List.nil_append [first], endsSorted_concat, hselect, hsorts]
    simp [not_endsSorted_nil]
  | append_singleton kinds kind ih =>
    rw [← List.cons_append, endsSorted_concat, endsSorted_concat, ih]

theorem fits_cons_source {before : List NodeKind} {kind : NodeKind} :
    Fits (first :: before) kind ↔ Fits before kind := by
  obtain ⟨-, hresult, -, -, hgroup, -⟩ := NodeKind.sourceOnly hfirst
  constructor
  · rintro ⟨hclause, hthenBy, hone⟩
    exact ⟨fun h k hk => hclause h k (List.mem_cons_of_mem _ hk),
      fun h => (endsSorted_cons_source hfirst).mp (hthenBy h),
      fun h k hk => hone h k (List.mem_cons_of_mem _ hk)⟩
  · rintro ⟨hclause, hthenBy, hone⟩
    exact ⟨fun h => List.forall_mem_cons.mpr ⟨hresult, hclause h⟩,
      fun h => (endsSorted_cons_source hfirst).mpr (hthenBy h),
      fun h => List.forall_mem_cons.mpr ⟨hgroup, hone h⟩⟩

/-- A source in front changes nothing. -/
theorem allFit_cons_source {kinds : List NodeKind} : AllFit (first :: kinds) ↔ AllFit kinds := by
  constructor
  · rintro h before kind after rfl
    exact (fits_cons_source hfirst).mp (h (first :: before) kind after rfl)
  · rintro h (_ | ⟨k, before⟩) kind after hsplit
    · cases hsplit
      obtain ⟨hclause, -, -, hthenBy, hgroup, -⟩ := NodeKind.sourceOnly hfirst
      exact ⟨by simp [hclause], by simp [hthenBy], by simp [hgroup]⟩
    · cases hsplit
      exact (fits_cons_source hfirst).mpr (h before kind after rfl)

end SourceInFront

/-- Behind a result that everything fits around, there are only results. -/
theorem results_after {before after : List NodeKind} {result : NodeKind}
    (hfit : AllFit (before ++ result :: after)) (hresult : result.isResult)
    (hlater : ∀ k ∈ after, k.isSource = false) : ∀ k ∈ after, k.isResult := by
  intro k hk
  cases hk' : k.isResult with
  | true => rfl
  | false =>
    have hclause := NodeKind.isClause_of_later (hlater k hk) hk'
    obtain ⟨l, r, rfl⟩ := List.append_of_mem hk
    have hnot := (hfit (before ++ result :: l) k r (by simp)).clause hclause result (by simp)
    rw [hresult] at hnot
    cases hnot

end Comprehension
