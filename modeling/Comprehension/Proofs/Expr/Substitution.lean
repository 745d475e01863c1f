import Comprehension.Proofs.Expr.Contraction

/-! # Laws of substitution

Putting an expression in for a parameter has two laws here.  The first is about order: something put
into what is itself put in can also be put in afterwards, as long as it finds no place of its own
(`replace_replace`).  The second is about collapse: what is put in may be collapsed beforehand, or
not, when everything is collapsed in the end (`collapse_replace_congr`).

Both are shown part by part along `replace_cases`.  Lambdas that declare the parameter anew are
where the two sides could come apart, and the conditions speak of them. -/
namespace Comprehension.Expr

variable {p x : Parameter} {b r r' e : Expr}

theorem replace_of_declared (hdeclared : p ∈ e.declared) : replace (.parameter p) r e = e := by
  rcases replace_cases p r e with ⟨rfl, -⟩ | ⟨-, heq⟩ | ⟨-, hnot, -⟩
  · exact absurd hdeclared List.not_mem_nil
  · exact heq
  · exact absurd hdeclared hnot

theorem replace_of_other (hne : e ≠ .parameter p) (hdeclared : p ∉ e.declared) :
    replace (.parameter p) r e = e.mapChildren (replace (.parameter p) r) := by
  rcases replace_cases p r e with ⟨heq, -⟩ | ⟨hin, -⟩ | ⟨-, -, heq⟩
  · exact absurd heq hne
  · exact absurd hin hdeclared
  · exact heq

/-- A parameter that is not free leaves no place to put anything in. -/
theorem replace_of_not_free (h : p ∉ e.freeParameters) : replace (.parameter p) r e = e := by
  induction e using induction_on_children with
  | node e ih =>
    by_cases hdeclared : p ∈ e.declared
    · exact replace_of_declared hdeclared
    · have hne : e ≠ .parameter p :=
        fun heq => h (mem_freeParameters_iff.mpr ⟨hdeclared, Or.inl heq⟩)
      have hparts : ∀ c ∈ e.children, replace (.parameter p) r c = id c := by
        intro c hc
        apply ih c hc
        intro hfree
        exact h (mem_freeParameters_iff.mpr ⟨hdeclared, Or.inr ⟨c, hc, hfree⟩⟩)
      rw [replace_of_other hne hdeclared, mapChildren_congr hparts, mapChildren_id]

/-- **Two substitutions in one.**  What is put in for `p` can have `r` put in beforehand, when the
parameter `x` of `r` is `p` itself or does not occur where `p` is replaced. -/
theorem replace_replace
    (h : x = p ∨ x ∉ e.freeParameters ∧ ∀ y ∈ e.subterms, x ∉ y.declared) :
    replace (.parameter x) r (replace (.parameter p) b e) =
      replace (.parameter p) (replace (.parameter x) r b) e := by
  induction e using induction_on_children with
  | node e ih =>
    by_cases hp : e = .parameter p
    · rw [hp, replace_parameter_self, replace_parameter_self]
    by_cases hdeclared : p ∈ e.declared
    · -- Nothing is replaced below a lambda that declares `p`, so `x` must find nothing there too.
      rw [replace_of_declared hdeclared, replace_of_declared hdeclared]
      rcases h with rfl | ⟨hfree, -⟩
      · exact replace_of_declared hdeclared
      · exact replace_of_not_free hfree
    · have hx : e ≠ .parameter x ∧ x ∉ e.declared := by
        rcases h with rfl | ⟨hfree, hbound⟩
        · exact ⟨hp, hdeclared⟩
        · have hnode := (forall_subterms_iff.mp hbound).1
          exact ⟨fun heq => hfree (mem_freeParameters_iff.mpr ⟨hnode, Or.inl heq⟩), hnode⟩
      have hparts : ∀ c ∈ e.children,
          replace (.parameter x) r (replace (.parameter p) b c) =
            replace (.parameter p) (replace (.parameter x) r b) c := by
        intro c hc
        apply ih c hc
        refine h.imp_right fun ⟨hfree, hbound⟩ => ⟨fun hc' => ?_, ?_⟩
        · exact hfree (mem_freeParameters_iff.mpr ⟨hx.2, Or.inr ⟨c, hc, hc'⟩⟩)
        · exact (forall_subterms_iff.mp hbound).2 c hc
      have hrebuilt : e.mapChildren (replace (.parameter p) b) ≠ .parameter x :=
        fun heq => hx.1 ((mapChildren_eq_parameter _ _).mp heq)
      rw [replace_of_other hp hdeclared, replace_of_other hp hdeclared,
        replace_of_other hrebuilt (by rw [declared_mapChildren]; exact hx.2),
        mapChildren_mapChildren]
      exact mapChildren_congr hparts

/-- **What is put in may be collapsed or not**, when all is collapsed in the end. -/
theorem collapse_replace_congr (h : r.collapse = r'.collapse) (e : Expr) :
    (replace (.parameter p) r e).collapse = (replace (.parameter p) r' e).collapse := by
  induction e using induction_on_children with
  | node e ih =>
    by_cases hp : e = .parameter p
    · rw [hp, replace_parameter_self, replace_parameter_self, h]
    by_cases hdeclared : p ∈ e.declared
    · rw [replace_of_declared hdeclared, replace_of_declared hdeclared]
    · rw [replace_of_other hp hdeclared, replace_of_other hp hdeclared, collapse_eq,
        collapse_eq (e.mapChildren _), mapChildren_mapChildren, mapChildren_mapChildren]
      exact congrArg collapseTop (mapChildren_congr ih)

end Comprehension.Expr
