import Comprehension.Chain.Clause

/-! # Success and failure of computations

Computations here either fail with an error or give a result, and clause making also changes a
context.  A computation made of steps gives a result when each step does (`bind_eq_ok`,
`Build.run_bind_eq_ok`), and fails at the first step that fails (`bind_eq_error`, `forM_eq_error`).
How it can fail is known when it is known of each step: `FailsWith P` says that every error of a
computation satisfies `P`. -/
namespace Comprehension

/-! ### Results -/

/-- A computation that gives a result has one at each step. -/
theorem bind_eq_ok {ε α β : Type} {x : Except ε α} {f : α → Except ε β} {b : β} :
    (x >>= f) = .ok b ↔ ∃ a, x = .ok a ∧ f a = .ok b := by
  cases x with
  | ok a =>
    constructor
    · exact fun h => ⟨a, rfl, h⟩
    · rintro ⟨_, ha, hf⟩
      cases ha
      exact hf
  | error e =>
    constructor
    · exact fun h => nomatch h
    · rintro ⟨_, ha, -⟩
      cases ha

theorem pure_eq_ok {ε α : Type} {a b : α} : (pure a : Except ε α) = .ok b ↔ b = a := by
  simp [pure, Except.pure, eq_comm]

/-- A computation goes on with the only result that it can have. -/
theorem bind_eq_ok_of_unique {ε α β : Type} {x : Except ε α} {k : α → Except ε β} {P : Prop} {a : α}
    {r : β} (hx : ∀ d, x = .ok d ↔ P ∧ d = a) : (x >>= k) = .ok r ↔ P ∧ k a = .ok r := by
  rw [bind_eq_ok]
  constructor
  · rintro ⟨d, hd, h⟩
    obtain ⟨hP, rfl⟩ := (hx d).mp hd
    exact ⟨hP, h⟩
  · rintro ⟨hP, h⟩
    exact ⟨a, (hx a).mpr ⟨hP, rfl⟩, h⟩

theorem liftModelError_eq_ok {α : Type} {x : Except ModelError α} {a : α} :
    liftModelError x = .ok a ↔ x = .ok a := by
  cases x <;> simp [liftModelError]

namespace Build

theorem run_bind_eq_ok {α β : Type} {x : Build α} {f : α → Build β} {b : β} {s t : Context} :
    (x >>= f).run s = .ok b t ↔ ∃ a u, x.run s = .ok a u ∧ (f a).run u = .ok b t := by
  rw [EStateM.run_bind]
  cases h : x.run s with
  | ok a u =>
    constructor
    · exact fun hf => ⟨a, u, rfl, hf⟩
    · rintro ⟨_, _, ha, hf⟩
      cases ha
      exact hf
  | error e u =>
    constructor
    · exact fun hf => nomatch hf
    · rintro ⟨_, _, ha, -⟩
      cases ha

theorem run_pure_eq_ok {α : Type} {a b : α} {s t : Context} :
    (pure a : Build α).run s = .ok b t ↔ a = b ∧ s = t := by
  rw [EStateM.run_pure, EStateM.Result.ok.injEq]

theorem run_throw_ne_ok {α : Type} {e : ParseError} {a : α} {s t : Context} :
    (throw e : Build α).run s ≠ .ok a t := fun h => nomatch h

theorem run_ofExcept_eq_ok {α : Type} {x : Except ParseError α} {a : α} {s t : Context} :
    (ofExcept x).run s = .ok a t ↔ x = .ok a ∧ s = t := by
  cases x with
  | ok b => rw [ofExcept, run_pure_eq_ok, Except.ok.injEq]
  | error e =>
    constructor
    · exact fun h => nomatch h
    · rintro ⟨h, -⟩
      cases h

end Build

/-! ### Failures -/

/-- A computation that fails does so at its first step, or later. -/
theorem bind_eq_error {ε α β : Type} {x : Except ε α} {f : α → Except ε β} {e : ε} :
    (x >>= f) = .error e ↔ x = .error e ∨ ∃ a, x = .ok a ∧ f a = .error e := by
  cases x with
  | ok a =>
    constructor
    · exact fun h => Or.inr ⟨a, rfl, h⟩
    · rintro (h | ⟨_, ha, hf⟩)
      · cases h
      · cases ha
        exact hf
  | error e' =>
    constructor
    · exact fun h => Or.inl (by cases h; rfl)
    · rintro (h | ⟨_, ha, -⟩)
      · cases h
        rfl
      · cases ha

theorem liftModelError_eq_error {α : Type} {x : Except ModelError α} {e : ParseError} :
    liftModelError x = .error e ↔ ∃ error, x = .error error ∧ e = .model error := by
  cases x <;> simp [liftModelError, eq_comm]

section ForM

variable {ε α : Type} {f : α → Except ε Unit} {xs : List α}

/-- A computation done for each entry of a list gives a result when it does for every one. -/
theorem forM_eq_ok : forM xs f = .ok () ↔ ∀ x ∈ xs, f x = .ok () := by
  induction xs with
  | nil => exact iff_of_true rfl fun _ h => by cases h
  | cons x xs ih =>
    rw [List.forM_cons, bind_eq_ok, List.forall_mem_cons, ← ih]
    constructor
    · rintro ⟨_, hx, hxs⟩
      exact ⟨hx, hxs⟩
    · rintro ⟨hx, hxs⟩
      exact ⟨(), hx, hxs⟩

/-- It fails at the first entry for which it fails. -/
theorem forM_eq_error {e : ε} :
    forM xs f = .error e ↔
      ∃ before x after, xs = before ++ x :: after ∧ (∀ y ∈ before, f y = .ok ()) ∧
        f x = .error e := by
  induction xs with
  | nil =>
    refine iff_of_false (fun h => by cases h) ?_
    rintro ⟨before, x, after, hsplit, -⟩
    exact absurd hsplit.symm (by simp)
  | cons x xs ih =>
    rw [List.forM_cons, bind_eq_error, ih]
    constructor
    · rintro (hx | ⟨_, hx, before, y, after, rfl, hbefore, hy⟩)
      · exact ⟨[], x, xs, rfl, fun _ h => (by cases h), hx⟩
      · exact ⟨x :: before, y, after, rfl, List.forall_mem_cons.mpr ⟨hx, hbefore⟩, hy⟩
    · rintro ⟨_ | ⟨b, before⟩, y, after, hsplit, hbefore, hy⟩
      · cases hsplit
        exact Or.inl hy
      · cases hsplit
        obtain ⟨hx, hbefore⟩ := List.forall_mem_cons.mp hbefore
        exact Or.inr ⟨(), hx, before, y, after, rfl, hbefore, hy⟩

end ForM

/-- Every error of the computation satisfies `P`. -/
def FailsWith {ε α : Type} (P : ε → Prop) (x : Except ε α) : Prop := ∀ e, x = .error e → P e

namespace FailsWith

variable {ε α β : Type} {P : ε → Prop}

theorem ok {a : α} : FailsWith P (.ok a : Except ε α) := fun _ h => nomatch h

theorem error {e : ε} (h : P e) : FailsWith P (.error e : Except ε α) := by
  intro _ he
  cases he
  exact h

theorem bind {x : Except ε α} {f : α → Except ε β} (hx : FailsWith P x)
    (hf : ∀ a, FailsWith P (f a)) : FailsWith P (x >>= f) := by
  cases x with
  | ok a => exact hf a
  | error e => exact .error (hx e rfl)

end FailsWith

namespace Build

theorem run_bind_eq_error {α β : Type} {x : Build α} {f : α → Build β} {e : ParseError}
    {s t : Context} :
    (x >>= f).run s = .error e t ↔
      x.run s = .error e t ∨ ∃ a u, x.run s = .ok a u ∧ (f a).run u = .error e t := by
  rw [EStateM.run_bind]
  cases h : x.run s with
  | ok a u =>
    constructor
    · exact fun hf => Or.inr ⟨a, u, rfl, hf⟩
    · rintro (hx | ⟨_, _, ha, hf⟩)
      · cases hx
      · cases ha
        exact hf
  | error e' u =>
    constructor
    · exact fun hf => Or.inl (by cases hf; rfl)
    · rintro (hx | ⟨_, _, ha, -⟩)
      · cases hx
        rfl
      · cases ha

theorem run_ofExcept_eq_error {α : Type} {x : Except ParseError α} {e : ParseError}
    {s t : Context} : (ofExcept x).run s = .error e t ↔ x = .error e ∧ s = t := by
  cases x with
  | ok a =>
    constructor
    · exact fun h => nomatch h
    · rintro ⟨h, -⟩
      cases h
  | error e' =>
    show EStateM.Result.error e' s = .error e t ↔ _
    rw [EStateM.Result.error.injEq, Except.error.injEq]

/-- Every error of clause making satisfies `P`, whatever the context is. -/
def FailsWith {α : Type} (P : ParseError → Prop) (x : Build α) : Prop :=
  ∀ s e t, x.run s = .error e t → P e

namespace FailsWith

variable {α β : Type} {P : ParseError → Prop}

theorem pure {a : α} : Build.FailsWith P (Pure.pure a : Build α) := fun _ _ _ h => nomatch h

theorem get : Build.FailsWith P (MonadState.get : Build Context) := fun _ _ _ h => nomatch h

theorem throw {e : ParseError} (h : P e) :
    Build.FailsWith P (MonadExcept.throw e : Build α) := by
  intro _ _ _ he
  cases he
  exact h

theorem ofExcept {x : Except ParseError α} (hx : Comprehension.FailsWith P x) :
    Build.FailsWith P (Build.ofExcept x) := by
  cases x with
  | ok a => exact .pure
  | error e => exact .throw (hx e rfl)

theorem bind {x : Build α} {f : α → Build β} (hx : Build.FailsWith P x)
    (hf : ∀ a, Build.FailsWith P (f a)) : Build.FailsWith P (x >>= f) := by
  intro s e t h
  rcases run_bind_eq_error.mp h with h | ⟨a, u, -, h⟩
  · exact hx s e t h
  · exact hf a u e t h

end FailsWith

/-- The context that is left, with a result or without. -/
def after {α : Type} (x : Build α) (context : Context) : Context :=
  match x.run context with
  | .ok _ t => t
  | .error _ t => t

theorem after_of_ok {α : Type} {x : Build α} {s t : Context} {a : α} (h : x.run s = .ok a t) :
    x.after s = t := by
  rw [after, h]

theorem after_of_error {α : Type} {x : Build α} {s t : Context} {e : ParseError}
    (h : x.run s = .error e t) : x.after s = t := by
  rw [after, h]

end Build

end Comprehension
