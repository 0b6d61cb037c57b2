import TypedLambda.Proofs.Filling
import TypedLambda.Proofs.Simulation
import TypedLambda.Term.Binders

/-!
Evaluation does not depend on the names of bound variables.

Closed terms that are equal up to bound names stay so while they are
evaluated. The one step to see is that of a function: if its body and a
renamed body are filled with arguments that are equal up to bound names, the
results are so again. The arguments are pasted below binders of different
names, which neither capture them nor are told apart by them, because the
arguments are closed (`AlphaUnder.fill`).
-/

namespace TypedLambda

namespace Term

variable {ρ σ : List (Name × Name)} {γ δ : Filling} {t u r s : Term} {x y a b : Name}

/-- What is put for two paired variables: variables that are paired again, or
terms that are equal up to bound names below any binders. -/
def FilledAlike (σ : List (Name × Name)) (γ δ : Filling) (x y : Name) : Prop :=
  (γ x = .var x ∧ δ y = .var y ∧ Paired σ x y) ∨ ∀ τ, AlphaUnder τ (γ x) (δ y)

/-- Binders keep their own variables, and hide what is put for these names. -/
theorem filledAlike_update (h : Paired ((a, b) :: ρ) x y)
    (hρ : x ≠ a → Paired ρ x y → FilledAlike σ γ δ x y) :
    FilledAlike ((a, b) :: σ) (Function.update γ a (.var a)) (Function.update δ b (.var b))
      x y := by
  rcases h with ⟨rfl, rfl⟩ | ⟨hx, hy, hp⟩
  · exact .inl ⟨Function.update_self .., Function.update_self .., .inl ⟨rfl, rfl⟩⟩
  · unfold FilledAlike
    rw [Function.update_of_ne hx, Function.update_of_ne hy]
    exact (hρ hx hp).imp (fun h => ⟨h.1, h.2.1, .inr ⟨hx, hy, h.2.2⟩⟩) id

/-- Terms that are equal up to bound names are so after their free variables
have been filled alike. -/
theorem AlphaUnder.fill (h : AlphaUnder ρ t u)
    (hf : ∀ x ∈ t.freeVars, ∀ y, Paired ρ x y → FilledAlike σ γ δ x y) :
    AlphaUnder σ (t.fill γ) (u.fill δ) := by
  -- the fillings are general, since every binder fills its own variable with itself
  induction h generalizing σ γ δ with
  | bool => exact .bool
  | int => exact .int
  | string => exact .string
  | unit => exact .unit
  | nil => exact .nil
  | @var ρ x y hp =>
      rcases hf x (List.mem_singleton.2 rfl) y hp with ⟨hx, hy, hp⟩ | h
      · rw [Term.fill, Term.fill, hx, hy]
        exact .var hp
      · exact h σ
  | abs _ ih =>
      refine .abs (ih fun x hx y hp => filledAlike_update hp fun hne => ?_)
      exact hf x (mem_freeVars_abs.2 ⟨hx, hne⟩) y
  | letIn _ _ ihe ihb =>
      refine .letIn (ihe fun x hx => hf x (mem_freeVars_letIn.2 (.inl hx)))
        (ihb fun x hx y hp => filledAlike_update hp fun hne => ?_)
      exact hf x (mem_freeVars_letIn.2 (.inr ⟨hx, hne⟩)) y
  | wildcard _ ih => exact .wildcard (ih hf)
  | ascribe _ ih => exact .ascribe (ih hf)
  | isZero _ ih => exact .isZero (ih hf)
  | isEmpty _ ih => exact .isEmpty (ih hf)
  | head _ ih => exact .head (ih hf)
  | tail _ ih => exact .tail (ih hf)
  | app _ _ iha ihb =>
      exact .app (iha fun x hx => hf x (List.mem_append_left _ hx))
        (ihb fun x hx => hf x (List.mem_append_right _ hx))
  | add _ _ iha ihb =>
      exact .add (iha fun x hx => hf x (List.mem_append_left _ hx))
        (ihb fun x hx => hf x (List.mem_append_right _ hx))
  | cons _ _ iha ihb =>
      exact .cons (iha fun x hx => hf x (List.mem_append_left _ hx))
        (ihb fun x hx => hf x (List.mem_append_right _ hx))
  | cond _ _ _ ihc iha ihb =>
      exact .cond
        (ihc fun x hx => hf x (List.mem_append_left _ (List.mem_append_left _ hx)))
        (iha fun x hx => hf x (List.mem_append_left _ (List.mem_append_right _ hx)))
        (ihb fun x hx => hf x (List.mem_append_right _ hx))

theorem AlphaUnder.of_closed (h : AlphaUnder ρ t u) (ht : t.Closed) (σ : List (Name × Name)) :
    AlphaUnder σ t u := by
  have filled := h.fill (σ := σ) (γ := .var) (δ := .var) fun _ hx => absurd hx ht.not_mem
  rwa [fill_var, fill_var] at filled

theorem AlphaUnder.replace (h : AlphaUnder [(x, y)] t u) (hr : r.Closed) (hrs : r.Alpha s) :
    (t.replace x r).Alpha (u.replace y s) := by
  rw [replace_eq_fill, replace_eq_fill]
  refine h.fill fun z _ w hp => ?_
  rcases hp with ⟨rfl, rfl⟩ | ⟨hz, hw, hp⟩
  · refine .inr fun τ => ?_
    rw [Function.update_self, Function.update_self]
    exact hrs.of_closed hr τ
  · refine .inl ⟨?_, ?_, hp⟩
    · rw [Function.update_of_ne hz]
    · rw [Function.update_of_ne hw]

end Term

open Term

variable {t u : Term} {v w : Value}

theorem Value.Alike.alpha (h : v.Alike (BothClosed Alpha) w) : v.toTerm.Alpha w.toTerm := by
  induction h with
  | bool => exact .bool
  | int => exact .int
  | string => exact .string
  | unit => exact .unit
  | nil => exact .nil
  | fn h | wildcard h => exact h.related
  | cons _ _ ihh iht => exact .cons ihh iht

/-- Equality up to bound names is kept by every step of an evaluation. -/
theorem simulation_alpha : Simulation (BothClosed Alpha) := by
  refine .of_closed (fun h => ?_) (fun h hvw => ?_) fun h => ?_
  · cases h.related with
    | bool => exact .of_values .bool
    | int => exact .of_values .int
    | string => exact .of_values .string
    | unit => exact .of_values .unit
    | nil => exact .of_values .nil
    | abs => exact .of_values (.fn h.related)
    | wildcard => exact .of_values (.wildcard h.related)
    | var hp =>
        obtain rfl : _ = _ := hp
        exact .var
    | app hf ha => exact .app hf ha
    | add hl hr => exact .add hl hr
    | ascribe hp => exact .ascribe hp
    | cond hc ha hb => exact .cond hc ha hb
    | isZero hp => exact .isZero hp
    | cons hh ht => exact .cons hh ht
    | isEmpty hp => exact .isEmpty hp
    | head hp => exact .head hp
    | tail hp => exact .tail hp
    | letIn he hb => exact .letIn (hb.replace (closed_letIn.1 h.left).1 he)
  · cases h.related with
    | abs hb => exact hb.replace hvw.closed.1 hvw.alpha
  · cases h.related with
    | wildcard hb => exact hb

/-- Closed terms that are equal up to bound names end alike: with values that
are equal up to bound names, and equal if no function stands in them, or with
the same kind of error about parts that are equal up to bound names. Or
neither of them ends. -/
theorem evaluate_alpha (ht : t.Closed) (hu : u.Closed) (h : t.Alpha u) :
    t.EndAlike (fun v w => v.toTerm.Alpha w.toTerm ∧ (v.FunctionFree ∨ w.FunctionFree → v = w))
      (EvalError.Alike Alpha) u :=
  (simulation_alpha.endAlike ⟨ht, hu, h⟩).imp (fun _ _ h => ⟨h.alpha, h.eq_of_functionFree⟩)
    fun _ _ h => h.mono fun _ _ h => h.related

/-- On the left the `let` shares its name with the outer function, on the
right with the inner one. -/
theorem evaluate_alpha_shadowed :
    let t : Term := .letIn "x" (.int 1) (.app (.abs "x" (.abs "y" (.var "x"))) (.var "x"))
    let u : Term := .letIn "a" (.int 1) (.app (.abs "b" (.abs "a" (.var "b"))) (.var "a"))
    (t.Closed ∧ u.Closed ∧ t.Alpha u) ∧
      t.EndAlike (fun v w => v.toTerm.Alpha w.toTerm ∧ (v.FunctionFree ∨ w.FunctionFree → v = w))
        (EvalError.Alike Alpha) u := by
  intro t u
  have ht : t.Closed := by decide
  have hu : u.Closed := by decide
  have alpha : t.Alpha u := by
    refine .letIn .int (.app (.abs (.abs (.var ?_))) (.var ?_))
    · exact .inr ⟨by decide, by decide, .inl ⟨rfl, rfl⟩⟩
    · exact .inl ⟨rfl, rfl⟩
  exact ⟨⟨ht, hu, alpha⟩, evaluate_alpha ht hu alpha⟩

end TypedLambda
