import TypedLambda.Proofs.Simulation

/-!
Values that are read as terms.

An application puts the value of its argument into a function as a term, and
the term is evaluated again wherever it is reached. Nothing is lost or changed
on the way: the value of the term is the value that it was made of, also if
that is a list without a proper end, or has functions with free variables in
their bodies. So no two values are read as the same term, for a term has at
most one value. And no function can tell an argument from its value, since an
application uses its argument through its value alone
(`evaluates_app_congr`): not even an error names the argument.
-/

namespace TypedLambda

variable {f t u : Term} {v : Value} {r : Except EvalError Value}

/-- An argument may be exchanged for a term with the same value. -/
theorem Term.evaluates_app_congr (ht : t.Evaluates (.ok v)) (hu : u.Evaluates (.ok v)) :
    (app f t).Evaluates r ↔ (app f u).Evaluates r := by
  obtain ⟨d, hd⟩ := ht.eventually
  obtain ⟨d', hd'⟩ := hu.eventually
  refine evaluates_congr (d := max d d') (i := 1) (j := 1) fun k hk => ?_
  have arg : t.evaluateBy .standard k = u.evaluateBy .standard k :=
    (hd k (by omega)).trans (hd' k (by omega)).symm
  rw [evaluate, evaluate, evaluateBy, evaluateBy, arg]

/-- A term has one value, so it is read from one value at most. -/
theorem Value.toTerm_injective : Function.Injective toTerm := by
  intro v w h
  have hv : w.toTerm.Evaluates (.ok v) := h ▸ v.evaluates_toTerm
  exact Except.ok.inj (hv.unique w.evaluates_toTerm)

/-- The term that a value is read as has this value. It may stand as an
argument for every term with the value, and the result is the same value or
the same error, or there is none for either. Different values are read as
different terms. -/
theorem Value.toTerm_stable :
    (∀ v : Value, v.toTerm.Evaluates (.ok v)) ∧
      (∀ (f t : Term) (v : Value), t.Evaluates (.ok v) →
        (∀ r, (Term.app f t).Evaluates r ↔ (Term.app f v.toTerm).Evaluates r) ∧
          ((Term.app f t).Diverges ↔ (Term.app f v.toTerm).Diverges)) ∧
      Function.Injective toTerm := by
  refine ⟨evaluates_toTerm, fun f t v ht => ?_, toTerm_injective⟩
  have same (r : Except EvalError Value) :
      (Term.app f t).Evaluates r ↔ (Term.app f v.toTerm).Evaluates r :=
    Term.evaluates_app_congr ht v.evaluates_toTerm
  exact ⟨same, Term.diverges_congr same⟩

/-- A list that ends in an integer, and begins with a function whose body is an
error once it is reached. -/
theorem Value.toTerm_stable_improper :
    let v : Value := .cons (.fn "x" (.var "y")) (.int 1)
    let t : Term := .app (.abs "z" (.cons (.abs "x" (.var "y")) (.var "z"))) (.int 1)
    let f : Term := .abs "l" (.app (.head (.var "l")) (.tail (.var "l")))
    t.Evaluates (.ok v) ∧ v.toTerm.Evaluates (.ok v) ∧
      (Term.app f v.toTerm).Evaluates (.error (.freeVariable "y")) := by
  intro v t f
  have value : t.Evaluates (.ok v) := ⟨3, rfl⟩
  have result : (Term.app f t).Evaluates (.error (.freeVariable "y")) := ⟨5, rfl⟩
  obtain ⟨itself, argument, -⟩ := toTerm_stable
  exact ⟨value, itself v, ((argument f t v value).1 _).1 result⟩

end TypedLambda
