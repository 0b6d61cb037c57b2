import TypedLambda.Term.Basic
import TypedLambda.Ty.Unification

/-!
What can be wrong with the types of a program, and the texts of the errors.
-/

namespace TypedLambda

inductive TypeError
  | mismatch (left right : Ty)
  /-- The term has a type, but one of a wrong shape. -/
  | badType (t : Term) (actual expected : Ty)
  /-- The term does not have the type that it should have. -/
  | checkFailed (t : Term) (expected : Ty)
  | unbound (x : Name)
  | notUnifiable (left right : Ty)
  deriving DecidableEq

namespace TypeError

def ofClash (c : Clash) : TypeError := notUnifiable c.left c.right

def message : TypeError → String
  | mismatch l r => "Type mismatch between " ++ l.render ++ " and " ++ r.render
  | badType t actual expected =>
    "Expected " ++ expected.render ++ " but got " ++ actual.render ++ " in " ++ t.render
  | checkFailed t expected =>
    "Type check failed with type " ++ expected.render ++ " in " ++ t.render
  | unbound x => "Variable " ++ x ++ " not found in context"
  | notUnifiable l r => "Unification of " ++ l.render ++ " and " ++ r.render ++ " failed"

end TypeError

/-! ### Computations that can fail -/

theorem bind_eq_ok {ε α β : Type} {x : Except ε α} {f : α → Except ε β} {b : β} :
    (x >>= f) = .ok b ↔ ∃ a, x = .ok a ∧ f a = .ok b := by
  cases x <;> simp [bind, Except.bind]

/-- Only the results with which the first computation can succeed matter to what follows. -/
theorem bind_congr_ok {ε α β : Type} {x : Except ε α} {f g : α → Except ε β}
    (h : ∀ a, x = .ok a → f a = g a) : (x >>= f) = x >>= g := by
  cases x with
  | ok a => exact h a rfl
  | error e => rfl

theorem pure_eq_ok {ε α : Type} {a b : α} : (pure a : Except ε α) = .ok b ↔ a = b := by
  simp [pure, Except.pure]

end TypedLambda
