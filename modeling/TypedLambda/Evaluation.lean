import TypedLambda.Evaluation.Outcome
import TypedLambda.Term.Binders

/-!
Evaluation of terms to values: its errors with their texts, the rules that it is built on, and the
evaluation itself.

An error names the parts of the program that it concerns. The rules say how a term is put for a
parameter and how integers are added. The language puts terms in as they stand, and adds integers
of 64 bits; a sum that needs more has no value. Two other sets of rules stand beside it to be
compared with it: one has integers of any size, the other never captures a variable.

Functions are applied to the values of their arguments; what a `let` binds is put into the body
unevaluated. There is no environment: an application puts the argument into the body of the
function, so a variable that is reached is free in the whole program and an error.

A term can run for ever. `evaluateBy` therefore takes the greatest depth to which evaluations may
be nested, and a greater depth never changes an outcome that a smaller one has reached
(`evaluateBy_approx`). `Evaluates` and `Diverges` speak of the program without a depth, and a
program has at most one result (`EvaluatesBy.unique`).
-/

namespace TypedLambda

/-! ### Errors -/

inductive EvalError
  /-- The operands are no two integers, or their sum is out of range. -/
  | addition (left right : Term)
  | ascription (t : Term) (ty : Ty)
  /-- A value of another kind was needed. -/
  | wrongValue (actual : Value) (expected : String)
  | notAFunction (t : Term)
  | freeVariable (x : Name)
  | isZero (t : Term)
  | conditional (t : Term)
  | application (fn arg : Term)
  deriving DecidableEq

namespace EvalError

def truthExpected (actual : Value) : EvalError := wrongValue actual "a boolean value"

def listExpected (actual : Value) : EvalError := wrongValue actual "a list value"

def elementsExpected (actual : Value) : EvalError := wrongValue actual "a non-empty list"

def description : EvalError → String
  | addition l r => "cannot add " ++ l.render ++ " and " ++ r.render
  | ascription t ty => "ascription of " ++ t.render ++ " to " ++ ty.render ++ " failed"
  | wrongValue v expected => "expected " ++ expected ++ " but got " ++ v.render
  | notAFunction t => t.render ++ " is not a function"
  | freeVariable x => "unexpected free variable " ++ x
  | isZero t => "isZero? expects an integer, got " ++ t.render
  | conditional t => "conditional on " ++ t.render ++ " failed"
  | application f a => "applying " ++ f.render ++ " to " ++ a.render ++ " failed"

def message (e : EvalError) : String := "eval error: " ++ e.description

end EvalError

/-! ### Rules -/

structure Rules where
  /-- Puts the third argument for the variable. -/
  replace : Term → Name → Term → Term
  /-- The sum, unless it has no value. -/
  sum? : Int → Int → Option Int

def InRange (n : Int) : Prop := -0x8000000000000000 ≤ n ∧ n < 0x8000000000000000

instance (n : Int) : Decidable (InRange n) := inferInstanceAs (Decidable (_ ∧ _))

namespace Rules

def standard : Rules where
  replace := Term.replace
  sum? a b := if InRange (a + b) then some (a + b) else none

def unbounded : Rules := { standard with sum? a b := some (a + b) }

/-- The standard rules with new names for binders that would capture a variable. -/
def hygienic : Rules := { standard with replace := Term.replaceFresh }

end Rules

/-! ### Evaluation -/

def Rules.total? (R : Rules) : Value → Value → Option Int
  | .int a, .int b => R.sum? a b
  | _, _ => none

/-- Evaluates a term with at most the given depth of nested evaluations. -/
def Term.evaluateBy (R : Rules) : Nat → Term → Outcome EvalError Value
  | 0, _ => .unfinished
  | depth + 1, t =>
    match t with
    | .bool b => .value (.bool b)
    | .int n => .value (.int n)
    | .string s => .value (.string s)
    | .unit => .value .unit
    | .nil => .value .nil
    | .abs x b => .value (.fn x b)
    | .wildcard b => .value (.wildcard b)
    | .var x => .error (.freeVariable x)
    | .ascribe t _ => evaluateBy R depth t
    | .add l r => do
      let a ← evaluateBy R depth l
      let b ← evaluateBy R depth r
      match R.total? a b with
      | some n => .value (.int n)
      | none => .error (.addition l r)
    | .app f a => do
      match ← evaluateBy R depth f with
      | .fn x b => do
        let v ← evaluateBy R depth a
        evaluateBy R depth (R.replace b x v.toTerm)
      | .wildcard b => do
        let _ ← evaluateBy R depth a
        evaluateBy R depth b
      | _ => .error (.notAFunction f)
    | .cond c t e => do
      match ← evaluateBy R depth c with
      | .bool true => evaluateBy R depth t
      | .bool false => evaluateBy R depth e
      | v => .error (.truthExpected v)
    | .isZero t => do
      match ← evaluateBy R depth t with
      | .int n => .value (.bool (n == 0))
      | _ => .error (.isZero t)
    | .cons h t => do
      let v ← evaluateBy R depth h
      let w ← evaluateBy R depth t
      .value (.cons v w)
    | .isEmpty t => do
      match ← evaluateBy R depth t with
      | .nil => .value (.bool true)
      | .cons _ _ => .value (.bool false)
      | v => .error (.listExpected v)
    | .head t => do
      match ← evaluateBy R depth t with
      | .cons v _ => .value v
      | v => .error (.elementsExpected v)
    | .tail t => do
      match ← evaluateBy R depth t with
      | .cons _ v => .value v
      | v => .error (.elementsExpected v)
    | .letIn x e b => evaluateBy R depth (R.replace b x e)

def Term.evaluate (depth : Nat) (t : Term) : Outcome EvalError Value := evaluateBy .standard depth t

/-- The evaluation of `t` ends, and with this result. -/
def Term.EvaluatesBy (R : Rules) (t : Term) (r : Except EvalError Value) : Prop :=
  ∃ depth, evaluateBy R depth t = .ofExcept r

abbrev Term.Evaluates (t : Term) (r : Except EvalError Value) : Prop := EvaluatesBy .standard t r

/-- No depth suffices for the evaluation of `t`. -/
def Term.Diverges (t : Term) : Prop := ∀ depth, evaluate depth t = .unfinished

/-- One more level of depth changes nothing once an outcome is reached. -/
theorem Term.evaluateBy_approx_succ (R : Rules) (depth : Nat) (t : Term) :
    (evaluateBy R depth t).Approx (evaluateBy R (depth + 1) t) := by
  induction depth generalizing t with
  | zero => exact .inl rfl
  | succ d ih =>
    cases t with
    | bool | int | string | unit | nil | abs | wildcard | var => exact .inr rfl
    | ascribe t ty => exact ih t
    | letIn x e b => exact ih _
    | add l r => exact (ih l).bind fun a => (ih r).bind fun b => .refl _
    | cons h t => exact (ih h).bind fun v => (ih t).bind fun w => .refl _
    | isZero t => exact (ih t).bind fun v => .refl _
    | isEmpty t => exact (ih t).bind fun v => .refl _
    | head t => exact (ih t).bind fun v => .refl _
    | tail t => exact (ih t).bind fun v => .refl _
    | app f a =>
      refine (ih f).bind fun v => ?_
      cases v with
      | fn x b => exact (ih a).bind fun w => ih _
      | wildcard b => exact (ih a).bind fun w => ih _
      | bool | int | string | unit | nil | cons => exact .refl _
    | cond c t e =>
      refine (ih c).bind fun v => ?_
      cases v with
      | bool b => cases b <;> exact ih _
      | fn | wildcard | int | string | unit | nil | cons => exact .refl _

theorem Term.evaluateBy_approx (R : Rules) {d e : Nat} (h : d ≤ e) (t : Term) :
    (evaluateBy R d t).Approx (evaluateBy R e t) := by
  induction h with
  | refl => exact .refl _
  | step _ ih => exact ih.trans (evaluateBy_approx_succ R _ t)

theorem Term.EvaluatesBy.unique {R : Rules} {t : Term} {r s : Except EvalError Value}
    (hr : EvaluatesBy R t r) (hs : EvaluatesBy R t s) : r = s := by
  obtain ⟨d, hd⟩ := hr
  obtain ⟨e, he⟩ := hs
  refine Outcome.ofExcept_injective ?_
  rcases Nat.le_total d e with h | h
  · exact (Outcome.Approx.eq_ofExcept (hd ▸ evaluateBy_approx R h t)).symm.trans he
  · exact hd.symm.trans (Outcome.Approx.eq_ofExcept (he ▸ evaluateBy_approx R h t))

theorem Term.EvaluatesBy.meets {R : Rules} {t : Term} {r : Except EvalError Value}
    {P : Value → Prop} {E : EvalError → Prop} (hr : EvaluatesBy R t r)
    (h : ∀ depth, (evaluateBy R depth t).Meets P E) : (Outcome.ofExcept r).Meets P E := by
  obtain ⟨depth, hd⟩ := hr
  exact hd ▸ h depth

end TypedLambda
