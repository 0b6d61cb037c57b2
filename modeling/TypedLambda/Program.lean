import TypedLambda.Evaluation
import TypedLambda.Typing.Checking
import TypedLambda.Typing.Inference

/-!
Programs: a term is typed by one of two disciplines, and run only if it has a type.

The context is used for typing alone. An open term can have a type, but when it is run, a variable
that is reached is an error.
-/

namespace TypedLambda

inductive Discipline
  | bidirectional
  | unification
  deriving DecidableEq

namespace Discipline

def typeOf (d : Discipline) (Γ : Context) (t : Term) : Except TypeError Ty :=
  match d with
  | bidirectional => t.synthesize Γ
  | unification => t.typecheck Γ

def ofCode? : Nat → Option Discipline
  | 0 => some bidirectional
  | 1 => some unification
  | _ => none

end Discipline

inductive ProgramError
  | typing (e : TypeError)
  | evaluation (e : EvalError)
  deriving DecidableEq

def ProgramError.message : ProgramError → String
  | typing e => e.message
  | evaluation e => e.message

structure Program where
  discipline : Discipline := .unification
  context : Context := .empty
  deriving DecidableEq

namespace Program

def typeOf (p : Program) (t : Term) : Except TypeError Ty := p.discipline.typeOf p.context t

/-- Types a term, and then evaluates it to at most the given depth. -/
def run (p : Program) (depth : Nat) (t : Term) : Outcome ProgramError (Value × Ty) := do
  let ty ← (Outcome.ofExcept (p.typeOf t)).mapError .typing
  let v ← (t.evaluate depth).mapError .evaluation
  return (v, ty)

/-- The value and the type of a term in words, or the error; nothing if the depth does not
suffice. -/
def describe? (p : Program) (depth : Nat) (t : Term) : Option String :=
  match p.run depth t with
  | .value (v, ty) => some (v.render ++ ": " ++ ty.render)
  | .error e => some e.message
  | .unfinished => none

/-- Changes the discipline to the one with the given number. An unknown number changes nothing,
which the second component says. -/
def select (p : Program) (code : Nat) : Program × Bool :=
  match Discipline.ofCode? code with
  | some d => ({ p with discipline := d }, true)
  | none => (p, false)

end Program

end TypedLambda
