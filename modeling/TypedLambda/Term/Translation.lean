import TypedLambda.Evaluation
import TypedLambda.Typing.Error

/-!
Translations of terms, and of the values and errors in which terms stand.

`erase` takes the ascriptions away. `nameParameters x` turns every function that ignores its
argument into one with the parameter `x`; if `x` stands nowhere in the term, the new parameter is
used nowhere.
-/

namespace TypedLambda

/-! ### Without ascriptions -/

def Term.erase : Term → Term
  | .bool b => .bool b
  | .int n => .int n
  | .string s => .string s
  | .unit => .unit
  | .nil => .nil
  | .var x => .var x
  | .abs x b => .abs x b.erase
  | .wildcard b => .wildcard b.erase
  | .app f a => .app f.erase a.erase
  | .add l r => .add l.erase r.erase
  | .ascribe t _ => t.erase
  | .cond c a b => .cond c.erase a.erase b.erase
  | .isZero t => .isZero t.erase
  | .cons h t => .cons h.erase t.erase
  | .isEmpty t => .isEmpty t.erase
  | .head t => .head t.erase
  | .tail t => .tail t.erase
  | .letIn x e b => .letIn x e.erase b.erase

def Value.erase : Value → Value
  | .bool b => .bool b
  | .int n => .int n
  | .string s => .string s
  | .unit => .unit
  | .fn x b => .fn x b.erase
  | .wildcard b => .wildcard b.erase
  | .nil => .nil
  | .cons h t => .cons h.erase t.erase

def EvalError.erase : EvalError → EvalError
  | .addition l r => .addition l.erase r.erase
  | .ascription t ty => .ascription t.erase ty
  | .wrongValue v expected => .wrongValue v.erase expected
  | .notAFunction t => .notAFunction t.erase
  | .freeVariable x => .freeVariable x
  | .isZero t => .isZero t.erase
  | .conditional t => .conditional t.erase
  | .application f a => .application f.erase a.erase

theorem Value.erase_toTerm (v : Value) : v.toTerm.erase = v.erase.toTerm := by
  induction v with
  | bool | int | string | unit | fn | wildcard | nil => rfl
  | cons h t ihh iht => simp [toTerm, erase, Term.erase, ihh, iht]

/-! ### A parameter for every function -/

/-- Gives the parameter `x` to every function that ignores its argument. -/
def Term.nameParameters (x : Name) : Term → Term
  | .bool b => .bool b
  | .int n => .int n
  | .string s => .string s
  | .unit => .unit
  | .nil => .nil
  | .var y => .var y
  | .abs y b => .abs y (b.nameParameters x)
  | .wildcard b => .abs x (b.nameParameters x)
  | .app f a => .app (f.nameParameters x) (a.nameParameters x)
  | .add l r => .add (l.nameParameters x) (r.nameParameters x)
  | .ascribe t ty => .ascribe (t.nameParameters x) ty
  | .cond c a b => .cond (c.nameParameters x) (a.nameParameters x) (b.nameParameters x)
  | .isZero t => .isZero (t.nameParameters x)
  | .cons h t => .cons (h.nameParameters x) (t.nameParameters x)
  | .isEmpty t => .isEmpty (t.nameParameters x)
  | .head t => .head (t.nameParameters x)
  | .tail t => .tail (t.nameParameters x)
  | .letIn y e b => .letIn y (e.nameParameters x) (b.nameParameters x)

def Value.nameParameters (x : Name) : Value → Value
  | .bool b => .bool b
  | .int n => .int n
  | .string s => .string s
  | .unit => .unit
  | .fn y b => .fn y (b.nameParameters x)
  | .wildcard b => .fn x (b.nameParameters x)
  | .nil => .nil
  | .cons h t => .cons (h.nameParameters x) (t.nameParameters x)

def EvalError.nameParameters (x : Name) : EvalError → EvalError
  | .addition l r => .addition (l.nameParameters x) (r.nameParameters x)
  | .ascription t ty => .ascription (t.nameParameters x) ty
  | .wrongValue v expected => .wrongValue (v.nameParameters x) expected
  | .notAFunction t => .notAFunction (t.nameParameters x)
  | .freeVariable y => .freeVariable y
  | .isZero t => .isZero (t.nameParameters x)
  | .conditional t => .conditional (t.nameParameters x)
  | .application f a => .application (f.nameParameters x) (a.nameParameters x)

def TypeError.nameParameters (x : Name) : TypeError → TypeError
  | .mismatch l r => .mismatch l r
  | .badType t actual expected => .badType (t.nameParameters x) actual expected
  | .checkFailed t expected => .checkFailed (t.nameParameters x) expected
  | .unbound y => .unbound y
  | .notUnifiable l r => .notUnifiable l r

theorem Value.nameParameters_toTerm (x : Name) (v : Value) :
    v.toTerm.nameParameters x = (v.nameParameters x).toTerm := by
  induction v with
  | bool | int | string | unit | fn | wildcard | nil => rfl
  | cons h t ihh iht => simp [toTerm, nameParameters, Term.nameParameters, ihh, iht]

end TypedLambda
