import TypedLambda.Name

/-!
Types, their variables, and the replacement of variables by types.

A type variable may stand anywhere in a type and nothing binds it. `Ty.replace` puts one type for
one variable; `Ty.instantiate` puts types for all variables at the same time. The main facts say
which variables are left: replacing a variable by a type in which it does not occur removes it.

In the written form a variable is its name, and every arrow has its parentheses.
-/

namespace TypedLambda

inductive Ty
  | bool
  | int
  | unit
  | string
  | arrow (dom cod : Ty)
  | list (elem : Ty)
  | var (name : Name)
  deriving DecidableEq, Inhabited

namespace Ty

def vars : Ty → List Name
  | bool | int | unit | string => []
  | arrow a b => a.vars ++ b.vars
  | list a => a.vars
  | var x => [x]

def occurs (x : Name) : Ty → Bool
  | bool | int | unit | string => false
  | arrow a b => a.occurs x || b.occurs x
  | list a => a.occurs x
  | var y => y == x

def freeVars (t : Ty) : List Name := Name.sorted t.vars

def Ground (t : Ty) : Prop := t.vars = []

instance (t : Ty) : Decidable t.Ground := inferInstanceAs (Decidable (_ = _))

def replace (t : Ty) (x : Name) (r : Ty) : Ty :=
  match t with
  | bool => bool
  | int => int
  | unit => unit
  | string => string
  | arrow a b => arrow (a.replace x r) (b.replace x r)
  | list a => list (a.replace x r)
  | var y => if y = x then r else var y

def instantiate (θ : Name → Ty) : Ty → Ty
  | bool => bool
  | int => int
  | unit => unit
  | string => string
  | arrow a b => arrow (a.instantiate θ) (b.instantiate θ)
  | list a => list (a.instantiate θ)
  | var x => θ x

def size : Ty → Nat
  | bool | int | unit | string | var _ => 1
  | arrow a b => a.size + b.size + 1
  | list a => a.size + 1

/-- The written form: `Bool`, `(Int -> String)`, `List<Unit>`. -/
def render : Ty → String
  | bool => "Bool"
  | int => "Int"
  | unit => "Unit"
  | string => "String"
  | arrow a b => "(" ++ a.render ++ " -> " ++ b.render ++ ")"
  | list a => "List<" ++ a.render ++ ">"
  | var x => x

/-! ### Occurrence -/

@[simp] theorem occurs_iff {x : Name} {t : Ty} : t.occurs x = true ↔ x ∈ t.vars := by
  induction t with
  | bool | int | unit | string => simp [occurs, vars]
  | arrow a b iha ihb => simp [occurs, vars, iha, ihb]
  | list a ih => simp [occurs, vars, ih]
  | var y => simpa [occurs, vars] using eq_comm

/-! ### Replacement -/

theorem mem_vars_replace {x y : Name} {r t : Ty} :
    y ∈ (t.replace x r).vars ↔ (y ∈ t.vars ∧ y ≠ x) ∨ (x ∈ t.vars ∧ y ∈ r.vars) := by
  induction t with
  | bool | int | unit | string => simp [replace, vars]
  | arrow a b iha ihb =>
    simp only [replace, vars, List.mem_append, iha, ihb]
    grind
  | list a ih => simpa [replace, vars] using ih
  | var z => grind [replace, vars]

theorem replace_of_not_mem {x : Name} {r t : Ty} (h : x ∉ t.vars) : t.replace x r = t := by
  induction t with
  | bool | int | unit | string => rfl
  | arrow a b iha ihb => simp_all [replace, vars]
  | list a ih => simp_all [replace, vars]
  | var z =>
    have : z ≠ x := fun e => h (by simp [vars, e])
    simp [replace, this]

end Ty

end TypedLambda
