import TypedLambda.Ty.Substitution
import TypedLambda.Typing.Error

/-!
Typing in two directions: a type is either given from outside and checked, or it is synthesized
from the term.

`check` passes the parts of an arrow type into functions, and takes `nil` for a list of any type;
every other term has the type that `synthesize` finds for it, if that is the given one.
`synthesize` invents no type variables, so it refuses functions and `nil`, whose types cannot be
read off; the unknown parts of the types in its errors are written as a question mark.
-/

namespace TypedLambda

/-- Stands in errors for a type that is not known. -/
def Ty.unknown : Ty := .var "?"

mutual

/-- Whether the term has the given type. -/
def Term.check (Γ : Context) (t : Term) (ty : Ty) : Bool :=
  match t, ty with
  | .abs x b, .arrow dom cod => check (Γ.insert x dom) b cod
  | .wildcard b, .arrow _ cod => check Γ b cod
  | .abs _ _, _ => false
  | .wildcard _, _ => false
  | .nil, .list _ => true
  | t, ty =>
    match synthesize Γ t with
    | .ok found => found = ty
    | .error _ => false
termination_by (sizeOf t, 1)

/-- The type of the term, as far as it can be read off. -/
def Term.synthesize (Γ : Context) (t : Term) : Except TypeError Ty :=
  match t with
  | .bool _ => .ok .bool
  | .int _ => .ok .int
  | .string _ => .ok .string
  | .unit => .ok .unit
  | .nil => .error (.checkFailed .nil (.list .unknown))
  | .abs x b => .error (.checkFailed (.abs x b) (.arrow .unknown .unknown))
  | .wildcard b => .error (.checkFailed (.wildcard b) (.arrow .unknown .unknown))
  | .var x =>
    match Γ.get? x with
    | some ty => .ok ty
    | none => .error (.unbound x)
  | .ascribe t ty => do
    require Γ t ty
    return ty
  | .add l r => do
    require Γ l .int
    require Γ r .int
    return .int
  | .isZero t => do
    require Γ t .int
    return .bool
  | .cond c a b => do
    require Γ c .bool
    let ty ← synthesize Γ a
    require Γ b ty
    return ty
  | .app f a => do
    match ← synthesize Γ f with
    | .arrow dom cod => do
      require Γ a dom
      return cod
    | actual => throw (.badType f actual (.arrow .unknown .unknown))
  | .cons h t => do
    let elem ← synthesize Γ h
    require Γ t (.list elem)
    return .list elem
  | .isEmpty l => do
    let _ ← element Γ l
    return .bool
  | .head l => element Γ l
  | .tail l => do
    let elem ← element Γ l
    return .list elem
  | .letIn x e b => do
    let ty ← synthesize Γ e
    synthesize (Γ.insert x ty) b
termination_by (sizeOf t, 0)

def Term.require (Γ : Context) (t : Term) (ty : Ty) : Except TypeError Unit :=
  if check Γ t ty then .ok () else .error (.checkFailed t ty)
termination_by (sizeOf t, 2)

def Term.element (Γ : Context) (l : Term) : Except TypeError Ty := do
  match ← synthesize Γ l with
  | .list elem => return elem
  | actual => throw (.badType l actual (.list .unknown))
termination_by (sizeOf l, 1)

end

end TypedLambda
