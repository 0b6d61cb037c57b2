import TypedLambda.Name.Supply
import TypedLambda.Ty.Substitution
import TypedLambda.Typing.Error

/-!
Inference: the type of a term is found by unification.

`inferBy` goes through a term from left to right. It returns the type of the term with a
substitution, which holds what has been learned about type variables on the way; before the next
part is visited, what is known so far is applied to the context. A parameter, an empty list, the
result of an application and the elements of a list that is taken apart start as new variables
from the supply. What a `let` binds has one type for all its uses.

How two substitutions are joined on the way is left open there. The language composes them
(`infer`); other ways of joining show what is composed, and whether anything is overwritten.

`typecheck` starts from a supply in which the variables of the context and of the ascriptions are
taken, so that new variables are different from all of them.

Below the definitions stands what the parts of a term have given if there is a result for the term,
once for each form of terms (`infer_app_eq_ok` and the others).
-/

namespace TypedLambda

/-- What is found for a term: its type, what was learned, and the names that are left. -/
structure Inferred where
  type : Ty
  learned : Substitution
  supply : NameSupply
  deriving DecidableEq

/-- A way of joining what was known with what has been learned on top of it. -/
abbrev Join := Substitution → Substitution → Except TypeError Substitution

def Join.composition : Join := fun σ τ => .ok (σ.compose τ)

@[simp] theorem Join.composition_bind {α : Type} (σ τ : Substitution)
    (f : Substitution → Except TypeError α) : (composition σ τ >>= f) = f (σ.compose τ) := rfl

/-- Learns on top of `σ` that two types are equal. -/
def Substitution.equateBy (join : Join) (σ : Substitution) (l r : Ty) :
    Except TypeError Substitution :=
  match l.unify r with
  | .ok τ => join σ τ
  | .error clash => .error (.ofClash clash)

def Inferred.elementBy (join : Join) (i : Inferred) : Except TypeError Inferred := do
  let elem := i.supply.draw
  let σ ← i.learned.equateBy join i.type (.list (.var elem.1))
  return ⟨σ.apply (.var elem.1), σ, elem.2⟩

/-- The type of a term in a context, with what is learned about the variables of the context. -/
def Term.inferBy (join : Join) (Γ : Context) (supply : NameSupply) (t : Term) :
    Except TypeError Inferred :=
  match t with
  | .bool _ => .ok ⟨.bool, .empty, supply⟩
  | .int _ => .ok ⟨.int, .empty, supply⟩
  | .string _ => .ok ⟨.string, .empty, supply⟩
  | .unit => .ok ⟨.unit, .empty, supply⟩
  | .nil =>
    let elem := supply.draw
    .ok ⟨.list (.var elem.1), .empty, elem.2⟩
  | .var x =>
    match Γ.get? x with
    | some ty => .ok ⟨ty, .empty, supply⟩
    | none => .error (.unbound x)
  | .isZero t => do
    let i ← inferBy join Γ supply t
    let σ ← i.learned.equateBy join i.type .int
    return ⟨.bool, σ, i.supply⟩
  | .add l r => do
    let i ← inferBy join Γ supply l
    let j ← inferBy join (i.learned.applyContext Γ) i.supply r
    let σ ← join i.learned j.learned
    let σ ← σ.equateBy join (σ.apply i.type) .int
    let σ ← σ.equateBy join (σ.apply j.type) .int
    return ⟨.int, σ, j.supply⟩
  | .ascribe t ty => do
    let i ← inferBy join Γ supply t
    -- of the variables written in `ty`, only what `t` itself has taught is known here
    let σ ← i.learned.equateBy join (i.learned.apply ty) i.type
    return ⟨σ.apply ty, σ, i.supply⟩
  | .cond c a b => do
    let i ← inferBy join Γ supply c
    let σ ← i.learned.equateBy join i.type .bool
    let j ← inferBy join (σ.applyContext Γ) i.supply a
    let σ ← join σ j.learned
    let k ← inferBy join (σ.applyContext Γ) j.supply b
    let σ ← join σ k.learned
    let σ ← σ.equateBy join (σ.apply j.type) k.type
    return ⟨σ.apply j.type, σ, k.supply⟩
  | .abs x b => do
    let param := supply.draw
    let i ← inferBy join (Γ.insert x (.var param.1)) param.2 b
    return ⟨.arrow (i.learned.apply (.var param.1)) i.type, i.learned, i.supply⟩
  | .wildcard b => do
    let param := supply.draw
    let i ← inferBy join Γ param.2 b
    return ⟨.arrow (.var param.1) i.type, i.learned, i.supply⟩
  | .app f a => do
    let i ← inferBy join Γ supply f
    let j ← inferBy join (i.learned.applyContext Γ) i.supply a
    let σ ← join i.learned j.learned
    let result := j.supply.draw
    let σ ← σ.equateBy join (σ.apply i.type) (.arrow j.type (.var result.1))
    return ⟨σ.apply (.var result.1), σ, result.2⟩
  | .cons h t => do
    let i ← inferBy join Γ supply h
    let j ← inferBy join (i.learned.applyContext Γ) i.supply t
    let σ ← join i.learned j.learned
    let σ ← σ.equateBy join (.list (σ.apply i.type)) j.type
    return ⟨σ.apply j.type, σ, j.supply⟩
  | .isEmpty l => do
    let i ← inferBy join Γ supply l
    let e ← i.elementBy join
    return { e with type := .bool }
  | .head l => do
    let i ← inferBy join Γ supply l
    i.elementBy join
  | .tail l => do
    let i ← inferBy join Γ supply l
    let e ← i.elementBy join
    return { e with type := .list e.type }
  | .letIn x e b => do
    let i ← inferBy join Γ supply e
    let j ← inferBy join ((i.learned.applyContext Γ).insert x i.type) i.supply b
    let σ ← join i.learned j.learned
    return ⟨j.type, σ, j.supply⟩

abbrev Substitution.equate (σ : Substitution) (l r : Ty) : Except TypeError Substitution :=
  σ.equateBy .composition l r

abbrev Inferred.element (i : Inferred) : Except TypeError Inferred := i.elementBy .composition

abbrev Term.infer (Γ : Context) (supply : NameSupply) (t : Term) : Except TypeError Inferred :=
  t.inferBy .composition Γ supply

def NameSupply.forTerm (Γ : Context) (t : Term) : NameSupply :=
  (NameSupply.avoiding Γ.tyVars).reserve t.ascribedVars

/-- The type of a term, by unification. -/
def Term.typecheck (Γ : Context) (t : Term) : Except TypeError Ty := do
  let i ← infer Γ (.forTerm Γ t) t
  return i.learned.apply i.type

/-! ### Where a result comes from -/

theorem Substitution.equate_eq_ok {σ ρ : Substitution} {l r : Ty} :
    σ.equate l r = .ok ρ ↔ ∃ τ, l.unify r = .ok τ ∧ σ.compose τ = ρ := by
  simp only [equate, equateBy, Join.composition]
  cases l.unify r <;> simp

theorem Inferred.element_eq_ok {i e : Inferred} :
    i.element = .ok e ↔
      ∃ σ, i.learned.equate i.type (.list (.var i.supply.draw.1)) = .ok σ ∧
        ⟨σ.apply (.var i.supply.draw.1), σ, i.supply.draw.2⟩ = e := by
  simp only [element, elementBy, bind_eq_ok, pure_eq_ok]

namespace Term

variable {Γ : Context} {s : NameSupply} {t u v : Term} {x : Name} {ty : Ty} {e : Inferred}

theorem infer_var_eq_ok :
    (var x).infer Γ s = .ok e ↔ ∃ A, Γ.get? x = some A ∧ ⟨A, .empty, s⟩ = e := by
  simp only [infer, inferBy]
  cases Γ.get? x <;> simp

theorem infer_isZero_eq_ok :
    (isZero t).infer Γ s = .ok e ↔
      ∃ i, t.infer Γ s = .ok i ∧
        ∃ σ, i.learned.equate i.type .int = .ok σ ∧ ⟨.bool, σ, i.supply⟩ = e := by
  -- inference computes on a form of term, so it is opened without its equations
  show (_ >>= _) = _ ↔ _
  simp only [bind_eq_ok, pure_eq_ok]

theorem infer_add_eq_ok :
    (add t u).infer Γ s = .ok e ↔
      ∃ i, t.infer Γ s = .ok i ∧
        ∃ j, u.infer (i.learned.applyContext Γ) i.supply = .ok j ∧
          ∃ σ, (i.learned.compose j.learned).equate
              ((i.learned.compose j.learned).apply i.type) .int = .ok σ ∧
            ∃ τ, σ.equate (σ.apply j.type) .int = .ok τ ∧ ⟨.int, τ, j.supply⟩ = e := by
  show (_ >>= _) = _ ↔ _
  simp only [Join.composition_bind, bind_eq_ok, pure_eq_ok]

theorem infer_ascribe_eq_ok :
    (ascribe t ty).infer Γ s = .ok e ↔
      ∃ i, t.infer Γ s = .ok i ∧
        ∃ σ, i.learned.equate (i.learned.apply ty) i.type = .ok σ ∧
          ⟨σ.apply ty, σ, i.supply⟩ = e := by
  show (_ >>= _) = _ ↔ _
  simp only [bind_eq_ok, pure_eq_ok]

theorem infer_cond_eq_ok :
    (cond t u v).infer Γ s = .ok e ↔
      ∃ i, t.infer Γ s = .ok i ∧
        ∃ σ, i.learned.equate i.type .bool = .ok σ ∧
          ∃ j, u.infer (σ.applyContext Γ) i.supply = .ok j ∧
            ∃ k, v.infer ((σ.compose j.learned).applyContext Γ) j.supply = .ok k ∧
              ∃ τ, ((σ.compose j.learned).compose k.learned).equate
                  (((σ.compose j.learned).compose k.learned).apply j.type) k.type = .ok τ ∧
                ⟨τ.apply j.type, τ, k.supply⟩ = e := by
  show (_ >>= _) = _ ↔ _
  simp only [Join.composition_bind, bind_eq_ok, pure_eq_ok]

theorem infer_abs_eq_ok :
    (abs x t).infer Γ s = .ok e ↔
      ∃ i, t.infer (Γ.insert x (.var s.draw.1)) s.draw.2 = .ok i ∧
        ⟨.arrow (i.learned.apply (.var s.draw.1)) i.type, i.learned, i.supply⟩ = e := by
  show (_ >>= _) = _ ↔ _
  simp only [bind_eq_ok, pure_eq_ok]

theorem infer_wildcard_eq_ok :
    (wildcard t).infer Γ s = .ok e ↔
      ∃ i, t.infer Γ s.draw.2 = .ok i ∧
        ⟨.arrow (.var s.draw.1) i.type, i.learned, i.supply⟩ = e := by
  show (_ >>= _) = _ ↔ _
  simp only [bind_eq_ok, pure_eq_ok]

theorem infer_app_eq_ok :
    (app t u).infer Γ s = .ok e ↔
      ∃ i, t.infer Γ s = .ok i ∧
        ∃ j, u.infer (i.learned.applyContext Γ) i.supply = .ok j ∧
          ∃ σ, (i.learned.compose j.learned).equate ((i.learned.compose j.learned).apply i.type)
              (.arrow j.type (.var j.supply.draw.1)) = .ok σ ∧
            ⟨σ.apply (.var j.supply.draw.1), σ, j.supply.draw.2⟩ = e := by
  show (_ >>= _) = _ ↔ _
  simp only [Join.composition_bind, bind_eq_ok, pure_eq_ok]

theorem infer_cons_eq_ok :
    (cons t u).infer Γ s = .ok e ↔
      ∃ i, t.infer Γ s = .ok i ∧
        ∃ j, u.infer (i.learned.applyContext Γ) i.supply = .ok j ∧
          ∃ σ, (i.learned.compose j.learned).equate
              (.list ((i.learned.compose j.learned).apply i.type)) j.type = .ok σ ∧
            ⟨σ.apply j.type, σ, j.supply⟩ = e := by
  show (_ >>= _) = _ ↔ _
  simp only [Join.composition_bind, bind_eq_ok, pure_eq_ok]

theorem infer_isEmpty_eq_ok :
    (isEmpty t).infer Γ s = .ok e ↔
      ∃ i, t.infer Γ s = .ok i ∧ ∃ d, i.element = .ok d ∧ { d with type := .bool } = e := by
  show (_ >>= _) = _ ↔ _
  simp only [bind_eq_ok, pure_eq_ok]

theorem infer_head_eq_ok :
    (head t).infer Γ s = .ok e ↔ ∃ i, t.infer Γ s = .ok i ∧ i.element = .ok e :=
  bind_eq_ok

theorem infer_tail_eq_ok :
    (tail t).infer Γ s = .ok e ↔
      ∃ i, t.infer Γ s = .ok i ∧
        ∃ d, i.element = .ok d ∧ { d with type := .list d.type } = e := by
  show (_ >>= _) = _ ↔ _
  simp only [bind_eq_ok, pure_eq_ok]

theorem infer_letIn_eq_ok :
    (letIn x t u).infer Γ s = .ok e ↔
      ∃ i, t.infer Γ s = .ok i ∧
        ∃ j, u.infer ((i.learned.applyContext Γ).insert x i.type) i.supply = .ok j ∧
          ⟨j.type, i.learned.compose j.learned, j.supply⟩ = e := by
  show (_ >>= _) = _ ↔ _
  simp only [Join.composition_bind, bind_eq_ok, pure_eq_ok]

theorem typecheck_eq_ok {A : Ty} :
    t.typecheck Γ = .ok A ↔
      ∃ i, t.infer Γ (.forTerm Γ t) = .ok i ∧ i.learned.apply i.type = A := by
  simp only [typecheck, bind_eq_ok, pure_eq_ok]

end Term

end TypedLambda
