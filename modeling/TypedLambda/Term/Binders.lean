import TypedLambda.Name.Supply
import TypedLambda.Term.Basic

/-!
The names of binders: equality of terms up to them, and replacement that changes them.

Two terms are compared under a list of pairs of names: the binders around them, the innermost one
first. Two variables correspond if the innermost pair that has one of them on its side is the pair
of both, or if no pair has either and they are the same name.

`Term.replaceFresh` puts a term for a variable like `Term.replace`, but first gives a new name to
every binder on the way that would bind a free variable of the term put in. The new name stands
nowhere in the body of the binder and is not free in the term put in.
-/

namespace TypedLambda

/-- Whether two variables correspond under the given pairs of binders. -/
def Paired : List (Name × Name) → Name → Name → Prop
  | [], x, y => x = y
  | (a, b) :: rest, x, y => (x = a ∧ y = b) ∨ (x ≠ a ∧ y ≠ b ∧ Paired rest x y)

namespace Term

inductive AlphaUnder : List (Name × Name) → Term → Term → Prop
  | bool {ρ : List (Name × Name)} {b : Bool} : AlphaUnder ρ (.bool b) (.bool b)
  | int {ρ : List (Name × Name)} {n : Int} : AlphaUnder ρ (.int n) (.int n)
  | string {ρ : List (Name × Name)} {s : String} : AlphaUnder ρ (.string s) (.string s)
  | unit {ρ : List (Name × Name)} : AlphaUnder ρ .unit .unit
  | nil {ρ : List (Name × Name)} : AlphaUnder ρ .nil .nil
  | var {ρ : List (Name × Name)} {x y : Name} : Paired ρ x y → AlphaUnder ρ (.var x) (.var y)
  | abs {ρ : List (Name × Name)} {x y : Name} {b c : Term} :
      AlphaUnder ((x, y) :: ρ) b c → AlphaUnder ρ (.abs x b) (.abs y c)
  | wildcard {ρ : List (Name × Name)} {b c : Term} :
      AlphaUnder ρ b c → AlphaUnder ρ (.wildcard b) (.wildcard c)
  | app {ρ : List (Name × Name)} {f f' a a' : Term} :
      AlphaUnder ρ f f' → AlphaUnder ρ a a' → AlphaUnder ρ (.app f a) (.app f' a')
  | add {ρ : List (Name × Name)} {l l' r r' : Term} :
      AlphaUnder ρ l l' → AlphaUnder ρ r r' → AlphaUnder ρ (.add l r) (.add l' r')
  | ascribe {ρ : List (Name × Name)} {t t' : Term} {ty : Ty} :
      AlphaUnder ρ t t' → AlphaUnder ρ (.ascribe t ty) (.ascribe t' ty)
  | cond {ρ : List (Name × Name)} {c c' a a' b b' : Term} :
      AlphaUnder ρ c c' → AlphaUnder ρ a a' → AlphaUnder ρ b b' →
        AlphaUnder ρ (.cond c a b) (.cond c' a' b')
  | isZero {ρ : List (Name × Name)} {t t' : Term} :
      AlphaUnder ρ t t' → AlphaUnder ρ (.isZero t) (.isZero t')
  | cons {ρ : List (Name × Name)} {h h' t t' : Term} :
      AlphaUnder ρ h h' → AlphaUnder ρ t t' → AlphaUnder ρ (.cons h t) (.cons h' t')
  | isEmpty {ρ : List (Name × Name)} {l l' : Term} :
      AlphaUnder ρ l l' → AlphaUnder ρ (.isEmpty l) (.isEmpty l')
  | head {ρ : List (Name × Name)} {l l' : Term} :
      AlphaUnder ρ l l' → AlphaUnder ρ (.head l) (.head l')
  | tail {ρ : List (Name × Name)} {l l' : Term} :
      AlphaUnder ρ l l' → AlphaUnder ρ (.tail l) (.tail l')
  | letIn {ρ : List (Name × Name)} {x y : Name} {e e' b b' : Term} :
      AlphaUnder ρ e e' → AlphaUnder ((x, y) :: ρ) b b' →
        AlphaUnder ρ (.letIn x e b) (.letIn y e' b')

def Alpha (t u : Term) : Prop := AlphaUnder [] t u

/-! ### New names for binders -/

def names : Term → List Name
  | bool _ | int _ | string _ | unit | nil => []
  | var x => [x]
  | abs x b => x :: b.names
  | wildcard t | ascribe t _ | isZero t | isEmpty t | head t | tail t => t.names
  | app a b | add a b | cons a b => a.names ++ b.names
  | cond c a b => c.names ++ a.names ++ b.names
  | letIn x e b => x :: (e.names ++ b.names)

def size : Term → Nat
  | bool _ | int _ | string _ | unit | nil | var _ => 1
  | abs _ t | wildcard t | ascribe t _ | isZero t | isEmpty t | head t | tail t => t.size + 1
  | app a b | add a b | cons a b | letIn _ a b => a.size + b.size + 1
  | cond c a b => c.size + a.size + b.size + 1

@[simp] theorem size_replace_var (t : Term) (x y : Name) :
    (t.replace x (.var y)).size = t.size := by
  induction t with
  | bool | int | string | unit | nil => rfl
  | var z => by_cases h : z = x <;> simp [replace, size, h]
  | abs z b ih => by_cases h : z = x <;> simp [replace, size, h, ih]
  | letIn z e b ihe ihb => by_cases h : z = x <;> simp [replace, size, h, ihe, ihb]
  | cond c a b ihc iha ihb => simp [replace, size, ihc, iha, ihb]
  | app a b iha ihb | add a b iha ihb | cons a b iha ihb => simp [replace, size, iha, ihb]
  | wildcard t ih | ascribe t _ ih | isZero t ih | isEmpty t ih | head t ih | tail t ih =>
    simp [replace, size, ih]

/-- A name for the binder `x` of the body `b` under which `r` may be put for the variable `y`:
`x` itself unless it is free in `r`, and then a name that is new. -/
def binderFor (x : Name) (b : Term) (y : Name) (r : Term) : Name :=
  if x ∈ r.freeVars then (NameSupply.avoiding (y :: b.names ++ r.freeVars)).draw.1 else x

/-- Puts `r` for the free variable `y`, with new names for the binders that would capture a free
variable of `r`. -/
def replaceFresh (t : Term) (y : Name) (r : Term) : Term :=
  match t with
  | bool b => bool b
  | int n => int n
  | string s => string s
  | unit => unit
  | nil => nil
  | var x => if x = y then r else var x
  | abs x b =>
    if x = y then abs x b
    else
      let z := binderFor x b y r
      abs z ((b.replace x (var z)).replaceFresh y r)
  | wildcard b => wildcard (b.replaceFresh y r)
  | app f a => app (f.replaceFresh y r) (a.replaceFresh y r)
  | add a b => add (a.replaceFresh y r) (b.replaceFresh y r)
  | ascribe t ty => ascribe (t.replaceFresh y r) ty
  | cond c a b => cond (c.replaceFresh y r) (a.replaceFresh y r) (b.replaceFresh y r)
  | isZero t => isZero (t.replaceFresh y r)
  | cons h t => cons (h.replaceFresh y r) (t.replaceFresh y r)
  | isEmpty t => isEmpty (t.replaceFresh y r)
  | head t => head (t.replaceFresh y r)
  | tail t => tail (t.replaceFresh y r)
  | letIn x e b =>
    if x = y then letIn x (e.replaceFresh y r) b
    else
      let z := binderFor x b y r
      letIn z (e.replaceFresh y r) ((b.replace x (var z)).replaceFresh y r)
termination_by t.size
decreasing_by all_goals simp only [size, size_replace_var]; omega

end Term

end TypedLambda
