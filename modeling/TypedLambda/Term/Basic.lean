import TypedLambda.Text
import TypedLambda.Ty.Basic

/-!
Terms, the programs of the language, and values, the results of evaluation.

`Term.replace` puts a term for a variable as it stands. It stops at a binder of the same name,
and renames no binder: a free variable of the term put in is bound by a binder of its name that
stands around the place. `freeVars` are the variables that no binder of their own name encloses,
`ascribed` collects the types that are written in a term, and `mapAscribed` changes them.

A function value keeps its body as it was written, and every value stands for a term. A chain of
`cons` is written as a list: between brackets if it ends in `nil`, and else with `::` before every
further part. Every function is written `<fun>`.
-/

namespace TypedLambda

inductive Term
  | bool (b : Bool)
  | int (n : Int)
  | string (s : String)
  | unit
  | var (x : Name)
  /-- A function of the parameter `x`. -/
  | abs (x : Name) (body : Term)
  /-- A function that ignores its argument. -/
  | wildcard (body : Term)
  | app (fn arg : Term)
  | add (left right : Term)
  /-- A term with the type that it is said to have. -/
  | ascribe (t : Term) (ty : Ty)
  | cond (test yes no : Term)
  | isZero (t : Term)
  | nil
  | cons (head tail : Term)
  | isEmpty (list : Term)
  | head (list : Term)
  | tail (list : Term)
  /-- `x` stands for the bound term inside the body. -/
  | letIn (x : Name) (bound body : Term)
  deriving DecidableEq, Inhabited

namespace Term

def list (ts : List Term) : Term := ts.foldr cons nil

/-- Puts `r` for the free variable `x`, without renaming any binder. -/
def replace (t : Term) (x : Name) (r : Term) : Term :=
  match t with
  | bool b => bool b
  | int n => int n
  | string s => string s
  | unit => unit
  | nil => nil
  | var y => if y = x then r else var y
  | abs y b => if y = x then abs y b else abs y (b.replace x r)
  | wildcard b => wildcard (b.replace x r)
  | app f a => app (f.replace x r) (a.replace x r)
  | add a b => add (a.replace x r) (b.replace x r)
  | ascribe t ty => ascribe (t.replace x r) ty
  | cond c a b => cond (c.replace x r) (a.replace x r) (b.replace x r)
  | isZero t => isZero (t.replace x r)
  | cons h t => cons (h.replace x r) (t.replace x r)
  | isEmpty t => isEmpty (t.replace x r)
  | head t => head (t.replace x r)
  | tail t => tail (t.replace x r)
  | letIn y e b => letIn y (e.replace x r) (if y = x then b else b.replace x r)

def freeVars : Term → List Name
  | bool _ | int _ | string _ | unit | nil => []
  | var x => [x]
  | abs x b => b.freeVars.filter (· != x)
  | wildcard t | ascribe t _ | isZero t | isEmpty t | head t | tail t => t.freeVars
  | app a b | add a b | cons a b => a.freeVars ++ b.freeVars
  | cond c a b => c.freeVars ++ a.freeVars ++ b.freeVars
  | letIn x e b => e.freeVars ++ b.freeVars.filter (· != x)

def Closed (t : Term) : Prop := t.freeVars = []

instance (t : Term) : Decidable t.Closed := inferInstanceAs (Decidable (_ = _))

def ascribed : Term → List Ty
  | bool _ | int _ | string _ | unit | nil | var _ => []
  | ascribe t ty => ty :: t.ascribed
  | abs _ t | wildcard t | isZero t | isEmpty t | head t | tail t => t.ascribed
  | app a b | add a b | cons a b | letIn _ a b => a.ascribed ++ b.ascribed
  | cond c a b => c.ascribed ++ a.ascribed ++ b.ascribed

def ascribedVars (t : Term) : List Name := t.ascribed.flatMap Ty.vars

/-- A term whose ascriptions have no type variables. -/
def Concrete (t : Term) : Prop := t.ascribedVars = []

instance (t : Term) : Decidable t.Concrete := inferInstanceAs (Decidable (_ = _))

def mapAscribed (f : Ty → Ty) : Term → Term
  | bool b => bool b
  | int n => int n
  | string s => string s
  | unit => unit
  | nil => nil
  | var x => var x
  | abs x b => abs x (b.mapAscribed f)
  | wildcard b => wildcard (b.mapAscribed f)
  | app a b => app (a.mapAscribed f) (b.mapAscribed f)
  | add a b => add (a.mapAscribed f) (b.mapAscribed f)
  | ascribe t ty => ascribe (t.mapAscribed f) (f ty)
  | cond c a b => cond (c.mapAscribed f) (a.mapAscribed f) (b.mapAscribed f)
  | isZero t => isZero (t.mapAscribed f)
  | cons h t => cons (h.mapAscribed f) (t.mapAscribed f)
  | isEmpty t => isEmpty (t.mapAscribed f)
  | head t => head (t.mapAscribed f)
  | tail t => tail (t.mapAscribed f)
  | letIn x e b => letIn x (e.mapAscribed f) (b.mapAscribed f)

def render : Term → String
  | bool true => "true"
  | bool false => "false"
  | int n => Decimal.integer n
  | string s => Quoted.render s
  | unit => "unit"
  | nil => "nil"
  | var x => x
  | abs x b => "(λ" ++ x ++ "." ++ b.render ++ ")"
  | wildcard b => "(λ_." ++ b.render ++ ")"
  | app f a => "(" ++ f.render ++ " " ++ a.render ++ ")"
  | add a b => "(+ " ++ a.render ++ " " ++ b.render ++ ")"
  | ascribe t ty => "(" ++ t.render ++ " : " ++ ty.render ++ ")"
  | cond c a b => "(if " ++ c.render ++ " " ++ a.render ++ " " ++ b.render ++ ")"
  | isZero t => "(isZero? " ++ t.render ++ ")"
  | cons h t => "(cons " ++ h.render ++ " " ++ t.render ++ ")"
  | isEmpty t => "(isEmpty? " ++ t.render ++ ")"
  | head t => "(head " ++ t.render ++ ")"
  | tail t => "(tail " ++ t.render ++ ")"
  | letIn x e b => "(let " ++ x ++ " = " ++ e.render ++ " in " ++ b.render ++ ")"

end Term

/-! ### Values -/

inductive Value
  | bool (b : Bool)
  | int (n : Int)
  | string (s : String)
  | unit
  /-- A function of the parameter `x`. -/
  | fn (x : Name) (body : Term)
  /-- A function that ignores its argument. -/
  | wildcard (body : Term)
  | nil
  | cons (head tail : Value)
  deriving DecidableEq, Inhabited

namespace Value

def toTerm : Value → Term
  | bool b => .bool b
  | int n => .int n
  | string s => .string s
  | unit => .unit
  | fn x b => .abs x b
  | wildcard b => .wildcard b
  | nil => .nil
  | cons h t => .cons h.toTerm t.toTerm

def join : List String × Option String → String
  | (elements, none) => "[" ++ ", ".intercalate elements ++ "]"
  | (elements, some last) => " :: ".intercalate (elements ++ [last])

/-- The written parts of a value, taken as a chain: its elements in order, and its end unless that
is `nil`. A value that is no `cons` is the end of a chain without elements. -/
def pieces : Value → List String × Option String
  | bool true => ([], some "true")
  | bool false => ([], some "false")
  | int n => ([], some (Decimal.integer n))
  | string s => ([], some (Quoted.render s))
  | unit => ([], some "unit")
  | fn _ _ => ([], some "<fun>")
  | wildcard _ => ([], some "<fun>")
  | nil => ([], none)
  | cons h t => (join h.pieces :: t.pieces.1, t.pieces.2)

def render (v : Value) : String := join v.pieces

end Value

end TypedLambda
