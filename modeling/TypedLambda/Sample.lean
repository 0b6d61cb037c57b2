import TypedLambda.Program

/-!
Sample terms, which are known by a name and can be run by it.
-/

namespace TypedLambda

structure Sample where
  name : String
  term : Term

namespace Sample

def addAfterIsZero : Sample where
  name := "add-after-is-zero"
  term := .cond (.isZero (.int 0)) (.app (.abs "x" (.add (.var "x") (.int 2))) (.int 4))
    (.bool false)

def ascribedIsZero : Sample where
  name := "ascribed-is-zero"
  term := .app (.ascribe (.abs "x" (.isZero (.var "x"))) (.arrow .int .bool)) (.int 1)

def ascribedConditional : Sample where
  name := "ascribed-conditional"
  term := .app
    (.ascribe (.abs "x" (.cond (.isZero (.var "x")) (.int 23) (.int 100))) (.arrow .int .int))
    (.int 2)

def increment : Sample where
  name := "increment"
  term := .abs "x" (.add (.var "x") (.int 1))

def freeVariable : Sample where
  name := "free-variable"
  term := .app (.abs "x" (.var "y")) (.int 1)

def listSum : Sample where
  name := "list-sum"
  term :=
    let numbers := Term.list [.int 1, .int 2]
    .add (.head numbers) (.head (.tail numbers))

def wildcard : Sample where
  name := "wildcard"
  term := .app (.wildcard (.string "ignored")) .unit

def letTwice : Sample where
  name := "let-twice"
  term := .letIn "twice" (.abs "f" (.abs "a" (.app (.var "f") (.app (.var "f") (.var "a")))))
    (.app (.app (.var "twice") (.abs "n" (.add (.var "n") (.int 10)))) (.int 1))

def all : List Sample :=
  [addAfterIsZero, ascribedIsZero, ascribedConditional, increment, freeVariable, listSum, wildcard,
    letTwice]

def find? (name : String) : Option Sample := all.find? (·.name == name)

def listing : String := "\n".intercalate (all.map name)

end Sample

/-- Describes the sample with the given name, or says that there is none. -/
def Program.describeSample? (p : Program) (depth : Nat) (name : String) : Option String :=
  match Sample.find? name with
  | some s => p.describe? depth s.term
  | none => some ("no demo named " ++ name)

end TypedLambda
