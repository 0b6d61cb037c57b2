import TypedLambda.Evaluation

/-!
Integers of 64 bits and integers of any size.

The two evaluations of a term keep step with each other, depth by depth, until
a sum is out of range for the first time. In 64 bits that sum is an error, and
an error ends the whole evaluation; no wrong integer ever reaches a test or a
further sum. So whatever else an evaluation in 64 bits comes to, the one with
integers of any size comes to the same.
-/

namespace TypedLambda

variable {t : Term} {o p : Outcome EvalError Value}

inductive EvalError.Overflow : EvalError → Prop
  | sum {l r : Term} {a b : Int} : l.Evaluates (.ok (.int a)) → r.Evaluates (.ok (.int b)) →
      ¬InRange (a + b) → Overflow (.addition l r)

/-- The outcomes are the same, unless the first one is an overflow. -/
inductive Outcome.UpToOverflow : Outcome EvalError Value → Outcome EvalError Value → Prop
  | same {o p : Outcome EvalError Value} : p = o → UpToOverflow o p
  | overflow {e : EvalError} {p : Outcome EvalError Value} :
      e.Overflow → UpToOverflow (.error e) p

/-- After an overflow nothing else is evaluated. -/
theorem Outcome.UpToOverflow.bind {f g : Value → Outcome EvalError Value}
    (h : o.UpToOverflow p) (hfg : ∀ v, o = .value v → (f v).UpToOverflow (g v)) :
    (o >>= f).UpToOverflow (p >>= g) := by
  cases h with
  | overflow he => exact .overflow he
  | same h =>
      subst h
      cases p with
      | value v => exact hfg v rfl
      | error | unfinished => exact .same rfl

theorem evaluate_upToOverflow (depth : Nat) (t : Term) :
    (t.evaluate depth).UpToOverflow (t.evaluateBy .unbounded depth) := by
  induction depth generalizing t with
  | zero => exact .same rfl
  | succ depth ih =>
    cases t with
    | bool | int | string | unit | nil | abs | wildcard | var => exact .same rfl
    | ascribe t ty => exact ih t
    -- both put terms in by the same replacement
    | letIn x e b => exact ih (b.replace x e)
    | add l r =>
        refine (ih l).bind fun v hv => (ih r).bind fun w hw => ?_
        cases v with
        | int a =>
            cases w with
            | int b =>
                by_cases hsum : InRange (a + b)
                · simp only [Rules.total?, Rules.standard, Rules.unbounded, if_pos hsum]
                  exact .same rfl
                · simp only [Rules.total?, Rules.standard, if_neg hsum]
                  exact .overflow (.sum ⟨depth, hv⟩ ⟨depth, hw⟩ hsum)
            | bool | string | unit | nil | fn | wildcard | cons => exact .same rfl
        | bool | string | unit | nil | fn | wildcard | cons => exact .same rfl
    | app f a =>
        refine (ih f).bind fun v _ => ?_
        cases v with
        | fn x b => exact (ih a).bind fun w _ => ih (b.replace x w.toTerm)
        | wildcard b => exact (ih a).bind fun _ _ => ih b
        | bool | int | string | unit | nil | cons => exact .same rfl
    | cond c a b =>
        refine (ih c).bind fun v _ => ?_
        cases v with
        | bool test =>
            cases test with
            | true => exact ih a
            | false => exact ih b
        | int | string | unit | nil | fn | wildcard | cons => exact .same rfl
    | cons hd tl => exact (ih hd).bind fun _ _ => (ih tl).bind fun _ _ => .same rfl
    | isZero t => exact (ih t).bind fun _ _ => .same rfl
    | isEmpty l => exact (ih l).bind fun _ _ => .same rfl
    | head l => exact (ih l).bind fun _ _ => .same rfl
    | tail l => exact (ih l).bind fun _ _ => .same rfl

/-- With integers of any size a term has the value that it has in 64 bits, and
it fails or runs for ever as it does in 64 bits. Only where the error is a sum
of two integers that is out of range may the evaluation go on. -/
theorem evaluate_unbounded (t : Term) :
    (∀ v, t.Evaluates (.ok v) → t.EvaluatesBy .unbounded (.ok v)) ∧
      (∀ e, t.Evaluates (.error e) → t.EvaluatesBy .unbounded (.error e) ∨
        ∃ l r a b, e = .addition l r ∧ l.Evaluates (.ok (.int a)) ∧
          r.Evaluates (.ok (.int b)) ∧ ¬InRange (a + b)) ∧
      (t.Diverges → ∀ depth, t.evaluateBy .unbounded depth = .unfinished) := by
  refine ⟨fun v ⟨depth, hv⟩ => ⟨depth, ?_⟩, fun e ⟨depth, he⟩ => ?_, fun never depth => ?_⟩
  · have step := evaluate_upToOverflow depth t
    rw [show t.evaluate depth = .value v from hv] at step
    cases step with
    | same h => exact h
  · have step := evaluate_upToOverflow depth t
    rw [show t.evaluate depth = .error e from he] at step
    cases step with
    | same h => exact .inl ⟨depth, h⟩
    | overflow overflow =>
        cases overflow with
        | sum hl hr hsum => exact .inr ⟨_, _, _, _, rfl, hl, hr, hsum⟩
  · have step := evaluate_upToOverflow depth t
    rw [never depth] at step
    cases step with
    | same h => exact h

/-- A test of the next integer: it has a value, or the sum is out of range in
the body that the argument was put into. A term that applies itself to itself
runs for ever. -/
theorem evaluate_unbounded_next :
    let next (n : Int) : Term := .app (.abs "n" (.isZero (.add (.var "n") (.int 1)))) (.int n)
    let again : Term := .abs "x" (.app (.var "x") (.var "x"))
    ((next (-1)).Evaluates (.ok (.bool true)) ∧
        (next (-1)).EvaluatesBy .unbounded (.ok (.bool true))) ∧
      ((next 9223372036854775807).Evaluates
          (.error (.addition (.int 9223372036854775807) (.int 1))) ∧
        ((next 9223372036854775807).EvaluatesBy .unbounded
            (.error (.addition (.int 9223372036854775807) (.int 1))) ∨
          ∃ l r a b, EvalError.addition (.int 9223372036854775807) (.int 1) = .addition l r ∧
            l.Evaluates (.ok (.int a)) ∧ r.Evaluates (.ok (.int b)) ∧ ¬InRange (a + b))) ∧
      (Term.app again again).Diverges ∧
        ∀ depth, (Term.app again again).evaluateBy .unbounded depth = .unfinished := by
  intro next again
  have value : (next (-1)).Evaluates (.ok (.bool true)) := ⟨4, rfl⟩
  have error : (next 9223372036854775807).Evaluates
      (.error (.addition (.int 9223372036854775807) (.int 1))) := ⟨4, rfl⟩
  have never : (Term.app again again).Diverges := by
    intro depth
    induction depth with
    | zero => rfl
    | succ depth ih =>
        cases depth with
        | zero => rfl
        | succ depth => exact ih
  exact ⟨⟨value, (evaluate_unbounded _).1 _ value⟩,
    ⟨error, (evaluate_unbounded _).2.1 _ error⟩, never, (evaluate_unbounded _).2.2 never⟩

end TypedLambda
