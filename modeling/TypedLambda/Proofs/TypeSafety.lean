import Mathlib.Tactic.SplitIfs
import TypedLambda.Program
import TypedLambda.Proofs.CheckingSoundness
import TypedLambda.Proofs.InferenceSoundness
import TypedLambda.Proofs.Judgement

/-!
Well-typed programs do not go wrong.

Evaluation keeps types: the value of a closed term, read as a term again,
has the type of the term (`evaluate_safe`). A typed evaluation can still
end with an error, but only with one that types say nothing about: a sum
that needs more than 64 bits, or the first element or the rest of the empty
list. Both typing disciplines are sound for the judgement, so this holds of
every program that is run after it was typed (`run_safe`).
-/

namespace TypedLambda

theorem Rules.standard_total? (a b : Int) :
    standard.total? (.int a) (.int b) = if InRange (a + b) then some (a + b) else none :=
  rfl

/-- The errors that types do not exclude: a sum of two integers that is out
of range, and taking apart the empty list. -/
def EvalError.Unavoidable : EvalError → Prop
  | .addition l r =>
      ∃ a b, l.Evaluates (.ok (.int a)) ∧ r.Evaluates (.ok (.int b)) ∧ ¬InRange (a + b)
  | .wrongValue actual expected => actual = .nil ∧ expected = "a non-empty list"
  | .ascription _ _ | .notAFunction _ | .freeVariable _ | .isZero _ | .conditional _
  | .application _ _ => False

variable {t : Term} {A : Ty}

theorem evaluate_safe (h : HasType .empty t A) (depth : Nat) :
    (t.evaluate depth).Meets (fun v => HasType .empty v.toTerm A) EvalError.Unavoidable := by
  induction depth generalizing t A with
  | zero => trivial
  | succ depth ih =>
    cases h with
    | bool => exact .bool
    | int => exact .int
    | string => exact .string
    | unit => exact .unit
    | nil => exact .nil
    | abs hb => exact .abs hb
    | wildcard hb => exact .wildcard hb
    | var hx => simp at hx
    | ascribe ht => exact ih ht
    -- the bound term is put in unevaluated, and it is typed as much as its value
    | letIn he hb => exact ih (hb.replace he)
    | add hl hr =>
        refine (ih hl).bind fun v hv tv => (ih hr).bind fun w hw tw => ?_
        obtain ⟨a, rfl⟩ := tv.exists_int
        obtain ⟨b, rfl⟩ := tw.exists_int
        simp only [Rules.standard_total?]
        split_ifs with hsum
        · exact .int
        · exact ⟨a, b, ⟨depth, hv⟩, ⟨depth, hw⟩, hsum⟩
    | cons hh ht => exact (ih hh).bind fun v _ tv => (ih ht).bind fun w _ tw => .cons tv tw
    | isZero ht =>
        refine (ih ht).bind fun v _ tv => ?_
        obtain ⟨n, rfl⟩ := tv.exists_int
        exact .bool
    | cond hc ha hb =>
        refine (ih hc).bind fun v _ tv => ?_
        obtain ⟨b, rfl⟩ := tv.exists_bool
        cases b with
        | true => exact ih ha
        | false => exact ih hb
    | isEmpty hl =>
        refine (ih hl).bind fun v _ tv => ?_
        obtain rfl | ⟨hd, tl, rfl, -, -⟩ := tv.nil_or_cons <;> exact .bool
    | head hl =>
        refine (ih hl).bind fun v _ tv => ?_
        obtain rfl | ⟨hd, tl, rfl, hh, -⟩ := tv.nil_or_cons
        · exact ⟨rfl, rfl⟩
        · exact hh
    | tail hl =>
        refine (ih hl).bind fun v _ tv => ?_
        obtain rfl | ⟨hd, tl, rfl, -, ht⟩ := tv.nil_or_cons
        · exact ⟨rfl, rfl⟩
        · exact ht
    | app hf ha =>
        refine (ih hf).bind fun v _ tv => ?_
        obtain ⟨x, b, rfl, hb⟩ | ⟨b, rfl, hb⟩ := tv.fn_or_wildcard
        · exact (ih ha).bind fun w _ tw => ih (hb.replace tw)
        · exact (ih ha).bind fun w _ _ => ih hb

theorem hasType_of_typeOf {d : Discipline} (hc : d = .unification → t.Concrete)
    (h : d.typeOf .empty t = .ok A) : HasType .empty t A := by
  cases d with
  | bidirectional => exact Term.hasType_of_synthesize h
  | unification =>
      obtain ⟨i, hi, rfl⟩ := Term.typecheck_eq_ok.1 h
      have ht := (infer_sound (fun _ => mem_taken_forTerm) (hc rfl) hi).hasType_learned
      rwa [Context.instantiate_empty] at ht

theorem Program.run_of_typeOf {p : Program} (h : p.typeOf t = .ok A) (depth : Nat) :
    p.run depth t =
      (t.evaluate depth).mapError .evaluation >>= fun v => .value (v, A) := by
  simp [run, h, Outcome.ofExcept, Outcome.mapError]

theorem Program.run_eq_ofExcept {p : Program} {depth : Nat} {r : Except EvalError Value}
    (h : p.typeOf t = .ok A) (hr : t.evaluate depth = .ofExcept r) :
    p.run depth t = .ofExcept ((r.mapError .evaluation).map fun v => (v, A)) := by
  rw [run_of_typeOf h, hr]
  cases r with
  | error e => rfl
  | ok v => rfl

/-- A program that was typed before it is run can only fail with an error
that types do not exclude. -/
theorem run_safe {d : Discipline} (hc : d = .unification → t.Concrete)
    (h : d.typeOf .empty t = .ok A) :
    (∀ e, t.Evaluates (.error e) → e.Unavoidable) ∧
      ∀ depth e, ({ discipline := d, context := .empty } : Program).run depth t = .error e →
        ∃ e', e = .evaluation e' ∧ e'.Unavoidable := by
  have safe : ∀ depth e, t.evaluate depth = .error e → e.Unavoidable := by
    intro depth e he
    have := evaluate_safe (hasType_of_typeOf hc h) depth
    rwa [he] at this
  refine ⟨fun e ⟨depth, he⟩ => safe depth e he, fun depth e he => ?_⟩
  have typed : ({ discipline := d, context := .empty } : Program).typeOf t = .ok A := h
  rw [Program.run_of_typeOf typed] at he
  cases hev : t.evaluate depth with
  | value v => simp [hev, Outcome.mapError] at he
  | unfinished => simp [hev, Outcome.mapError] at he
  | error e' =>
      obtain rfl : ProgramError.evaluation e' = e := by simpa [hev, Outcome.mapError] using he
      exact ⟨e', rfl, safe depth e' hev⟩

/-- A typed program that adds one to the greatest integer. -/
theorem run_safe_overflow :
    Discipline.unification.typeOf .empty
        (.letIn "next" (.abs "n" (.add (.var "n") (.int 1)))
          (.app (.var "next") (.int 9223372036854775807))) = .ok .int ∧
      EvalError.Unavoidable (.addition (.int 9223372036854775807) (.int 1)) := by
  have typed : Discipline.unification.typeOf .empty
      (.letIn "next" (.abs "n" (.add (.var "n") (.int 1)))
        (.app (.var "next") (.int 9223372036854775807))) = .ok .int := by cbv
  exact ⟨typed, (run_safe (fun _ => by decide) typed).1 _ ⟨5, rfl⟩⟩

end TypedLambda
