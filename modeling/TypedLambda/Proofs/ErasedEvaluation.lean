import TypedLambda.Proofs.Simulation
import TypedLambda.Term.Translation

/-!
Ascriptions have no effect on evaluation.

A term and what is left of it without its ascriptions keep step with each
other: one side passes an ascription while the other one waits. Nothing else
differs, since erasure changes neither variables nor binders. What is put
into a term captures the same variables before and after
(`Term.erase_replace`), so the terms need not be closed.
-/

namespace TypedLambda

variable {t u : Term} {v w : Value} {e e' : EvalError}

namespace Term

theorem ascribed_erase (t : Term) : t.erase.ascribed = [] := by
  induction t with
  | bool | int | string | unit | nil | var => rfl
  | abs _ _ ih | wildcard _ ih | ascribe _ _ ih | isZero _ ih | isEmpty _ ih | head _ ih
  | tail _ ih => exact ih
  | app _ _ iha ihb | add _ _ iha ihb | cons _ _ iha ihb | letIn _ _ _ iha ihb =>
      rw [erase, ascribed, iha, ihb, List.append_nil]
  | cond _ _ _ ihc iha ihb => rw [erase, ascribed, ihc, iha, ihb, List.append_nil, List.append_nil]

/-- Erasure goes through replacement, also where a variable is captured. -/
theorem erase_replace (t : Term) (x : Name) (r : Term) :
    (t.replace x r).erase = t.erase.replace x r.erase := by
  induction t with
  | bool | int | string | unit | nil => rfl
  | var y => by_cases hy : y = x <;> simp [replace, erase, hy]
  | abs y b ih => by_cases hy : y = x <;> simp [replace, erase, hy, ih]
  | letIn y e b ihe ihb => by_cases hy : y = x <;> simp [replace, erase, hy, ihe, ihb]
  | cond c a b ihc iha ihb => simp only [replace, erase, ihc, iha, ihb]
  | app a b iha ihb | add a b iha ihb | cons a b iha ihb => simp only [replace, erase, iha, ihb]
  | wildcard t ih | ascribe t _ ih | isZero t ih | isEmpty t ih | head t ih | tail t ih =>
      simp only [replace, erase, ih]

def ErasesTo (t u : Term) : Prop := t.erase = u

end Term

open Term

theorem Value.Alike.erase_eq (h : v.Alike ErasesTo w) : v.erase = w := by
  induction h with
  | bool | int | string | unit | nil => rfl
  | fn h =>
      obtain ⟨rfl, rfl⟩ := Term.abs.inj h
      rfl
  | wildcard h =>
      obtain rfl := Term.wildcard.inj h
      rfl
  | cons _ _ ihh iht => rw [erase, ihh, iht]

theorem EvalError.Alike.erase_eq (h : e.Alike ErasesTo e') : e.erase = e' := by
  cases h with
  | addition hl hr | application hl hr =>
      cases hl
      cases hr
      rfl
  | ascription h | notAFunction h | isZero h | conditional h =>
      cases h
      rfl
  | wrongValue h => rw [erase, h.erase_eq]
  | freeVariable => rfl

theorem Term.alike_erase (t : Term) : t.Alike ErasesTo t.erase := by
  induction t with
  | bool b => exact .of_values .bool
  | int n => exact .of_values .int
  | string s => exact .of_values .string
  | unit => exact .of_values .unit
  | nil => exact .of_values .nil
  | var x => exact .var
  | abs x b => exact .of_values (.fn (R := ErasesTo) rfl)
  | wildcard b => exact .of_values (.wildcard (R := ErasesTo) rfl)
  -- only the left side has an ascription to pass
  | ascribe t ty ih => exact .ascribeLeft ih
  | app f a => exact .app rfl rfl
  | add l r => exact .add rfl rfl
  | cond c a b => exact .cond rfl rfl rfl
  | isZero t => exact .isZero rfl
  | cons hd tl => exact .cons rfl rfl
  | isEmpty l => exact .isEmpty rfl
  | head l => exact .head rfl
  | tail l => exact .tail rfl
  | letIn x e b => exact .letIn (erase_replace b x e)

theorem simulation_erasesTo : Simulation ErasesTo where
  alike := by
    rintro t _ rfl
    exact t.alike_erase
  abs := by
    intro x y b c v w h hvw
    obtain ⟨rfl, rfl⟩ := Term.abs.inj h
    obtain rfl := hvw.erase_eq
    rw [ErasesTo, erase_replace, Value.erase_toTerm]
  wildcard h := Term.wildcard.inj h

def eraseResult (r : Except EvalError Value) : Except EvalError Value :=
  (r.map Value.erase).mapError EvalError.erase

theorem Term.EvaluatesBy.erase {r : Except EvalError Value} (h : t.Evaluates r) :
    t.erase.Evaluates (eraseResult r) := by
  cases r with
  | ok v =>
      obtain ⟨w, hw, hvw⟩ := simulation_erasesTo.exists_value rfl h
      obtain rfl := hvw.erase_eq
      exact hw
  | error e =>
      obtain ⟨e', he', he⟩ := simulation_erasesTo.exists_error rfl h
      obtain rfl := he.erase_eq
      exact he'

/-- Without its ascriptions, of which none is left, a term ends if and only if
it does with them, and its value or its error is the same up to the
ascriptions in it. -/
theorem evaluate_erase (t : Term) :
    t.erase.ascribed = [] ∧ ((∃ r, t.Evaluates r) ↔ ∃ r, t.erase.Evaluates r) ∧
      ∀ r, t.Evaluates r → t.erase.Evaluates (eraseResult r) := by
  refine ⟨t.ascribed_erase, ⟨fun ⟨r, hr⟩ => ⟨_, hr.erase⟩, fun ⟨r, hr⟩ => ?_⟩,
    fun r hr => hr.erase⟩
  -- read from right to left, the term ends once what is left of it has ended
  have back := simulation_erasesTo.swap
  cases r with
  | ok w =>
      obtain ⟨v, hv, -⟩ := back.exists_value rfl hr
      exact ⟨_, hv⟩
  | error e' =>
      obtain ⟨e, he, -⟩ := back.exists_error rfl hr
      exact ⟨_, he⟩

/-- The error names the ascribed body of the ascribed function, with the
argument put in. -/
theorem evaluate_erase_addition :
    let t : Term := .app (.ascribe (.abs "x" (.add (.var "x") (.ascribe .unit .int)))
      (.arrow .int .int)) (.ascribe (.int 1) .int)
    t.Evaluates (.error (.addition (.int 1) (.ascribe .unit .int))) ∧
      t.erase.Evaluates (.error (.addition (.int 1) .unit)) := by
  intro t
  have ends : t.Evaluates (.error (.addition (.int 1) (.ascribe .unit .int))) := ⟨4, rfl⟩
  exact ⟨ends, (evaluate_erase t).2.2 _ ends⟩

end TypedLambda
