import TypedLambda.Evaluation
import TypedLambda.Proofs.Agreement

/-!
What the type variables in ascriptions stand for.

A term may be accepted with type variables in its ascriptions. If parts that
stand side by side share none of them, then what has been learned holds for
all ascriptions at once. Its solution, with `Unit` for the variables that were
left open, turns the term into one without type variables that is accepted
too (`typecheck_instantiate`).

For parts that do share a variable this is false. What the first part has
learned is applied to the context of the second part, but not to the types
that are written in it. There another type can be learned for the variable,
and when the two are composed, the later entry takes the place of the earlier
one. In this way the term `relearned` is accepted. But whatever its variable
stands for, the term has no type then, and its evaluation goes wrong
(`typecheck_relearned`).
-/

namespace TypedLambda

variable {t : Term} {A : Ty}

theorem ready_forTerm (t : Term) : Ready .empty (.forTerm .empty t) t where
  taken y hy := by simpa [inPlay, NameSupply.forTerm, or_comm] using hy
  apart y _ hctx := absurd hctx List.not_mem_nil

/-- One solution of what has been learned can be put into all ascriptions. -/
theorem exists_ground_hasType (hsep : t.Separate) (h : t.typecheck .empty = .ok A) :
    ∃ θ : Assignment, (∀ x, (θ x).Ground) ∧
      HasType .empty (t.instantiate θ) (A.instantiate θ) := by
  obtain ⟨i, hi, rfl⟩ := Term.typecheck_eq_ok.1 h
  have ti := infer_typing (ready_forTerm t) hsep hi
  -- variables about which nothing was learned may stand for any type without variables
  let unit : Assignment := fun _ => .unit
  let θ : Assignment := fun x => (i.learned.assignment x).instantiate unit
  have solves : θ.Solves i.learned := ti.progress.solved.assignment_solves.instantiate _
  refine ⟨θ, fun x => Ty.ground_instantiate (θ := unit) (fun _ => rfl) _, ?_⟩
  rw [solves.instantiate_apply]
  exact ti.hasType θ solves

/-- If parts that stand side by side share no type variable, then the
variables in the ascriptions of an accepted term stand for one type each:
with these types for them it is accepted again. -/
theorem typecheck_instantiate (hsep : t.Separate) (h : t.typecheck .empty = .ok A) :
    ∃ θ : Assignment, (∀ x, (θ x).Ground) ∧
      ∃ B, (t.instantiate θ).typecheck .empty = .ok B := by
  obtain ⟨θ, hθ, ht⟩ := exists_ground_hasType hsep h
  obtain ⟨B, hB, -, -⟩ := ht.exists_typecheck (by decide) (Term.concrete_instantiate hθ t)
  exact ⟨θ, hθ, B, hB⟩

/-- One variable in two ascriptions, the first of which encloses the second. -/
theorem typecheck_instantiate_nested :
    let t : Term := .app (.ascribe (.abs "x" (.ascribe (.var "x") (.var "a")))
      (.arrow (.var "a") (.var "b"))) (.int 1)
    t.Separate ∧ t.typecheck .empty = .ok .int ∧
      ∃ θ : Assignment, (∀ x, (θ x).Ground) ∧
        ∃ B, (t.instantiate θ).typecheck .empty = .ok B := by
  intro t
  have separate : t.Separate := by decide
  have accepted : t.typecheck .empty = .ok .int := by cbv
  exact ⟨separate, accepted, typecheck_instantiate separate accepted⟩

/-! ### A variable that is learned twice -/

/-- A term whose test needs `Bool` for the variable `a`, and whose first branch
needs `Int`. -/
def relearned : Term :=
  .app
    (.abs "x" (.letIn "y" (.ascribe (.var "x") (.list (.var "a")))
      (.cond (.head (.var "y")) (.ascribe (.int 1) (.var "a")) (.int 2))))
    (.cons (.int 1) .nil)

theorem not_hasType_relearned (θ : Assignment) : ¬HasType .empty (relearned.instantiate θ) A := by
  intro h
  simp only [relearned, Term.instantiate, Term.mapAscribed, Ty.instantiate] at h
  generalize θ "a" = C at h
  cases h with
  | app hf _ =>
      cases hf with
      | abs hb =>
          cases hb with
          | letIn he hb =>
              cases he
              cases hb with
              | cond htest hyes _ =>
                  cases hyes with
                  | ascribe hone =>
                      -- the ascription gives the type of the integer, the test that of the elements
                      cases hone
                      cases htest with
                      | head hy =>
                          cases hy with
                          | var hget => simp at hget

/-- The term is accepted. With types without variables in its ascriptions it
never is, and its evaluation meets an integer for a test. -/
theorem typecheck_relearned :
    relearned.typecheck .empty = .ok .int ∧
      (∀ θ : Assignment, (∀ x, (θ x).Ground) →
        ∀ B, (relearned.instantiate θ).typecheck .empty ≠ .ok B) ∧
      relearned.Evaluates (.error (.truthExpected (.int 1))) := by
  refine ⟨by cbv, fun θ hθ B h => ?_, ⟨7, by cbv⟩⟩
  obtain ⟨i, hi, rfl⟩ := Term.typecheck_eq_ok.1 h
  have ht := (infer_sound (fun _ => mem_taken_forTerm) (Term.concrete_instantiate hθ _)
    hi).hasType_learned
  rw [Context.instantiate_empty] at ht
  exact not_hasType_relearned θ ht

end TypedLambda
