import TypedLambda.Proofs.MostGeneral

/-!
Unifiers are in solved form, and a solved form has no order.

In general the order of the entries of a substitution matters to what it
makes of a type, although equality of substitutions does not see it. In a
solved form no entry mentions what another one binds. What it makes of a
type is then decided by look-up alone (`Solved.apply_congr`), so any
reordering of the entries, and any substitution with the same bindings,
does the same.
-/

namespace TypedLambda

variable {σ τ : Substitution}

namespace Substitution

/-! ### Substitutions with the same look-up -/

theorem Solved.congr (hσ : σ.Solved) (h : ∀ k, τ.get? k = σ.get? k) : τ.Solved := by
  intro k hk hr
  obtain ⟨j, t, hj, hkt⟩ := exists_get?_of_mem_rangeVars hr
  rw [h j] at hj
  exact hσ k ((OrderedMap.mem_keys_congr h).1 hk) (mem_rangeVars_of_get? hj hkt)

theorem assignment_congr (h : ∀ k, τ.get? k = σ.get? k) : τ.assignment = σ.assignment := by
  funext k
  rw [assignment, assignment, h k]

theorem Solved.apply_congr (hσ : σ.Solved) (h : ∀ k, τ.get? k = σ.get? k) (t : Ty) :
    τ.apply t = σ.apply t := by
  rw [(hσ.congr h).apply_eq, hσ.apply_eq, assignment_congr h]

/-- A second application finds no bound variable left. -/
theorem Solved.apply_apply (hσ : σ.Solved) (t : Ty) : σ.apply (σ.apply t) = σ.apply t :=
  apply_of_disjoint fun _ hk hmem => (mem_vars_apply hσ hmem).1 hk

end Substitution

namespace Ty

variable {l r : Ty}

theorem apply_eq_of_unify (h : l.unify r = .ok σ) : σ.apply l = σ.apply r := by
  have hσ := (solved_of_unify h).1
  rw [hσ.apply_eq, hσ.apply_eq, instantiate_eq_of_unify h hσ.assignment_solves]

/-- A unifier makes the two types equal, speaks of their variables only, and
is in solved form. So it changes nothing a second time, in every order of
its entries it is the look-up of all variables at once, and unifiers with
the same bindings do the same to every type. -/
theorem unify_solved_form (h : l.unify r = .ok σ) :
    σ.apply l = σ.apply r ∧ σ.Within (l.vars ++ r.vars) ∧ σ.Solved ∧
      (∀ t : Ty, σ.apply (σ.apply t) = σ.apply t) ∧
      (∀ τ : Substitution, τ.entries.Perm σ.entries →
        ∀ t : Ty, τ.apply t = σ.apply t ∧ τ.apply t = t.instantiate σ.assignment) ∧
      ∀ (l' r' : Ty) (τ : Substitution), l'.unify r' = .ok τ → τ.sameBindings σ = true →
        ∀ t : Ty, τ.apply t = σ.apply t := by
  obtain ⟨hσ, hwithin⟩ := solved_of_unify h
  refine ⟨apply_eq_of_unify h, hwithin, hσ, hσ.apply_apply, fun τ hτ t => ?_,
    fun l' r' τ _ hτ => hσ.apply_congr (OrderedMap.sameBindings_iff.1 hτ)⟩
  have hsame := hσ.apply_congr (OrderedMap.get?_of_perm hτ) t
  exact ⟨hsame, hsame.trans (hσ.apply_eq t)⟩

/-- Two pairs of arrows whose unifiers bind the same variables to the same
types in different orders. -/
theorem unify_solved_form_reordered :
    let σ : Substitution := .ofList [("a", .list .int), ("b", .int)]
    let τ : Substitution := .ofList [("b", .int), ("a", .list .int)]
    (arrow (var "a") (var "b")).unify (arrow (list (var "b")) .int) = .ok σ ∧
      (arrow (var "b") (var "a")).unify (arrow .int (list (var "b"))) = .ok τ ∧
      τ.entries.Perm σ.entries ∧ τ.sameBindings σ = true ∧
      (∀ t : Ty, τ.apply t = t.instantiate σ.assignment) ∧
      ∀ t : Ty, τ.apply t = σ.apply t := by
  intro σ τ
  have hσ : (arrow (var "a") (var "b")).unify (arrow (list (var "b")) .int) = .ok σ := by cbv
  have hτ : (arrow (var "b") (var "a")).unify (arrow .int (list (var "b"))) = .ok τ := by cbv
  have perm : τ.entries.Perm σ.entries := List.Perm.swap ..
  have same : τ.sameBindings σ = true := by decide
  obtain ⟨-, -, -, -, hperm, hsame⟩ := unify_solved_form hσ
  exact ⟨hσ, hτ, perm, same, fun t => (hperm τ perm t).2, hsame _ _ τ hτ same⟩

end Ty

end TypedLambda
