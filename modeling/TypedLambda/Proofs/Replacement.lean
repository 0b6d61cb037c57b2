import TypedLambda.Proofs.Filling

/-!
The laws of replacement.

Replacement renames no binder, so a term can change its meaning where it is
put in. Four laws hold nevertheless, and evaluation rests on them: a variable
may be put for itself, a variable that is not free may be replaced by
anything, a closed term takes one free variable away and brings none, and
closed terms may be put for two variables in either order (`replace_laws`).

The last one needs less than closed terms. What stands below a binder of a
variable is captured in both orders, so all that matters is that neither of
the terms brings in the variable that the other one is put for
(`replace_comm`).
-/

namespace TypedLambda.Term

variable {t r s : Term} {x y : Name}

/-- Two variables can be replaced in either order if neither is free in the
term that is put for the other. -/
theorem replace_comm (hxy : x ≠ y) (hr : y ∉ r.freeVars) (hs : x ∉ s.freeVars) :
    (t.replace x r).replace y s = (t.replace y s).replace x r := by
  -- a binder stops at most one of the replacements, and the same one in both orders
  induction t with
  | bool | int | string | unit | nil => rfl
  | var z =>
      by_cases hx : z = x
      · simp [replace, hx, hxy, replace_of_not_mem hr]
      · by_cases hy : z = y
        · simp [replace, hy, hxy.symm, replace_of_not_mem hs]
        · simp [replace, hx, hy]
  | abs z b ih =>
      by_cases hx : z = x
      · simp [replace, hx, hxy]
      · by_cases hy : z = y
        · simp [replace, hy, hxy.symm]
        · simp [replace, hx, hy, ih]
  | letIn z e b ihe ihb =>
      by_cases hx : z = x
      · simp [replace, hx, hxy, ihe]
      · by_cases hy : z = y
        · simp [replace, hy, hxy.symm, ihe]
        · simp [replace, hx, hy, ihe, ihb]
  | cond c a b ihc iha ihb => simp only [replace, ihc, iha, ihb]
  | app a b iha ihb | add a b iha ihb | cons a b iha ihb => simp only [replace, iha, ihb]
  | wildcard t ih | ascribe t _ ih | isZero t ih | isEmpty t ih | head t ih | tail t ih =>
      simp only [replace, ih]

/-- A variable is put for itself without effect, and anything is put without
effect for a variable that is not free. A closed term takes its variable out
of the free variables and leaves all others. Closed terms are put for two
variables in either order. -/
theorem replace_laws (t : Term) (hxy : x ≠ y) :
    t.replace x (.var x) = t ∧
      (x ∉ t.freeVars → ∀ r, t.replace x r = t) ∧
      (∀ r, r.Closed → ∀ z, z ∈ (t.replace x r).freeVars ↔ z ∈ t.freeVars ∧ z ≠ x) ∧
      ∀ r s, r.Closed → s.Closed →
        (t.replace x r).replace y s = (t.replace y s).replace x r :=
  ⟨t.replace_self x, replace_of_not_mem, fun _ hr _ => mem_freeVars_replace hr,
    fun _ _ hr hs => replace_comm hxy hr.not_mem hs.not_mem⟩

/-- What a `let` binds is outside of its own scope, and a function of `y` hides
`y` from a replacement; a function of `x` has no free `x`. -/
theorem replace_laws_hidden :
    let t : Term := .letIn "x" (.app (.var "x") (.var "y"))
      (.abs "y" (.cons (.var "x") (.var "y")))
    let u : Term := .abs "x" (.add (.var "x") (.var "y"))
    let r : Term := .abs "y" (.var "y")
    let s : Term := .wildcard .nil
    ("x" ≠ "y" ∧ "x" ∉ u.freeVars ∧ r.Closed ∧ s.Closed) ∧
      t.replace "x" (.var "x") = t ∧ (∀ q, u.replace "x" q = u) ∧
      (∀ z, z ∈ (t.replace "x" r).freeVars ↔ z ∈ t.freeVars ∧ z ≠ "x") ∧
      (t.replace "x" r).replace "y" s = (t.replace "y" s).replace "x" r := by
  intro t u r s
  have names : "x" ≠ "y" := by decide
  have hidden : "x" ∉ u.freeVars := by decide
  have left : r.Closed := by decide
  have right : s.Closed := by decide
  obtain ⟨itself, -, free, order⟩ := replace_laws t names
  exact ⟨⟨names, hidden, left, right⟩, itself, (replace_laws u names).2.1 hidden, free r left,
    order r s left right⟩

end TypedLambda.Term
