import TypedLambda.Evaluation

/-!
Free variables, replacement, and evaluation of closed terms.

Replacement captures nothing when the term put in is closed: it removes one
free variable and leaves the others. So every term that is evaluated on the
way from a closed term is closed again, and no variable is ever reached.
-/

namespace TypedLambda

namespace Term

variable {t r : Term} {x y : Name}

attribute [local simp] freeVars names replace

theorem Closed.not_mem (h : r.Closed) : x ∉ r.freeVars := by
  rw [show r.freeVars = [] from h]
  exact List.not_mem_nil

theorem mem_freeVars_abs {b : Term} :
    y ∈ (abs x b).freeVars ↔ y ∈ b.freeVars ∧ y ≠ x := by
  simp

theorem mem_freeVars_letIn {e b : Term} :
    y ∈ (letIn x e b).freeVars ↔ y ∈ e.freeVars ∨ (y ∈ b.freeVars ∧ y ≠ x) := by
  simp

theorem replace_of_not_mem (h : x ∉ t.freeVars) (r : Term) : t.replace x r = t := by
  induction t with
  | bool | int | string | unit | nil => rfl
  | var y =>
      have hne : y ≠ x := fun heq => h (by simp [heq])
      rw [replace, if_neg hne]
  | abs y b ih =>
      rw [mem_freeVars_abs] at h
      by_cases hy : y = x
      · rw [replace, if_pos hy]
      · rw [replace, if_neg hy, ih fun hb => h ⟨hb, Ne.symm hy⟩]
  | letIn y e b ihe ihb =>
      rw [mem_freeVars_letIn, not_or] at h
      by_cases hy : y = x
      · rw [replace, ihe h.1, if_pos hy]
      · rw [replace, ihe h.1, if_neg hy, ihb fun hb => h.2 ⟨hb, Ne.symm hy⟩]
  | cond c a b ihc iha ihb =>
      simp only [freeVars, List.mem_append, not_or] at h
      rw [replace, ihc h.1.1, iha h.1.2, ihb h.2]
  | app a b iha ihb | add a b iha ihb | cons a b iha ihb =>
      simp only [freeVars, List.mem_append, not_or] at h
      rw [replace, iha h.1, ihb h.2]
  | wildcard t ih | ascribe t _ ih | isZero t ih | isEmpty t ih | head t ih | tail t ih =>
      rw [replace, ih h]

/-- Nothing is captured if the free variables of the term put in are new. -/
theorem mem_freeVars_replace_of_disjoint (hr : ∀ z ∈ r.freeVars, z ∉ t.names) :
    y ∈ (t.replace x r).freeVars ↔
      (y ∈ t.freeVars ∧ y ≠ x) ∨ (y ∈ r.freeVars ∧ x ∈ t.freeVars) := by
  induction t with
  | bool | int | string | unit | nil => simp
  | var z =>
      by_cases hz : z = x
      · subst hz
        simp
      · simp only [replace, if_neg hz, freeVars, List.mem_singleton]
        grind
  | abs z b ih =>
      simp only [names, List.mem_cons, not_or] at hr
      by_cases hz : z = x
      · simp only [replace, if_pos hz, mem_freeVars_abs]
        grind
      · simp only [replace, if_neg hz, mem_freeVars_abs, ih fun z hz => (hr z hz).2]
        grind
  | letIn z e b ihe ihb =>
      simp only [names, List.mem_cons, List.mem_append, not_or] at hr
      by_cases hz : z = x
      · simp only [replace, if_pos hz, mem_freeVars_letIn, ihe fun z hz => (hr z hz).2.1]
        grind
      · simp only [replace, if_neg hz, mem_freeVars_letIn, ihe fun z hz => (hr z hz).2.1,
          ihb fun z hz => (hr z hz).2.2]
        grind
  | cond c a b ihc iha ihb =>
      simp only [names, List.mem_append, not_or] at hr
      simp only [replace, freeVars, List.mem_append, ihc fun z hz => (hr z hz).1.1,
        iha fun z hz => (hr z hz).1.2, ihb fun z hz => (hr z hz).2]
      grind
  | app a b iha ihb | add a b iha ihb | cons a b iha ihb =>
      simp only [names, List.mem_append, not_or] at hr
      simp only [replace, freeVars, List.mem_append, iha fun z hz => (hr z hz).1,
        ihb fun z hz => (hr z hz).2]
      grind
  | wildcard t ih | ascribe t _ ih | isZero t ih | isEmpty t ih | head t ih | tail t ih =>
      exact ih hr

theorem mem_freeVars_replace (hr : r.Closed) :
    y ∈ (t.replace x r).freeVars ↔ y ∈ t.freeVars ∧ y ≠ x := by
  rw [mem_freeVars_replace_of_disjoint fun z hz => absurd hz hr.not_mem]
  simp [hr.not_mem]

theorem closed_iff : t.Closed ↔ ∀ x, x ∉ t.freeVars := List.eq_nil_iff_forall_not_mem

theorem closed_replace (h : ∀ y ∈ t.freeVars, y = x) (hr : r.Closed) :
    (t.replace x r).Closed := by
  refine closed_iff.2 fun y hy => ?_
  obtain ⟨hmem, hne⟩ := (mem_freeVars_replace hr).1 hy
  exact hne (h y hmem)

theorem closed_append {f a : Term} (ht : t.freeVars = f.freeVars ++ a.freeVars) :
    t.Closed ↔ f.Closed ∧ a.Closed := by
  rw [Closed, ht, List.append_eq_nil_iff]
  rfl

theorem closed_abs {b : Term} : (abs x b).Closed ↔ ∀ y ∈ b.freeVars, y = x := by
  simp only [closed_iff, mem_freeVars_abs, not_and, ne_eq, Decidable.not_not]

theorem closed_letIn {e b : Term} :
    (letIn x e b).Closed ↔ e.Closed ∧ ∀ y ∈ b.freeVars, y = x := by
  simp only [closed_iff, mem_freeVars_letIn, not_or, not_and, ne_eq, Decidable.not_not,
    forall_and]

end Term

/-! ### Evaluation -/

/-- The evaluation of a closed term reaches no variable, and its value is
closed. -/
theorem evaluate_closed {t : Term} (h : t.Closed) (depth : Nat) :
    (t.evaluate depth).Meets (fun v => v.toTerm.Closed) fun e => ∀ x, e ≠ .freeVariable x := by
  -- a `let` puts its bound term in unevaluated, but a closed one
  induction depth generalizing t with
  | zero => trivial
  | succ depth ih =>
    cases t with
    | bool | int | string | unit | nil => rfl
    | abs x b => exact h
    | wildcard b => exact h
    | var x => simp [Term.Closed, Term.freeVars] at h
    | ascribe t ty => exact ih (t := t) h
    | letIn x e b =>
        obtain ⟨he, hb⟩ := Term.closed_letIn.1 h
        exact ih (Term.closed_replace hb he)
    | add l r =>
        obtain ⟨hl, hr⟩ := (Term.closed_append rfl).1 h
        refine (ih hl).bind fun v _ _ => (ih hr).bind fun w _ _ => ?_
        split
        · rfl
        · simp [Outcome.Meets]
    | app f a =>
        obtain ⟨hf, ha⟩ := (Term.closed_append rfl).1 h
        refine (ih hf).bind fun v _ hv => ?_
        cases v with
        | fn x b =>
            refine (ih ha).bind fun w _ hw => ih ?_
            exact Term.closed_replace (Term.closed_abs.1 hv) hw
        | wildcard b => exact (ih ha).bind fun w _ _ => ih hv
        | bool | int | string | unit | nil | cons => simp [Outcome.Meets]
    | cond c a b =>
        obtain ⟨hca, hb⟩ := (Term.closed_append (f := .app c a) rfl).1 h
        obtain ⟨hc, ha⟩ := (Term.closed_append rfl).1 hca
        refine (ih hc).bind fun v _ _ => ?_
        cases v with
        | bool test =>
            cases test with
            | true => exact ih ha
            | false => exact ih hb
        | fn | wildcard | int | string | unit | nil | cons =>
            simp [Outcome.Meets, EvalError.truthExpected]
    | cons hd tl =>
        obtain ⟨hh, ht⟩ := (Term.closed_append rfl).1 h
        refine (ih hh).bind fun v _ hv => (ih ht).bind fun w _ hw => ?_
        exact (Term.closed_append rfl).2 ⟨hv, hw⟩
    | isZero t =>
        refine (ih (t := t) h).bind fun v _ _ => ?_
        cases v with
        | int n => rfl
        | bool | fn | wildcard | string | unit | nil | cons => simp [Outcome.Meets]
    | isEmpty l =>
        refine (ih (t := l) h).bind fun v _ _ => ?_
        cases v with
        | nil | cons => rfl
        | bool | fn | wildcard | int | string | unit =>
            simp [Outcome.Meets, EvalError.listExpected]
    | head l =>
        refine (ih (t := l) h).bind fun v _ hv => ?_
        cases v with
        | cons hd tl => exact ((Term.closed_append rfl).1 hv).1
        | nil | bool | fn | wildcard | int | string | unit =>
            simp [Outcome.Meets, EvalError.elementsExpected]
    | tail l =>
        refine (ih (t := l) h).bind fun v _ hv => ?_
        cases v with
        | cons hd tl => exact ((Term.closed_append rfl).1 hv).2
        | nil | bool | fn | wildcard | int | string | unit =>
            simp [Outcome.Meets, EvalError.elementsExpected]

theorem Term.EvaluatesBy.closed {t : Term} {v : Value} (ht : t.Evaluates (.ok v))
    (h : t.Closed) : v.toTerm.Closed :=
  ht.meets (evaluate_closed h)

end TypedLambda
