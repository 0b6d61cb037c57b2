import TypedLambda.Proofs.Filling

/-!
No variable of a closed program is ever captured.

Putting a term in as it stands can capture its free variables; renaming the
binders on the way cannot (`Term.mem_freeVars_replaceFresh`). Evaluation does
the former, even with the term that a `let` binds. But all that is put in
while a closed program runs is closed, by `evaluate_closed`, and for a closed
term no binder has to be renamed. So the two ways of putting terms in lead to
the same outcome at every depth (`evaluate_hygienic`).
-/

namespace TypedLambda

namespace Term

variable {t r b : Term} {x y z w : Name}

theorem mem_names_of_mem_freeVars (h : x ∈ t.freeVars) : x ∈ t.names := by
  induction t with
  | bool | int | string | unit | nil => simp [freeVars] at h
  | var y => exact h
  | abs y b ih => exact List.mem_cons_of_mem _ (ih (mem_freeVars_abs.1 h).1)
  | letIn y e b ihe ihb =>
      rcases mem_freeVars_letIn.1 h with he | ⟨hb, -⟩
      · exact List.mem_cons_of_mem _ (List.mem_append_left _ (ihe he))
      · exact List.mem_cons_of_mem _ (List.mem_append_right _ (ihb hb))
  | cond c a b ihc iha ihb =>
      simp only [freeVars, names, List.mem_append] at h ⊢
      exact h.imp (Or.imp ihc iha) ihb
  | app a b iha ihb | add a b iha ihb | cons a b iha ihb =>
      simp only [freeVars, names, List.mem_append] at h ⊢
      exact h.imp iha ihb
  | wildcard t ih | ascribe t _ ih | isZero t ih | isEmpty t ih | head t ih | tail t ih =>
      exact ih h

theorem mem_freeVars_replace_var (hz : z ∉ t.names) :
    w ∈ (t.replace x (.var z)).freeVars ↔
      (w ∈ t.freeVars ∧ w ≠ x) ∨ (w = z ∧ x ∈ t.freeVars) := by
  have new : ∀ y ∈ (var z).freeVars, y ∉ t.names := by simpa [freeVars] using hz
  rw [mem_freeVars_replace_of_disjoint new]
  simp [freeVars]

theorem binderFor_of_closed (hr : r.Closed) (x : Name) (b : Term) (y : Name) :
    binderFor x b y r = x :=
  if_neg hr.not_mem

/-- Either the binder keeps its name, which is not free in the term put in, or
it has a new one. -/
theorem binderFor_cases (x : Name) (b : Term) (y : Name) (r : Term) :
    (binderFor x b y r = x ∧ x ∉ r.freeVars) ∨
      (binderFor x b y r ∉ b.names ∧ binderFor x b y r ∉ r.freeVars ∧ binderFor x b y r ≠ y) := by
  unfold binderFor
  split
  · have fresh := NameSupply.draw_not_mem (.avoiding (y :: b.names ++ r.freeVars))
    simp only [NameSupply.mem_taken_avoiding, List.cons_append, List.mem_cons, List.mem_append,
      not_or] at fresh
    exact .inr ⟨fresh.2.1, fresh.2.2, fresh.1⟩
  · next hx => exact .inl ⟨rfl, hx⟩

theorem mem_freeVars_binderFor (hxy : x ≠ y)
    (ih : w ∈ ((b.replace x (.var (binderFor x b y r))).replaceFresh y r).freeVars ↔
      (w ∈ (b.replace x (.var (binderFor x b y r))).freeVars ∧ w ≠ y) ∨
        (w ∈ r.freeVars ∧ y ∈ (b.replace x (.var (binderFor x b y r))).freeVars)) :
    (w ∈ ((b.replace x (.var (binderFor x b y r))).replaceFresh y r).freeVars ∧
        w ≠ binderFor x b y r) ↔
      ((w ∈ b.freeVars ∧ w ≠ x) ∧ w ≠ y) ∨ (w ∈ r.freeVars ∧ y ∈ b.freeVars ∧ y ≠ x) := by
  rw [ih]
  rcases binderFor_cases x b y r with ⟨hz, hx⟩ | ⟨hb, hr, hy⟩
  · rw [hz, replace_self]
    grind
  · have fresh : binderFor x b y r ∉ b.freeVars := fun h => hb (mem_names_of_mem_freeVars h)
    rw [mem_freeVars_replace_var hb, mem_freeVars_replace_var hb]
    grind

theorem replaceFresh_abs (hxy : x ≠ y) (b r : Term) :
    (abs x b).replaceFresh y r = abs (binderFor x b y r)
      ((b.replace x (.var (binderFor x b y r))).replaceFresh y r) := by
  rw [replaceFresh, if_neg hxy]

theorem replaceFresh_letIn (hxy : x ≠ y) (e b r : Term) :
    (letIn x e b).replaceFresh y r = letIn (binderFor x b y r) (e.replaceFresh y r)
      ((b.replace x (.var (binderFor x b y r))).replaceFresh y r) := by
  rw [replaceFresh, if_neg hxy]

/-- Nothing is captured: every free variable of the term put in is free
afterwards, and the other free variables are those of before. -/
theorem mem_freeVars_replaceFresh (t : Term) (y : Name) (r : Term) :
    w ∈ (t.replaceFresh y r).freeVars ↔
      (w ∈ t.freeVars ∧ w ≠ y) ∨ (w ∈ r.freeVars ∧ y ∈ t.freeVars) := by
  cases t with
  | bool | int | string | unit | nil => simp [replaceFresh, freeVars]
  | var x =>
      by_cases hxy : x = y
      · simp [replaceFresh, freeVars, hxy]
      · simp only [replaceFresh, if_neg hxy, freeVars, List.mem_singleton]
        grind
  | abs x b =>
      by_cases hxy : x = y
      · simp only [replaceFresh, if_pos hxy, mem_freeVars_abs]
        grind
      · rw [replaceFresh_abs hxy, mem_freeVars_abs,
          mem_freeVars_binderFor hxy (mem_freeVars_replaceFresh _ y r), mem_freeVars_abs,
          mem_freeVars_abs]
  | letIn x e b =>
      by_cases hxy : x = y
      · simp only [replaceFresh, if_pos hxy, mem_freeVars_letIn, mem_freeVars_replaceFresh e y r]
        grind
      · rw [replaceFresh_letIn hxy, mem_freeVars_letIn,
          mem_freeVars_binderFor hxy (mem_freeVars_replaceFresh _ y r),
          mem_freeVars_replaceFresh e y r, mem_freeVars_letIn, mem_freeVars_letIn]
        grind
  | cond c a b =>
      simp only [replaceFresh, freeVars, List.mem_append, mem_freeVars_replaceFresh c y r,
        mem_freeVars_replaceFresh a y r, mem_freeVars_replaceFresh b y r]
      grind
  | app a b | add a b | cons a b =>
      simp only [replaceFresh, freeVars, List.mem_append, mem_freeVars_replaceFresh a y r,
        mem_freeVars_replaceFresh b y r]
      grind
  | wildcard t | ascribe t | isZero t | isEmpty t | head t | tail t =>
      simp only [replaceFresh, freeVars, mem_freeVars_replaceFresh t y r]
termination_by t.size
decreasing_by all_goals simp only [size, size_replace_var]; omega

theorem replaceFresh_of_closed (hr : r.Closed) (t : Term) (y : Name) :
    t.replaceFresh y r = t.replace y r := by
  induction t with
  | bool | int | string | unit | nil | var => rw [replaceFresh, replace]
  | abs x b ih =>
      by_cases hxy : x = y
      · rw [replaceFresh, replace, if_pos hxy, if_pos hxy]
      · rw [replaceFresh_abs hxy, binderFor_of_closed hr, replace_self, ih, replace, if_neg hxy]
  | letIn x e b ihe ihb =>
      by_cases hxy : x = y
      · rw [replaceFresh, replace, if_pos hxy, if_pos hxy, ihe]
      · rw [replaceFresh_letIn hxy, binderFor_of_closed hr, replace_self, ihe, ihb, replace,
          if_neg hxy]
  | cond c a b ihc iha ihb => rw [replaceFresh, replace, ihc, iha, ihb]
  | app a b iha ihb | add a b iha ihb | cons a b iha ihb => rw [replaceFresh, replace, iha, ihb]
  | wildcard t ih | ascribe t _ ih | isZero t ih | isEmpty t ih | head t ih | tail t ih =>
      rw [replaceFresh, replace, ih]

end Term

open Term

variable {t : Term}

theorem evaluateBy_hygienic (h : t.Closed) (depth : Nat) :
    t.evaluateBy .hygienic depth = t.evaluate depth := by
  -- all that is put in is closed by `evaluate_closed`, and so is the outcome
  induction depth generalizing t with
  | zero => rfl
  | succ depth ih =>
    cases t with
    | bool | int | string | unit | nil | abs | wildcard | var => rfl
    | ascribe t ty => exact ih (t := t) h
    | letIn x e b =>
        obtain ⟨he, hb⟩ := closed_letIn.1 h
        show (b.replaceFresh x e).evaluateBy .hygienic depth = (b.replace x e).evaluate depth
        rw [replaceFresh_of_closed he]
        exact ih (closed_replace hb he)
    | app f a =>
        obtain ⟨hf, ha⟩ := (closed_append rfl).1 h
        rw [evaluateBy, ih hf]
        refine (evaluate_closed hf depth).bind_congr fun v hv => ?_
        cases v with
        | fn x b =>
            show (a.evaluateBy .hygienic depth >>= _) = _
            rw [ih ha]
            refine (evaluate_closed ha depth).bind_congr fun w hw => ?_
            show (b.replaceFresh x w.toTerm).evaluateBy .hygienic depth = _
            rw [replaceFresh_of_closed hw]
            exact ih (closed_replace (closed_abs.1 hv) hw)
        | wildcard b =>
            show (a.evaluateBy .hygienic depth >>= fun _ => b.evaluateBy .hygienic depth) = _
            rw [ih ha, ih (t := b) hv]
            rfl
        | bool | int | string | unit | nil | cons => rfl
    | cond c a b =>
        obtain ⟨hca, hb⟩ := (closed_append (f := .app c a) rfl).1 h
        obtain ⟨hc, ha⟩ := (closed_append rfl).1 hca
        rw [evaluateBy, ih hc, ih ha, ih hb]
        rfl
    | add l r =>
        obtain ⟨hl, hr⟩ := (closed_append rfl).1 h
        rw [evaluateBy, ih hl, ih hr]
        rfl
    | cons hd tl =>
        obtain ⟨hh, ht⟩ := (closed_append rfl).1 h
        rw [evaluateBy, ih hh, ih ht]
        rfl
    | isZero t => rw [evaluateBy, ih (t := t) h]; rfl
    | isEmpty l => rw [evaluateBy, ih (t := l) h]; rfl
    | head l => rw [evaluateBy, ih (t := l) h]; rfl
    | tail l => rw [evaluateBy, ih (t := l) h]; rfl

/-- Renaming the binders on the way, a term is put in without capture: all its
free variables are free afterwards. A closed program has the same outcome either
way, the same value, the same error or no end. It reaches no free variable, and
its value is closed. -/
theorem evaluate_hygienic (h : t.Closed) :
    (∀ (u : Term) (y : Name) (r : Term) (w : Name), w ∈ (u.replaceFresh y r).freeVars ↔
        (w ∈ u.freeVars ∧ w ≠ y) ∨ (w ∈ r.freeVars ∧ y ∈ u.freeVars)) ∧
      (∀ depth, t.evaluateBy .hygienic depth = t.evaluate depth) ∧
      (∀ x, ¬t.Evaluates (.error (.freeVariable x))) ∧
      ∀ v, t.Evaluates (.ok v) → v.toTerm.Closed := by
  refine ⟨fun u y r w => mem_freeVars_replaceFresh u y r, evaluateBy_hygienic h, fun x hx => ?_,
    fun v hv => hv.closed h⟩
  exact hx.meets (evaluate_closed h) x rfl

/-- The `let` puts a function of `y` below a binder of `y`. -/
theorem evaluate_hygienic_let :
    let t : Term := .letIn "x" (.abs "y" (.var "y"))
      (.app (.abs "y" (.app (.var "x") (.var "y"))) (.int 1))
    t.Closed ∧
      (∀ (u : Term) (y : Name) (r : Term) (w : Name), w ∈ (u.replaceFresh y r).freeVars ↔
        (w ∈ u.freeVars ∧ w ≠ y) ∨ (w ∈ r.freeVars ∧ y ∈ u.freeVars)) ∧
      (∀ depth, t.evaluateBy .hygienic depth = t.evaluate depth) ∧
      (∀ x, ¬t.Evaluates (.error (.freeVariable x))) ∧
      ∀ v, t.Evaluates (.ok v) → v.toTerm.Closed := by
  intro t
  have closed : t.Closed := by decide
  exact ⟨closed, evaluate_hygienic closed⟩

end TypedLambda
