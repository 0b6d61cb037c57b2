import TypedLambda.Proofs.CheckingSoundness
import TypedLambda.Proofs.PrincipalTypes

/-!
The two disciplines agree.

A type that is synthesized is the only type of the term
(`HasType.eq_of_synthesize`). The functions and empty lists inside the term
may have many types, but they stand in places where a type is already
known, and the judgement has no choice there either. Inference by
unification finds a type whenever there is one, and finds it among the
types of the term, so of a term with one type it finds that one. What a term
only checks against need not be its only type; it is an instance of the type
found.
-/

namespace TypedLambda

variable {Γ : Context} {t : Term} {A B : Ty}

theorem HasType.eq_of_synthesize (h : HasType Γ t B) (hs : t.synthesize Γ = .ok A) :
    B = A := by
  induction h generalizing A with
  | bool | int | string | unit => simpa [Term.synthesize] using hs
  | nil | abs | wildcard => simp [Term.synthesize] at hs
  | var hx =>
      rw [Term.synthesize_var_eq_ok, hx] at hs
      exact Option.some.inj hs
  | app _ _ ihf _ =>
      obtain ⟨dom, hf, -⟩ := Term.synthesize_app_eq_ok.1 hs
      exact (Ty.arrow.inj (ihf hf)).2
  | add =>
      simp only [Term.synthesize, bind_eq_ok, pure_eq_ok] at hs
      obtain ⟨-, -, -, -, rfl⟩ := hs
      rfl
  | isZero | ascribe | isEmpty =>
      simp only [Term.synthesize, bind_eq_ok, pure_eq_ok] at hs
      obtain ⟨-, -, rfl⟩ := hs
      rfl
  | cond _ _ _ _ iha _ =>
      simp only [Term.synthesize, bind_eq_ok, pure_eq_ok] at hs
      obtain ⟨-, -, C, ha, -, -, rfl⟩ := hs
      exact iha ha
  | cons _ _ ihh _ =>
      simp only [Term.synthesize, bind_eq_ok, pure_eq_ok] at hs
      obtain ⟨elem, hh, -, -, rfl⟩ := hs
      rw [ihh hh]
  | head _ ihl =>
      rw [Term.synthesize, Term.element_eq_ok] at hs
      exact Ty.list.inj (ihl hs)
  | tail _ ihl =>
      simp only [Term.synthesize, bind_eq_ok, Term.element_eq_ok, pure_eq_ok] at hs
      obtain ⟨elem, hl, rfl⟩ := hs
      exact ihl hl
  | letIn _ _ ihe ihb =>
      simp only [Term.synthesize, bind_eq_ok] at hs
      obtain ⟨C, he, hb⟩ := hs
      obtain rfl := ihe he
      exact ihb hb

/-- A typing in a context without type variables is covered by the type that
inference finds, and this type is a type of the term too. -/
theorem HasType.exists_typecheck (h : HasType Γ t A) (hΓ : Γ.Ground) (hc : t.Concrete) :
    ∃ B, t.typecheck Γ = .ok B ∧ HasType Γ t B ∧ ∃ φ : Assignment, A = B.instantiate φ := by
  rw [← hΓ.instantiate .var] at h
  obtain ⟨i, φ, ci⟩ := infer_complete (fun _ => mem_taken_forTerm) hc h
  obtain ⟨hfound, hinstance⟩ := ci.typecheck
  have hB := ci.sound.hasType_learned
  rw [hΓ.instantiate] at hB
  exact ⟨_, hfound, hB, φ, hinstance⟩

/-- Of terms and contexts without type variables: a synthesized type is the
very type that inference finds, and a type that the term checks against is an
instance of the type that inference finds. -/
theorem disciplines_agree (hΓ : Γ.Ground) (hc : t.Concrete) :
    (∀ A, t.synthesize Γ = .ok A → t.typecheck Γ = .ok A) ∧
      ∀ A, t.check Γ A = true →
        ∃ B, t.typecheck Γ = .ok B ∧ ∃ φ : Assignment, A = B.instantiate φ := by
  refine ⟨fun A h => ?_, fun A h => ?_⟩
  · obtain ⟨B, hfound, hB, -⟩ :=
      (Term.hasType_of_synthesize h).exists_typecheck hΓ hc
    rw [hfound, hB.eq_of_synthesize h]
  · obtain ⟨B, hfound, -, hinstance⟩ := (Term.hasType_of_check h).exists_typecheck hΓ hc
    exact ⟨B, hfound, hinstance⟩

/-- An ascribed function under a `let` has one type; the same function on its
own checks against a type that is less general than the one found. -/
theorem disciplines_agree_let :
    let bound : Term := .letIn "f" (.ascribe (.abs "x" (.cons (.var "x") .nil))
      (.arrow .int (.list .int))) (.app (.var "f") (.var "n"))
    let alone : Term := .abs "x" (.cons (.var "x") .nil)
    (bound.synthesize (.single "n" .int) = .ok (.list .int) ∧
        bound.typecheck (.single "n" .int) = .ok (.list .int)) ∧
      (alone.check .empty (.arrow .bool (.list .bool)) = true ∧
        ∃ B, alone.typecheck .empty = .ok B ∧
          ∃ φ : Assignment, .arrow .bool (.list .bool) = B.instantiate φ) := by
  intro bound alone
  have synthesized : bound.synthesize (.single "n" .int) = .ok (.list .int) := by cbv
  have checked : alone.check .empty (.arrow .bool (.list .bool)) = true := by cbv
  exact ⟨⟨synthesized, (disciplines_agree (by decide) (by decide)).1 _ synthesized⟩,
    checked, (disciplines_agree (by decide) (by decide)).2 _ checked⟩

end TypedLambda
