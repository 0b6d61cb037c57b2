import TypedLambda.Proofs.PrincipalTypes
import TypedLambda.Proofs.Variants

/-!
Terms with the same typings have the same principal types.

Inference visits the parts of a term in some order and draws names on the
way, so terms that are written differently lead to different substitutions
and different names. The judgement does not see this. Where one term has
every typing of another, inference finds a type for it that is at least as
general (`exists_typecheck_of_hasType`), and where two terms have the same
typings, the types found are variants (`typecheck_variants`).

A `let` and an immediate application have the same typings, since what a
`let` binds has one type for all its uses.
-/

namespace TypedLambda

variable {Γ : Context} {t u v b : Term} {A : Ty} {x : Name}

theorem exists_typecheck_of_hasType (ht : t.Concrete) (hu : u.Concrete)
    (htu : ∀ Δ B, HasType Δ t B → HasType Δ u B) (h : t.typecheck Γ = .ok A) :
    ∃ B, u.typecheck Γ = .ok B ∧ ∃ φ : Assignment, B.instantiate φ = A := by
  obtain ⟨i, hi, rfl⟩ := Term.typecheck_eq_ok.1 h
  have typed := (infer_sound (fun _ => mem_taken_forTerm) ht hi).hasType_learned
  obtain ⟨j, φ, cj⟩ := infer_complete (fun _ => mem_taken_forTerm) hu (htu _ _ typed)
  obtain ⟨found, more_general⟩ := cj.typecheck
  exact ⟨_, found, φ, more_general.symm⟩

/-- Terms with the same typings are both accepted or both refused, and a
permutation of the names turns the type found for one into the type found for
the other. -/
theorem typecheck_variants (ht : t.Concrete) (hu : u.Concrete)
    (h : ∀ Δ B, HasType Δ t B ↔ HasType Δ u B) (Γ : Context) :
    ((∃ A, t.typecheck Γ = .ok A) ↔ ∃ B, u.typecheck Γ = .ok B) ∧
      ∀ A B, t.typecheck Γ = .ok A → u.typecheck Γ = .ok B →
        ∃ ρ : Equiv.Perm Name, A.rename ρ = B := by
  have left := fun A => exists_typecheck_of_hasType (Γ := Γ) (A := A) ht hu fun Δ B => (h Δ B).1
  have right := fun B => exists_typecheck_of_hasType (Γ := Γ) (A := B) hu ht fun Δ B => (h Δ B).2
  refine ⟨⟨fun ⟨A, hA⟩ => (left A hA).imp fun _ => And.left,
    fun ⟨B, hB⟩ => (right B hB).imp fun _ => And.left⟩, fun A B hA hB => ?_⟩
  obtain ⟨B', hB', φ, rfl⟩ := left A hA
  obtain rfl : B = B' := Except.ok.inj (hB.symm.trans hB')
  obtain ⟨A', hA', θ, hθ⟩ := right B hB
  obtain rfl := Except.ok.inj (hA.symm.trans hA')
  exact Ty.exists_rename_eq hθ rfl

theorem hasType_letIn_iff :
    HasType Γ (.letIn x v b) A ↔ HasType Γ (.app (.abs x b) v) A := by
  constructor
  · intro h
    cases h with
    | letIn hv hb => exact .app (.abs hb) hv
  · intro h
    cases h with
    | app hf hv =>
      cases hf with
      | abs hb => exact .letIn hv hb

/-- A `let` is accepted if and only if the immediate application is, and a
permutation of the names turns the type of one into the type of the other. -/
theorem typecheck_letIn_app (hv : v.Concrete) (hb : b.Concrete) (x : Name) (Γ : Context) :
    ((∃ A, (Term.letIn x v b).typecheck Γ = .ok A) ↔
        ∃ B, (Term.app (.abs x b) v).typecheck Γ = .ok B) ∧
      ∀ A B, (Term.letIn x v b).typecheck Γ = .ok A →
        (Term.app (.abs x b) v).typecheck Γ = .ok B → ∃ ρ : Equiv.Perm Name, A.rename ρ = B := by
  have hlet : (Term.letIn x v b).Concrete := hv.append hb rfl
  have happ : (Term.app (.abs x b) v).Concrete := hb.append hv rfl
  exact typecheck_variants hlet happ (fun _ _ => hasType_letIn_iff) Γ

/-- The bound function takes its argument and its result from the context, and
the body makes the two types of the context equal. -/
theorem typecheck_letIn_app_context :
    let v : Term := .abs "z" (.app (.var "f") (.var "z"))
    let b : Term := .abs "k" (.cons (.app (.var "x") (.var "y")) (.tail (.var "k")))
    let Γ : Context := .ofList [("f", .arrow (.var "β") (.var "a")), ("y", .var "b")]
    (v.Concrete ∧ b.Concrete ∧
        (Term.letIn "x" v b).typecheck Γ = .ok (.arrow (.list (.var "ζ")) (.list (.var "ζ"))) ∧
        (Term.app (.abs "x" b) v).typecheck Γ =
          .ok (.arrow (.list (.var "η")) (.list (.var "η")))) ∧
      ∃ ρ : Equiv.Perm Name, (Ty.arrow (.list (.var "ζ")) (.list (.var "ζ"))).rename ρ =
        .arrow (.list (.var "η")) (.list (.var "η")) := by
  intro v b Γ
  have hv : v.Concrete := by decide
  have hb : b.Concrete := by decide
  have hlet : (Term.letIn "x" v b).typecheck Γ =
      .ok (.arrow (.list (.var "ζ")) (.list (.var "ζ"))) := by cbv
  have happ : (Term.app (.abs "x" b) v).typecheck Γ =
      .ok (.arrow (.list (.var "η")) (.list (.var "η"))) := by cbv
  exact ⟨⟨hv, hb, hlet, happ⟩, (typecheck_letIn_app hv hb "x" Γ).2 _ _ hlet happ⟩

end TypedLambda
