import TypedLambda.Proofs.CheckedAlike
import TypedLambda.Proofs.ClosedTerms
import TypedLambda.Term.Binders
import TypedLambda.Typing.Inference

/-!
Typing does not depend on the names of bound variables.

A binder with another name may hide another entry of the context, so two
terms that are equal up to bound names are typed in contexts with different
entries in different orders. But typing asks a context for nothing but the
types of free variables, and there the contexts agree (`Context.Agree`):
outside the binder they did before, and the binder gives both its names the
same type. So inference runs alike on both sides, down to the names of the
new variables, and the terms are checked alike.
-/

namespace TypedLambda

variable {ρ : List (Name × Name)} {Γ Δ : Context} {xs ys : List Name} {x y : Name}

/-- Of the given variables, each one has the same type in the first context as
the one that corresponds to it has in the second context. If it has none,
both are the same variable. -/
def Context.Agree (ρ : List (Name × Name)) (xs : List Name) (Γ Δ : Context) : Prop :=
  ∀ x ∈ xs, ∀ y, Paired ρ x y → Γ.get? x = Δ.get? y ∧ (Γ.get? x = none → x = y)

namespace Context.Agree

theorem refl (xs : List Name) (Γ : Context) : Agree [] xs Γ Γ := by
  rintro x - y rfl
  exact ⟨rfl, fun _ => rfl⟩

theorem left (h : Agree ρ (xs ++ ys) Γ Δ) : Agree ρ xs Γ Δ :=
  fun x hx => h x (List.mem_append_left _ hx)

theorem right (h : Agree ρ (xs ++ ys) Γ Δ) : Agree ρ ys Γ Δ :=
  fun x hx => h x (List.mem_append_right _ hx)

/-- A new binder hides its own name on each side, and gives both the same type. -/
theorem insert (h : Agree ρ (xs.filter (· != x)) Γ Δ) (A : Ty) :
    Agree ((x, y) :: ρ) xs (Γ.insert x A) (Δ.insert y A) := by
  rintro z hz w (⟨rfl, rfl⟩ | ⟨hzx, hwy, hp⟩)
  · simp
  · rw [OrderedMap.get?_insert_of_ne _ _ hzx, OrderedMap.get?_insert_of_ne _ _ hwy]
    exact h z (List.mem_filter.2 ⟨hz, by simpa using hzx⟩) w hp

theorem applyContext (h : Agree ρ xs Γ Δ) (σ : Substitution) :
    Agree ρ xs (σ.applyContext Γ) (σ.applyContext Δ) := by
  intro x hx y hp
  obtain ⟨hget, hnone⟩ := h x hx y hp
  simp only [get?_applyContext, Option.map_eq_none_iff]
  exact ⟨by rw [hget], hnone⟩

end Context.Agree

namespace Term

variable {t u : Term}

theorem AlphaUnder.ascribed_eq (h : AlphaUnder ρ t u) : t.ascribed = u.ascribed := by
  induction h with
  | bool | int | string | unit | nil | var => rfl
  | abs _ ih | wildcard _ ih | isZero _ ih | isEmpty _ ih | head _ ih | tail _ ih => exact ih
  | ascribe _ ih => rw [ascribed, ascribed, ih]
  | app _ _ iha ihb | add _ _ iha ihb | cons _ _ iha ihb | letIn _ _ iha ihb =>
      rw [ascribed, ascribed, iha, ihb]
  | cond _ _ _ ihc iha ihb => rw [ascribed, ascribed, ihc, iha, ihb]

theorem AlphaUnder.forTerm_eq (h : AlphaUnder ρ t u) (Γ : Context) :
    NameSupply.forTerm Γ t = .forTerm Γ u := by
  rw [NameSupply.forTerm, NameSupply.forTerm, ascribedVars, ascribedVars, h.ascribed_eq]

theorem AlphaUnder.inferBy_eq (join : Join) (h : AlphaUnder ρ t u)
    (hΓ : Context.Agree ρ t.freeVars Γ Δ) (s : NameSupply) :
    t.inferBy join Γ s = u.inferBy join Δ s := by
  induction h generalizing Γ Δ s with
  | bool | int | string | unit | nil => rfl
  | @var ρ x y hp =>
      obtain ⟨hget, hnone⟩ := hΓ x (List.mem_singleton.2 rfl) y hp
      rw [inferBy, inferBy, ← hget]
      cases hx : Γ.get? x with
      | some A => rfl
      | none => rw [hnone hx]
  | abs _ ih => rw [inferBy, inferBy, ih (hΓ.insert _)]
  | wildcard _ ih | isZero _ ih | ascribe _ ih | isEmpty _ ih | head _ ih | tail _ ih =>
      rw [inferBy, inferBy, ih hΓ]
  -- each part is followed in the contexts with all that the parts before it have learned
  | app _ _ iha ihb | add _ _ iha ihb | cons _ _ iha ihb =>
      rw [inferBy, inferBy, iha hΓ.left]
      refine bind_congr fun i => ?_
      rw [ihb (hΓ.right.applyContext _)]
  | cond _ _ _ ihc iha ihb =>
      simp only [inferBy]
      rw [ihc hΓ.left.left]
      refine bind_congr fun i => bind_congr fun σ => ?_
      rw [iha (hΓ.left.right.applyContext _)]
      refine bind_congr fun j => bind_congr fun τ => ?_
      rw [ihb (hΓ.right.applyContext _)]
  | letIn _ _ ihe ihb =>
      rw [inferBy, inferBy, ihe hΓ.left]
      refine bind_congr fun i => ?_
      rw [ihb ((hΓ.right.applyContext _).insert _)]

def AlphaSomewhere (t u : Term) : Prop := ∃ ρ, AlphaUnder ρ t u

theorem AlphaUnder.checkedAlike (h : AlphaUnder ρ t u) (hΓ : Context.Agree ρ t.freeVars Γ Δ) :
    CheckedAlike AlphaSomewhere Γ Δ t u := by
  induction h generalizing Γ Δ with
  | bool => exact .bool ⟨[], .bool⟩
  | int => exact .int ⟨[], .int⟩
  | string => exact .string ⟨[], .string⟩
  | unit => exact .unit ⟨[], .unit⟩
  | nil => exact .nil ⟨[], .nil⟩
  | @var ρ x y hp =>
      obtain ⟨hget, hnone⟩ := hΓ x (List.mem_singleton.2 rfl) y hp
      exact .var ⟨_, .var hp⟩ hget hnone
  | abs hb ih => exact .abs ⟨_, .abs hb⟩ fun A => (ih (hΓ.insert A)).check
  | wildcard hb ih => exact .wildcard ⟨_, .wildcard hb⟩ (ih hΓ).check
  | ascribe ht ih => exact .ascribe ⟨_, .ascribe ht⟩ (ih hΓ)
  | isZero ht ih => exact .isZero ⟨_, .isZero ht⟩ (ih hΓ)
  | isEmpty ht ih => exact .isEmpty ⟨_, .isEmpty ht⟩ (ih hΓ)
  | head ht ih => exact .head ⟨_, .head ht⟩ (ih hΓ)
  | tail ht ih => exact .tail ⟨_, .tail ht⟩ (ih hΓ)
  | app ha hb iha ihb => exact .app ⟨_, .app ha hb⟩ (iha hΓ.left) (ihb hΓ.right)
  | add ha hb iha ihb => exact .add ⟨_, .add ha hb⟩ (iha hΓ.left) (ihb hΓ.right)
  | cons ha hb iha ihb => exact .cons ⟨_, .cons ha hb⟩ (iha hΓ.left) (ihb hΓ.right)
  | cond hc ha hb ihc iha ihb =>
      exact .cond ⟨_, .cond hc ha hb⟩ (ihc hΓ.left.left) (iha hΓ.left.right) (ihb hΓ.right)
  | letIn he hb ihe ihb =>
      exact .letIn ⟨_, .letIn he hb⟩ (ihe hΓ.left) fun A => ihb (hΓ.right.insert A)

end Term

open Term

/-- In every context, terms that are equal up to bound names have the same
inferred type, with the same variables, or the same error. They check against
the same types, and the types that are synthesized for them are the same, or
both errors are of the same kind about parts that are equal up to bound
names. -/
theorem typing_alpha {t u : Term} (h : t.Alpha u) (Γ : Context) :
    t.typecheck Γ = u.typecheck Γ ∧ (∀ A, t.check Γ A = u.check Γ A) ∧
      ResultAlike AlphaSomewhere (t.synthesize Γ) (u.synthesize Γ) := by
  have agree : Context.Agree [] t.freeVars Γ Γ := .refl _ Γ
  have checked := h.checkedAlike agree
  refine ⟨?_, checked.check, checked.synthesize⟩
  rw [typecheck, typecheck, infer, infer, h.inferBy_eq _ agree, h.forTerm_eq]

/-- The binder on the right has the name of the argument, and hides it. -/
theorem typing_alpha_hidden :
    let t : Term := .app (.ascribe (.abs "x" (.cons (.var "x") .nil)) (.arrow .int (.list .int)))
      (.var "y")
    let u : Term := .app (.ascribe (.abs "y" (.cons (.var "y") .nil)) (.arrow .int (.list .int)))
      (.var "y")
    let Γ : Context := .ofList [("y", .int), ("x", .string)]
    t.Alpha u ∧ t.typecheck Γ = u.typecheck Γ ∧ (∀ A, t.check Γ A = u.check Γ A) ∧
      ResultAlike AlphaSomewhere (t.synthesize Γ) (u.synthesize Γ) := by
  intro t u Γ
  have alpha : t.Alpha u :=
    .app (.ascribe (.abs (.cons (.var (.inl ⟨rfl, rfl⟩)) .nil))) (.var rfl)
  exact ⟨alpha, typing_alpha alpha Γ⟩

end TypedLambda
