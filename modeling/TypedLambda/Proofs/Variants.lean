import Mathlib.Data.Set.Finite.Basic
import Mathlib.Logic.Equiv.Fintype
import TypedLambda.Proofs.SolvedForms

/-!
Types up to the names of their variables.

Two types that are instances of each other are variants: a permutation of
the names turns one into the other. The two assignments send variables to
variables and undo each other there, and what they do to the finitely many
variables at hand extends to a permutation of all names
(`exists_rename_eq_instantiate`).

Unification of two types in either order shows what this is good for. The two
unifiers bind different variables, but each is a solution of the other, and
so they make variants of every type (`unify_symm`).
-/

namespace TypedLambda

namespace Ty

variable {l r A B t : Ty} {σ τ : Substitution} {θ φ : Assignment} {xs : List Name}

def rename (ρ : Name → Name) (t : Ty) : Ty := t.instantiate fun x => .var (ρ x)

theorem eq_of_instantiate_eq (h : t.instantiate θ = t.instantiate φ) :
    ∀ x ∈ t.vars, θ x = φ x := by
  induction t with
  | bool | int | unit | string => simp [vars]
  | arrow a b iha ihb =>
      obtain ⟨ha, hb⟩ := Ty.arrow.inj h
      exact fun x hx => (List.mem_append.1 hx).elim (iha ha x) (ihb hb x)
  | list a ih => exact ih (Ty.list.inj h)
  | var y =>
      intro x hx
      obtain rfl : x = y := List.mem_singleton.1 hx
      exact h

theorem exists_var_of_instantiate_eq {x : Name} (h : t.instantiate φ = .var x) :
    ∃ y, t = .var y ∧ φ y = .var x := by
  cases t with
  | var y => exact ⟨y, rfl, h⟩
  | bool | int | unit | string | arrow | list => cases h

/-- An assignment that another one undoes on some variables permutes their
names. -/
theorem exists_rename_eq_instantiate (h : ∀ x ∈ xs, (θ x).instantiate φ = .var x) :
    ∃ ρ : Equiv.Perm Name, ∀ t : Ty, (∀ x ∈ t.vars, x ∈ xs) → t.rename ρ = t.instantiate θ := by
  classical
  choose! f hf using fun x hx => exists_var_of_instantiate_eq (h x hx)
  let s : Set Name := {x | x ∈ xs}
  have finite : Finite {x | x ∈ s} := xs.finite_toSet
  have injective : Set.InjOn f s := fun x hx y hy heq =>
    Ty.var.inj ((hf x hx).2.symm.trans (heq ▸ (hf y hy).2))
  let e := Equiv.Set.imageOfInjOn f s injective
  have extends_f : ∀ x ∈ xs, e.extendSubtype x = f x := fun x hx =>
    e.extendSubtype_apply_of_mem x hx
  refine ⟨e.extendSubtype, fun t ht => instantiate_congr fun x hx => ?_⟩
  rw [extends_f x (ht x hx), (hf x (ht x hx)).1]

/-- Two types that are instances of each other are variants. -/
theorem exists_rename_eq (hθ : A.instantiate θ = B) (hφ : B.instantiate φ = A) :
    ∃ ρ : Equiv.Perm Name, A.rename ρ = B := by
  have undone : A.instantiate (fun x => (θ x).instantiate φ) = A.instantiate .var := by
    rw [← instantiate_instantiate, hθ, hφ, instantiate_var]
  obtain ⟨ρ, hρ⟩ := exists_rename_eq_instantiate (eq_of_instantiate_eq undone)
  exact ⟨ρ, (hρ A fun _ hx => hx).trans hθ⟩

/-! ### Unifiers of two types in either order -/

theorem exists_unify_swap (h : l.unify r = .ok σ) : ∃ τ, r.unify l = .ok τ := by
  have hθ := instantiate_eq_of_unify h (solved_of_unify h).1.assignment_solves
  obtain ⟨τ, hτ, -⟩ := exists_unify_of_instantiate_eq hθ.symm
  exact ⟨τ, hτ⟩

/-- To one of the two unifiers, a type and what the other one makes of it are
the same. -/
theorem apply_apply_of_unify_swap (hσ : l.unify r = .ok σ) (hτ : r.unify l = .ok τ) (t : Ty) :
    (σ.apply t).instantiate τ.assignment = τ.apply t := by
  have solved := (solved_of_unify hτ).1
  have heq := instantiate_eq_of_unify hτ solved.assignment_solves
  obtain ⟨ρ, hρ, hsolves⟩ := exists_unify_of_instantiate_eq heq.symm
  obtain rfl : σ = ρ := Except.ok.inj (hσ.symm.trans hρ)
  rw [hsolves.instantiate_apply, solved.apply_eq]

/-- One unifier undoes what the other one does to the variables that it does
not bind itself. -/
theorem undone_of_unify_swap (hσ : l.unify r = .ok σ) (hτ : r.unify l = .ok τ) {x : Name}
    (hx : x ∉ σ.keys) : (τ.assignment x).instantiate σ.assignment = .var x := by
  have kept : σ.apply (.var x) = .var x :=
    Substitution.apply_of_disjoint fun k hk hmem => hx (List.mem_singleton.1 hmem ▸ hk)
  have back := apply_apply_of_unify_swap hτ hσ (.var x)
  rwa [kept, (solved_of_unify hτ).1.apply_eq] at back

theorem mem_vars_apply_of_unify (h : l.unify r = .ok σ)
    (ht : ∀ x ∈ t.vars, x ∈ l.vars ++ r.vars) :
    ∀ x ∈ (σ.apply t).vars, x ∈ (l.vars ++ r.vars).filter (· ∉ σ.keys) := by
  intro x hx
  obtain ⟨solved, within⟩ := solved_of_unify h
  obtain ⟨hkey, hx⟩ := Substitution.mem_vars_apply solved hx
  rw [List.mem_filter]
  exact ⟨hx.elim (ht x) (within.range_mem x), by simpa using hkey⟩

/-- Two types have a unifier in one order if and only if they have one in the
other, and one permutation of the names turns what the first unifier makes of
types over their variables into what the second one makes of them. -/
theorem unify_symm (l r : Ty) :
    ((∃ σ, l.unify r = .ok σ) ↔ ∃ τ, r.unify l = .ok τ) ∧
      ∀ σ τ, l.unify r = .ok σ → r.unify l = .ok τ →
        ∃ ρ : Equiv.Perm Name, ∀ t : Ty, (∀ x ∈ t.vars, x ∈ l.vars ++ r.vars) →
          (σ.apply t).rename ρ = τ.apply t := by
  refine ⟨⟨fun ⟨_, h⟩ => exists_unify_swap h, fun ⟨_, h⟩ => exists_unify_swap h⟩,
    fun σ τ hσ hτ => ?_⟩
  have undone : ∀ x ∈ (l.vars ++ r.vars).filter (· ∉ σ.keys),
      (τ.assignment x).instantiate σ.assignment = .var x := fun x hx =>
    undone_of_unify_swap hσ hτ (by simpa using (List.mem_filter.1 hx).2)
  obtain ⟨ρ, hρ⟩ := exists_rename_eq_instantiate undone
  refine ⟨ρ, fun t ht => ?_⟩
  rw [hρ _ (mem_vars_apply_of_unify hσ ht), apply_apply_of_unify_swap hσ hτ]

/-- In one order every variable becomes `d`, in the other order every variable
becomes `c`. -/
theorem unify_symm_chain :
    let l : Ty := .arrow (.var "a") (.arrow (.var "b") (.list (.var "c")))
    let r : Ty := .arrow (.var "b") (.arrow (.var "d") (.list (.var "d")))
    let σ : Substitution := .ofList [("a", .var "d"), ("b", .var "d"), ("c", .var "d")]
    let τ : Substitution := .ofList [("b", .var "c"), ("d", .var "c"), ("a", .var "c")]
    (l.unify r = .ok σ ∧ r.unify l = .ok τ) ∧
      ∃ ρ : Equiv.Perm Name,
        (σ.apply l).rename ρ = τ.apply l ∧ (σ.apply r).rename ρ = τ.apply r := by
  intro l r σ τ
  have hσ : l.unify r = .ok σ := by cbv
  have hτ : r.unify l = .ok τ := by cbv
  obtain ⟨ρ, hρ⟩ := (unify_symm l r).2 σ τ hσ hτ
  exact ⟨⟨hσ, hτ⟩, ρ, hρ l fun _ => List.mem_append_left _, hρ r fun _ => List.mem_append_right _⟩

end Ty

end TypedLambda
