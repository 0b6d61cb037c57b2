import TypedLambda.Ty.Substitution

/-!
Assignments: a type for every type variable, put in for all of them at once.

A substitution is read as a finite set of equations, one for each of its
entries. An assignment solves it if every equation holds once the
assignment has been put in on both sides. Both unification and inference
are specified by their solutions: applying a substitution first makes no
difference to what solves it (`Solves.instantiate_apply`), and a
composition has the solutions of both parts, as long as the second part
overwrites no entry of the first (`solves_compose_iff`). Into a context an
assignment is put binding by binding.
-/

namespace TypedLambda

abbrev Assignment := Name → Ty

namespace Ty

/-! ### Putting an assignment in -/

theorem instantiate_congr {θ φ : Assignment} {t : Ty} (h : ∀ x ∈ t.vars, θ x = φ x) :
    t.instantiate θ = t.instantiate φ := by
  induction t with
  | bool | int | unit | string => rfl
  | arrow a b iha ihb =>
      simp only [vars, List.mem_append] at h
      rw [instantiate, instantiate, iha fun x hx => h x (.inl hx),
        ihb fun x hx => h x (.inr hx)]
  | list a ih => rw [instantiate, instantiate, ih h]
  | var x => exact h x (by simp [vars])

@[simp] theorem instantiate_var (t : Ty) : t.instantiate .var = t := by
  induction t with
  | bool | int | unit | string | var => rfl
  | arrow a b iha ihb => rw [instantiate, iha, ihb]
  | list a ih => rw [instantiate, ih]

theorem instantiate_of_ground {t : Ty} (h : t.Ground) (θ : Assignment) :
    t.instantiate θ = t := by
  have hvars : ∀ x ∈ t.vars, θ x = .var x := by
    rw [show t.vars = [] from h]
    simp
  rw [instantiate_congr hvars, instantiate_var]

theorem ground_instantiate {θ : Assignment} (h : ∀ x, (θ x).Ground) (t : Ty) :
    (t.instantiate θ).Ground := by
  induction t with
  | bool | int | unit | string => rfl
  | arrow a b iha ihb =>
      rw [Ground, instantiate, vars, iha, ihb, List.append_nil]
  | list a ih => exact ih
  | var x => exact h x

theorem instantiate_instantiate (θ φ : Assignment) (t : Ty) :
    (t.instantiate θ).instantiate φ = t.instantiate fun x => (θ x).instantiate φ := by
  induction t with
  | bool | int | unit | string | var => rfl
  | arrow a b iha ihb => rw [instantiate, instantiate, instantiate, iha, ihb]
  | list a ih => rw [instantiate, instantiate, instantiate, ih]

theorem instantiate_replace {θ : Assignment} {x : Name} {r : Ty}
    (h : θ x = r.instantiate θ) (t : Ty) :
    (t.replace x r).instantiate θ = t.instantiate θ := by
  induction t with
  | bool | int | unit | string => rfl
  | arrow a b iha ihb => rw [replace, instantiate, instantiate, iha, ihb]
  | list a ih => rw [replace, instantiate, instantiate, ih]
  | var y =>
      by_cases hy : y = x
      · subst hy
        simp [replace, instantiate, h]
      · simp [replace, hy]

end Ty

/-! ### Solutions -/

/-- Every entry of the substitution is a true equation under the
assignment. -/
def Assignment.Solves (θ : Assignment) (σ : Substitution) : Prop :=
  ∀ x t, σ.get? x = some t → θ x = t.instantiate θ

namespace Assignment

variable {θ φ : Assignment} {σ τ : Substitution}

theorem solves_empty (θ : Assignment) : θ.Solves .empty := by
  intro x t h
  simp at h

theorem solves_single {x : Name} {r : Ty} :
    θ.Solves (.single x r) ↔ θ x = r.instantiate θ := by
  constructor
  · intro h
    exact h x r (by simp [OrderedMap.single])
  · intro h y t hy
    rw [OrderedMap.single, OrderedMap.get?_insert] at hy
    split at hy
    · next hyx =>
      obtain rfl : r = t := Option.some.inj hy
      rw [hyx, h]
    · simp at hy

/-- To a solution, a type and what the substitution makes of it are the
same. -/
theorem Solves.instantiate_apply (h : θ.Solves σ) (t : Ty) :
    (σ.apply t).instantiate θ = t.instantiate θ := by
  suffices key : ∀ es : List (Name × Ty), (∀ e ∈ es, e ∈ σ.entries) →
      (es.foldr (fun e acc => acc.replace e.1 e.2) t).instantiate θ = t.instantiate θ from
    key σ.entries fun _ he => he
  intro es
  induction es with
  | nil => intro _; rfl
  | cons e rest ih =>
      intro hsub
      have entry : σ.get? e.1 = some e.2 :=
        OrderedMap.get?_eq_some_iff.2 (hsub e List.mem_cons_self)
      rw [List.foldr_cons, Ty.instantiate_replace (h e.1 e.2 entry)]
      exact ih fun d hd => hsub d (List.mem_cons_of_mem _ hd)

theorem Solves.compose (hσ : θ.Solves σ) (hτ : θ.Solves τ) : θ.Solves (σ.compose τ) := by
  intro x t h
  rw [Substitution.get?_compose] at h
  cases hx : τ.get? x with
  | some u =>
      obtain rfl : u = t := by simpa [hx] using h
      exact hτ x u hx
  | none =>
      obtain ⟨u, hu, rfl⟩ : ∃ u, σ.get? x = some u ∧ τ.apply u = t := by
        simpa [hx] using h
      rw [hτ.instantiate_apply]
      exact hσ x u hu

theorem Solves.of_compose (h : θ.Solves (σ.compose τ)) : θ.Solves τ := by
  intro x t hx
  exact h x t (by rw [Substitution.get?_compose, hx, Option.some_or])

/-- A composition has the solutions of both parts if it overwrites no
entry. -/
theorem solves_compose_iff (hd : ∀ k ∈ σ.keys, k ∉ τ.keys) :
    θ.Solves (σ.compose τ) ↔ θ.Solves σ ∧ θ.Solves τ := by
  refine ⟨fun h => ⟨?_, h.of_compose⟩, fun h => h.1.compose h.2⟩
  intro x t hx
  have hsilent : τ.get? x = none :=
    OrderedMap.get?_eq_none_iff.2 (hd x (OrderedMap.mem_keys_of_get? hx))
  rw [h x (τ.apply t) (by simp [Substitution.get?_compose, hsilent, hx])]
  exact h.of_compose.instantiate_apply t

theorem Solves.instantiate (h : θ.Solves σ) (φ : Assignment) :
    Solves (fun x => (θ x).instantiate φ) σ := by
  intro x t hx
  rw [← Ty.instantiate_instantiate, ← h x t hx]

/-- Whether an assignment solves a substitution is decided by the variables
of the substitution. -/
theorem Solves.congr {xs : List Name} (h : θ.Solves σ) (hσ : σ.Within xs)
    (hφ : ∀ x ∈ xs, φ x = θ x) : φ.Solves σ := by
  intro x t hx
  rw [hφ x (hσ.keys_mem x (OrderedMap.mem_keys_of_get? hx)), h x t hx]
  refine Ty.instantiate_congr fun y hy => ?_
  exact (hφ y (hσ.range_mem y (Substitution.mem_rangeVars_of_get? hx hy))).symm

end Assignment

/-! ### The assignment of a substitution -/

namespace Substitution

/-- Looks every variable up at the same time. -/
def assignment (σ : Substitution) : Assignment := fun x => (σ.get? x).getD (.var x)

theorem assignment_of_not_mem {σ : Substitution} {x : Name} (h : x ∉ σ.keys) :
    σ.assignment x = .var x := by
  simp [assignment, OrderedMap.get?_eq_none_iff.2 h]

theorem instantiate_assignment_of_disjoint {σ : Substitution} {t : Ty}
    (h : ∀ x ∈ t.vars, x ∉ σ.keys) : t.instantiate σ.assignment = t := by
  rw [Ty.instantiate_congr fun x hx => assignment_of_not_mem (h x hx), Ty.instantiate_var]

/-- A substitution in solved form is its own solution. -/
theorem Solved.assignment_solves {σ : Substitution} (hσ : σ.Solved) :
    σ.assignment.Solves σ := by
  intro x t hx
  have disjoint : ∀ y ∈ t.vars, y ∉ σ.keys := fun y hy hk =>
    hσ y hk (mem_rangeVars_of_get? hx hy)
  rw [instantiate_assignment_of_disjoint disjoint]
  simp [assignment, hx]

/-- In solved form the order of the entries does not matter: working
through them one at a time is looking all variables up at once. -/
theorem Solved.apply_eq {σ : Substitution} (hσ : σ.Solved) (t : Ty) :
    σ.apply t = t.instantiate σ.assignment := by
  have disjoint : ∀ y ∈ (σ.apply t).vars, y ∉ σ.keys := fun y hy =>
    (mem_vars_apply hσ hy).1
  rw [← hσ.assignment_solves.instantiate_apply t,
    instantiate_assignment_of_disjoint disjoint]

end Substitution

/-! ### Contexts -/

namespace Context

variable {θ φ : Assignment} {σ : Substitution} {Γ : Context}

def instantiate (θ : Assignment) (Γ : Context) : Context := Γ.map (Ty.instantiate θ)

theorem mem_tyVars {y : Name} : y ∈ Γ.tyVars ↔ ∃ x A, Γ.get? x = some A ∧ y ∈ A.vars := by
  constructor
  · exact Substitution.exists_get?_of_mem_rangeVars
  · rintro ⟨x, A, hx, hy⟩
    exact Substitution.mem_rangeVars_of_get? hx hy

theorem mem_tyVars_insert {x y : Name} {A : Ty} (h : y ∈ tyVars (Γ.insert x A)) :
    y ∈ A.vars ∨ y ∈ Γ.tyVars := by
  obtain ⟨z, B, hz, hy⟩ := mem_tyVars.1 h
  rw [OrderedMap.get?_insert] at hz
  split at hz
  · obtain rfl : A = B := Option.some.inj hz
    exact .inl hy
  · exact .inr (mem_tyVars.2 ⟨z, B, hz, hy⟩)

theorem mem_tyVars_applyContext (hσ : σ.Solved) {y : Name}
    (h : y ∈ (σ.applyContext Γ).tyVars) :
    y ∉ σ.keys ∧ (y ∈ Γ.tyVars ∨ y ∈ σ.rangeVars) := by
  obtain ⟨x, B, hx, hy⟩ := mem_tyVars.1 h
  obtain ⟨A, hA, rfl⟩ : ∃ A, Γ.get? x = some A ∧ σ.apply A = B := by simpa using hx
  obtain ⟨hkey, hvar | hrange⟩ := Substitution.mem_vars_apply hσ hy
  · exact ⟨hkey, .inl (mem_tyVars.2 ⟨x, A, hA, hvar⟩)⟩
  · exact ⟨hkey, .inr hrange⟩

@[simp] theorem get?_instantiate (θ : Assignment) (Γ : Context) (x : Name) :
    (Γ.instantiate θ).get? x = (Γ.get? x).map (Ty.instantiate θ) :=
  OrderedMap.get?_map _ Γ x

@[simp] theorem instantiate_empty (θ : Assignment) : instantiate θ .empty = .empty := rfl

theorem instantiate_insert (θ : Assignment) (Γ : Context) (x : Name) (A : Ty) :
    instantiate θ (Γ.insert x A) = (Γ.instantiate θ).insert x (A.instantiate θ) :=
  OrderedMap.map_insert _ Γ x A

theorem instantiate_congr (h : ∀ x ∈ Γ.tyVars, θ x = φ x) :
    Γ.instantiate θ = Γ.instantiate φ := by
  ext1
  refine List.map_congr_left fun e he => ?_
  have hvars : ∀ x ∈ e.2.vars, θ x = φ x := fun x hx =>
    h x (mem_tyVars.2 ⟨e.1, e.2, OrderedMap.get?_eq_some_iff.2 he, hx⟩)
  rw [Ty.instantiate_congr hvars]

def Ground (Γ : Context) : Prop := Γ.tyVars = []

instance (Γ : Context) : Decidable Γ.Ground := inferInstanceAs (Decidable (_ = _))

theorem Ground.instantiate (h : Γ.Ground) (θ : Assignment) : Γ.instantiate θ = Γ := by
  ext1
  refine (List.map_congr_left fun e he => ?_).trans (List.map_id _)
  have ground : e.2.Ground := List.flatMap_eq_nil_iff.1 h e.2 (List.mem_map_of_mem he)
  rw [Ty.instantiate_of_ground ground, id]

theorem instantiate_applyContext (h : θ.Solves σ) :
    (σ.applyContext Γ).instantiate θ = Γ.instantiate θ := by
  ext1
  simp [instantiate, Substitution.applyContext, h.instantiate_apply]

end Context

end TypedLambda
