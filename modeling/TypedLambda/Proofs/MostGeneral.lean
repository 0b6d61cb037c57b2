import Mathlib
import TypedLambda.Proofs.Assignment
import TypedLambda.Ty.Unification

/-!
Unification finds a most general solution.

The solutions of a unifier are exactly the assignments that make the two
types equal: a solution makes them equal (`instantiate_eq_of_unify`), and
if any assignment makes them equal, then there is a unifier and the
assignment solves it (`exists_unify_of_instantiate_eq`). Where there is no
unifier, the two types that are named as the clash have none either
(`unify_clash`), so no assignment makes them equal.
-/

namespace TypedLambda.Ty

variable {l r : Ty} {σ : Substitution} {θ : Assignment}

/-- How a unifier comes about. -/
inductive Unifies : Ty → Ty → Substitution → Prop
  | same {t : Ty} : Unifies t t .empty
  | left {x : Name} {t : Ty} : x ∉ t.vars → Unifies (.var x) t (.single x t)
  | right {x : Name} {t : Ty} : x ∉ t.vars → Unifies t (.var x) (.single x t)
  | arrow {a b c d : Ty} {σ τ : Substitution} :
      a.unify c = .ok σ → Unifies a c σ → Unifies (σ.apply b) (σ.apply d) τ →
        (σ.apply b).unify (σ.apply d) = .ok τ →
        Unifies (.arrow a b) (.arrow c d) (σ.compose τ)
  | list {a b : Ty} {σ : Substitution} :
      Unifies a b σ → Unifies (.list a) (.list b) σ

/-- What holds of two types if it holds of all pairs that are unified with
less effort holds of any two types. -/
theorem effort_induction {motive : Ty → Ty → Prop}
    (step : ∀ l r, (∀ l' r', Less (effort l' r') (effort l r) → motive l' r') → motive l r)
    (l r : Ty) : motive l r :=
  step l r fun l' r' _ => effort_induction step l' r'
termination_by effort l r
decreasing_by assumption

theorem unifies_of_unify (h : l.unify r = .ok σ) : Unifies l r σ := by
  induction l, r using effort_induction generalizing σ with
  | step l r ih =>
      rw [unify_eq] at h
      split at h
      · next heq =>
        obtain rfl : OrderedMap.empty = σ := by simpa using h
        exact heq ▸ .same
      · next hne =>
        split at h
        · next x =>
          split at h
          · simp at h
          · next hx =>
            obtain rfl : OrderedMap.single x r = σ := by simpa using h
            exact .left fun hmem => hx (occurs_iff.2 hmem)
        · next x _ =>
          split at h
          · simp at h
          · next hx =>
            obtain rfl : OrderedMap.single x l = σ := by simpa using h
            exact .right fun hmem => hx (occurs_iff.2 hmem)
        · next a b c d =>
          cases hσ : a.unify c with
          | error clash => simp [hσ, bind, Except.bind] at h
          | ok ρ =>
              cases hτ : (ρ.apply b).unify (ρ.apply d) with
              | error clash => simp [hσ, hτ, bind, Except.bind] at h
              | ok τ =>
                  obtain rfl : ρ.compose τ = σ := by
                    simpa [hσ, hτ, bind, Except.bind, pure, Except.pure] using h
                  obtain ⟨hsolved, hwithin⟩ := solved_of_unify hσ
                  exact .arrow hσ (ih _ _ (effort_dom_lt a b c d) hσ)
                    (ih _ _ (effort_apply_lt hsolved hwithin) hτ) hτ
        · next a b => exact .list (ih _ _ (effort_elem_lt a b) h)
        · simp at h

/-- A unifier of the second sides of two arrows overwrites no entry of the
unifier of the first sides. -/
theorem not_mem_keys_of_unify_apply {a b c d : Ty} {σ τ : Substitution}
    (hσ : a.unify c = .ok σ) (hτ : (σ.apply b).unify (σ.apply d) = .ok τ) :
    ∀ k ∈ σ.keys, k ∉ τ.keys := by
  intro k hk hkτ
  obtain ⟨hsolved, hwithin⟩ := solved_of_unify hσ
  exact (mem_vars_second hsolved hwithin ((solved_of_unify hτ).2.keys_mem k hkτ)).1 hk

theorem Unifies.instantiate_eq (h : Unifies l r σ) (hθ : θ.Solves σ) :
    l.instantiate θ = r.instantiate θ := by
  induction h with
  | same => rfl
  | left _ => exact Assignment.solves_single.1 hθ
  | right _ => exact (Assignment.solves_single.1 hθ).symm
  | arrow hσ _ _ hτ iha ihb =>
      have disjoint := not_mem_keys_of_unify_apply hσ hτ
      obtain ⟨hfirst, hsecond⟩ := (Assignment.solves_compose_iff disjoint).1 hθ
      have hcod := ihb hsecond
      rw [hfirst.instantiate_apply, hfirst.instantiate_apply] at hcod
      rw [instantiate, instantiate, iha hfirst, hcod]
  | list _ ih => rw [instantiate, instantiate, ih hθ]

theorem instantiate_eq_of_unify (h : l.unify r = .ok σ) (hθ : θ.Solves σ) :
    l.instantiate θ = r.instantiate θ :=
  (unifies_of_unify h).instantiate_eq hθ

/-! ### Completeness -/

theorem size_le_of_mem_vars {x : Name} {t : Ty} (hx : x ∈ t.vars) :
    (θ x).size ≤ (t.instantiate θ).size := by
  induction t with
  | bool | int | unit | string => simp [vars] at hx
  | arrow a b iha ihb =>
      simp only [instantiate, size]
      rcases List.mem_append.1 hx with ha | hb
      · have := iha ha
        omega
      · have := ihb hb
        omega
  | list a ih =>
      have := ih hx
      simp only [instantiate, size]
      omega
  | var y =>
      obtain rfl : x = y := by simpa [vars] using hx
      exact Nat.le_refl _

theorem size_lt_of_mem_vars {x : Name} {t : Ty} (hx : x ∈ t.vars) (hne : t ≠ .var x) :
    (θ x).size < (t.instantiate θ).size := by
  cases t with
  | bool | int | unit | string => simp [vars] at hx
  | arrow a b =>
      simp only [instantiate, size]
      rcases List.mem_append.1 hx with ha | hb
      · have := size_le_of_mem_vars (θ := θ) ha
        omega
      · have := size_le_of_mem_vars (θ := θ) hb
        omega
  | list a =>
      have := size_le_of_mem_vars (θ := θ) (t := a) hx
      simp only [instantiate, size]
      omega
  | var y => exact absurd (by simpa [vars, eq_comm] using hx) hne

/-- A variable stands for no type that it is a proper part of. -/
theorem not_mem_vars_of_instantiate_eq {x : Name} {t : Ty} (hne : t ≠ .var x)
    (h : θ x = t.instantiate θ) : x ∉ t.vars := by
  intro hx
  have := size_lt_of_mem_vars (θ := θ) hx hne
  rw [h] at this
  omega

/-- If an assignment makes two types equal, they have a unifier, and the
assignment solves it. -/
theorem exists_unify_of_instantiate_eq (h : l.instantiate θ = r.instantiate θ) :
    ∃ σ, l.unify r = .ok σ ∧ θ.Solves σ := by
  -- the second sides of two arrows are no parts of them once the unifier of
  -- the first sides has been applied, so the induction is on the effort
  induction l, r using effort_induction with
  | step l r ih =>
      rw [unify_eq]
      split
      · exact ⟨_, rfl, θ.solves_empty⟩
      · next hne =>
        split
        · next x =>
          have hx := not_mem_vars_of_instantiate_eq (fun heq => hne heq.symm) h
          rw [if_neg fun ho => hx (occurs_iff.1 ho)]
          exact ⟨_, rfl, Assignment.solves_single.2 h⟩
        · next x _ =>
          have hx := not_mem_vars_of_instantiate_eq hne h.symm
          rw [if_neg fun ho => hx (occurs_iff.1 ho)]
          exact ⟨_, rfl, Assignment.solves_single.2 h.symm⟩
        · next a b c d =>
          obtain ⟨hdom, hcod⟩ := Ty.arrow.inj h
          obtain ⟨σ, hσ, hfirst⟩ := ih a c (effort_dom_lt a b c d) hdom
          obtain ⟨hsolved, hwithin⟩ := solved_of_unify hσ
          have hcod' : (σ.apply b).instantiate θ = (σ.apply d).instantiate θ := by
            rw [hfirst.instantiate_apply, hfirst.instantiate_apply, hcod]
          obtain ⟨τ, hτ, hsecond⟩ := ih _ _ (effort_apply_lt hsolved hwithin) hcod'
          exact ⟨σ.compose τ, by rw [hσ]; simp [bind, Except.bind, hτ, pure, Except.pure],
            hfirst.compose hsecond⟩
        · next a b => exact ih a b (effort_elem_lt a b) (Ty.list.inj h)
        -- types of different shapes stay different under every assignment
        · cases l <;> cases r <;> grind [instantiate]

/-! ### Failure -/

variable {clash : Clash}

/-- The two types of a clash clash themselves: a clash is either reported of
the types that were to be unified, or passed on from parts of them. -/
theorem unify_clash (h : l.unify r = .error clash) :
    clash.left.unify clash.right = .error clash := by
  induction l, r using effort_induction with
  | step l r ih =>
      have hhere := h
      rw [unify_eq] at h
      split at h
      · simp at h
      · split at h
        · split at h
          · obtain rfl := Except.error.inj h
            exact hhere
          · simp at h
        · split at h
          · obtain rfl := Except.error.inj h
            exact hhere
          · simp at h
        · next a b c d _ =>
          cases hσ : a.unify c with
          | error k =>
              obtain rfl : k = clash := by simpa [hσ, bind, Except.bind] using h
              exact ih a c (effort_dom_lt a b c d) hσ
          | ok σ =>
              obtain ⟨hsolved, hwithin⟩ := solved_of_unify hσ
              cases hτ : (σ.apply b).unify (σ.apply d) with
              | error k =>
                  obtain rfl : k = clash := by simpa [hσ, hτ, bind, Except.bind] using h
                  exact ih _ _ (effort_apply_lt hsolved hwithin) hτ
              | ok τ => simp [hσ, hτ, bind, Except.bind, pure, Except.pure] at h
        · next a b _ => exact ih a b (effort_elem_lt a b) h
        · obtain rfl := Except.error.inj h
          exact hhere

theorem instantiate_ne_of_unify (h : l.unify r = .error clash) (θ : Assignment) :
    l.instantiate θ ≠ r.instantiate θ := by
  intro heq
  obtain ⟨σ, hσ, -⟩ := exists_unify_of_instantiate_eq heq
  simp [hσ] at h

/-- If any assignment makes two types equal, they have a unifier, and to
the assignment a type and what the unifier makes of it are the same. If
they have no unifier, then no assignment makes them equal, nor the two
types that are named as the clash. -/
theorem unify_mostGeneral (l r : Ty) :
    (∀ θ : Assignment, l.instantiate θ = r.instantiate θ →
      ∃ σ, l.unify r = .ok σ ∧ ∀ t : Ty, (σ.apply t).instantiate θ = t.instantiate θ) ∧
    ∀ clash, l.unify r = .error clash → ∀ θ : Assignment,
      l.instantiate θ ≠ r.instantiate θ ∧
        clash.left.instantiate θ ≠ clash.right.instantiate θ := by
  refine ⟨fun θ h => ?_, fun clash h θ => ?_⟩
  · obtain ⟨σ, hσ, hsolves⟩ := exists_unify_of_instantiate_eq h
    exact ⟨σ, hσ, hsolves.instantiate_apply⟩
  · exact ⟨instantiate_ne_of_unify h θ, instantiate_ne_of_unify (unify_clash h) θ⟩

/-- Two arrows that share a variable: the first pair is made equal by one
integer assignment, in the second pair the clash appears only after the
first sides have been unified. -/
theorem unify_mostGeneral_arrows :
    ((arrow (var "a") (var "b")).instantiate (fun _ => .int) =
        (arrow (var "b") .int).instantiate (fun _ => .int) ∧
      ∃ σ, (arrow (var "a") (var "b")).unify (arrow (var "b") .int) = .ok σ ∧
        ∀ t : Ty, (σ.apply t).instantiate (fun _ => .int) = t.instantiate fun _ => .int) ∧
    ((arrow (var "a") (arrow .int (var "b"))).unify (arrow .bool (var "a")) =
        .error ⟨arrow .int (var "b"), .bool⟩ ∧
      ∀ θ : Assignment, (arrow (var "a") (arrow .int (var "b"))).instantiate θ ≠
          (arrow .bool (var "a")).instantiate θ ∧
        (arrow .int (var "b")).instantiate θ ≠ bool.instantiate θ) := by
  have clash : (arrow (var "a") (arrow .int (var "b"))).unify (arrow .bool (var "a")) =
      .error ⟨arrow .int (var "b"), .bool⟩ := by cbv
  exact ⟨⟨rfl, (unify_mostGeneral _ _).1 _ rfl⟩, clash, (unify_mostGeneral _ _).2 _ clash⟩

end TypedLambda.Ty
