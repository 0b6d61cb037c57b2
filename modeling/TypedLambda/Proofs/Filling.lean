import Mathlib.Logic.Function.Basic
import TypedLambda.Proofs.ClosedTerms

/-!
Terms for all free variables at the same time.

`Term.fill` puts a term for every free variable; a variable that is to stay
is filled with itself. Like replacement it renames no binder. Replacing one
more variable afterwards is the same as having filled it from the start, if
that variable is free in none of the other terms put in (`replace_fill`).
-/

namespace TypedLambda

abbrev Filling := Name → Term

/-- Puts the terms for all free variables, without renaming any binder. -/
def Term.fill (γ : Filling) : Term → Term
  | .bool b => .bool b
  | .int n => .int n
  | .string s => .string s
  | .unit => .unit
  | .nil => .nil
  | .var x => γ x
  | .abs x b => .abs x (b.fill (Function.update γ x (.var x)))
  | .wildcard b => .wildcard (b.fill γ)
  | .app f a => .app (f.fill γ) (a.fill γ)
  | .add l r => .add (l.fill γ) (r.fill γ)
  | .ascribe t ty => .ascribe (t.fill γ) ty
  | .cond c a b => .cond (c.fill γ) (a.fill γ) (b.fill γ)
  | .isZero t => .isZero (t.fill γ)
  | .cons hd tl => .cons (hd.fill γ) (tl.fill γ)
  | .isEmpty l => .isEmpty (l.fill γ)
  | .head l => .head (l.fill γ)
  | .tail l => .tail (l.fill γ)
  | .letIn x e b => .letIn x (e.fill γ) (b.fill (Function.update γ x (.var x)))

/-- Every variable is filled with itself or with a closed term. -/
def Filling.Closing (γ : Filling) : Prop := ∀ x, γ x = .var x ∨ (γ x).Closed

namespace Filling

variable {γ : Filling}

theorem closing_var : Closing .var := fun _ => .inl rfl

theorem Closing.update (hγ : γ.Closing) (x : Name) {r : Term} (hr : r = .var x ∨ r.Closed) :
    Closing (Function.update γ x r) := by
  intro y
  by_cases hy : y = x
  · subst hy
    rwa [Function.update_self]
  · rw [Function.update_of_ne hy]
    exact hγ y

/-- No variable but itself is filled with a term in which it is free. -/
theorem Closing.eq_of_mem (hγ : γ.Closing) {x y : Name} (h : x ∈ (γ y).freeVars) : x = y := by
  rcases hγ y with hvar | hclosed
  · rw [hvar] at h
    exact List.mem_singleton.1 h
  · exact absurd h hclosed.not_mem

end Filling

namespace Term

variable {γ : Filling} {t r : Term} {x : Name}

attribute [local simp] fill freeVars replace

@[simp] theorem fill_var (t : Term) : t.fill .var = t := by
  induction t with
  | bool | int | string | unit | nil | var => rfl
  | abs x b ih => rw [fill, Function.update_eq_self, ih]
  | letIn x e b ihe ihb => rw [fill, Function.update_eq_self, ihe, ihb]
  | cond c a b ihc iha ihb => rw [fill, ihc, iha, ihb]
  | app a b iha ihb | add a b iha ihb | cons a b iha ihb => rw [fill, iha, ihb]
  | wildcard t ih | ascribe t _ ih | isZero t ih | isEmpty t ih | head t ih | tail t ih =>
      rw [fill, ih]

/-- The variables that are free in a filled term come from the terms that
have been put in. -/
theorem exists_mem_freeVars_of_fill {y : Name} (h : y ∈ (t.fill γ).freeVars) :
    ∃ x ∈ t.freeVars, y ∈ (γ x).freeVars := by
  -- below a binder the variable of the binder comes from nowhere else
  have under : ∀ {γ : Filling} {x : Name} {b : Term}, y ≠ x →
      (∃ z ∈ b.freeVars, y ∈ (Function.update γ x (.var x) z).freeVars) →
      ∃ z ∈ b.freeVars, z ≠ x ∧ y ∈ (γ z).freeVars := by
    rintro γ x b hy ⟨z, hz, hmem⟩
    have hzx : z ≠ x := by
      rintro rfl
      rw [Function.update_self] at hmem
      exact hy (List.mem_singleton.1 hmem)
    rw [Function.update_of_ne hzx] at hmem
    exact ⟨z, hz, hzx, hmem⟩
  induction t generalizing γ with
  | bool | int | string | unit | nil => simp at h
  | var x => exact ⟨x, List.mem_singleton.2 rfl, h⟩
  | abs x b ih =>
      obtain ⟨hb, hy⟩ := mem_freeVars_abs.1 h
      obtain ⟨z, hz, hzx, hmem⟩ := under hy (ih hb)
      exact ⟨z, mem_freeVars_abs.2 ⟨hz, hzx⟩, hmem⟩
  | letIn x e b ihe ihb =>
      rcases mem_freeVars_letIn.1 h with he | ⟨hb, hy⟩
      · obtain ⟨z, hz, hmem⟩ := ihe he
        exact ⟨z, mem_freeVars_letIn.2 (.inl hz), hmem⟩
      · obtain ⟨z, hz, hzx, hmem⟩ := under hy (ihb hb)
        exact ⟨z, mem_freeVars_letIn.2 (.inr ⟨hz, hzx⟩), hmem⟩
  | cond c a b ihc iha ihb =>
      simp only [fill, freeVars, List.mem_append] at h ⊢
      rcases h with (h | h) | h
      · exact (ihc h).imp fun _ hz => ⟨.inl (.inl hz.1), hz.2⟩
      · exact (iha h).imp fun _ hz => ⟨.inl (.inr hz.1), hz.2⟩
      · exact (ihb h).imp fun _ hz => ⟨.inr hz.1, hz.2⟩
  | app a b iha ihb | add a b iha ihb | cons a b iha ihb =>
      simp only [fill, freeVars, List.mem_append] at h ⊢
      rcases h with h | h
      · exact (iha h).imp fun _ hz => ⟨.inl hz.1, hz.2⟩
      · exact (ihb h).imp fun _ hz => ⟨.inr hz.1, hz.2⟩
  | wildcard t ih | ascribe t _ ih | isZero t ih | isEmpty t ih | head t ih | tail t ih =>
      exact ih h

/-- Filling all variables but one and then replacing that one. -/
theorem replace_fill (hγ : γ.Closing) (x : Name) (r : Term) :
    (t.fill (Function.update γ x (.var x))).replace x r = t.fill (Function.update γ x r) := by
  -- a binder of `x` hides it from both sides, any other binder can be filled first
  induction t generalizing γ with
  | bool | int | string | unit | nil => rfl
  | var y =>
      by_cases hy : y = x
      · subst hy
        simp
      · rw [fill, fill, Function.update_of_ne hy, Function.update_of_ne hy]
        exact replace_of_not_mem (fun hmem => hy (hγ.eq_of_mem hmem).symm) r
  | abs y b ih =>
      rw [fill, fill, replace]
      split
      · next heq =>
        subst heq
        rw [Function.update_idem, Function.update_idem]
      · next hne =>
        rw [Function.update_comm (Ne.symm hne), Function.update_comm (Ne.symm hne),
          ih (hγ.update y (.inl rfl))]
  | letIn y e b ihe ihb =>
      rw [fill, fill, replace, ihe hγ]
      split
      · next heq =>
        subst heq
        rw [Function.update_idem, Function.update_idem]
      · next hne =>
        rw [Function.update_comm (Ne.symm hne), Function.update_comm (Ne.symm hne),
          ihb (hγ.update y (.inl rfl))]
  | cond c a b ihc iha ihb => rw [fill, fill, replace, ihc hγ, iha hγ, ihb hγ]
  | app a b iha ihb | add a b iha ihb | cons a b iha ihb =>
      rw [fill, fill, replace, iha hγ, ihb hγ]
  | wildcard t ih | ascribe t _ ih | isZero t ih | isEmpty t ih | head t ih | tail t ih =>
      rw [fill, fill, replace, ih hγ]

theorem replace_eq_fill (t : Term) (x : Name) (r : Term) :
    t.replace x r = t.fill (Function.update .var x r) := by
  rw [← replace_fill Filling.closing_var, Function.update_eq_self, fill_var]

theorem replace_self (t : Term) (x : Name) : t.replace x (.var x) = t := by
  rw [replace_eq_fill, Function.update_eq_self, fill_var]

end Term

end TypedLambda
