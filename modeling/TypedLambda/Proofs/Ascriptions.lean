import TypedLambda.Proofs.Assignment
import TypedLambda.Term.Basic

/-!
Terms with an assignment put into their ascriptions.

Type variables may be written in ascriptions. Parts of a term are apart if
no type variable is written in both, and in a separate term this is so
wherever parts stand side by side. A variable may then still be written
more than once, but only in ascriptions one of which encloses the other.
-/

namespace TypedLambda

namespace Term

variable {t u v a b c : Term} {θ : Assignment}

def instantiate (θ : Assignment) (t : Term) : Term := t.mapAscribed (Ty.instantiate θ)

theorem ascribed_mapAscribed (f : Ty → Ty) (t : Term) :
    (t.mapAscribed f).ascribed = t.ascribed.map f := by
  induction t with
  | bool | int | string | unit | nil | var => rfl
  | abs _ _ ih | wildcard _ ih | isZero _ ih | isEmpty _ ih | head _ ih | tail _ ih => exact ih
  | ascribe _ _ ih => rw [mapAscribed, ascribed, ascribed, ih, List.map_cons]
  | app _ _ iha ihb | add _ _ iha ihb | cons _ _ iha ihb | letIn _ _ _ iha ihb =>
      rw [mapAscribed, ascribed, ascribed, iha, ihb, List.map_append]
  | cond _ _ _ ihc iha ihb =>
      rw [mapAscribed, ascribed, ascribed, ihc, iha, ihb, List.map_append, List.map_append]

theorem mapAscribed_of_fixed {f : Ty → Ty} (h : ∀ ty ∈ t.ascribed, f ty = ty) :
    t.mapAscribed f = t := by
  induction t with
  | bool | int | string | unit | nil | var => rfl
  | abs _ _ ih | wildcard _ ih | isZero _ ih | isEmpty _ ih | head _ ih | tail _ ih =>
      rw [mapAscribed, ih h]
  | ascribe _ ty ih =>
      rw [mapAscribed, ih fun ty hty => h ty (List.mem_cons_of_mem _ hty),
        h ty List.mem_cons_self]
  | app _ _ iha ihb | add _ _ iha ihb | cons _ _ iha ihb | letIn _ _ _ iha ihb =>
      rw [mapAscribed, iha fun ty hty => h ty (List.mem_append_left _ hty),
        ihb fun ty hty => h ty (List.mem_append_right _ hty)]
  | cond _ _ _ ihc iha ihb =>
      simp only [ascribed, List.mem_append] at h
      rw [mapAscribed, ihc fun ty hty => h ty (.inl (.inl hty)),
        iha fun ty hty => h ty (.inl (.inr hty)), ihb fun ty hty => h ty (.inr hty)]

theorem Concrete.instantiate (h : t.Concrete) (θ : Assignment) : t.instantiate θ = t :=
  mapAscribed_of_fixed fun ty hty =>
    Ty.instantiate_of_ground (List.flatMap_eq_nil_iff.1 h ty hty) θ

theorem concrete_instantiate (h : ∀ x, (θ x).Ground) (t : Term) :
    (t.instantiate θ).Concrete := by
  refine List.flatMap_eq_nil_iff.2 fun ty hty => ?_
  rw [instantiate, ascribed_mapAscribed] at hty
  obtain ⟨ty, -, rfl⟩ := List.mem_map.1 hty
  exact Ty.ground_instantiate h ty

/-! ### Terms whose parts share no type variable -/

def Apart (t u : Term) : Prop := ∀ x ∈ t.ascribedVars, x ∉ u.ascribedVars

instance (t u : Term) : Decidable (t.Apart u) := inferInstanceAs (Decidable (∀ x ∈ _, _))

theorem apart_app : (app t u).Apart v ↔ t.Apart v ∧ u.Apart v := by
  simp [Apart, ascribedVars, ascribed, or_imp, forall_and]

/-- Parts that stand side by side share no type variable. -/
def Separate : Term → Prop
  | bool _ | int _ | string _ | unit | nil | var _ => True
  | abs _ t | wildcard t | ascribe t _ | isZero t | isEmpty t | head t | tail t => t.Separate
  | app a b | add a b | cons a b | letIn _ a b => a.Separate ∧ b.Separate ∧ a.Apart b
  | cond c a b =>
      c.Separate ∧ a.Separate ∧ b.Separate ∧ c.Apart a ∧ c.Apart b ∧ a.Apart b

instance decidableSeparate : (t : Term) → Decidable t.Separate
  | bool _ | int _ | string _ | unit | nil | var _ => inferInstanceAs (Decidable True)
  | abs _ t | wildcard t | ascribe t _ | isZero t | isEmpty t | head t | tail t =>
      decidableSeparate t
  | app a b | add a b | cons a b | letIn _ a b =>
      have := decidableSeparate a
      have := decidableSeparate b
      inferInstanceAs (Decidable (_ ∧ _ ∧ _))
  | cond c a b =>
      have := decidableSeparate c
      have := decidableSeparate a
      have := decidableSeparate b
      inferInstanceAs (Decidable (_ ∧ _ ∧ _ ∧ _ ∧ _ ∧ _))

/-- The two parts of a term that collects its ascriptions from both. -/
theorem Concrete.pair (h : t.Concrete) (hv : t.ascribed = u.ascribed ++ v.ascribed) :
    u.Concrete ∧ v.Concrete := by
  simpa [Concrete, ascribedVars, hv] using h

theorem Concrete.append (hu : u.Concrete) (hv : v.Concrete)
    (ht : t.ascribed = u.ascribed ++ v.ascribed) : t.Concrete := by
  rw [Concrete, ascribedVars, ht, List.flatMap_append]
  exact List.append_eq_nil_iff.2 ⟨hu, hv⟩

theorem Concrete.not_mem (h : t.Concrete) (x : Name) : x ∉ t.ascribedVars := by
  rw [show t.ascribedVars = [] from h]
  exact List.not_mem_nil

theorem Concrete.apart (h : t.Concrete) (u : Term) : t.Apart u :=
  fun x hx => absurd hx (h.not_mem x)

theorem Concrete.separate (h : t.Concrete) : t.Separate := by
  induction t with
  | bool | int | string | unit | nil | var => trivial
  | abs _ _ ih | wildcard _ ih | isZero _ ih | isEmpty _ ih | head _ ih | tail _ ih => exact ih h
  | ascribe _ _ ih => exact ih (List.append_eq_nil_iff.1 h).2
  | app _ _ iha ihb | add _ _ iha ihb | cons _ _ iha ihb | letIn _ _ _ iha ihb =>
      obtain ⟨ha, hb⟩ := h.pair rfl
      exact ⟨iha ha, ihb hb, ha.apart _⟩
  | cond c a b ihc iha ihb =>
      obtain ⟨hca, hb⟩ := h.pair (u := .app c a) rfl
      obtain ⟨hc, ha⟩ := hca.pair rfl
      exact ⟨ihc hc, iha ha, ihb hb, hc.apart _, hc.apart _, ha.apart _⟩

end Term

end TypedLambda
