import Mathlib
import TypedLambda.Proofs.ContextAgreement

/-!
A `let` and its body with the bound term in place have the same synthesized
type.

A term with a synthesized type can stand wherever a variable of this type
stands, even where the variable is checked against a type that is given from
outside: such a term is neither a function nor `nil`, so both are compared
with the given type by the type that is synthesized for them. On the way to
the places of the variable the context changes under every binder. What is
synthesized for the bound term stays the same, as long as none of these
binders captures a free variable of it (`StandsFor`).
-/

namespace TypedLambda

open Term

variable {Γ Δ : Context} {t v b : Term} {x y : Name} {A : Ty}

namespace Term

def binders : Term → List Name
  | bool _ | int _ | string _ | unit | nil | var _ => []
  | abs x b => x :: b.binders
  | wildcard t | ascribe t _ | isZero t | isEmpty t | head t | tail t => t.binders
  | app a b | add a b | cons a b => a.binders ++ b.binders
  | cond c a b => c.binders ++ a.binders ++ b.binders
  | letIn x e b => x :: (e.binders ++ b.binders)

theorem readOff_of_synthesize (h : t.synthesize Γ = .ok A) : t.ReadOff := by
  cases t with
  | abs | wildcard | nil => simp [synthesize] at h
  | _ => trivial

theorem synthesize_congr (h : Context.SameOn t.freeVars Γ Δ) : t.synthesize Γ = t.synthesize Δ :=
  (checkedAlike_self h).synthesize.eq

def PutIn (x : Name) (v t u : Term) : Prop := u = t.replace x v ∨ u = t

end Term

/-! ### Terms that stand for a variable -/

/-- In the first context `x` has the type that is synthesized for `v` in the
second one, and the other variables have the same types in both. -/
structure StandsFor (x : Name) (v : Term) (Γ Δ : Context) : Prop where
  synthesized : ∃ A, Γ.get? x = some A ∧ v.synthesize Δ = .ok A
  rest : ∀ y, y ≠ x → Γ.get? y = Δ.get? y

namespace StandsFor

theorem of_insert (hv : v.synthesize Γ = .ok A) : StandsFor x v (Γ.insert x A) Γ where
  synthesized := ⟨A, by simp, hv⟩
  rest _ hy := OrderedMap.get?_insert_of_ne Γ A hy

theorem insert (h : StandsFor x v Γ Δ) (hy : y ≠ x) (hv : y ∉ v.freeVars) (B : Ty) :
    StandsFor x v (Γ.insert y B) (Δ.insert y B) where
  synthesized := by
    obtain ⟨A, hx, hA⟩ := h.synthesized
    refine ⟨A, ?_, ?_⟩
    · rwa [OrderedMap.get?_insert_of_ne _ _ hy.symm]
    · rwa [synthesize_congr (.insert_left hv Δ B)]
  rest z hz := by
    rw [OrderedMap.get?_insert, OrderedMap.get?_insert, h.rest z hz]

/-- Below a binder of `x` there is no place left to stand in. -/
theorem insert_self (h : StandsFor x v Γ Δ) (B : Ty) (xs : List Name) :
    Context.SameOn xs (Γ.insert x B) (Δ.insert x B) := by
  intro z _
  rw [OrderedMap.get?_insert, OrderedMap.get?_insert]
  split
  · rfl
  · next hz => exact h.rest z hz

end StandsFor

namespace Term

theorem checkedAlike_replace (h : StandsFor x v Γ Δ) (hb : ∀ y ∈ b.binders, y ∉ v.freeVars) :
    CheckedAlike (PutIn x v) Γ Δ b (b.replace x v) := by
  induction b generalizing Γ Δ with
  | bool => exact .bool (.inl rfl)
  | int => exact .int (.inl rfl)
  | string => exact .string (.inl rfl)
  | unit => exact .unit (.inl rfl)
  | nil => exact .nil (.inl rfl)
  | var y =>
      by_cases hy : y = x
      · subst hy
        obtain ⟨A, hx, hA⟩ := h.synthesized
        have hreplace : (var y).replace y v = v := by simp [replace]
        rw [hreplace]
        refine .of_synthesize trivial (readOff_of_synthesize hA) (.inl hreplace.symm) ?_
        rw [synthesize, hx, hA]
        exact .ok
      · rw [replace, if_neg hy]
        exact .var (.inr rfl) (h.rest y hy) fun _ => rfl
  | abs y b ih =>
      obtain ⟨hy, hb⟩ := List.forall_mem_cons.1 hb
      rw [replace]
      split
      · next heq =>
        subst heq
        exact .abs (.inr rfl) fun A => (checkedAlike_self (h.insert_self A _)).check
      · next hne =>
        exact .abs (.inl (by rw [replace, if_neg hne])) fun A => (ih (h.insert hne hy A) hb).check
  | letIn y e b ihe ihb =>
      obtain ⟨hy, hparts⟩ := List.forall_mem_cons.1 hb
      obtain ⟨he, hb⟩ := List.forall_mem_append.1 hparts
      rw [replace]
      split
      · next heq =>
        subst heq
        refine .letIn (.inl (by rw [replace, if_pos rfl])) (ihe h he) fun A => ?_
        exact (checkedAlike_self (h.insert_self A _)).mono fun _ _ heq => .inr heq.symm
      · next hne =>
        refine .letIn (.inl (by rw [replace, if_neg hne])) (ihe h he) fun A => ?_
        exact ihb (h.insert hne hy A) hb
  | wildcard _ ih => exact .wildcard (.inl rfl) (ih h hb).check
  | ascribe _ _ ih => exact .ascribe (.inl rfl) (ih h hb)
  | isZero _ ih => exact .isZero (.inl rfl) (ih h hb)
  | isEmpty _ ih => exact .isEmpty (.inl rfl) (ih h hb)
  | head _ ih => exact .head (.inl rfl) (ih h hb)
  | tail _ ih => exact .tail (.inl rfl) (ih h hb)
  | app _ _ iha ihb =>
      obtain ⟨hl, hr⟩ := List.forall_mem_append.1 hb
      exact .app (.inl rfl) (iha h hl) (ihb h hr)
  | add _ _ iha ihb =>
      obtain ⟨hl, hr⟩ := List.forall_mem_append.1 hb
      exact .add (.inl rfl) (iha h hl) (ihb h hr)
  | cons _ _ iha ihb =>
      obtain ⟨hl, hr⟩ := List.forall_mem_append.1 hb
      exact .cons (.inl rfl) (iha h hl) (ihb h hr)
  | cond _ _ _ ihc iha ihb =>
      obtain ⟨hca, hb⟩ := List.forall_mem_append.1 hb
      obtain ⟨hc, ha⟩ := List.forall_mem_append.1 hca
      exact .cond (.inl rfl) (ihc h hc) (iha h ha) (ihb h hb)

/-- A `let` and its body with the bound term in place have the same type, or
errors of the same kind about parts that differ in the place of the variable
only. -/
theorem letIn_synthesize_alike (hv : v.synthesize Γ = .ok A)
    (hb : ∀ y ∈ b.binders, y ∉ v.freeVars) :
    ResultAlike (PutIn x v) ((letIn x v b).synthesize Γ) ((b.replace x v).synthesize Γ) := by
  rw [synthesize, hv]
  exact (checkedAlike_replace (.of_insert hv) hb).synthesize

end Term

/-- A `let` whose bound term has a synthesized type, and its body with the bound
term in place, have the same synthesized types, if no binder in the body
captures a free variable of the bound term. -/
theorem synthesize_letIn_iff (hv : v.synthesize Γ = .ok A)
    (hb : ∀ y ∈ b.binders, y ∉ v.freeVars) (B : Ty) :
    (letIn x v b).synthesize Γ = .ok B ↔ (b.replace x v).synthesize Γ = .ok B :=
  (letIn_synthesize_alike hv hb).eq_ok_iff B

/-- The bound term has a free variable with the name that the `let` binds. It
is put in where a type is synthesized and where one is checked, outside and
inside of other binders. -/
theorem synthesize_letIn_iff_nested :
    let Γ : Context := .ofList [("f", .arrow .int .int), ("x", .int)]
    let v : Term := .app (.var "f") (.var "x")
    let b : Term := .add (.var "x") (.app (.ascribe (.abs "y" (.add (.var "y") (.var "x")))
      (.arrow .int .int)) (.letIn "z" (.var "x") (.var "z")))
    (v.synthesize Γ = .ok .int ∧ ∀ y ∈ b.binders, y ∉ v.freeVars) ∧
      ((letIn "x" v b).synthesize Γ = .ok .int ↔ (b.replace "x" v).synthesize Γ = .ok .int) ∧
      (b.replace "x" v).synthesize Γ = .ok .int := by
  intro Γ v b
  have bound : v.synthesize Γ = .ok .int := by cbv
  have spared : ∀ y ∈ b.binders, y ∉ v.freeVars := by decide
  have whole : (letIn "x" v b).synthesize Γ = .ok .int := by cbv
  have same := synthesize_letIn_iff (x := "x") bound spared .int
  exact ⟨⟨bound, spared⟩, same, same.1 whole⟩

/-- A binder that captures the bound term gives it another type. -/
example :
    let b : Term := .ascribe (.abs "y" (.var "x")) (.arrow .bool .int)
    (letIn "x" (.var "y") b).synthesize (.single "y" .int) = .ok (.arrow .bool .int) ∧
      (b.replace "x" (.var "y")).synthesize (.single "y" .int) ≠ .ok (.arrow .bool .int) := by
  intro b
  constructor
  · cbv
  · cbv
    decide

end TypedLambda
