import Mathlib
import TypedLambda.Proofs.CheckingSoundness
import TypedLambda.Proofs.Judgement
import TypedLambda.Typing.Inference

/-!
Typing settles which variables are bound.

Both ways of typing go through a term part by part and stop at the first
error, so what is said of scopes is said of computations that can fail
(`Scoped`), and put together along the order in which the parts are visited.
What is learned on the way changes the types in a context and leaves its names
alone, and a binder takes its own name out of the free variables of its body.
A term that is only checked may hide an error about a variable; it is refused
with an error about the term, and never accepted.
-/

namespace TypedLambda

variable {α β : Type} {Γ : Context} {xs ys : List Name} {x : Name} {t : Term} {A : Ty}
  {r : Except TypeError α}

/-- What a result says about the scope of the variables `xs`: they are all
bound if it is a success, and if it is an error about a variable without
binding, then the variable is one of them and has none. -/
structure Scoped (Γ : Context) (xs : List Name) (r : Except TypeError α) : Prop where
  bound : ∀ a, r = .ok a → ∀ x ∈ xs, x ∈ Γ.keys
  unbound : ∀ x, r = .error (.unbound x) → x ∈ xs ∧ x ∉ Γ.keys

namespace Scoped

theorem ok (a : α) : Scoped Γ [] (.ok a) where
  bound _ _ := fun _ hx => absurd hx List.not_mem_nil
  unbound _ h := nomatch h

/-- Errors of all other kinds leave scopes open. -/
theorem error {e : TypeError} (he : ∀ x, e ≠ .unbound x) (xs : List Name) :
    Scoped Γ xs (.error e : Except TypeError α) where
  bound _ h := nomatch h
  unbound x h := absurd (Except.error.inj h) (he x)

theorem bind {f : α → Except TypeError β} (h : Scoped Γ xs r)
    (hf : ∀ a, Scoped Γ ys (f a)) : Scoped Γ (xs ++ ys) (r >>= f) where
  bound b hb := by
    obtain ⟨a, ha, hb⟩ := bind_eq_ok.1 hb
    exact List.forall_mem_append.2 ⟨h.bound a ha, (hf a).bound b hb⟩
  unbound x hx := by
    cases r with
    | ok a =>
        obtain ⟨hmem, hkeys⟩ := (hf a).unbound x hx
        exact ⟨List.mem_append_right _ hmem, hkeys⟩
    | error e =>
        have he : (.error e : Except TypeError α) = .error (.unbound x) :=
          congrArg Except.error (Except.error.inj hx)
        obtain ⟨hmem, hkeys⟩ := h.unbound x he
        exact ⟨List.mem_append_left _ hmem, hkeys⟩

theorem bind_nil {f : α → Except TypeError β} (h : Scoped Γ xs r)
    (hf : ∀ a, Scoped Γ [] (f a)) : Scoped Γ xs (r >>= f) := by
  simpa using h.bind hf

theorem of_applyContext {σ : Substitution} (h : Scoped (σ.applyContext Γ) xs r) :
    Scoped Γ xs r := by
  have keys : (σ.applyContext Γ).keys = Γ.keys := OrderedMap.keys_map σ.apply Γ
  exact ⟨keys ▸ h.bound, keys ▸ h.unbound⟩

/-- Outside of a binder its own name is not among the variables. -/
theorem of_insert (h : Scoped (Γ.insert x A) xs r) : Scoped Γ (xs.filter (· != x)) r where
  bound a ha y hy := by
    obtain ⟨hmem, hne⟩ := List.mem_filter.1 hy
    exact (OrderedMap.mem_keys_insert.1 (h.bound a ha y hmem)).resolve_left (by simpa using hne)
  unbound y hy := by
    obtain ⟨hmem, hkeys⟩ := h.unbound y hy
    rw [OrderedMap.mem_keys_insert, not_or] at hkeys
    exact ⟨List.mem_filter.2 ⟨hmem, by simpa using hkeys.1⟩, hkeys.2⟩

theorem lookup (f : Ty → α) (x : Name) :
    Scoped Γ [x] (match Γ.get? x with
      | some A => .ok (f A)
      | none => .error (.unbound x)) := by
  cases hx : Γ.get? x with
  | some A =>
      constructor
      · intro _ _ y hy
        rw [List.mem_singleton.1 hy]
        exact OrderedMap.mem_keys_of_get? hx
      · exact fun _ h => nomatch h
  | none =>
      constructor
      · exact fun _ h => nomatch h
      · intro y hy
        obtain rfl : x = y := by simpa using hy
        exact ⟨List.mem_singleton.2 rfl, OrderedMap.get?_eq_none_iff.1 hx⟩

end Scoped

/-! ### Inference -/

theorem scoped_equate (σ : Substitution) (l r : Ty) : Scoped Γ [] (σ.equate l r) := by
  rw [Substitution.equate, Substitution.equateBy]
  cases l.unify r with
  | ok τ => exact .ok _
  | error clash => exact .error (by simp [TypeError.ofClash]) _

theorem scoped_element (i : Inferred) : Scoped Γ [] i.element :=
  (scoped_equate _ _ _).bind fun _ => .ok _

namespace Term

theorem infer_scoped (Γ : Context) (s : NameSupply) (t : Term) :
    Scoped Γ t.freeVars (t.infer Γ s) := by
  induction t generalizing Γ s with
  | bool | int | string | unit | nil => exact .ok _
  | var x =>
      rw [infer]
      exact .lookup _ x
  | abs x b ih => exact (ih _ _).of_insert.bind_nil fun _ => .ok _
  | wildcard b ih => exact (ih _ _).bind_nil fun _ => .ok _
  | isZero t ih =>
      exact (ih _ _).bind_nil fun _ => (scoped_equate _ _ _).bind fun _ => .ok _
  | ascribe t A ih =>
      exact (ih _ _).bind_nil fun _ => (scoped_equate _ _ _).bind fun _ => .ok _
  | isEmpty l ih => exact (ih _ _).bind_nil fun i => (scoped_element i).bind fun _ => .ok _
  | tail l ih => exact (ih _ _).bind_nil fun i => (scoped_element i).bind fun _ => .ok _
  | head l ih => exact (ih _ _).bind_nil scoped_element
  | app f a ihf iha =>
      exact (ihf _ _).bind fun _ => (iha _ _).of_applyContext.bind_nil fun _ =>
        (scoped_equate _ _ _).bind fun _ => .ok _
  | cons hd tl ihh iht =>
      exact (ihh _ _).bind fun _ => (iht _ _).of_applyContext.bind_nil fun _ =>
        (scoped_equate _ _ _).bind fun _ => .ok _
  | add l r ihl ihr =>
      exact (ihl _ _).bind fun _ => (ihr _ _).of_applyContext.bind_nil fun _ =>
        (scoped_equate _ _ _).bind fun _ => (scoped_equate _ _ _).bind fun _ => .ok _
  | cond c a b ihc iha ihb =>
      rw [freeVars, List.append_assoc]
      exact (ihc _ _).bind fun _ => (scoped_equate _ _ _).bind fun _ =>
        (iha _ _).of_applyContext.bind fun _ => (ihb _ _).of_applyContext.bind_nil fun _ =>
          (scoped_equate _ _ _).bind fun _ => .ok _
  | letIn x e b ihe ihb =>
      exact (ihe _ _).bind fun _ => (ihb _ _).of_insert.of_applyContext.bind_nil fun _ => .ok _

theorem typecheck_scoped (Γ : Context) (t : Term) : Scoped Γ t.freeVars (t.typecheck Γ) :=
  (infer_scoped Γ _ t).bind_nil fun _ => .ok _

/-! ### Typing in two directions -/

theorem check_bound (h : t.check Γ A = true) : ∀ x ∈ t.freeVars, x ∈ Γ.keys :=
  (hasType_of_check h).mem_keys

/-- A term that is checked is accepted only if its variables are bound, and the
error is about the term. -/
theorem require_scoped (Γ : Context) (t : Term) (A : Ty) :
    Scoped Γ t.freeVars (t.require Γ A) := by
  rw [require]
  split
  · next h => exact ⟨fun _ _ => check_bound h, by simp⟩
  · exact .error (by simp) _

theorem element_scoped {l : Term} (h : Scoped Γ l.freeVars (l.synthesize Γ)) :
    Scoped Γ l.freeVars (l.element Γ) := by
  rw [element]
  refine h.bind_nil fun A => ?_
  cases A with
  | list elem => exact .ok _
  | bool | int | unit | string | arrow | var => exact .error (by simp) _

theorem synthesize_scoped (Γ : Context) (t : Term) :
    Scoped Γ t.freeVars (t.synthesize Γ) := by
  induction t generalizing Γ with
  | bool | int | string | unit =>
      rw [synthesize]
      exact .ok _
  | nil | abs | wildcard =>
      rw [synthesize]
      exact .error (by simp) _
  | var x =>
      rw [synthesize]
      exact .lookup id x
  | ascribe t A =>
      rw [synthesize]
      exact (require_scoped Γ t A).bind_nil fun _ => .ok _
  | isZero t =>
      rw [synthesize]
      exact (require_scoped Γ t _).bind_nil fun _ => .ok _
  | add l r =>
      rw [synthesize]
      exact (require_scoped Γ l _).bind fun _ => (require_scoped Γ r _).bind_nil fun _ => .ok _
  | cond c a b _ iha =>
      rw [synthesize, freeVars, List.append_assoc]
      exact (require_scoped Γ c _).bind fun _ => (iha Γ).bind fun _ =>
        (require_scoped Γ b _).bind_nil fun _ => .ok _
  | app f a ihf =>
      rw [synthesize]
      refine (ihf Γ).bind fun A => ?_
      cases A with
      | arrow dom cod => exact (require_scoped Γ a dom).bind_nil fun _ => .ok _
      | bool | int | unit | string | list | var => exact .error (by simp) _
  | cons hd tl ihh =>
      rw [synthesize]
      exact (ihh Γ).bind fun _ => (require_scoped Γ tl _).bind_nil fun _ => .ok _
  | isEmpty l ih =>
      rw [synthesize]
      exact (element_scoped (ih Γ)).bind_nil fun _ => .ok _
  | head l ih =>
      rw [synthesize]
      exact element_scoped (ih Γ)
  | tail l ih =>
      rw [synthesize]
      exact (element_scoped (ih Γ)).bind_nil fun _ => .ok _
  | letIn x e b ihe ihb =>
      rw [synthesize]
      exact (ihe Γ).bind fun _ => (ihb _).of_insert

end Term

/-- Every free variable of a term is bound if the term has a type, in any of the
ways of typing. An error about a variable without binding names a free variable
of the term, and one that is not bound. -/
theorem typing_scoped (Γ : Context) (t : Term) :
    ((∃ A, t.typecheck Γ = .ok A) ∨ (∃ A, t.synthesize Γ = .ok A) ∨ (∃ A, t.check Γ A = true) →
        ∀ x ∈ t.freeVars, x ∈ Γ.keys) ∧
      ∀ x, t.typecheck Γ = .error (.unbound x) ∨ t.synthesize Γ = .error (.unbound x) →
        x ∈ t.freeVars ∧ x ∉ Γ.keys := by
  constructor
  · rintro (⟨A, h⟩ | ⟨A, h⟩ | ⟨A, h⟩)
    · exact (t.typecheck_scoped Γ).bound A h
    · exact (t.synthesize_scoped Γ).bound A h
    · exact Term.check_bound h
  · rintro x (h | h)
    · exact (t.typecheck_scoped Γ).unbound x h
    · exact (t.synthesize_scoped Γ).unbound x h

/-- What a `let` binds is outside of its own scope, and a function may hide a
variable of the context. -/
theorem typing_scoped_letIn :
    let Γ : Context := .ofList [("f", .arrow (.var "a") .int), ("x", .var "a")]
    let t : Term := .letIn "y" (.app (.var "f") (.var "x"))
      (.abs "f" (.add (.var "y") (.var "f")))
    let u : Term := .letIn "z" (.isEmpty (.var "z")) (.var "z")
    (t.typecheck Γ = .ok (.arrow .int .int) ∧ ∀ x ∈ t.freeVars, x ∈ Γ.keys) ∧
      (u.typecheck Γ = .error (.unbound "z") ∧ u.synthesize Γ = .error (.unbound "z")) ∧
      "z" ∈ u.freeVars ∧ "z" ∉ Γ.keys := by
  intro Γ t u
  have typed : t.typecheck Γ = .ok (.arrow .int .int) := by cbv
  have inferred : u.typecheck Γ = .error (.unbound "z") := by cbv
  have synthesized : u.synthesize Γ = .error (.unbound "z") := by cbv
  exact ⟨⟨typed, (typing_scoped Γ t).1 (.inl ⟨_, typed⟩)⟩, ⟨inferred, synthesized⟩,
    (typing_scoped Γ u).2 "z" (.inr synthesized)⟩

end TypedLambda
