import TypedLambda.Proofs.AlphaTyping

/-!
Typing depends on a context only through the types of the free variables.

Contexts that agree on the free variables of a term may have further entries
and may have bound their names in another order. A binder hides what they
differ in or keeps it, and what is learned on the way is applied to both. The
entries without a use are seen in one place only: their type variables are
taken from the supply before inference begins. So inference from equal
supplies never tells the contexts apart, and the supplies are equal if the
contexts have the same type variables.
-/

namespace TypedLambda

variable {ρ : List (Name × Name)} {Γ Δ : Context} {xs ys : List Name} {x : Name} {t : Term}

/-! ### Contexts that agree -/

def Context.SameOn (xs : List Name) (Γ Δ : Context) : Prop := ∀ x ∈ xs, Γ.get? x = Δ.get? x

namespace Context.SameOn

theorem left (h : SameOn (xs ++ ys) Γ Δ) : SameOn xs Γ Δ :=
  fun x hx => h x (List.mem_append_left _ hx)

theorem right (h : SameOn (xs ++ ys) Γ Δ) : SameOn ys Γ Δ :=
  fun x hx => h x (List.mem_append_right _ hx)

/-- Below a binder the contexts may have differed in its name. -/
theorem insert (h : SameOn (xs.filter (· != x)) Γ Δ) (A : Ty) :
    SameOn xs (Γ.insert x A) (Δ.insert x A) := by
  intro y hy
  rw [OrderedMap.get?_insert, OrderedMap.get?_insert]
  split
  · rfl
  · next hne => exact h y (List.mem_filter.2 ⟨hy, by simpa using hne⟩)

theorem insert_left (hx : x ∉ xs) (Γ : Context) (A : Ty) : SameOn xs (Γ.insert x A) Γ :=
  fun _ hy => OrderedMap.get?_insert_of_ne Γ A fun heq => hx (heq ▸ hy)

theorem agree (h : SameOn xs Γ Δ) : Agree [] xs Γ Δ := by
  rintro x hx y rfl
  exact ⟨h x hx, fun _ => rfl⟩

end Context.SameOn

/-! ### A term beside itself -/

theorem paired_self (h : ∀ e ∈ ρ, e.1 = e.2) (x : Name) : Paired ρ x x := by
  induction ρ with
  | nil => rfl
  | cons e rest ih =>
      have heq : e.1 = e.2 := h e List.mem_cons_self
      by_cases hx : x = e.1
      · exact .inl ⟨hx, hx.trans heq⟩
      · exact .inr ⟨hx, heq ▸ hx, ih fun d hd => h d (List.mem_cons_of_mem _ hd)⟩

namespace Term

theorem AlphaUnder.refl (h : ∀ e ∈ ρ, e.1 = e.2) (t : Term) : AlphaUnder ρ t t := by
  have bind (x : Name) {ρ : List (Name × Name)} (h : ∀ e ∈ ρ, e.1 = e.2) :
      ∀ e ∈ (x, x) :: ρ, e.1 = e.2 := List.forall_mem_cons.2 ⟨rfl, h⟩
  induction t generalizing ρ with
  | bool => exact .bool
  | int => exact .int
  | string => exact .string
  | unit => exact .unit
  | nil => exact .nil
  | var x => exact .var (paired_self h x)
  | abs x _ ih => exact .abs (ih (bind x h))
  | wildcard _ ih => exact .wildcard (ih h)
  | app _ _ ihf iha => exact .app (ihf h) (iha h)
  | add _ _ ihl ihr => exact .add (ihl h) (ihr h)
  | ascribe _ _ ih => exact .ascribe (ih h)
  | cond _ _ _ ihc iha ihb => exact .cond (ihc h) (iha h) (ihb h)
  | isZero _ ih => exact .isZero (ih h)
  | cons _ _ ihh iht => exact .cons (ihh h) (iht h)
  | isEmpty _ ih => exact .isEmpty (ih h)
  | head _ ih => exact .head (ih h)
  | tail _ ih => exact .tail (ih h)
  | letIn x _ _ ihe ihb => exact .letIn (ihe h) (ihb (bind x h))

/-- From one supply the same is found in both contexts, or inference fails
with the same error: a term is equal to itself up to bound names. -/
theorem inferBy_congr (join : Join) (h : Context.SameOn t.freeVars Γ Δ) (s : NameSupply) :
    t.inferBy join Γ s = t.inferBy join Δ s :=
  (AlphaUnder.refl (fun _ he => absurd he List.not_mem_nil) t).inferBy_eq join h.agree s

theorem checkedAlike_self (h : Context.SameOn t.freeVars Γ Δ) : CheckedAlike Eq Γ Δ t t := by
  induction t generalizing Γ Δ with
  | bool => exact .bool rfl
  | int => exact .int rfl
  | string => exact .string rfl
  | unit => exact .unit rfl
  | nil => exact .nil rfl
  | var x => exact .var rfl (h x (List.mem_singleton.2 rfl)) fun _ => rfl
  | abs _ _ ih => exact .abs rfl fun A => (ih (h.insert A)).check
  | wildcard _ ih => exact .wildcard rfl (ih h).check
  | app _ _ ihf iha => exact .app rfl (ihf h.left) (iha h.right)
  | add _ _ ihl ihr => exact .add rfl (ihl h.left) (ihr h.right)
  | ascribe _ _ ih => exact .ascribe rfl (ih h)
  | cond _ _ _ ihc iha ihb => exact .cond rfl (ihc h.left.left) (iha h.left.right) (ihb h.right)
  | isZero _ ih => exact .isZero rfl (ih h)
  | cons _ _ ihh iht => exact .cons rfl (ihh h.left) (iht h.right)
  | isEmpty _ ih => exact .isEmpty rfl (ih h)
  | head _ ih => exact .head rfl (ih h)
  | tail _ ih => exact .tail rfl (ih h)
  | letIn _ _ _ ihe ihb => exact .letIn rfl (ihe h.left) fun A => ihb (h.right.insert A)

end Term

theorem ResultAlike.eq {α : Type} {r s : Except TypeError α} (h : ResultAlike Eq r s) : r = s := by
  cases h with
  | ok => rfl
  | error he =>
      cases he with
      | mismatch | unbound | notUnifiable => rfl
      | badType h | checkFailed h => rw [h]

/-! ### The supply -/

theorem NameSupply.forTerm_congr (h : ∀ a, a ∈ Γ.tyVars ↔ a ∈ Δ.tyVars) (t : Term) :
    forTerm Γ t = forTerm Δ t := by
  rw [forTerm, forTerm, avoiding_congr h]

/-- Where two contexts have the same types for the free variables of a term,
the term checks against the same types in both, and the same type or the same
error is synthesized for it. If the contexts also have the same type variables,
inference finds the same type, with the same new variables, or fails with the
same error. -/
theorem typing_congr (h : ∀ x ∈ t.freeVars, Γ.get? x = Δ.get? x) :
    (∀ A, t.check Γ A = t.check Δ A) ∧ t.synthesize Γ = t.synthesize Δ ∧
      ((∀ a, a ∈ Γ.tyVars ↔ a ∈ Δ.tyVars) → t.typecheck Γ = t.typecheck Δ) := by
  have same := Term.checkedAlike_self h
  refine ⟨same.check, same.synthesize.eq, fun hvars => ?_⟩
  rw [Term.typecheck, Term.typecheck, Term.infer, Term.infer, NameSupply.forTerm_congr hvars,
    Term.inferBy_congr _ h]

/-- The second context was bound in another order. It has an entry for a name
that the term does not use, and none for the name that a binder hides. -/
theorem typing_congr_reordered :
    let t : Term := .app (.ascribe (.abs "z" (.cons (.app (.var "f") (.var "z")) .nil))
      (.arrow (.var "a") (.list .int))) (.var "y")
    let Γ : Context := .ofList [("f", .arrow (.var "a") .int), ("z", .string), ("y", .var "a")]
    let Δ : Context := .ofList [("y", .var "a"), ("w", .list (.var "a")),
      ("f", .arrow (.var "a") .int)]
    ((∀ x ∈ t.freeVars, Γ.get? x = Δ.get? x) ∧ ∀ a, a ∈ Γ.tyVars ↔ a ∈ Δ.tyVars) ∧
      (∀ A, t.check Γ A = t.check Δ A) ∧ t.synthesize Γ = t.synthesize Δ ∧
      t.typecheck Γ = t.typecheck Δ := by
  intro t Γ Δ
  have same : ∀ x ∈ t.freeVars, Γ.get? x = Δ.get? x := by decide
  have vars : ∀ a, a ∈ Γ.tyVars ↔ a ∈ Δ.tyVars := by
    intro a
    rw [show Γ.tyVars = ["a", "a"] by decide, show Δ.tyVars = ["a", "a", "a"] by decide]
    simp
  obtain ⟨check, synthesize, typecheck⟩ := typing_congr same
  exact ⟨⟨same, vars⟩, check, synthesize, typecheck vars⟩

end TypedLambda
