import TypedLambda.Term.Basic
import TypedLambda.Ty.Substitution

/-!
The typing judgement, which says without an algorithm what types a term has,
and the operations on terms.

There is one rule for each form of term. Types are simple: what a `let` binds
has one type in the whole body, the parameter of a function and the elements
of `nil` may have any type, and an ascription gives the ascribed type and no
other.

A typing is kept in any context that gives the same types to the variables
bound before, and it is kept when a closed term of the right type is put
for a variable. The replacement captures nothing then, because a term that
has a type in the empty context has no free variable. The types of values
are read off their shape.
-/

namespace TypedLambda

inductive HasType : Context → Term → Ty → Prop
  | bool {Γ : Context} {b : Bool} : HasType Γ (.bool b) .bool
  | int {Γ : Context} {n : Int} : HasType Γ (.int n) .int
  | string {Γ : Context} {s : String} : HasType Γ (.string s) .string
  | unit {Γ : Context} : HasType Γ .unit .unit
  | var {Γ : Context} {x : Name} {A : Ty} : Γ.get? x = some A → HasType Γ (.var x) A
  | abs {Γ : Context} {x : Name} {b : Term} {A B : Ty} :
      HasType (Γ.insert x A) b B → HasType Γ (.abs x b) (.arrow A B)
  | wildcard {Γ : Context} {b : Term} {A B : Ty} :
      HasType Γ b B → HasType Γ (.wildcard b) (.arrow A B)
  | app {Γ : Context} {f a : Term} {A B : Ty} :
      HasType Γ f (.arrow A B) → HasType Γ a A → HasType Γ (.app f a) B
  | add {Γ : Context} {l r : Term} :
      HasType Γ l .int → HasType Γ r .int → HasType Γ (.add l r) .int
  | ascribe {Γ : Context} {t : Term} {A : Ty} : HasType Γ t A → HasType Γ (.ascribe t A) A
  | cond {Γ : Context} {c a b : Term} {A : Ty} :
      HasType Γ c .bool → HasType Γ a A → HasType Γ b A → HasType Γ (.cond c a b) A
  | isZero {Γ : Context} {t : Term} : HasType Γ t .int → HasType Γ (.isZero t) .bool
  | nil {Γ : Context} {A : Ty} : HasType Γ .nil (.list A)
  | cons {Γ : Context} {h t : Term} {A : Ty} :
      HasType Γ h A → HasType Γ t (.list A) → HasType Γ (.cons h t) (.list A)
  | isEmpty {Γ : Context} {l : Term} {A : Ty} :
      HasType Γ l (.list A) → HasType Γ (.isEmpty l) .bool
  | head {Γ : Context} {l : Term} {A : Ty} : HasType Γ l (.list A) → HasType Γ (.head l) A
  | tail {Γ : Context} {l : Term} {A : Ty} :
      HasType Γ l (.list A) → HasType Γ (.tail l) (.list A)
  | letIn {Γ : Context} {x : Name} {e b : Term} {A B : Ty} :
      HasType Γ e A → HasType (Γ.insert x A) b B → HasType Γ (.letIn x e b) B

variable {Γ Δ : Context} {t r : Term} {A B : Ty} {v : Value}

namespace Context

def Included (Γ Δ : Context) : Prop := ∀ x A, Γ.get? x = some A → Δ.get? x = some A

theorem Included.insert (h : Γ.Included Δ) (x : Name) (A : Ty) :
    Included (Γ.insert x A) (Δ.insert x A) := by
  intro y B hy
  rw [OrderedMap.get?_insert] at hy ⊢
  split at hy
  · next heq => rw [if_pos heq, hy]
  · next hne => rw [if_neg hne, h y B hy]

theorem empty_included (Γ : Context) : Included .empty Γ := by
  intro x A h
  simp at h

end Context

namespace HasType

theorem mono (h : HasType Γ t A) (hΔ : Γ.Included Δ) : HasType Δ t A := by
  induction h generalizing Δ with
  | bool => exact .bool
  | int => exact .int
  | string => exact .string
  | unit => exact .unit
  | nil => exact .nil
  | var hx => exact .var (hΔ _ _ hx)
  | abs _ ih => exact .abs (ih (hΔ.insert _ _))
  | wildcard _ ih => exact .wildcard (ih hΔ)
  | app _ _ ihf iha => exact .app (ihf hΔ) (iha hΔ)
  | add _ _ ihl ihr => exact .add (ihl hΔ) (ihr hΔ)
  | ascribe _ ih => exact .ascribe (ih hΔ)
  | cond _ _ _ ihc iha ihb => exact .cond (ihc hΔ) (iha hΔ) (ihb hΔ)
  | isZero _ ih => exact .isZero (ih hΔ)
  | cons _ _ ihh iht => exact .cons (ihh hΔ) (iht hΔ)
  | isEmpty _ ih => exact .isEmpty (ih hΔ)
  | head _ ih => exact .head (ih hΔ)
  | tail _ ih => exact .tail (ih hΔ)
  | letIn _ _ ihe ihb => exact .letIn (ihe hΔ) (ihb (hΔ.insert _ _))

theorem mem_keys (h : HasType Γ t A) : ∀ x ∈ t.freeVars, x ∈ Γ.keys := by
  induction h with
  | bool | int | string | unit | nil => simp [Term.freeVars]
  | var hx =>
      intro y hy
      obtain rfl := List.mem_singleton.1 hy
      exact OrderedMap.mem_keys_of_get? hx
  | abs _ ih =>
      intro y hy
      obtain ⟨hb, hne⟩ := List.mem_filter.1 hy
      exact (OrderedMap.mem_keys_insert.1 (ih y hb)).resolve_left (by simpa using hne)
  | wildcard _ ih | ascribe _ ih | isZero _ ih | isEmpty _ ih | head _ ih | tail _ ih =>
      exact ih
  | app _ _ iha ihb | add _ _ iha ihb | cons _ _ iha ihb =>
      intro y hy
      exact (List.mem_append.1 hy).elim (iha y) (ihb y)
  | cond _ _ _ ihc iha ihb =>
      intro y hy
      rcases List.mem_append.1 hy with hca | hb
      · exact (List.mem_append.1 hca).elim (ihc y) (iha y)
      · exact ihb y hb
  | letIn _ _ ihe ihb =>
      intro y hy
      rcases List.mem_append.1 hy with he | hb
      · exact ihe y he
      · obtain ⟨hb, hne⟩ := List.mem_filter.1 hb
        exact (OrderedMap.mem_keys_insert.1 (ihb y hb)).resolve_left (by simpa using hne)

theorem weaken (h : HasType .empty t A) (Γ : Context) : HasType Γ t A :=
  h.mono (Context.empty_included Γ)

end HasType

/-! ### Replacement -/

/-- The closed term `r` takes the place of the variable `x` of `Γ`, and
`Δ` binds the other variables. -/
structure Discharges (x : Name) (r : Term) (Γ Δ : Context) : Prop where
  typed : ∀ A, Γ.get? x = some A → HasType .empty r A
  rest : ∀ y A, y ≠ x → Γ.get? y = some A → Δ.get? y = some A

namespace Discharges

variable {x y : Name}

theorem of_insert (hr : HasType .empty r A) : Discharges x r (Γ.insert x A) Γ where
  typed B hB := by
    obtain rfl : A = B := by simpa using hB
    exact hr
  rest y B hy hB := by rwa [OrderedMap.get?_insert_of_ne _ _ hy] at hB

theorem insert (h : Discharges x r Γ Δ) (hy : y ≠ x) (A : Ty) :
    Discharges x r (Γ.insert y A) (Δ.insert y A) where
  typed B hB := by
    rw [OrderedMap.get?_insert_of_ne _ _ hy.symm] at hB
    exact h.typed B hB
  rest z B hz hB := by
    rw [OrderedMap.get?_insert] at hB ⊢
    split at hB
    · next heq => rw [if_pos heq, hB]
    · next hne => rw [if_neg hne, h.rest z B hz hB]

/-- Below a binder of `x` there is nothing left to replace. -/
theorem insert_self (h : Discharges x r Γ Δ) (A : Ty) :
    Context.Included (Γ.insert x A) (Δ.insert x A) := by
  intro z B hB
  rw [OrderedMap.get?_insert] at hB ⊢
  split at hB
  · next heq => rw [if_pos heq, hB]
  · next hne => rw [if_neg hne, h.rest z B hne hB]

end Discharges

namespace HasType

theorem replace_of_discharges {x : Name} (h : HasType Γ t B) (hΔ : Discharges x r Γ Δ) :
    HasType Δ (t.replace x r) B := by
  induction h generalizing Δ with
  | bool => exact .bool
  | int => exact .int
  | string => exact .string
  | unit => exact .unit
  | nil => exact .nil
  | @var Γ y A hy =>
      rw [Term.replace]
      split
      · next heq => exact (hΔ.typed A (heq ▸ hy)).weaken Δ
      · next hne => exact .var (hΔ.rest y A hne hy)
  | @abs Γ y b A B hb ih =>
      rw [Term.replace]
      split
      · next heq =>
        subst heq
        exact .abs (hb.mono (hΔ.insert_self A))
      · next hne => exact .abs (ih (hΔ.insert hne A))
  | wildcard _ ih => exact .wildcard (ih hΔ)
  | app _ _ ihf iha => exact .app (ihf hΔ) (iha hΔ)
  | add _ _ ihl ihr => exact .add (ihl hΔ) (ihr hΔ)
  | ascribe _ ih => exact .ascribe (ih hΔ)
  | cond _ _ _ ihc iha ihb => exact .cond (ihc hΔ) (iha hΔ) (ihb hΔ)
  | isZero _ ih => exact .isZero (ih hΔ)
  | cons _ _ ihh iht => exact .cons (ihh hΔ) (iht hΔ)
  | isEmpty _ ih => exact .isEmpty (ih hΔ)
  | head _ ih => exact .head (ih hΔ)
  | tail _ ih => exact .tail (ih hΔ)
  | @letIn Γ y e b A B _ hb ihe ihb =>
      rw [Term.replace]
      refine .letIn (ihe hΔ) ?_
      split
      · next heq =>
        subst heq
        exact hb.mono (hΔ.insert_self A)
      · next hne => exact ihb (hΔ.insert hne A)

theorem replace {x : Name} (h : HasType (Γ.insert x A) t B) (hr : HasType .empty r A) :
    HasType Γ (t.replace x r) B :=
  h.replace_of_discharges (.of_insert hr)

/-! ### Types of values -/

theorem exists_bool (h : HasType .empty v.toTerm .bool) : ∃ b, v = .bool b := by
  cases v <;> cases h
  exact ⟨_, rfl⟩

theorem exists_int (h : HasType .empty v.toTerm .int) : ∃ n, v = .int n := by
  cases v <;> cases h
  exact ⟨_, rfl⟩

theorem nil_or_cons (h : HasType .empty v.toTerm (.list A)) :
    v = .nil ∨ ∃ hd tl, v = .cons hd tl ∧ HasType .empty hd.toTerm A ∧
      HasType .empty tl.toTerm (.list A) := by
  cases v <;> cases h
  · exact .inl rfl
  · next hh ht => exact .inr ⟨_, _, rfl, hh, ht⟩

theorem fn_or_wildcard (h : HasType .empty v.toTerm (.arrow A B)) :
    (∃ x b, v = .fn x b ∧ HasType (.insert .empty x A) b B) ∨
      ∃ b, v = .wildcard b ∧ HasType .empty b B := by
  cases v <;> cases h
  · next hb => exact .inl ⟨_, _, rfl, hb⟩
  · next hb => exact .inr ⟨_, rfl, hb⟩

end HasType

end TypedLambda
