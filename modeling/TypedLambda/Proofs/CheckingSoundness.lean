import TypedLambda.Typing.Checking
import TypedLambda.Proofs.Judgement

/-!
Typing in two directions is sound: a term that checks against a type has
this type, and a synthesized type is a type of the term. The two facts are
proved together, along the recursion of the two functions.
-/

namespace TypedLambda.Term

variable {Γ : Context} {t l f a : Term} {A B : Ty}

theorem require_eq_ok {u : Unit} : t.require Γ A = .ok u ↔ t.check Γ A = true := by
  rw [require]
  cases t.check Γ A <;> simp

theorem element_eq_ok : l.element Γ = .ok A ↔ l.synthesize Γ = .ok (.list A) := by
  rw [element]
  cases h : l.synthesize Γ with
  | error e => simp [bind, Except.bind]
  | ok B => cases B <;> simp [bind, Except.bind, pure, Except.pure, throw, throwThe,
      MonadExceptOf.throw]

theorem synthesize_var_eq_ok {x : Name} :
    (var x).synthesize Γ = .ok A ↔ Γ.get? x = some A := by
  rw [synthesize]
  cases Γ.get? x <;> simp

theorem synthesize_app_eq_ok :
    (app f a).synthesize Γ = .ok B ↔
      ∃ A, f.synthesize Γ = .ok (.arrow A B) ∧ a.check Γ A = true := by
  simp only [synthesize, bind_eq_ok]
  constructor
  · rintro ⟨C, hf, h⟩
    split at h
    · next dom cod =>
      simp only [bind_eq_ok, require_eq_ok, pure_eq_ok] at h
      obtain ⟨-, ha, rfl⟩ := h
      exact ⟨dom, hf, ha⟩
    · simp [throw, throwThe, MonadExceptOf.throw] at h
  · rintro ⟨A, hf, ha⟩
    refine ⟨_, hf, ?_⟩
    simp only [bind_eq_ok, require_eq_ok, pure_eq_ok]
    exact ⟨(), ha, trivial⟩

/-- How a term can check against a type: as a function against an arrow, as
`nil` against a list, or because its type is synthesized. -/
theorem check_cases (h : t.check Γ A = true) :
    (∃ x b B C, t = .abs x b ∧ A = .arrow B C ∧ b.check (Γ.insert x B) C = true) ∨
      (∃ b B C, t = .wildcard b ∧ A = .arrow B C ∧ b.check Γ C = true) ∨
      (∃ B, t = .nil ∧ A = .list B) ∨ t.synthesize Γ = .ok A := by
  rw [check.eq_def] at h
  split at h
  · exact .inl ⟨_, _, _, _, rfl, rfl, h⟩
  · exact .inr (.inl ⟨_, _, _, rfl, rfl, h⟩)
  · simp at h
  · simp at h
  · exact .inr (.inr (.inl ⟨_, rfl, rfl⟩))
  · refine .inr (.inr (.inr ?_))
    split at h
    · next found hfound =>
      obtain rfl : found = A := by simpa using h
      exact hfound
    · simp at h

mutual

theorem hasType_of_check {Γ : Context} {t : Term} {A : Ty} (h : t.check Γ A = true) :
    HasType Γ t A := by
  rcases check_cases h with ⟨x, b, B, C, rfl, rfl, hb⟩ | ⟨b, B, C, rfl, rfl, hb⟩ |
    ⟨B, rfl, rfl⟩ | hs
  · exact .abs (hasType_of_check hb)
  · exact .wildcard (hasType_of_check hb)
  · exact .nil
  · exact hasType_of_synthesize hs
termination_by (sizeOf t, 1)

theorem hasType_of_synthesize {Γ : Context} {t : Term} {A : Ty}
    (h : t.synthesize Γ = .ok A) : HasType Γ t A := by
  cases t with
  | bool b =>
      obtain rfl : Ty.bool = A := by simpa [synthesize] using h
      exact .bool
  | int n =>
      obtain rfl : Ty.int = A := by simpa [synthesize] using h
      exact .int
  | string s =>
      obtain rfl : Ty.string = A := by simpa [synthesize] using h
      exact .string
  | unit =>
      obtain rfl : Ty.unit = A := by simpa [synthesize] using h
      exact .unit
  | nil => simp [synthesize] at h
  | abs x b => simp [synthesize] at h
  | wildcard b => simp [synthesize] at h
  | var x => exact .var (synthesize_var_eq_ok.1 h)
  | ascribe t ty =>
      simp only [synthesize, bind_eq_ok, require_eq_ok, pure_eq_ok] at h
      obtain ⟨-, ht, rfl⟩ := h
      exact .ascribe (hasType_of_check ht)
  | add l r =>
      simp only [synthesize, bind_eq_ok, require_eq_ok, pure_eq_ok] at h
      obtain ⟨-, hl, -, hr, rfl⟩ := h
      exact .add (hasType_of_check hl) (hasType_of_check hr)
  | isZero t =>
      simp only [synthesize, bind_eq_ok, require_eq_ok, pure_eq_ok] at h
      obtain ⟨-, ht, rfl⟩ := h
      exact .isZero (hasType_of_check ht)
  | cond c a b =>
      simp only [synthesize, bind_eq_ok, require_eq_ok, pure_eq_ok] at h
      obtain ⟨-, hc, ty, ha, -, hb, rfl⟩ := h
      exact .cond (hasType_of_check hc) (hasType_of_synthesize ha) (hasType_of_check hb)
  | app f a =>
      obtain ⟨dom, hf, ha⟩ := synthesize_app_eq_ok.1 h
      exact .app (hasType_of_synthesize hf) (hasType_of_check ha)
  | cons hd tl =>
      simp only [synthesize, bind_eq_ok, require_eq_ok, pure_eq_ok] at h
      obtain ⟨elem, hh, -, ht, rfl⟩ := h
      exact .cons (hasType_of_synthesize hh) (hasType_of_check ht)
  | isEmpty l =>
      simp only [synthesize, bind_eq_ok, element_eq_ok, pure_eq_ok] at h
      obtain ⟨elem, hl, rfl⟩ := h
      exact .isEmpty (hasType_of_synthesize hl)
  | head l =>
      rw [synthesize, element_eq_ok] at h
      exact .head (hasType_of_synthesize h)
  | tail l =>
      simp only [synthesize, bind_eq_ok, element_eq_ok, pure_eq_ok] at h
      obtain ⟨elem, hl, rfl⟩ := h
      exact .tail (hasType_of_synthesize hl)
  | letIn x e b =>
      simp only [synthesize, bind_eq_ok] at h
      obtain ⟨ty, he, hb⟩ := h
      exact .letIn (hasType_of_synthesize he) (hasType_of_synthesize hb)
termination_by (sizeOf t, 0)

end

end TypedLambda.Term
