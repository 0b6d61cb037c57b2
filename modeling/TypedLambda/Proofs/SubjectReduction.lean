import TypedLambda.Proofs.Agreement
import TypedLambda.Proofs.Simulation
import TypedLambda.Proofs.TypeSafety

/-!
The value of a typed program can be typed again.

Evaluation keeps the types of the judgement, but inference asks for more than
a type: it needs a term in which no type variable is ascribed. Evaluation
invents no ascription, it only moves those of the program around or drops
them (`Term.EvaluatesBy.ascribed_subset`), so inference finds a type for the
value. The ascriptions around the value are gone, and the type found may be
more general than the type of the program (`typecheck_value`).
-/

namespace TypedLambda

namespace Term

variable {Q : Ty → Prop} {t r : Term} {x : Name} {A : Ty}

def Ascribes (Q : Ty → Prop) (t : Term) : Prop := ∀ A ∈ t.ascribed, Q A

theorem concrete_iff : t.Concrete ↔ ∀ A ∈ t.ascribed, A.Ground := List.flatMap_eq_nil_iff

theorem ascribes_append {u s : Term} (ht : t.ascribed = u.ascribed ++ s.ascribed) :
    t.Ascribes Q ↔ u.Ascribes Q ∧ s.Ascribes Q := by
  rw [Ascribes, ht, List.forall_mem_append]
  rfl

theorem mem_ascribed_replace (hA : A ∈ (t.replace x r).ascribed) :
    A ∈ t.ascribed ∨ A ∈ r.ascribed := by
  induction t with
  | bool | int | string | unit | nil => exact .inl hA
  | var y =>
      rw [replace] at hA
      split at hA
      · exact .inr hA
      · exact .inl hA
  | abs y b ih =>
      rw [replace] at hA
      split at hA
      · exact .inl hA
      · exact ih hA
  | letIn y e b ihe ihb =>
      rw [replace] at hA
      split at hA <;> simp only [ascribed, List.mem_append] at hA ⊢ <;> grind
  | cond c a b ihc iha ihb =>
      simp only [replace, ascribed, List.mem_append] at hA ⊢
      grind
  | app a b iha ihb | add a b iha ihb | cons a b iha ihb =>
      simp only [replace, ascribed, List.mem_append] at hA ⊢
      grind
  | ascribe t ty ih =>
      simp only [replace, ascribed, List.mem_cons] at hA ⊢
      grind
  | wildcard _ ih | isZero _ ih | isEmpty _ ih | head _ ih | tail _ ih => exact ih hA

theorem Ascribes.replace (ht : t.Ascribes Q) (hr : r.Ascribes Q) :
    (t.replace x r).Ascribes Q :=
  fun A hA => (mem_ascribed_replace hA).elim (ht A) (hr A)

end Term

open Term

variable {Q : Ty → Prop} {t : Term} {v w : Value} {A : Ty}

theorem Value.Alike.ascribes {R : Term → Term → Prop} (hR : ∀ t u, R t u → t.Ascribes Q)
    (h : v.Alike R w) : v.toTerm.Ascribes Q := by
  induction h with
  | bool | int | string | unit | nil => exact fun A hA => absurd hA List.not_mem_nil
  | fn h => exact hR _ _ h
  | wildcard h => exact hR _ _ h
  | cons _ _ ihh iht => exact (ascribes_append rfl).2 ⟨ihh, iht⟩

/-- A property of all ascribed types is kept: every term keeps step with
itself. -/
theorem simulation_ascribes (Q : Ty → Prop) :
    Simulation fun t u => t = u ∧ t.Ascribes Q where
  alike := by
    rintro t _ ⟨rfl, h⟩
    cases t with
    | bool => exact .of_values .bool
    | int => exact .of_values .int
    | string => exact .of_values .string
    | unit => exact .of_values .unit
    | nil => exact .of_values .nil
    | abs x b => exact .of_values (.fn ⟨rfl, h⟩)
    | wildcard b => exact .of_values (.wildcard ⟨rfl, h⟩)
    | var => exact .var
    | ascribe t ty => exact .ascribe ⟨rfl, fun A hA => h A (List.mem_cons_of_mem _ hA)⟩
    | isZero t => exact .isZero ⟨rfl, h⟩
    | isEmpty l => exact .isEmpty ⟨rfl, h⟩
    | head l => exact .head ⟨rfl, h⟩
    | tail l => exact .tail ⟨rfl, h⟩
    | app f a =>
        obtain ⟨hf, ha⟩ := (ascribes_append rfl).1 h
        exact .app ⟨rfl, hf⟩ ⟨rfl, ha⟩
    | add l r =>
        obtain ⟨hl, hr⟩ := (ascribes_append rfl).1 h
        exact .add ⟨rfl, hl⟩ ⟨rfl, hr⟩
    | cons hd tl =>
        obtain ⟨hh, ht⟩ := (ascribes_append rfl).1 h
        exact .cons ⟨rfl, hh⟩ ⟨rfl, ht⟩
    | cond c a b =>
        obtain ⟨hca, hb⟩ := (ascribes_append (u := .app c a) rfl).1 h
        obtain ⟨hc, ha⟩ := (ascribes_append rfl).1 hca
        exact .cond ⟨rfl, hc⟩ ⟨rfl, ha⟩ ⟨rfl, hb⟩
    | letIn x e b =>
        obtain ⟨he, hb⟩ := (ascribes_append rfl).1 h
        exact .letIn ⟨rfl, hb.replace he⟩
  abs := by
    rintro x _ b _ v w ⟨⟨⟩, h⟩ hvw
    have same : v = w := (hvw.mono fun _ _ h => h.1).eq
    exact ⟨by rw [same], Ascribes.replace (t := b) h (hvw.ascribes fun _ _ h => h.2)⟩
  wildcard := by
    rintro b _ ⟨⟨⟩, h⟩
    exact ⟨rfl, h⟩

/-- Evaluation invents no ascription. -/
theorem Term.EvaluatesBy.ascribed_subset (ht : t.Evaluates (.ok v)) :
    v.toTerm.ascribed ⊆ t.ascribed := by
  have own : t.Ascribes (· ∈ t.ascribed) := fun _ hA => hA
  obtain ⟨w, -, hvw⟩ := (simulation_ascribes _).exists_value ⟨rfl, own⟩ ht
  exact hvw.ascribes fun _ _ h => h.2

theorem Term.EvaluatesBy.concrete (ht : t.Evaluates (.ok v)) (hc : t.Concrete) :
    v.toTerm.Concrete := by
  rw [concrete_iff] at hc ⊢
  exact fun A hA => hc A (ht.ascribed_subset hA)

theorem HasType.value (h : HasType .empty t A) (ht : t.Evaluates (.ok v)) :
    HasType .empty v.toTerm A :=
  ht.meets (evaluate_safe h)

/-- Whichever discipline has found the type of a program, inference finds a
type for its value, and the type of the program is an instance of it. -/
theorem typecheck_value {d : Discipline} (hc : t.Concrete) (h : d.typeOf .empty t = .ok A)
    (ht : t.Evaluates (.ok v)) :
    ∃ B, v.toTerm.typecheck .empty = .ok B ∧ ∃ φ : Assignment, A = B.instantiate φ := by
  have typed : HasType .empty v.toTerm A := (hasType_of_typeOf (fun _ => hc) h).value ht
  obtain ⟨B, found, -, more_general⟩ := typed.exists_typecheck (by decide) (ht.concrete hc)
  exact ⟨B, found, more_general⟩

/-- The function that a `let` returns has lost its ascription, and it takes
arguments of every type. -/
theorem typecheck_value_let :
    let program : Term := .letIn "f" (.ascribe (.abs "x" (.cons (.var "x") .nil))
      (.arrow .int (.list .int))) (.cond (.isZero (.int 0)) (.var "f") (.abs "y" .nil))
    let value : Value := .fn "x" (.cons (.var "x") .nil)
    (program.Concrete ∧ program.Evaluates (.ok value)) ∧
      Discipline.unification.typeOf .empty program = .ok (.arrow .int (.list .int)) ∧
      ∃ B, value.toTerm.typecheck .empty = .ok B ∧
        ∃ φ : Assignment, .arrow .int (.list .int) = B.instantiate φ := by
  intro program value
  have concrete : program.Concrete := by decide
  have found : Discipline.unification.typeOf .empty program = .ok (.arrow .int (.list .int)) := by
    cbv
  have run : program.Evaluates (.ok value) := ⟨4, rfl⟩
  exact ⟨⟨concrete, run⟩, found, typecheck_value concrete found run⟩

end TypedLambda
