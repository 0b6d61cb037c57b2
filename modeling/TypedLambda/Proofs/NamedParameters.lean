import TypedLambda.Proofs.ContextAgreement
import TypedLambda.Proofs.DrawnNames
import TypedLambda.Term.Translation
import TypedLambda.Term.Binders

/-!
A function that ignores its argument is a function of a name that it does not
use.

The two forms have rules of their own everywhere: in replacement, in
evaluation and in both directions of typing. Under a name that stands nowhere
in the program the rules come to the same. Replacement never reaches the new
parameter, since it only ever looks for names of the program. An application
puts its argument for a variable that is nowhere. And a context with one more
entry types the body as the context without it does; inference draws a
variable for the parameter in both forms, and it never learns anything about
that variable, because it stands in that entry alone.
-/

namespace TypedLambda

variable {x y z : Name} {t u b r : Term} {v w : Value} {Γ : Context} {s : NameSupply}
  {i : Inferred} {o p : Outcome EvalError Value}

/-! ### Names in a term -/

namespace Term

theorem mem_names_replace (h : y ∈ (t.replace z r).names) : y ∈ t.names ∨ y ∈ r.names := by
  induction t with
  | bool | int | string | unit | nil => exact .inl h
  | var w =>
      rw [replace] at h
      split at h
      · exact .inr h
      · exact .inl h
  | abs w b ih =>
      rw [replace] at h
      split at h
      · exact .inl h
      · simp only [names, List.mem_cons] at h ⊢
        grind
  | letIn w e b ihe ihb =>
      rw [replace] at h
      split at h <;> simp only [names, List.mem_cons, List.mem_append] at h ⊢ <;> grind
  | cond c a b ihc iha ihb =>
      simp only [replace, names, List.mem_append] at h ⊢
      grind
  | app a b iha ihb | add a b iha ihb | cons a b iha ihb =>
      simp only [replace, names, List.mem_append] at h ⊢
      grind
  | wildcard _ ih | ascribe _ _ ih | isZero _ ih | isEmpty _ ih | head _ ih | tail _ ih =>
      exact ih h

theorem not_mem_names_replace (ht : x ∉ t.names) (hr : x ∉ r.names) :
    x ∉ (t.replace z r).names :=
  fun h => (mem_names_replace h).elim ht hr

/-- Naming parameters goes through a replacement that does not look for the
new parameter. -/
theorem nameParameters_replace (hz : z ≠ x) (t r : Term) :
    (t.replace z r).nameParameters x = (t.nameParameters x).replace z (r.nameParameters x) := by
  induction t with
  | bool | int | string | unit | nil => rfl
  | var w => by_cases hw : w = z <;> simp [replace, nameParameters, hw]
  | abs w b ih => by_cases hw : w = z <;> simp [replace, nameParameters, hw, ih]
  | wildcard b ih => simp only [replace, nameParameters, if_neg (Ne.symm hz), ih]
  | letIn w e b ihe ihb => by_cases hw : w = z <;> simp [replace, nameParameters, hw, ihe, ihb]
  | cond c a b ihc iha ihb => simp only [replace, nameParameters, ihc, iha, ihb]
  | app a b iha ihb | add a b iha ihb | cons a b iha ihb =>
      simp only [replace, nameParameters, iha, ihb]
  | ascribe t _ ih | isZero t ih | isEmpty t ih | head t ih | tail t ih =>
      simp only [replace, nameParameters, ih]

theorem not_mem_freeVars_nameParameters (hx : x ∉ t.names) :
    x ∉ (t.nameParameters x).freeVars := by
  induction t with
  | bool | int | string | unit | nil => exact List.not_mem_nil
  | var y => exact hx
  | wildcard b => exact fun h => (mem_freeVars_abs.1 h).2 rfl
  | abs y b ih =>
      simp only [names, List.mem_cons, not_or] at hx
      exact fun h => ih hx.2 (mem_freeVars_abs.1 h).1
  | letIn y e b ihe ihb =>
      simp only [names, List.mem_cons, List.mem_append, not_or] at hx
      exact fun h => (mem_freeVars_letIn.1 h).elim (ihe hx.2.1) fun h => ihb hx.2.2 h.1
  | cond c a b ihc iha ihb =>
      simp only [names, List.mem_append, not_or] at hx
      simp only [nameParameters, freeVars, List.mem_append, not_or]
      exact ⟨⟨ihc hx.1.1, iha hx.1.2⟩, ihb hx.2⟩
  | app a b iha ihb | add a b iha ihb | cons a b iha ihb =>
      simp only [names, List.mem_append, not_or] at hx
      simp only [nameParameters, freeVars, List.mem_append, not_or]
      exact ⟨iha hx.1, ihb hx.2⟩
  | ascribe _ _ ih | isZero _ ih | isEmpty _ ih | head _ ih | tail _ ih => exact ih hx

theorem ascribed_nameParameters (x : Name) (t : Term) :
    (t.nameParameters x).ascribed = t.ascribed := by
  induction t with
  | bool | int | string | unit | nil | var => rfl
  | abs _ _ ih | wildcard _ ih | isZero _ ih | isEmpty _ ih | head _ ih | tail _ ih => exact ih
  | ascribe _ _ ih => rw [nameParameters, ascribed, ascribed, ih]
  | app _ _ iha ihb | add _ _ iha ihb | cons _ _ iha ihb | letIn _ _ _ iha ihb =>
      rw [nameParameters, ascribed, ascribed, iha, ihb]
  | cond _ _ _ ihc iha ihb => rw [nameParameters, ascribed, ascribed, ihc, iha, ihb]

end Term

open Term

/-! ### Evaluation -/

def Outcome.nameParameters (x : Name) : Outcome EvalError Value → Outcome EvalError Value
  | .value v => .value (v.nameParameters x)
  | .error e => .error (e.nameParameters x)
  | .unfinished => .unfinished

/-- The second outcome is the first one with the parameter named, and the name
does not stand in the value. -/
inductive Outcome.Parametrised (x : Name) :
    Outcome EvalError Value → Outcome EvalError Value → Prop
  | value {v : Value} : x ∉ v.toTerm.names →
      Parametrised x (.value v) (.value (v.nameParameters x))
  | error {e : EvalError} : Parametrised x (.error e) (.error (e.nameParameters x))
  | unfinished : Parametrised x .unfinished .unfinished

namespace Outcome.Parametrised

theorem bind {f g : Value → Outcome EvalError Value} (h : Parametrised x o p)
    (hfg : ∀ v, x ∉ v.toTerm.names → Parametrised x (f v) (g (v.nameParameters x))) :
    Parametrised x (o >>= f) (p >>= g) := by
  cases h with
  | value hv => exact hfg _ hv
  | error => exact .error
  | unfinished => exact .unfinished

theorem eq (h : Parametrised x o p) : p = o.nameParameters x := by
  cases h <;> rfl

end Outcome.Parametrised

open Outcome (Parametrised)

theorem Rules.total?_nameParameters (R : Rules) (x : Name) (v w : Value) :
    R.total? (v.nameParameters x) (w.nameParameters x) = R.total? v w := by
  cases v <;> cases w <;> rfl

theorem evaluate_parametrised (hx : x ∉ t.names) (depth : Nat) :
    Parametrised x (t.evaluate depth) ((t.nameParameters x).evaluate depth) := by
  induction depth generalizing t with
  | zero => exact .unfinished
  | succ depth ih =>
    cases t with
    | bool | int | string | unit | nil => exact .value List.not_mem_nil
    | var y => exact .error
    | abs y b => exact .value (v := .fn y b) hx
    | wildcard b => exact .value (v := .wildcard b) hx
    | ascribe t ty => exact ih (t := t) hx
    | letIn y e b =>
        simp only [names, List.mem_cons, List.mem_append, not_or] at hx
        obtain ⟨hy, he, hb⟩ := hx
        have run := ih (not_mem_names_replace (z := y) hb he)
        rw [nameParameters_replace (Ne.symm hy)] at run
        exact run
    | app f a =>
        simp only [names, List.mem_append, not_or] at hx
        refine (ih hx.1).bind fun v hv => ?_
        cases v with
        | fn y b =>
            refine (ih hx.2).bind fun w hw => ?_
            simp only [Value.toTerm, names, List.mem_cons, not_or] at hv
            have run := ih (not_mem_names_replace (z := y) hv.2 hw)
            rw [nameParameters_replace (Ne.symm hv.1), Value.nameParameters_toTerm] at run
            exact run
        | wildcard b =>
            -- the value of the argument is put for a variable that is not there
            refine (ih hx.2).bind fun w hw => ?_
            have hb : x ∉ b.names := hv
            have same := replace_of_not_mem (not_mem_freeVars_nameParameters hb)
              (w.nameParameters x).toTerm
            show Parametrised x (b.evaluate depth)
              (((b.nameParameters x).replace x (w.nameParameters x).toTerm).evaluate depth)
            rw [same]
            exact ih hb
        | bool | int | string | unit | nil | cons => exact .error
    | add l r =>
        simp only [names, List.mem_append, not_or] at hx
        refine (ih hx.1).bind fun v _ => (ih hx.2).bind fun w _ => ?_
        rw [Rules.total?_nameParameters]
        split
        · exact .value (v := .int _) List.not_mem_nil
        · exact .error
    | cond c a b =>
        simp only [names, List.mem_append, not_or] at hx
        refine (ih hx.1.1).bind fun v _ => ?_
        cases v with
        | bool test =>
            cases test with
            | true => exact ih hx.1.2
            | false => exact ih hx.2
        | int | string | unit | nil | fn | wildcard | cons => exact .error
    | cons hd tl =>
        simp only [names, List.mem_append, not_or] at hx
        refine (ih hx.1).bind fun v hv => (ih hx.2).bind fun w hw => ?_
        exact .value (v := .cons v w) fun h => (List.mem_append.1 h).elim hv hw
    | isZero t =>
        refine (ih (t := t) hx).bind fun v _ => ?_
        cases v with
        | int n => exact .value (v := .bool _) List.not_mem_nil
        | bool | string | unit | nil | fn | wildcard | cons => exact .error
    | isEmpty l =>
        refine (ih (t := l) hx).bind fun v _ => ?_
        cases v with
        | nil | cons => exact .value (v := .bool _) List.not_mem_nil
        | bool | int | string | unit | fn | wildcard => exact .error
    | head l =>
        refine (ih (t := l) hx).bind fun v hv => ?_
        cases v with
        | cons hd tl => exact .value fun h => hv (List.mem_append_left _ h)
        | bool | int | string | unit | nil | fn | wildcard => exact .error
    | tail l =>
        refine (ih (t := l) hx).bind fun v hv => ?_
        cases v with
        | cons hd tl => exact .value fun h => hv (List.mem_append_right _ h)
        | bool | int | string | unit | nil | fn | wildcard => exact .error

/-! ### Typing -/

theorem sameOn_insert_nameParameters (hx : x ∉ t.names) (Γ : Context) (A : Ty) :
    Context.SameOn (t.nameParameters x).freeVars (Γ.insert x A) Γ :=
  .insert_left (not_mem_freeVars_nameParameters hx) Γ A

/-- Nothing is learned about the variable that is drawn for a parameter without a use. -/
theorem apply_unused_drawn (hs : ∀ a ∈ inPlay Γ t, a ∈ s.taken)
    (hi : t.infer Γ s.draw.2 = .ok i) : i.learned.apply (.var s.draw.1) = .var s.draw.1 := by
  have hunused : s.draw.1 ∉ i.learned.keys :=
    not_mem_keys_of_within (infer_confined hi).state.within (by simp)
      fun h => s.draw_not_mem (hs _ h)
  refine Substitution.apply_of_disjoint fun k hk h => hunused ?_
  obtain rfl : k = s.draw.1 := by simpa [Ty.vars] using h
  exact hk

/-- Inference finds the same for both forms. The variable that it draws for the new parameter
stands in no other place than the entry for it, so nothing is learned about it. -/
theorem infer_nameParameters (hx : x ∉ t.names) (hs : ∀ a ∈ inPlay Γ t, a ∈ s.taken) :
    (t.nameParameters x).infer Γ s = t.infer Γ s := by
  unfold Term.infer
  induction t generalizing Γ s with
  | bool | int | string | unit | nil | var => rfl
  | isZero _ ih | isEmpty _ ih | head _ ih | tail _ ih =>
      rw [nameParameters, Term.inferBy, Term.inferBy, ih hx hs]
  | ascribe t ty ih =>
      have ht := taken_first hs (List.subset_cons_self _ _)
      rw [nameParameters, Term.inferBy, Term.inferBy, ih hx ht]
  | abs y b ih =>
      simp only [names, List.mem_cons, not_or] at hx
      have hb := taken_body hs (List.Subset.refl _) y
      rw [nameParameters, Term.inferBy, Term.inferBy, ih hx.2 hb]
  | wildcard b ih =>
      have hb : x ∉ b.names := hx
      have hbody : ∀ a ∈ inPlay Γ b, a ∈ s.draw.2.taken := fun a ha => by simp [hs a ha]
      rw [nameParameters, Term.inferBy, Term.inferBy,
        inferBy_congr _ (sameOn_insert_nameParameters hb Γ _), ih hb hbody]
      refine bind_congr_ok fun i hi => ?_
      rw [apply_unused_drawn (t := b) hs hi]
  | app _ _ ihl ihr | add _ _ ihl ihr | cons _ _ ihl ihr =>
      simp only [names, List.mem_append, not_or] at hx
      have hleft := taken_first hs (List.subset_append_left _ _)
      rw [nameParameters, Term.inferBy, Term.inferBy, ihl hx.1 hleft]
      refine bind_congr_ok fun i hi => ?_
      rw [ihr hx.2 (taken_second hi hs rfl)]
  | letIn y e b ihe ihb =>
      simp only [names, List.mem_cons, List.mem_append, not_or] at hx
      have he := taken_first hs (List.subset_append_left _ _)
      rw [nameParameters, Term.inferBy, Term.inferBy, ihe hx.2.1 he]
      refine bind_congr_ok fun i hi => ?_
      have ci := (infer_confined hi).first (t := .letIn y e b) (List.subset_append_left _ _)
      have hbody := ci.state.taken_next (Δ := (i.learned.applyContext Γ).insert y i.type) hs
        (fun a ha => (Context.mem_tyVars_insert ha).elim (ci.type_known a)
          (ci.state.known_context a)) (List.subset_append_right _ _)
      rw [ihb hx.2.2 hbody]
  | cond c a b ihc iha ihb =>
      simp only [names, List.mem_append, not_or] at hx
      have ha : a.ascribed ⊆ (Term.cond c a b).ascribed := fun _ hA =>
        List.mem_append_left _ (List.mem_append_right _ hA)
      have hc : c.ascribed ⊆ (Term.cond c a b).ascribed := fun _ hA =>
        List.mem_append_left _ (List.mem_append_left _ hA)
      rw [nameParameters, Term.inferBy, Term.inferBy, ihc hx.1.1 (taken_first hs hc)]
      refine bind_congr_ok fun i hi => bind_congr_ok fun ρ hρ => ?_
      have ci := (infer_confined hi).first hc
      have hstate := ci.state.equate ci.type_known (by simp [Ty.vars]) hρ
      rw [iha hx.1.2 (hstate.taken_next hs hstate.known_context ha)]
      refine bind_congr_ok fun j hj => ?_
      have hstate := (hstate.next hstate.known_context ha (infer_confined hj)).1
      have htaken := hstate.taken_next hs hstate.known_context (List.subset_append_right _ _)
      simp only [Join.composition_bind, ihb hx.2 htaken]

/-- Checking and synthesis go through both forms alike. A function is checked in the context with
its parameter, and one that ignores its argument in the context as it is. -/
theorem checkedAlike_nameParameters (hx : x ∉ t.names) (Γ : Context) :
    CheckedAlike (fun t u => t.nameParameters x = u) Γ Γ t (t.nameParameters x) := by
  induction t generalizing Γ with
  | bool => exact .bool rfl
  | int => exact .int rfl
  | string => exact .string rfl
  | unit => exact .unit rfl
  | nil => exact .nil rfl
  | var => exact .var rfl rfl fun _ => rfl
  | abs y b ih =>
      simp only [names, List.mem_cons, not_or] at hx
      exact .abs rfl fun A => (ih hx.2 (Γ.insert y A)).check
  | wildcard b ih =>
      have hb : x ∉ b.names := hx
      refine ⟨rfl, fun A => ?_, ?_⟩
      · cases A with
        | arrow dom cod =>
            have same := checkedAlike_self (sameOn_insert_nameParameters hb Γ dom)
            simp only [nameParameters, Term.check]
            rw [same.check cod]
            exact (ih hb Γ).check cod
        | bool | int | unit | string | list | var => simp only [nameParameters, Term.check]
      · rw [nameParameters, Term.synthesize, Term.synthesize]
        exact .error (.checkFailed rfl)
  | ascribe t ty ih => exact .ascribe rfl (ih hx Γ)
  | isZero t ih => exact .isZero rfl (ih hx Γ)
  | isEmpty l ih => exact .isEmpty rfl (ih hx Γ)
  | head l ih => exact .head rfl (ih hx Γ)
  | tail l ih => exact .tail rfl (ih hx Γ)
  | add l r ihl ihr =>
      simp only [names, List.mem_append, not_or] at hx
      exact .add rfl (ihl hx.1 Γ) (ihr hx.2 Γ)
  | app f a ihf iha =>
      simp only [names, List.mem_append, not_or] at hx
      exact .app rfl (ihf hx.1 Γ) (iha hx.2 Γ)
  | cons hd tl ihh iht =>
      simp only [names, List.mem_append, not_or] at hx
      exact .cons rfl (ihh hx.1 Γ) (iht hx.2 Γ)
  | cond c a b ihc iha ihb =>
      simp only [names, List.mem_append, not_or] at hx
      exact .cond rfl (ihc hx.1.1 Γ) (iha hx.1.2 Γ) (ihb hx.2 Γ)
  | letIn y e b ihe ihb =>
      simp only [names, List.mem_cons, List.mem_append, not_or] at hx
      exact .letIn rfl (ihe hx.2.1 Γ) fun A => ihb hx.2.2 (Γ.insert y A)

theorem TypeError.Alike.nameParameters {e e' : TypeError}
    (h : e.Alike (fun t u => t.nameParameters x = u) e') : e' = e.nameParameters x := by
  cases h with
  | mismatch | unbound | notUnifiable => rfl
  | badType h | checkFailed h => rw [← h, TypeError.nameParameters]

theorem ResultAlike.mapError_nameParameters {α : Type} {r r' : Except TypeError α}
    (h : ResultAlike (fun t u => t.nameParameters x = u) r r') :
    r' = r.mapError (TypeError.nameParameters x) := by
  cases h with
  | ok => rfl
  | error he => rw [he.nameParameters]; rfl

theorem typecheck_nameParameters (hx : x ∉ t.names) (Γ : Context) :
    (t.nameParameters x).typecheck Γ = t.typecheck Γ := by
  have hsupply : NameSupply.forTerm Γ (t.nameParameters x) = .forTerm Γ t := by
    rw [NameSupply.forTerm, ascribedVars, ascribed_nameParameters]
    rfl
  have htaken : ∀ a ∈ inPlay Γ t, a ∈ (NameSupply.forTerm Γ t).taken := fun a ha => by
    simpa [NameSupply.forTerm, or_comm] using mem_inPlay.1 ha
  rw [Term.typecheck, Term.typecheck, hsupply, infer_nameParameters hx htaken]

/-- A function that ignores its argument is a function of any name that does
not stand in the program. With such a parameter for all of them the program
evaluates to the same value or error up to the parameter, or both do not end.
It has the same inferred type or the same error, it checks against the same
types, and what is synthesized for it is the same up to the parameter in the
terms of an error. -/
theorem nameParameters_unobserved (hx : x ∉ t.names) (Γ : Context) :
    (∀ depth, (t.nameParameters x).evaluate depth = (t.evaluate depth).nameParameters x) ∧
      (t.nameParameters x).typecheck Γ = t.typecheck Γ ∧
      (∀ A, (t.nameParameters x).check Γ A = t.check Γ A) ∧
      (t.nameParameters x).synthesize Γ =
        (t.synthesize Γ).mapError (TypeError.nameParameters x) := by
  have alike := checkedAlike_nameParameters hx Γ
  exact ⟨fun depth => (evaluate_parametrised hx depth).eq, typecheck_nameParameters hx Γ,
    fun A => (alike.check A).symm, alike.synthesize.mapError_nameParameters⟩

/-- Here the value and the error of synthesis both have a function that ignores
its argument, and the context has an entry for the new parameter. -/
theorem nameParameters_unobserved_constant :
    let t : Term := .letIn "k" (.wildcard (.wildcard (.var "n"))) (.app (.var "k") .unit)
    let u : Term := .letIn "k" (.abs "x" (.abs "x" (.var "n"))) (.app (.var "k") .unit)
    let Γ : Context := .ofList [("n", .int), ("x", .string)]
    "x" ∉ t.names ∧ t.nameParameters "x" = u ∧
      (∀ depth, u.evaluate depth = (t.evaluate depth).nameParameters "x") ∧
      u.typecheck Γ = t.typecheck Γ ∧ (∀ A, u.check Γ A = t.check Γ A) ∧
      u.synthesize Γ = (t.synthesize Γ).mapError (TypeError.nameParameters "x") := by
  intro t u Γ
  have unused : "x" ∉ t.names := by decide
  exact ⟨unused, rfl, nameParameters_unobserved unused Γ⟩

end TypedLambda
