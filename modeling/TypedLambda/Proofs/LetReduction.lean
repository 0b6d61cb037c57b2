import TypedLambda.Proofs.Filling
import TypedLambda.Proofs.Simulation

/-!
A `let` runs like an immediate application.

A `let` puts the bound term into its body as it is, and the term is evaluated
wherever it is reached, again and again or not at all; some of its copies may
stand in functions that are results. An application puts the value of the
term in. If the bound term has a value, the two programs go on with terms
that differ in closed parts with the same value. The difference can grow:
functions in which there are such parts are arguments of other functions. So
the relation is closed under filling the variables of a term with related
terms (`Similar`), and in this form every step of an evaluation keeps it.
-/

namespace TypedLambda

namespace Term

variable {γ δ : Filling} {t u r s e b c : Term} {x y : Name} {v w : Value}

/-- Terms that differ in parts with the same value. -/
inductive Similar : Term → Term → Prop
  | var {x : Name} : Similar (.var x) (.var x)
  | evaluated {t u : Term} {v : Value} :
      t.Evaluates (.ok v) → u.Evaluates (.ok v) → Similar t u
  /-- One term, in which similar terms have been put. -/
  | fill {γ δ : Filling} (t : Term) :
      γ.Closing → δ.Closing → (∀ x, Similar (γ x) (δ x)) → Similar (t.fill γ) (t.fill δ)

namespace Similar

theorem refl (t : Term) : Similar t t := by
  have same := fill (γ := .var) (δ := .var) t Filling.closing_var Filling.closing_var
    fun _ => .var
  rwa [fill_var] at same

theorem update (h : ∀ y, Similar (γ y) (δ y)) (x : Name) (hrs : Similar r s) (y : Name) :
    Similar (Function.update γ x r y) (Function.update δ x s y) := by
  by_cases hy : y = x
  · subst hy
    rwa [Function.update_self, Function.update_self]
  · rw [Function.update_of_ne hy, Function.update_of_ne hy]
    exact h y

theorem replace (t : Term) (x : Name) (hr : r.Closed) (hs : s.Closed) (hrs : Similar r s) :
    Similar (t.replace x r) (t.replace x s) := by
  rw [replace_eq_fill, replace_eq_fill]
  exact fill t (Filling.closing_var.update x (.inr hr)) (Filling.closing_var.update x (.inr hs))
    (update (fun _ => .var) x hrs)

theorem cons {hd hd' tl tl' : Term} (hh : hd.Closed ∧ hd'.Closed) (ht : tl.Closed ∧ tl'.Closed)
    (hhd : Similar hd hd') (htl : Similar tl tl') : Similar (.cons hd tl) (.cons hd' tl') := by
  have filled := fill (.cons (.var "head") (.var "tail"))
    ((Filling.closing_var.update "head" (.inr hh.1)).update "tail" (.inr ht.1))
    ((Filling.closing_var.update "head" (.inr hh.2)).update "tail" (.inr ht.2))
    (update (update (fun _ => .var) "head" hhd) "tail" htl)
  simpa [Term.fill, Function.update_apply] using filled

/-- Similar terms are a variable, or have the same value, or come from one
term that is no variable. -/
theorem exists_fill (h : Similar t u) :
    (∃ x, t = .var x ∧ u = .var x) ∨ (∃ v, t.Evaluates (.ok v) ∧ u.Evaluates (.ok v)) ∨
      ∃ (s : Term) (γ δ : Filling), (∀ x, s ≠ .var x) ∧ γ.Closing ∧ δ.Closing ∧
        (∀ x, Similar (γ x) (δ x)) ∧ t = s.fill γ ∧ u = s.fill δ := by
  induction h with
  | @var x => exact .inl ⟨x, rfl, rfl⟩
  | @evaluated _ _ v ht hu => exact .inr (.inl ⟨v, ht, hu⟩)
  | @fill γ δ s hγ hδ h ih =>
      by_cases hs : ∃ x, s = .var x
      · obtain ⟨x, rfl⟩ := hs
        exact ih x
      · exact .inr (.inr ⟨s, γ, δ, fun x hx => hs ⟨x, hx⟩, hγ, hδ, h, rfl, rfl⟩)

theorem alike (h : t.BothClosed Similar u) : t.Alike Similar u := by
  obtain ⟨x, rfl, rfl⟩ | ⟨v, ht, hu⟩ | ⟨s, γ, δ, hs, hγ, hδ, hx, rfl, rfl⟩ :=
    h.related.exists_fill
  · exact .var
  · exact .ended ht hu (.refl refl v)
  · have part (r : Term) : Similar (r.fill γ) (r.fill δ) := .fill r hγ hδ hx
    cases s with
    | var x => exact absurd rfl (hs x)
    | bool b => exact .of_values .bool
    | int n => exact .of_values .int
    | string s => exact .of_values .string
    | unit => exact .of_values .unit
    | nil => exact .of_values .nil
    | abs x b => exact .of_values (.fn h.related)
    | wildcard b => exact .of_values (.wildcard h.related)
    | app f a => exact .app (part f) (part a)
    | add l r => exact .add (part l) (part r)
    | ascribe t ty => exact .ascribe (part t)
    | cond c a b => exact .cond (part c) (part a) (part b)
    | isZero t => exact .isZero (part t)
    | cons hd tl => exact .cons (part hd) (part tl)
    | isEmpty l => exact .isEmpty (part l)
    | head l => exact .head (part l)
    | tail l => exact .tail (part l)
    | letIn x e b =>
        refine .letIn ?_
        rw [replace_fill hγ, replace_fill hδ]
        exact fill b (hγ.update x (.inr (closed_letIn.1 h.left).1))
          (hδ.update x (.inr (closed_letIn.1 h.right).1)) (update hx x (part e))

theorem abs_replace (h : Similar (.abs x b) (.abs y c)) (hr : r.Closed) (hs : s.Closed)
    (hrs : Similar r s) : Similar (b.replace x r) (c.replace y s) := by
  obtain ⟨z, hz, -⟩ | ⟨v, hb, hc⟩ | ⟨t, γ, δ, ht, hγ, hδ, hx, hb, hc⟩ := h.exists_fill
  · cases hz
  · obtain rfl : v = .fn x b := Except.ok.inj (hb.unique ⟨1, rfl⟩)
    obtain ⟨rfl, rfl⟩ := Value.fn.inj (Except.ok.inj (hc.unique (s := .ok (.fn y c)) ⟨1, rfl⟩))
    exact replace b x hr hs hrs
  · cases t with
    | abs z d =>
        obtain ⟨rfl, rfl⟩ := Term.abs.inj hb
        obtain ⟨rfl, rfl⟩ := Term.abs.inj hc
        rw [replace_fill hγ, replace_fill hδ]
        exact fill d (hγ.update _ (.inr hr)) (hδ.update _ (.inr hs)) (update hx _ hrs)
    | var z => exact absurd rfl (ht z)
    | bool | int | string | unit | nil | wildcard | app | add | ascribe | cond | isZero | cons
    | isEmpty | head | tail | letIn => cases hb

theorem wildcard_body (h : Similar (.wildcard b) (.wildcard c)) : Similar b c := by
  obtain ⟨z, hz, -⟩ | ⟨v, hb, hc⟩ | ⟨t, γ, δ, ht, hγ, hδ, hx, hb, hc⟩ := h.exists_fill
  · cases hz
  · obtain rfl : v = .wildcard b := Except.ok.inj (hb.unique ⟨1, rfl⟩)
    obtain rfl := Value.wildcard.inj (Except.ok.inj (hc.unique (s := .ok (.wildcard c)) ⟨1, rfl⟩))
    exact refl b
  · cases t with
    | wildcard d =>
        obtain rfl := Term.wildcard.inj hb
        obtain rfl := Term.wildcard.inj hc
        exact fill d hγ hδ hx
    | var z => exact absurd rfl (ht z)
    | bool | int | string | unit | nil | abs | app | add | ascribe | cond | isZero | cons
    | isEmpty | head | tail | letIn => cases hb

end Similar

end Term

open Term

variable {t u e b : Term} {x : Name} {v w : Value} {r : Except EvalError Value}

theorem Value.Alike.similar (h : v.Alike (BothClosed Similar) w) :
    Similar v.toTerm w.toTerm := by
  induction h with
  | bool | int | string | unit | nil => exact .refl _
  | fn h | wildcard h => exact h.related
  | cons hh ht ihh iht => exact .cons hh.closed ht.closed ihh iht

theorem simulation_similar : Simulation (BothClosed Similar) :=
  .of_closed Similar.alike
    (fun h hvw => h.related.abs_replace hvw.closed.1 hvw.closed.2 hvw.similar)
    fun h => h.related.wildcard_body

/-! ### Where the evaluations go on -/

theorem evaluates_letIn : (letIn x e b).Evaluates r ↔ (b.replace x e).Evaluates r :=
  evaluates_congr (d := 0) (i := 1) (j := 0) fun _ _ => rfl

theorem evaluates_app_abs (he : e.Evaluates (.ok w)) :
    (app (abs x b) e).Evaluates r ↔ (b.replace x w.toTerm).Evaluates r := by
  obtain ⟨d, hd⟩ := he.eventually
  refine evaluates_congr (d := d) (i := 2) (j := 1) fun k hk => ?_
  have arg : e.evaluate (k + 1) = .value w := hd (k + 1) (by omega)
  show (e.evaluate (k + 1) >>= fun v => (b.replace x v.toTerm).evaluate (k + 1)) = _
  rw [arg, Outcome.value_bind]

/-- A `let` whose bound term has a value, and the function of its body applied
to this term, end alike or do not end: errors are of the same kind, and values
are equal if no function stands in them. -/
theorem letIn_endAlike_app (h : (letIn x e b).Closed) (he : e.Evaluates (.ok w)) :
    (letIn x e b).EndAlike (fun v v' => v.FunctionFree ∨ v'.FunctionFree → v = v')
      (EvalError.Alike Similar) (app (abs x b) e) := by
  obtain ⟨closed, body⟩ := closed_letIn.1 h
  have value : w.toTerm.Closed := he.closed closed
  have related : (b.replace x e).BothClosed Similar (b.replace x w.toTerm) :=
    ⟨closed_replace body closed, closed_replace body value,
      .replace b x closed value (.evaluated he w.evaluates_toTerm)⟩
  have ends := (simulation_similar.endAlike related).imp
    (fun _ _ hv => hv.eq_of_functionFree) fun _ _ he => he.mono fun _ _ h => h.related
  exact ends.congr (fun _ => evaluates_letIn) fun _ => evaluates_app_abs he

/-- The bound term is evaluated twice by the `let`, and once by the
application. -/
theorem letIn_endAlike_app_twice :
    let e : Term := .app (.abs "y" (.abs "z" (.var "y"))) (.int 1)
    let b : Term := .cons (.app (.var "x") .unit) (.cons (.app (.var "x") .nil) .nil)
    ((letIn "x" e b).Closed ∧ e.Evaluates (.ok (.fn "z" (.int 1)))) ∧
      (letIn "x" e b).EndAlike (fun v v' => v.FunctionFree ∨ v'.FunctionFree → v = v')
        (EvalError.Alike Similar) (app (abs "x" b) e) := by
  intro e b
  have closed : (letIn "x" e b).Closed := by decide
  have value : e.Evaluates (.ok (.fn "z" (.int 1))) := ⟨2, rfl⟩
  exact ⟨⟨closed, value⟩, letIn_endAlike_app closed value⟩

end TypedLambda
