import TypedLambda.Proofs.ClosedTerms

/-!
Evaluations that keep step with each other.

Two terms are evaluated side by side. A relation between terms is a
simulation if related terms have the same form and related parts, and if
related functions go on with related terms whenever their arguments are
related. Then related terms end alike: both have a value, and the values
differ only in related functions, or both fail in the same way, or both run
for ever (`Simulation.endAlike`).

The two evaluations need not take the same time. Terms that have both been
evaluated already may be related whatever they look like, and an ascription
may stand on one side alone. So the second evaluation is only asked to end at
some depth once the first one has ended.
-/

namespace TypedLambda

variable {R Q : Term → Term → Prop} {t u : Term} {v w : Value}

/-! ### Relations between terms, on values and errors -/

/-- Values that are the same up to their functions, and these are related as
terms. -/
inductive Value.Alike (R : Term → Term → Prop) : Value → Value → Prop
  | bool {b : Bool} : Alike R (.bool b) (.bool b)
  | int {n : Int} : Alike R (.int n) (.int n)
  | string {s : String} : Alike R (.string s) (.string s)
  | unit : Alike R .unit .unit
  | nil : Alike R .nil .nil
  | fn {x y : Name} {b c : Term} : R (.abs x b) (.abs y c) → Alike R (.fn x b) (.fn y c)
  | wildcard {b c : Term} :
      R (.wildcard b) (.wildcard c) → Alike R (.wildcard b) (.wildcard c)
  | cons {hd hd' tl tl' : Value} :
      Alike R hd hd' → Alike R tl tl' → Alike R (.cons hd tl) (.cons hd' tl')

def Value.FunctionFree : Value → Prop
  | .bool _ | .int _ | .string _ | .unit | .nil => True
  | .fn _ _ | .wildcard _ => False
  | .cons hd tl => hd.FunctionFree ∧ tl.FunctionFree

inductive EvalError.Alike (R : Term → Term → Prop) : EvalError → EvalError → Prop
  | addition {l l' r r' : Term} : R l l' → R r r' → Alike R (.addition l r) (.addition l' r')
  | ascription {t t' : Term} {ty : Ty} : R t t' → Alike R (.ascription t ty) (.ascription t' ty)
  | wrongValue {v v' : Value} {expected : String} :
      v.Alike R v' → Alike R (.wrongValue v expected) (.wrongValue v' expected)
  | notAFunction {t t' : Term} : R t t' → Alike R (.notAFunction t) (.notAFunction t')
  | freeVariable {x : Name} : Alike R (.freeVariable x) (.freeVariable x)
  | isZero {t t' : Term} : R t t' → Alike R (.isZero t) (.isZero t')
  | conditional {t t' : Term} : R t t' → Alike R (.conditional t) (.conditional t')
  | application {f f' a a' : Term} :
      R f f' → R a a' → Alike R (.application f a) (.application f' a')

namespace Value.Alike

theorem refl (hR : ∀ t, R t t) (v : Value) : v.Alike R v := by
  induction v with
  | bool b => exact .bool
  | int n => exact .int
  | string s => exact .string
  | unit => exact .unit
  | nil => exact .nil
  | fn x b => exact .fn (hR _)
  | wildcard b => exact .wildcard (hR _)
  | cons hd tl ihh iht => exact .cons ihh iht

theorem mono (hR : ∀ t u, R t u → Q t u) (h : v.Alike R w) : v.Alike Q w := by
  induction h with
  | bool => exact .bool
  | int => exact .int
  | string => exact .string
  | unit => exact .unit
  | nil => exact .nil
  | fn h => exact .fn (hR _ _ h)
  | wildcard h => exact .wildcard (hR _ _ h)
  | cons _ _ ihh iht => exact .cons ihh iht

theorem symm (hR : ∀ t u, R t u → Q u t) (h : v.Alike R w) : w.Alike Q v := by
  induction h with
  | bool => exact .bool
  | int => exact .int
  | string => exact .string
  | unit => exact .unit
  | nil => exact .nil
  | fn h => exact .fn (hR _ _ h)
  | wildcard h => exact .wildcard (hR _ _ h)
  | cons _ _ ihh iht => exact .cons ihh iht

theorem eq_of_functionFree (h : v.Alike R w) (free : v.FunctionFree ∨ w.FunctionFree) :
    v = w := by
  induction h with
  | bool | int | string | unit | nil => rfl
  | fn | wildcard => exact free.elim False.elim False.elim
  | cons _ _ ihh iht =>
      rw [ihh (free.imp And.left And.left), iht (free.imp And.right And.right)]

theorem eq (h : v.Alike Eq w) : v = w := by
  induction h with
  | bool | int | string | unit | nil => rfl
  | fn h | wildcard h => cases h; rfl
  | cons _ _ ihh iht => rw [ihh, iht]

theorem total?_eq {v' w' : Value} (S : Rules) (hv : v.Alike R v') (hw : w.Alike R w') :
    S.total? v w = S.total? v' w' := by
  cases hv <;> cases hw <;> rfl

end Value.Alike

theorem EvalError.Alike.mono {e e' : EvalError} (hR : ∀ t u, R t u → Q t u)
    (h : e.Alike R e') : e.Alike Q e' := by
  cases h with
  | addition hl hr => exact .addition (hR _ _ hl) (hR _ _ hr)
  | ascription h => exact .ascription (hR _ _ h)
  | wrongValue h => exact .wrongValue (h.mono hR)
  | notAFunction h => exact .notAFunction (hR _ _ h)
  | freeVariable => exact .freeVariable
  | isZero h => exact .isZero (hR _ _ h)
  | conditional h => exact .conditional (hR _ _ h)
  | application hf ha => exact .application (hR _ _ hf) (hR _ _ ha)

/-! ### Ends of evaluations -/

/-- The evaluations of two terms end with values or errors that are related,
or neither of them ends. -/
inductive Term.EndAlike (P : Value → Value → Prop) (E : EvalError → EvalError → Prop)
    (t u : Term) : Prop
  | value {v w : Value} : t.Evaluates (.ok v) → u.Evaluates (.ok w) → P v w → EndAlike P E t u
  | error {e e' : EvalError} :
      t.Evaluates (.error e) → u.Evaluates (.error e') → E e e' → EndAlike P E t u
  | never : t.Diverges → u.Diverges → EndAlike P E t u

/-- An evaluation ends in the same way at every greater depth. -/
theorem Term.EvaluatesBy.eventually {S : Rules} {r : Except EvalError Value}
    (h : t.EvaluatesBy S r) : ∃ d, ∀ k, d ≤ k → t.evaluateBy S k = .ofExcept r := by
  obtain ⟨d, hd⟩ := h
  exact ⟨d, fun k hk => Outcome.Approx.eq_ofExcept (hd ▸ t.evaluateBy_approx S hk)⟩

theorem evaluates_congr {d i j : Nat} {r : Except EvalError Value}
    (h : ∀ k, d ≤ k → t.evaluate (k + i) = u.evaluate (k + j)) :
    t.Evaluates r ↔ u.Evaluates r := by
  constructor
  · intro ht
    obtain ⟨d', hd'⟩ := ht.eventually
    exact ⟨max d d' + j, (h _ (by omega)).symm.trans (hd' _ (by omega))⟩
  · intro hu
    obtain ⟨d', hd'⟩ := hu.eventually
    exact ⟨max d d' + i, (h _ (by omega)).trans (hd' _ (by omega))⟩

theorem Term.diverges_iff : t.Diverges ↔ ∀ r, ¬t.Evaluates r := by
  constructor
  · rintro h r ⟨d, hd⟩
    have never : t.evaluateBy .standard d = .unfinished := h d
    rw [never] at hd
    cases r <;> cases hd
  · intro h d
    cases hd : t.evaluate d with
    | value v => exact (h (.ok v) ⟨d, hd⟩).elim
    | error e => exact (h (.error e) ⟨d, hd⟩).elim
    | unfinished => rfl

theorem Term.diverges_congr (h : ∀ r, t.Evaluates r ↔ u.Evaluates r) :
    t.Diverges ↔ u.Diverges := by
  rw [diverges_iff, diverges_iff]
  exact forall_congr' fun r => not_congr (h r)

theorem Term.evaluates_cons {hd tl : Term} (hv : hd.Evaluates (.ok v)) (hw : tl.Evaluates (.ok w)) :
    (Term.cons hd tl).Evaluates (.ok (.cons v w)) := by
  obtain ⟨d, hhd⟩ := hv.eventually
  obtain ⟨d', htl⟩ := hw.eventually
  have first : hd.evaluate (max d d') = .value v := hhd _ (by omega)
  have second : tl.evaluate (max d d') = .value w := htl _ (by omega)
  refine ⟨max d d' + 1, ?_⟩
  show (hd.evaluate (max d d') >>= fun a => tl.evaluate (max d d') >>= fun b =>
    Outcome.value (Value.cons a b)) = _
  rw [first, Outcome.value_bind, second]
  rfl

theorem Value.evaluates_toTerm (v : Value) : v.toTerm.Evaluates (.ok v) := by
  induction v with
  | bool | int | string | unit | fn | wildcard | nil => exact ⟨1, rfl⟩
  | cons hd tl ihh iht => exact Term.evaluates_cons ihh iht

theorem Term.EndAlike.imp {P P' : Value → Value → Prop} {E E' : EvalError → EvalError → Prop}
    (h : t.EndAlike P E u) (hP : ∀ v w, P v w → P' v w) (hE : ∀ e e', E e e' → E' e e') :
    t.EndAlike P' E' u := by
  cases h with
  | value ht hu h => exact .value ht hu (hP _ _ h)
  | error ht hu h => exact .error ht hu (hE _ _ h)
  | never ht hu => exact .never ht hu

theorem Term.EndAlike.congr {P : Value → Value → Prop} {E : EvalError → EvalError → Prop}
    {t' u' : Term} (h : t.EndAlike P E u) (ht : ∀ r, t'.Evaluates r ↔ t.Evaluates r)
    (hu : ∀ r, u'.Evaluates r ↔ u.Evaluates r) : t'.EndAlike P E u' := by
  cases h with
  | value htv huw h => exact .value ((ht _).2 htv) ((hu _).2 huw) h
  | error hte hue h => exact .error ((ht _).2 hte) ((hu _).2 hue) h
  | never htn hun => exact .never ((diverges_congr ht).2 htn) ((diverges_congr hu).2 hun)

/-- Once the first evaluation has ended, the second one ends alike, at every
depth that is great enough. -/
def Outcome.EchoedBy (R : Term → Term → Prop) (o : Outcome EvalError Value)
    (p : Nat → Outcome EvalError Value) : Prop :=
  match o with
  | value v => ∃ w, v.Alike R w ∧ ∃ d, ∀ k, d ≤ k → p k = .value w
  | error e => ∃ e', e.Alike R e' ∧ ∃ d, ∀ k, d ≤ k → p k = .error e'
  | unfinished => True

namespace Outcome.EchoedBy

variable {o : Outcome EvalError Value} {p : Nat → Outcome EvalError Value}

theorem value (h : v.Alike R w) : EchoedBy R (.value v) fun _ => .value w :=
  ⟨w, h, 0, fun _ _ => rfl⟩

theorem error {e e' : EvalError} (h : e.Alike R e') : EchoedBy R (.error e) fun _ => .error e' :=
  ⟨e', h, 0, fun _ _ => rfl⟩

theorem of_approx {o' : Outcome EvalError Value} (h : o'.EchoedBy R p) (ho : o.Approx o') :
    o.EchoedBy R p := by
  rcases ho with rfl | rfl
  · trivial
  · exact h

/-- The depth of the second evaluation counts from one. -/
theorem of_succ (h : o.EchoedBy R fun d => p (d + 1)) : o.EchoedBy R p := by
  have shift {q : Outcome EvalError Value} (hq : ∃ d, ∀ k, d ≤ k → p (k + 1) = q) :
      ∃ d, ∀ k, d ≤ k → p k = q := by
    obtain ⟨d, hd⟩ := hq
    refine ⟨d + 1, fun k hk => ?_⟩
    obtain ⟨k, rfl⟩ : ∃ j, k = j + 1 := ⟨k - 1, by omega⟩
    exact hd k (by omega)
  cases o with
  | value v => exact h.imp fun w hw => ⟨hw.1, shift hw.2⟩
  | error e => exact h.imp fun e' he => ⟨he.1, shift he.2⟩
  | unfinished => trivial

theorem bind {f : Value → Outcome EvalError Value} {g : Nat → Value → Outcome EvalError Value}
    (h : o.EchoedBy R p) (hf : ∀ v w, v.Alike R w → (f v).EchoedBy R fun d => g d w) :
    (o >>= f).EchoedBy R fun d => p d >>= g d := by
  cases o with
  | unfinished => trivial
  | error e =>
      obtain ⟨e', he, d, hd⟩ := h
      refine ⟨e', he, d, fun k hk => ?_⟩
      show (p k >>= g k) = _
      rw [hd k hk]
      rfl
  | value v =>
      obtain ⟨w, hvw, d, hd⟩ := h
      -- from the depth at which both parts of the second evaluation have ended
      have join {q : Outcome EvalError Value} (hq : ∃ d, ∀ k, d ≤ k → g k w = q) :
          ∃ d, ∀ k, d ≤ k → (p k >>= g k) = q := by
        obtain ⟨d', hd'⟩ := hq
        refine ⟨max d d', fun k hk => ?_⟩
        rw [hd k (by omega)]
        exact hd' k (by omega)
      have rest := hf v w hvw
      show (f v).EchoedBy R _
      cases hv : f v with
      | unfinished => trivial
      | value a =>
          rw [hv] at rest
          obtain ⟨b, hab, hq⟩ := rest
          exact ⟨b, hab, join hq⟩
      | error e =>
          rw [hv] at rest
          obtain ⟨e', he, hq⟩ := rest
          exact ⟨e', he, join hq⟩

end Outcome.EchoedBy

/-! ### Simulations -/

/-- Terms that have been evaluated to values alike, or that have one form
and related parts once some ascriptions around them are taken away. A `let`
goes on with the body in which the bound term stands. -/
inductive Term.Alike (R : Term → Term → Prop) : Term → Term → Prop
  | ended {t u : Term} {v w : Value} :
      t.Evaluates (.ok v) → u.Evaluates (.ok w) → v.Alike R w → Alike R t u
  | var {x : Name} : Alike R (.var x) (.var x)
  | app {f f' a a' : Term} : R f f' → R a a' → Alike R (.app f a) (.app f' a')
  | add {l l' r r' : Term} : R l l' → R r r' → Alike R (.add l r) (.add l' r')
  | ascribe {t t' : Term} {ty ty' : Ty} :
      R t t' → Alike R (.ascribe t ty) (.ascribe t' ty')
  | ascribeLeft {t u : Term} {ty : Ty} : Alike R t u → Alike R (.ascribe t ty) u
  | ascribeRight {t u : Term} {ty : Ty} : Alike R t u → Alike R t (.ascribe u ty)
  | cond {c c' a a' b b' : Term} :
      R c c' → R a a' → R b b' → Alike R (.cond c a b) (.cond c' a' b')
  | isZero {t t' : Term} : R t t' → Alike R (.isZero t) (.isZero t')
  | cons {hd hd' tl tl' : Term} :
      R hd hd' → R tl tl' → Alike R (.cons hd tl) (.cons hd' tl')
  | isEmpty {l l' : Term} : R l l' → Alike R (.isEmpty l) (.isEmpty l')
  | head {l l' : Term} : R l l' → Alike R (.head l) (.head l')
  | tail {l l' : Term} : R l l' → Alike R (.tail l) (.tail l')
  | letIn {x y : Name} {e e' b c : Term} :
      R (b.replace x e) (c.replace y e') → Alike R (.letIn x e b) (.letIn y e' c)

theorem Term.Alike.of_values (h : v.Alike R w) : v.toTerm.Alike R w.toTerm :=
  .ended v.evaluates_toTerm w.evaluates_toTerm h

structure Simulation (R : Term → Term → Prop) : Prop where
  /-- They have the same form and related parts, or they have both ended. -/
  alike : ∀ {t u : Term}, R t u → t.Alike R u
  /-- Related functions go on with related bodies if their arguments are alike. -/
  abs : ∀ {x y : Name} {b c : Term} {v w : Value}, R (.abs x b) (.abs y c) → v.Alike R w →
    R (b.replace x v.toTerm) (c.replace y w.toTerm)
  /-- Functions without a parameter go on with their bodies as they are. -/
  wildcard : ∀ {b c : Term}, R (.wildcard b) (.wildcard c) → R b c

theorem Term.Alike.symm (hR : ∀ t u, R t u → Q u t) (h : t.Alike R u) : u.Alike Q t := by
  induction h with
  | ended ht hu h => exact .ended hu ht (h.symm hR)
  | var => exact .var
  | app hf ha => exact .app (hR _ _ hf) (hR _ _ ha)
  | add hl hr => exact .add (hR _ _ hl) (hR _ _ hr)
  | ascribe h => exact .ascribe (hR _ _ h)
  | ascribeLeft _ ih => exact .ascribeRight ih
  | ascribeRight _ ih => exact .ascribeLeft ih
  | cond hc ha hb => exact .cond (hR _ _ hc) (hR _ _ ha) (hR _ _ hb)
  | isZero h => exact .isZero (hR _ _ h)
  | cons hh ht => exact .cons (hR _ _ hh) (hR _ _ ht)
  | isEmpty h => exact .isEmpty (hR _ _ h)
  | head h => exact .head (hR _ _ h)
  | tail h => exact .tail (hR _ _ h)
  | letIn h => exact .letIn (hR _ _ h)

namespace Simulation

theorem swap (sim : Simulation R) : Simulation fun t u => R u t where
  alike h := (sim.alike h).symm fun _ _ h => h
  abs h hvw := sim.abs h (hvw.symm fun _ _ h => h)
  wildcard h := sim.wildcard h

theorem echoed (sim : Simulation R) (depth : Nat) (h : R t u) :
    (t.evaluate depth).EchoedBy R fun d => u.evaluate d := by
  -- ascriptions on the right cost the second evaluation depth only, so below the
  -- induction on the depth there is one on how the terms are alike
  induction depth generalizing t u with
  | zero => trivial
  | succ depth ih =>
    have step := sim.alike h
    clear h
    induction step with
    | @ended t u _ _ ht hu hvw =>
        obtain ⟨d, hd⟩ := hu.eventually
        cases hev : t.evaluate (depth + 1) with
        | unfinished => trivial
        | value a =>
            obtain rfl := Except.ok.inj (ht.unique ⟨depth + 1, hev⟩)
            exact ⟨_, hvw, d, hd⟩
        | error e => cases ht.unique (s := .error e) ⟨depth + 1, hev⟩
    | var => exact .of_succ (.error .freeVariable)
    | ascribe h => exact .of_succ (ih h)
    | ascribeLeft _ rest => exact rest.of_approx (Term.evaluateBy_approx_succ .standard depth _)
    | ascribeRight _ rest => exact .of_succ rest
    | letIn h => exact .of_succ (ih h)
    | app hf ha =>
        refine .of_succ ((ih hf).bind fun v w hvw => ?_)
        cases hvw with
        | fn h => exact (ih ha).bind fun a b hab => ih (sim.abs h hab)
        | wildcard h => exact (ih ha).bind fun _ _ _ => ih (sim.wildcard h)
        | bool | int | string | unit | nil | cons => exact .error (.notAFunction hf)
    | add hl hr =>
        refine .of_succ ((ih hl).bind fun v v' hv => (ih hr).bind fun w w' hw => ?_)
        rw [hv.total?_eq .standard hw]
        split
        · exact .value .int
        · exact .error (.addition hl hr)
    | cond hc ha hb =>
        refine .of_succ ((ih hc).bind fun v w hvw => ?_)
        have alike := hvw
        cases hvw with
        | @bool b =>
            cases b with
            | true => exact ih ha
            | false => exact ih hb
        | int | string | unit | nil | fn | wildcard | cons => exact .error (.wrongValue alike)
    | isZero h =>
        refine .of_succ ((ih h).bind fun v w hvw => ?_)
        cases hvw with
        | int => exact .value .bool
        | bool | string | unit | nil | fn | wildcard | cons => exact .error (.isZero h)
    | cons hh ht =>
        exact .of_succ ((ih hh).bind fun v v' hv => (ih ht).bind fun w w' hw =>
          .value (.cons hv hw))
    | isEmpty h =>
        refine .of_succ ((ih h).bind fun v w hvw => ?_)
        have alike := hvw
        cases hvw with
        | nil | cons => exact .value .bool
        | bool | int | string | unit | fn | wildcard => exact .error (.wrongValue alike)
    | head h =>
        refine .of_succ ((ih h).bind fun v w hvw => ?_)
        have alike := hvw
        cases hvw with
        | cons hh _ => exact .value hh
        | bool | int | string | unit | nil | fn | wildcard => exact .error (.wrongValue alike)
    | tail h =>
        refine .of_succ ((ih h).bind fun v w hvw => ?_)
        have alike := hvw
        cases hvw with
        | cons _ ht => exact .value ht
        | bool | int | string | unit | nil | fn | wildcard => exact .error (.wrongValue alike)

theorem exists_value (sim : Simulation R) (h : R t u) (ht : t.Evaluates (.ok v)) :
    ∃ w, u.Evaluates (.ok w) ∧ v.Alike R w := by
  obtain ⟨depth, ended⟩ := ht
  have run := sim.echoed depth h
  rw [show t.evaluate depth = .value v from ended] at run
  obtain ⟨w, hvw, d, hd⟩ := run
  exact ⟨w, ⟨d, hd d (Nat.le_refl d)⟩, hvw⟩

theorem exists_error (sim : Simulation R) (h : R t u) {e : EvalError}
    (ht : t.Evaluates (.error e)) : ∃ e', u.Evaluates (.error e') ∧ e.Alike R e' := by
  obtain ⟨depth, ended⟩ := ht
  have run := sim.echoed depth h
  rw [show t.evaluate depth = .error e from ended] at run
  obtain ⟨e', he, d, hd⟩ := run
  exact ⟨e', ⟨d, hd d (Nat.le_refl d)⟩, he⟩

/-- Related terms end alike, or neither of them ends. -/
theorem endAlike (sim : Simulation R) (h : R t u) :
    t.EndAlike (Value.Alike R) (EvalError.Alike R) u := by
  by_cases ht : t.Diverges
  · refine .never ht (Term.diverges_iff.2 fun r hr => ?_)
    -- were `u` to end, so would `t`
    cases r with
    | ok w =>
        obtain ⟨v, hv, -⟩ := sim.swap.exists_value h hr
        exact Term.diverges_iff.1 ht _ hv
    | error e =>
        obtain ⟨e', he, -⟩ := sim.swap.exists_error h hr
        exact Term.diverges_iff.1 ht _ he
  · rw [Term.diverges_iff] at ht
    obtain ⟨r, hr⟩ := Classical.not_forall.1 ht
    have ends := Classical.not_not.1 hr
    cases r with
    | ok v =>
        obtain ⟨w, hw, hvw⟩ := sim.exists_value h ends
        exact .value ends hw hvw
    | error e =>
        obtain ⟨e', he', he⟩ := sim.exists_error h ends
        exact .error ends he' he

end Simulation

/-! ### Closed terms -/

structure Term.BothClosed (Q : Term → Term → Prop) (t u : Term) : Prop where
  left : t.Closed
  right : u.Closed
  related : Q t u

theorem Value.Alike.closed (h : v.Alike (Term.BothClosed Q) w) :
    v.toTerm.Closed ∧ w.toTerm.Closed := by
  induction h with
  | bool | int | string | unit | nil => exact ⟨rfl, rfl⟩
  | fn h | wildcard h => exact ⟨h.left, h.right⟩
  | cons _ _ ihh iht =>
      exact ⟨(Term.closed_append rfl).2 ⟨ihh.1, iht.1⟩, (Term.closed_append rfl).2 ⟨ihh.2, iht.2⟩⟩

theorem Value.Alike.bothClosed (h : v.Alike Q w) (hv : v.toTerm.Closed) (hw : w.toTerm.Closed) :
    v.Alike (Term.BothClosed Q) w := by
  induction h with
  | bool => exact .bool
  | int => exact .int
  | string => exact .string
  | unit => exact .unit
  | nil => exact .nil
  | fn h => exact .fn ⟨hv, hw, h⟩
  | wildcard h => exact .wildcard ⟨hv, hw, h⟩
  | cons _ _ ihh iht =>
      obtain ⟨hh, ht⟩ := (Term.closed_append rfl).1 hv
      obtain ⟨hh', ht'⟩ := (Term.closed_append rfl).1 hw
      exact .cons (ihh hh hh') (iht ht ht')

theorem Term.Alike.bothClosed (h : t.Alike Q u) (ht : t.Closed) (hu : u.Closed) :
    t.Alike (Term.BothClosed Q) u := by
  induction h with
  | ended htv huw h =>
      exact .ended htv huw (h.bothClosed (htv.closed ht) (huw.closed hu))
  | var => exact .var
  | ascribe h => exact .ascribe ⟨ht, hu, h⟩
  | ascribeLeft _ ih => exact .ascribeLeft (ih ht hu)
  | ascribeRight _ ih => exact .ascribeRight (ih ht hu)
  | isZero h => exact .isZero ⟨ht, hu, h⟩
  | isEmpty h => exact .isEmpty ⟨ht, hu, h⟩
  | head h => exact .head ⟨ht, hu, h⟩
  | tail h => exact .tail ⟨ht, hu, h⟩
  | app hf ha =>
      obtain ⟨tf, ta⟩ := (Term.closed_append rfl).1 ht
      obtain ⟨uf, ua⟩ := (Term.closed_append rfl).1 hu
      exact .app ⟨tf, uf, hf⟩ ⟨ta, ua, ha⟩
  | add hl hr =>
      obtain ⟨tl, tr⟩ := (Term.closed_append rfl).1 ht
      obtain ⟨ul, ur⟩ := (Term.closed_append rfl).1 hu
      exact .add ⟨tl, ul, hl⟩ ⟨tr, ur, hr⟩
  | cons hh hl =>
      obtain ⟨th, tl⟩ := (Term.closed_append rfl).1 ht
      obtain ⟨uh, ul⟩ := (Term.closed_append rfl).1 hu
      exact .cons ⟨th, uh, hh⟩ ⟨tl, ul, hl⟩
  | cond hc ha hb =>
      obtain ⟨tca, tb⟩ := (Term.closed_append (f := .app _ _) rfl).1 ht
      obtain ⟨uca, ub⟩ := (Term.closed_append (f := .app _ _) rfl).1 hu
      obtain ⟨tc, ta⟩ := (Term.closed_append rfl).1 tca
      obtain ⟨uc, ua⟩ := (Term.closed_append rfl).1 uca
      exact .cond ⟨tc, uc, hc⟩ ⟨ta, ua, ha⟩ ⟨tb, ub, hb⟩
  | letIn h =>
      obtain ⟨te, tb⟩ := Term.closed_letIn.1 ht
      obtain ⟨ue, ub⟩ := Term.closed_letIn.1 hu
      exact .letIn ⟨Term.closed_replace tb te, Term.closed_replace ub ue, h⟩

/-- Between closed terms the parts that are evaluated, and the arguments of
functions, are closed again. -/
theorem Simulation.of_closed
    (alike : ∀ {t u : Term}, t.BothClosed Q u → t.Alike Q u)
    (abs : ∀ {x y : Name} {b c : Term} {v w : Value}, (Term.abs x b).BothClosed Q (.abs y c) →
      v.Alike (Term.BothClosed Q) w → Q (b.replace x v.toTerm) (c.replace y w.toTerm))
    (wildcard : ∀ {b c : Term}, (Term.wildcard b).BothClosed Q (.wildcard c) → Q b c) :
    Simulation (Term.BothClosed Q) where
  alike h := (alike h).bothClosed h.left h.right
  abs h hvw :=
    ⟨Term.closed_replace (Term.closed_abs.1 h.left) hvw.closed.1,
      Term.closed_replace (Term.closed_abs.1 h.right) hvw.closed.2, abs h hvw⟩
  wildcard h := ⟨h.left, h.right, wildcard h⟩

end TypedLambda
