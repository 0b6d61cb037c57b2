import TypedLambda.Proofs.CheckingSoundness

/-!
Typing in two directions, for two terms side by side.

Two terms are checked alike if they check against the same types and
synthesize the same type, or errors of the same kind about related parts.
Terms of the same form are checked alike if their parts are, and the lemmas
here say so for each form. Which contexts the parts of a function or of a
`let` are typed in is left to those who use them.
-/

namespace TypedLambda

variable {R : Term → Term → Prop} {α β : Type}

/-- Errors of the same kind, with the same types and names, about related
terms. -/
inductive TypeError.Alike (R : Term → Term → Prop) : TypeError → TypeError → Prop
  | mismatch {l r : Ty} : Alike R (.mismatch l r) (.mismatch l r)
  | badType {t u : Term} {actual expected : Ty} :
      R t u → Alike R (.badType t actual expected) (.badType u actual expected)
  | checkFailed {t u : Term} {expected : Ty} :
      R t u → Alike R (.checkFailed t expected) (.checkFailed u expected)
  | unbound {x : Name} : Alike R (.unbound x) (.unbound x)
  | notUnifiable {l r : Ty} : Alike R (.notUnifiable l r) (.notUnifiable l r)

theorem TypeError.Alike.mono {R' : Term → Term → Prop} {e e' : TypeError} (h : e.Alike R e')
    (hR : ∀ t u, R t u → R' t u) : e.Alike R' e' := by
  cases h with
  | mismatch => exact .mismatch
  | badType h => exact .badType (hR _ _ h)
  | checkFailed h => exact .checkFailed (hR _ _ h)
  | unbound => exact .unbound
  | notUnifiable => exact .notUnifiable

inductive ResultAlike (R : Term → Term → Prop) : Except TypeError α → Except TypeError α → Prop
  | ok {a : α} : ResultAlike R (.ok a) (.ok a)
  | error {e e' : TypeError} : e.Alike R e' → ResultAlike R (.error e) (.error e')

namespace ResultAlike

variable {r s : Except TypeError α}

theorem bind {f g : α → Except TypeError β} (h : ResultAlike R r s)
    (hfg : ∀ a, ResultAlike R (f a) (g a)) : ResultAlike R (r >>= f) (s >>= g) := by
  cases h with
  | ok => exact hfg _
  | error he => exact .error he

theorem mono {R' : Term → Term → Prop} (h : ResultAlike R r s) (hR : ∀ t u, R t u → R' t u) :
    ResultAlike R' r s := by
  cases h with
  | ok => exact .ok
  | error he => exact .error (he.mono hR)

theorem eq_ok_iff (h : ResultAlike R r s) (a : α) : r = .ok a ↔ s = .ok a := by
  cases h with
  | ok => rfl
  | error => simp

end ResultAlike

namespace Term

/-- The type of the term can be read off: it is neither a function nor `nil`,
which have a rule of their own to be checked by. -/
def ReadOff : Term → Prop
  | .abs _ _ | .wildcard _ | .nil => False
  | _ => True

theorem check_iff_synthesize {Γ : Context} {t : Term} {A : Ty} (ht : t.ReadOff) :
    t.check Γ A = true ↔ t.synthesize Γ = .ok A := by
  constructor
  · intro h
    rcases check_cases h with ⟨x, b, B, C, rfl, -⟩ | ⟨b, B, C, rfl, -⟩ | ⟨B, rfl, -⟩ | hs
    · exact ht.elim
    · exact ht.elim
    · exact ht.elim
    · exact hs
  · intro h
    cases t with
    | abs | wildcard | nil => exact ht.elim
    | _ => simp only [check, h, decide_true]

structure CheckedAlike (R : Term → Term → Prop) (Γ Δ : Context) (t u : Term) : Prop where
  related : R t u
  check : ∀ A, t.check Γ A = u.check Δ A
  synthesize : ResultAlike R (t.synthesize Γ) (u.synthesize Δ)

namespace CheckedAlike

variable {Γ Δ : Context} {t t' c c' a a' b b' : Term} {x y : Name}

theorem mono {R' : Term → Term → Prop} (h : CheckedAlike R Γ Δ t t')
    (hR : ∀ t u, R t u → R' t u) : CheckedAlike R' Γ Δ t t' :=
  ⟨hR _ _ h.related, h.check, h.synthesize.mono hR⟩

theorem require (h : CheckedAlike R Γ Δ t t') (A : Ty) :
    ResultAlike R (t.require Γ A) (t'.require Δ A) := by
  rw [Term.require, Term.require, h.check A]
  split
  · exact .ok
  · exact .error (.checkFailed h.related)

theorem element (h : CheckedAlike R Γ Δ t t') :
    ResultAlike R (t.element Γ) (t'.element Δ) := by
  rw [Term.element, Term.element]
  refine h.synthesize.bind fun A => ?_
  cases A with
  | list elem => exact .ok
  | bool | int | unit | string | arrow | var => exact .error (.badType h.related)

/-- For a term whose type can be read off, the synthesized types decide. -/
theorem of_synthesize (ht : t.ReadOff) (ht' : t'.ReadOff) (h : R t t')
    (hs : ResultAlike R (t.synthesize Γ) (t'.synthesize Δ)) : CheckedAlike R Γ Δ t t' where
  related := h
  check A := by
    rw [Bool.eq_iff_iff, check_iff_synthesize ht, check_iff_synthesize ht', hs.eq_ok_iff]
  synthesize := hs

theorem bool {p : Bool} (h : R (.bool p) (.bool p)) : CheckedAlike R Γ Δ (.bool p) (.bool p) :=
  .of_synthesize trivial trivial h (by simpa only [Term.synthesize] using .ok)

theorem int {n : Int} (h : R (.int n) (.int n)) : CheckedAlike R Γ Δ (.int n) (.int n) :=
  .of_synthesize trivial trivial h (by simpa only [Term.synthesize] using .ok)

theorem string {s : String} (h : R (.string s) (.string s)) :
    CheckedAlike R Γ Δ (.string s) (.string s) :=
  .of_synthesize trivial trivial h (by simpa only [Term.synthesize] using .ok)

theorem unit (h : R .unit .unit) : CheckedAlike R Γ Δ .unit .unit :=
  .of_synthesize trivial trivial h (by simpa only [Term.synthesize] using .ok)

theorem nil (h : R .nil .nil) : CheckedAlike R Γ Δ .nil .nil where
  related := h
  check A := by
    cases A with
    | list | bool | int | unit | string | arrow | var => simp only [Term.check, Term.synthesize]
  synthesize := by
    rw [Term.synthesize, Term.synthesize]
    exact .error (.checkFailed h)

theorem var (h : R (.var x) (.var y)) (hget : Γ.get? x = Δ.get? y)
    (hnone : Γ.get? x = none → x = y) : CheckedAlike R Γ Δ (.var x) (.var y) := by
  refine .of_synthesize trivial trivial h ?_
  rw [Term.synthesize, Term.synthesize, ← hget]
  cases hx : Γ.get? x with
  | some A => exact .ok
  | none =>
      rw [← hnone hx]
      exact .error .unbound

theorem abs (h : R (.abs x b) (.abs y b'))
    (hb : ∀ A B, b.check (Γ.insert x A) B = b'.check (Δ.insert y A) B) :
    CheckedAlike R Γ Δ (.abs x b) (.abs y b') where
  related := h
  check A := by
    cases A with
    | arrow dom cod => simpa only [Term.check] using hb dom cod
    | bool | int | unit | string | list | var => simp only [Term.check]
  synthesize := by
    rw [Term.synthesize, Term.synthesize]
    exact .error (.checkFailed h)

theorem wildcard (h : R (.wildcard b) (.wildcard b'))
    (hb : ∀ B, b.check Γ B = b'.check Δ B) :
    CheckedAlike R Γ Δ (.wildcard b) (.wildcard b') where
  related := h
  check A := by
    cases A with
    | arrow dom cod => simpa only [Term.check] using hb cod
    | bool | int | unit | string | list | var => simp only [Term.check]
  synthesize := by
    rw [Term.synthesize, Term.synthesize]
    exact .error (.checkFailed h)

theorem ascribe {A : Ty} (h : R (.ascribe t A) (.ascribe t' A)) (ht : CheckedAlike R Γ Δ t t') :
    CheckedAlike R Γ Δ (.ascribe t A) (.ascribe t' A) := by
  refine .of_synthesize trivial trivial h ?_
  rw [Term.synthesize, Term.synthesize]
  exact (ht.require A).bind fun _ => .ok

theorem isZero (h : R (.isZero t) (.isZero t')) (ht : CheckedAlike R Γ Δ t t') :
    CheckedAlike R Γ Δ (.isZero t) (.isZero t') := by
  refine .of_synthesize trivial trivial h ?_
  rw [Term.synthesize, Term.synthesize]
  exact (ht.require .int).bind fun _ => .ok

theorem add (h : R (.add a b) (.add a' b')) (ha : CheckedAlike R Γ Δ a a')
    (hb : CheckedAlike R Γ Δ b b') : CheckedAlike R Γ Δ (.add a b) (.add a' b') := by
  refine .of_synthesize trivial trivial h ?_
  rw [Term.synthesize, Term.synthesize]
  exact (ha.require .int).bind fun _ => (hb.require .int).bind fun _ => .ok

theorem cond (h : R (.cond c a b) (.cond c' a' b')) (hc : CheckedAlike R Γ Δ c c')
    (ha : CheckedAlike R Γ Δ a a') (hb : CheckedAlike R Γ Δ b b') :
    CheckedAlike R Γ Δ (.cond c a b) (.cond c' a' b') := by
  refine .of_synthesize trivial trivial h ?_
  rw [Term.synthesize, Term.synthesize]
  exact (hc.require .bool).bind fun _ =>
    ha.synthesize.bind fun A => (hb.require A).bind fun _ => .ok

theorem app (h : R (.app a b) (.app a' b')) (ha : CheckedAlike R Γ Δ a a')
    (hb : CheckedAlike R Γ Δ b b') : CheckedAlike R Γ Δ (.app a b) (.app a' b') := by
  refine .of_synthesize trivial trivial h ?_
  rw [Term.synthesize, Term.synthesize]
  refine ha.synthesize.bind fun A => ?_
  cases A with
  | arrow dom cod => exact (hb.require dom).bind fun _ => .ok
  | bool | int | unit | string | list | var => exact .error (.badType ha.related)

theorem cons (h : R (.cons a b) (.cons a' b')) (ha : CheckedAlike R Γ Δ a a')
    (hb : CheckedAlike R Γ Δ b b') : CheckedAlike R Γ Δ (.cons a b) (.cons a' b') := by
  refine .of_synthesize trivial trivial h ?_
  rw [Term.synthesize, Term.synthesize]
  exact ha.synthesize.bind fun A => (hb.require (.list A)).bind fun _ => .ok

theorem isEmpty (h : R (.isEmpty t) (.isEmpty t')) (ht : CheckedAlike R Γ Δ t t') :
    CheckedAlike R Γ Δ (.isEmpty t) (.isEmpty t') := by
  refine .of_synthesize trivial trivial h ?_
  rw [Term.synthesize, Term.synthesize]
  exact ht.element.bind fun _ => .ok

theorem head (h : R (.head t) (.head t')) (ht : CheckedAlike R Γ Δ t t') :
    CheckedAlike R Γ Δ (.head t) (.head t') := by
  refine .of_synthesize trivial trivial h ?_
  rw [Term.synthesize, Term.synthesize]
  exact ht.element

theorem tail (h : R (.tail t) (.tail t')) (ht : CheckedAlike R Γ Δ t t') :
    CheckedAlike R Γ Δ (.tail t) (.tail t') := by
  refine .of_synthesize trivial trivial h ?_
  rw [Term.synthesize, Term.synthesize]
  exact ht.element.bind fun _ => .ok

theorem letIn (h : R (.letIn x a b) (.letIn y a' b')) (ha : CheckedAlike R Γ Δ a a')
    (hb : ∀ A, CheckedAlike R (Γ.insert x A) (Δ.insert y A) b b') :
    CheckedAlike R Γ Δ (.letIn x a b) (.letIn y a' b') := by
  refine .of_synthesize trivial trivial h ?_
  rw [Term.synthesize, Term.synthesize]
  exact ha.synthesize.bind fun A => (hb A).synthesize

end CheckedAlike

end Term

end TypedLambda
