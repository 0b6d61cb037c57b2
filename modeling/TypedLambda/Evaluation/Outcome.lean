/-!
Outcomes of a computation that is given a bounded depth: it ends with a value, it ends with an
error, or the depth does not suffice.
-/

namespace TypedLambda

universe u v w

inductive Outcome (ε : Type u) (α : Type v)
  | value (a : α)
  | error (e : ε)
  | unfinished
  deriving DecidableEq

namespace Outcome

variable {ε : Type u} {α β : Type v}

protected def bind (o : Outcome ε α) (f : α → Outcome ε β) : Outcome ε β :=
  match o with
  | value a => f a
  | error e => error e
  | unfinished => unfinished

instance : Monad (Outcome ε) where
  pure := value
  bind := Outcome.bind

def ofExcept : Except ε α → Outcome ε α
  | .ok a => value a
  | .error e => error e

theorem ofExcept_bind (x : Except ε α) (f : α → Except ε β) :
    ofExcept (x >>= f) = ofExcept x >>= fun a => ofExcept (f a) := by
  cases x <;> rfl

def mapError {δ : Type w} (f : ε → δ) : Outcome ε α → Outcome δ α
  | value a => value a
  | error e => error (f e)
  | unfinished => unfinished

@[simp] theorem pure_eq (a : α) : (pure a : Outcome ε α) = value a := rfl

@[simp] theorem value_bind (a : α) (f : α → Outcome ε β) : (value a >>= f) = f a := rfl

@[simp] theorem error_bind (e : ε) (f : α → Outcome ε β) :
    ((error e : Outcome ε α) >>= f) = error e := rfl

@[simp] theorem unfinished_bind (f : α → Outcome ε β) :
    ((unfinished : Outcome ε α) >>= f) = unfinished := rfl

/-- `o` approximates `p`: if `o` has ended, then `p` has ended in the same way. -/
def Approx (o p : Outcome ε α) : Prop := o = unfinished ∨ o = p

namespace Approx

theorem refl (o : Outcome ε α) : o.Approx o := .inr rfl

theorem trans {o p q : Outcome ε α} (h : o.Approx p) (h' : p.Approx q) : o.Approx q := by
  rcases h with rfl | rfl
  · exact .inl rfl
  · exact h'

theorem bind {o p : Outcome ε α} {f g : α → Outcome ε β} (h : o.Approx p)
    (hf : ∀ a, (f a).Approx (g a)) : (o >>= f).Approx (p >>= g) := by
  rcases h with rfl | rfl
  · exact .inl rfl
  · cases o with
    | value a => exact hf a
    | error e => exact .inr rfl
    | unfinished => exact .inl rfl

theorem eq_ofExcept {p : Outcome ε α} {r : Except ε α} (h : (ofExcept r).Approx p) :
    p = ofExcept r := by
  rcases h with h | h
  · cases r <;> cases h
  · exact h.symm

end Approx

/-- Whatever the computation has ended with is as demanded. -/
def Meets (o : Outcome ε α) (P : α → Prop) (E : ε → Prop) : Prop :=
  match o with
  | value a => P a
  | error e => E e
  | unfinished => True

theorem Meets.bind {o : Outcome ε α} {f : α → Outcome ε β} {P : α → Prop} {Q : β → Prop}
    {E : ε → Prop} (h : o.Meets P E) (hf : ∀ a, o = value a → P a → (f a).Meets Q E) :
    (o >>= f).Meets Q E := by
  cases o with
  | value a => exact hf a rfl h
  | error e => exact h
  | unfinished => trivial

/-- Only the values that are as demanded matter to what follows. -/
theorem Meets.bind_congr {o : Outcome ε α} {f g : α → Outcome ε β} {P : α → Prop} {E : ε → Prop}
    (h : o.Meets P E) (hfg : ∀ a, P a → f a = g a) : (o >>= f) = o >>= g := by
  cases o with
  | value a => exact hfg a h
  | error e => rfl
  | unfinished => rfl

theorem ofExcept_injective {r s : Except ε α} (h : ofExcept r = ofExcept s) : r = s := by
  cases r <;> cases s <;> cases h <;> rfl

end Outcome

end TypedLambda
