import TypedLambda.Proofs.Filling
import TypedLambda.Proofs.TypeSafety
import TypedLambda.Sample

/-!
Well-typed programs terminate.

Evaluation does not recur on the parts of a term only: an application goes
on with the body of a function in which the argument stands, and a `let`
with a body in which an unevaluated term stands, so no measure of the term
falls. The proof is by a logical relation. `Reducible A v` says that the
value `v` can be used at the type `A` without running for ever; for a
function this means that its body halts once any closed reducible value has
been put in. Every typed term halts, with a reducible value or an error, as
soon as its free variables have been filled with closed terms that halt
(`halts_of_hasType`).
-/

namespace TypedLambda

variable {ε α β : Type}

/-! ### Computations with growing depth -/

/-- From some depth on the computation has always ended with the same
result, and a value is as demanded. -/
def Settles (o : Nat → Outcome ε α) (P : α → Prop) : Prop :=
  ∃ r : Except ε α, (∀ a, r = .ok a → P a) ∧ ∃ d, ∀ e, d ≤ e → o e = .ofExcept r

namespace Settles

variable {o : Nat → Outcome ε α} {P Q : α → Prop}

theorem value {a : α} (h : P a) : Settles (ε := ε) (fun _ => .value a) P :=
  ⟨.ok a, fun b hb => by obtain rfl := Except.ok.inj hb; exact h, 0, fun _ _ => rfl⟩

theorem error (e : ε) : Settles (fun _ => .error e) P :=
  ⟨.error e, fun _ h => (by cases h), 0, fun _ _ => rfl⟩

theorem mono (h : Settles o P) (hPQ : ∀ a, P a → Q a) : Settles o Q := by
  obtain ⟨r, hr, hd⟩ := h
  exact ⟨r, fun a ha => hPQ a (hr a ha), hd⟩

theorem of_succ (h : Settles (fun d => o (d + 1)) P) : Settles o P := by
  obtain ⟨r, hr, d, hd⟩ := h
  refine ⟨r, hr, d + 1, fun e he => ?_⟩
  obtain ⟨e, rfl⟩ : ∃ k, e = k + 1 := ⟨e - 1, by omega⟩
  exact hd e (by omega)

theorem bind {f : Nat → α → Outcome ε β} {R : β → Prop} (h : Settles o P)
    (hf : ∀ a, P a → Settles (fun d => f d a) R) : Settles (fun d => o d >>= f d) R := by
  obtain ⟨r, hr, d, hd⟩ := h
  cases r with
  | error e =>
      refine ⟨.error e, fun _ h => (by cases h), d, fun k hk => ?_⟩
      show (o k >>= f k) = _
      rw [hd k hk]
      rfl
  | ok a =>
      obtain ⟨s, hs, d', hd'⟩ := hf a (hr a rfl)
      refine ⟨s, hs, max d d', fun k hk => ?_⟩
      show (o k >>= f k) = _
      rw [hd k (by omega)]
      exact hd' k (by omega)

end Settles

def Halts (P : Value → Prop) (t : Term) : Prop := Settles (fun d => t.evaluate d) P

theorem halts_toTerm {P : Value → Prop} {v : Value} (h : P v) : Halts P v.toTerm := by
  suffices key : Halts (· = v) v.toTerm from key.mono fun w hw => hw ▸ h
  clear h
  induction v with
  | bool | int | string | unit | fn | wildcard | nil => exact .of_succ (.value rfl)
  | cons hd tl ihh iht =>
      refine .of_succ (ihh.bind fun v hv => iht.bind fun w hw => .value ?_)
      rw [hv, hw]

/-! ### The relation -/

def Value.ListOf (P : Value → Prop) : Value → Prop
  | .nil => True
  | .cons hd tl => P hd ∧ tl.ListOf P
  | .bool _ | .int _ | .string _ | .unit | .fn _ _ | .wildcard _ => False

/-- The value can be used at the type without running for ever. -/
def Reducible : Ty → Value → Prop
  | .bool, v => ∃ b, v = .bool b
  | .int, v => ∃ n, v = .int n
  | .string, v => ∃ s, v = .string s
  | .unit, v => v = .unit
  | .list A, v => v.ListOf (Reducible A)
  | .arrow A B, .fn x b =>
      ∀ w : Value, w.toTerm.Closed → Reducible A w → Halts (Reducible B) (b.replace x w.toTerm)
  | .arrow _ B, .wildcard b => Halts (Reducible B) b
  | .arrow _ _, _ => False
  | .var _, _ => False

theorem Value.ListOf.nil_or_cons {P : Value → Prop} {v : Value} (h : v.ListOf P) :
    v = .nil ∨ ∃ hd tl, v = .cons hd tl ∧ P hd ∧ tl.ListOf P := by
  cases v with
  | nil => exact .inl rfl
  | cons hd tl => exact .inr ⟨hd, tl, rfl, h⟩
  | bool | int | string | unit | fn | wildcard => exact h.elim

theorem Reducible.fn_or_wildcard {A B : Ty} {v : Value} (h : Reducible (.arrow A B) v) :
    (∃ x b, v = .fn x b ∧ ∀ w : Value, w.toTerm.Closed → Reducible A w →
        Halts (Reducible B) (b.replace x w.toTerm)) ∨
      ∃ b, v = .wildcard b ∧ Halts (Reducible B) b := by
  cases v with
  | fn x b => exact .inl ⟨x, b, rfl, h⟩
  | wildcard b => exact .inr ⟨b, rfl, h⟩
  | bool | int | string | unit | nil | cons => exact h.elim

/-- Every variable that the context binds is filled with a closed term that
halts at the type of the variable. -/
structure Realizes (Γ : Context) (γ : Filling) : Prop where
  closing : γ.Closing
  halts : ∀ x A, Γ.get? x = some A → (γ x).Closed ∧ Halts (Reducible A) (γ x)

namespace Realizes

variable {Γ : Context} {γ : Filling} {t : Term} {A B : Ty}

theorem empty : Realizes .empty .var where
  closing := Filling.closing_var
  halts x A hx := by simp at hx

theorem insert (h : Realizes Γ γ) (x : Name) {r : Term} (hr : r.Closed)
    (hA : Halts (Reducible A) r) : Realizes (Γ.insert x A) (Function.update γ x r) where
  closing := h.closing.update x (.inr hr)
  halts y B hy := by
    rw [OrderedMap.get?_insert] at hy
    rw [Function.update_apply]
    split at hy
    · next heq =>
      obtain rfl := Option.some.inj hy
      rw [if_pos heq]
      exact ⟨hr, hA⟩
    · next hne =>
      rw [if_neg hne]
      exact h.halts y B hy

theorem closed_fill (h : Realizes Γ γ) (ht : HasType Γ t A) : (t.fill γ).Closed := by
  refine Term.closed_iff.2 fun y hy => ?_
  obtain ⟨x, hx, hmem⟩ := Term.exists_mem_freeVars_of_fill hy
  have bound : Γ.get? x ≠ none := fun hnone =>
    OrderedMap.get?_eq_none_iff.1 hnone (ht.mem_keys x hx)
  obtain ⟨B, hB⟩ := Option.ne_none_iff_exists'.1 bound
  exact (h.halts x B hB).1.not_mem hmem

end Realizes

theorem Halts.closed {P : Value → Prop} {t : Term} (h : Halts P t) (ht : t.Closed) :
    Halts (fun v => v.toTerm.Closed ∧ P v) t := by
  obtain ⟨r, hr, d, hd⟩ := h
  refine ⟨r, fun v hv => ⟨?_, hr v hv⟩, d, hd⟩
  have ended : t.evaluate d = .ofExcept r := hd d (Nat.le_refl d)
  have closed := evaluate_closed ht d
  rwa [ended, hv] at closed

/-- Every typed term halts once its free variables have been filled with
closed terms that halt. -/
theorem halts_of_hasType {Γ : Context} {γ : Filling} {t : Term} {A : Ty} (h : HasType Γ t A)
    (hγ : Realizes Γ γ) : Halts (Reducible A) (t.fill γ) := by
  induction h generalizing γ with
  | bool => exact .of_succ (.value ⟨_, rfl⟩)
  | int => exact .of_succ (.value ⟨_, rfl⟩)
  | string => exact .of_succ (.value ⟨_, rfl⟩)
  | unit => exact .of_succ (.value rfl)
  | nil => exact .of_succ (.value trivial)
  | var hx => exact (hγ.halts _ _ hx).2
  | ascribe _ ih => exact .of_succ (ih hγ)
  | wildcard _ ih => exact .of_succ (.value (ih hγ))
  | @abs Γ x b A B _ ih =>
      refine .of_succ (.value fun w hw hA => ?_)
      rw [Term.replace_fill hγ.closing]
      exact ih (hγ.insert x hw (halts_toTerm hA))
  -- the bound term may be evaluated many times or never, but it halts each time
  | @letIn Γ x e b A B he _ ihe ihb =>
      refine .of_succ ?_
      show Halts _ ((b.fill (Function.update γ x (.var x))).replace x (e.fill γ))
      rw [Term.replace_fill hγ.closing]
      exact ihb (hγ.insert x (hγ.closed_fill he) (ihe hγ))
  | @app Γ f a A B _ ha ihf iha =>
      -- a value with a free variable could be captured by the body
      have arg := (iha hγ).closed (hγ.closed_fill ha)
      refine .of_succ ((ihf hγ).bind fun v hv => ?_)
      obtain ⟨x, b, rfl, hb⟩ | ⟨b, rfl, hb⟩ := hv.fn_or_wildcard
      · exact arg.bind fun w hw => hb w hw.1 hw.2
      · exact arg.bind fun _ _ => hb
  | add _ _ ihl ihr =>
      refine .of_succ ((ihl hγ).bind fun v hv => (ihr hγ).bind fun w hw => ?_)
      obtain ⟨a, rfl⟩ := hv
      obtain ⟨b, rfl⟩ := hw
      simp only [Rules.standard_total?]
      split_ifs
      · exact .value ⟨_, rfl⟩
      · exact .error _
  | cond _ _ _ ihc iha ihb =>
      refine .of_succ ((ihc hγ).bind fun v hv => ?_)
      obtain ⟨b, rfl⟩ := hv
      cases b with
      | true => exact iha hγ
      | false => exact ihb hγ
  | isZero _ ih =>
      refine .of_succ ((ih hγ).bind fun v hv => ?_)
      obtain ⟨n, rfl⟩ := hv
      exact .value ⟨_, rfl⟩
  | cons _ _ ihh iht =>
      exact .of_succ ((ihh hγ).bind fun v hv => (iht hγ).bind fun w hw => .value ⟨hv, hw⟩)
  | isEmpty _ ih =>
      refine .of_succ ((ih hγ).bind fun v hv => ?_)
      obtain rfl | ⟨hd, tl, rfl, -, -⟩ := hv.nil_or_cons <;> exact .value ⟨_, rfl⟩
  | head _ ih =>
      refine .of_succ ((ih hγ).bind fun v hv => ?_)
      obtain rfl | ⟨hd, tl, rfl, hh, -⟩ := hv.nil_or_cons
      · exact .error _
      · exact .value hh
  | tail _ ih =>
      refine .of_succ ((ih hγ).bind fun v hv => ?_)
      obtain rfl | ⟨hd, tl, rfl, -, ht⟩ := hv.nil_or_cons
      · exact .error _
      · exact .value ht

/-- The evaluation of a typed program ends, and so running a program always
gives an answer, which is the same for every greater depth. -/
theorem run_answers {t : Term} {d : Discipline} (hc : d = .unification → t.Concrete) :
    (∀ A, d.typeOf .empty t = .ok A → ∃ r, t.Evaluates r) ∧
      ∃ r depth, ∀ e, depth ≤ e →
        ({ discipline := d, context := .empty } : Program).run e t = .ofExcept r := by
  have ends : ∀ A, d.typeOf .empty t = .ok A →
      ∃ r depth, ∀ e, depth ≤ e → t.evaluate e = .ofExcept r := by
    intro A hA
    have halts := halts_of_hasType (hasType_of_typeOf hc hA) .empty
    rw [Term.fill_var] at halts
    obtain ⟨r, -, hr⟩ := halts
    exact ⟨r, hr⟩
  refine ⟨fun A hA => ?_, ?_⟩
  · obtain ⟨r, depth, hr⟩ := ends A hA
    exact ⟨r, depth, hr depth (Nat.le_refl depth)⟩
  · cases hA : d.typeOf .empty t with
    | error e =>
        refine ⟨.error (.typing e), 0, fun k _ => ?_⟩
        simp [Program.run, Program.typeOf, hA, Outcome.ofExcept, Outcome.mapError]
    | ok A =>
        obtain ⟨r, depth, hr⟩ := ends A hA
        exact ⟨_, depth, fun k hk => Program.run_eq_ofExcept hA (hr k hk)⟩

/-- A function that is bound by a `let`, and applies its argument twice. -/
theorem run_answers_letTwice :
    Discipline.unification.typeOf .empty Sample.letTwice.term = .ok .int ∧
      (∃ r, Sample.letTwice.term.Evaluates r) ∧
      ∃ r depth, ∀ e, depth ≤ e →
        ({ discipline := .unification, context := .empty } : Program).run e
          Sample.letTwice.term = .ofExcept r := by
  have typed : Discipline.unification.typeOf .empty Sample.letTwice.term = .ok .int := by cbv
  obtain ⟨ends, answers⟩ := run_answers (t := Sample.letTwice.term) (d := .unification)
    fun _ => by decide
  exact ⟨typed, ends .int typed, answers⟩

end TypedLambda
