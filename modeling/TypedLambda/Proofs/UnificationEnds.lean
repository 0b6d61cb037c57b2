import TypedLambda.Evaluation.Outcome
import TypedLambda.Proofs.MostGeneral

/-!
Unification ends.

`unifyWithin` is unification with a bound on how deep its calls are nested,
and without any thought of whether they end. They do: some depth suffices for
every two types, and then `unify` is what every greater depth finds
(`unifyWithin_eventually`). The reason is that every call takes less effort
than the call that asks for it (`Calls.less`), and not that types get smaller.
The second sides of two arrows are compared after the unifier of the first
sides has been applied to them, and this can make them larger than the arrows
by any factor (`size_outgrown`). What falls is the number of different
variables: a unifier that binds something removes a variable from both sides
and brings in none, and one that binds nothing changes nothing.
-/

namespace TypedLambda.Ty

variable {l r : Ty} {m n : Nat}

/-! ### Unification with a bounded depth -/

/-- One call of unification. What it asks further calls for is answered by
`call`, and a clash is left to `fail`. -/
def unifyStep {m : Type → Type} [Monad m] (fail : Clash → m Substitution)
    (call : Ty → Ty → m Substitution) (l r : Ty) : m Substitution :=
  if l = r then pure .empty
  else
    match l, r with
    | .var x, t => if t.occurs x then fail ⟨.var x, t⟩ else pure (.single x t)
    | t, .var x => if t.occurs x then fail ⟨t, .var x⟩ else pure (.single x t)
    | .arrow a b, .arrow c d => do
      let σ ← call a c
      let τ ← call (σ.apply b) (σ.apply d)
      return σ.compose τ
    | .list a, .list b => call a b
    | l, r => fail ⟨l, r⟩

theorem unify_eq_step (l r : Ty) : l.unify r = unifyStep .error unify l r := unify_eq l r

/-- Unifies two types with at most the given depth of nested calls. -/
def unifyWithin : Nat → Ty → Ty → Outcome Clash Substitution
  | 0, _, _ => .unfinished
  | depth + 1, l, r => unifyStep .error (unifyWithin depth) l r

theorem ofExcept_unifyStep (call : Ty → Ty → Except Clash Substitution) (l r : Ty) :
    Outcome.ofExcept (unifyStep .error call l r) =
      unifyStep .error (fun l r => .ofExcept (call l r)) l r := by
  unfold unifyStep
  split
  · rfl
  · split
    · split <;> rfl
    · split <;> rfl
    · simp only [Outcome.ofExcept_bind]
      rfl
    · rfl
    · rfl

theorem unifyStep_approx {f g : Ty → Ty → Outcome Clash Substitution}
    (h : ∀ l r, (f l r).Approx (g l r)) (l r : Ty) :
    (unifyStep .error f l r).Approx (unifyStep .error g l r) := by
  unfold unifyStep
  split
  · exact .refl _
  · split
    · exact .refl _
    · exact .refl _
    · exact (h _ _).bind fun σ => (h _ _).bind fun τ => .refl _
    · exact h _ _
    · exact .refl _

theorem unifyWithin_approx_succ (depth : Nat) (l r : Ty) :
    (unifyWithin depth l r).Approx (unifyWithin (depth + 1) l r) := by
  induction depth generalizing l r with
  | zero => exact .inl rfl
  | succ depth ih => exact unifyStep_approx ih l r

theorem unifyWithin_approx (h : m ≤ n) (l r : Ty) :
    (unifyWithin m l r).Approx (unifyWithin n l r) := by
  induction h with
  | refl => exact .refl _
  | step _ ih => exact ih.trans (unifyWithin_approx_succ _ l r)

theorem unifyWithin_of_le {o : Except Clash Substitution} (h : m ≤ n)
    (hm : unifyWithin m l r = .ofExcept o) : unifyWithin n l r = .ofExcept o :=
  Outcome.Approx.eq_ofExcept (hm ▸ unifyWithin_approx h l r)

/-- Some depth suffices, and then the outcome is the one of `unify`. -/
theorem exists_unifyWithin (l r : Ty) :
    ∃ depth, unifyWithin depth l r = .ofExcept (l.unify r) := by
  induction l, r using effort_induction with
  | step l r ih =>
      suffices h : ∃ depth, unifyStep .error (unifyWithin depth) l r =
          unifyStep .error (fun l r => .ofExcept (l.unify r)) l r by
        obtain ⟨depth, h⟩ := h
        exact ⟨depth + 1, by rw [unifyWithin, h, unify_eq_step, ofExcept_unifyStep]⟩
      unfold unifyStep
      split
      · exact ⟨0, rfl⟩
      · split
        · exact ⟨0, rfl⟩
        · exact ⟨0, rfl⟩
        · next a b c d _ =>
          beta_reduce
          obtain ⟨m, hm⟩ := ih a c (effort_dom_lt a b c d)
          cases hσ : a.unify c with
          | error clash =>
              refine ⟨m, ?_⟩
              rw [hm, hσ]
              rfl
          | ok σ =>
              obtain ⟨hsolved, hwithin⟩ := solved_of_unify hσ
              obtain ⟨n, hn⟩ := ih _ _ (effort_apply_lt hsolved hwithin)
              -- both calls are made from the same depth
              refine ⟨max m n, ?_⟩
              rw [unifyWithin_of_le (le_max_left m n) hm, hσ]
              simp only [Outcome.ofExcept, Outcome.value_bind]
              rw [unifyWithin_of_le (le_max_right m n) hn]
              rfl
        · exact ih _ _ (effort_elem_lt _ _)
        · exact ⟨0, rfl⟩

theorem unifyWithin_eventually (l r : Ty) :
    ∃ depth, ∀ d ≥ depth, unifyWithin d l r = .ofExcept (l.unify r) := by
  obtain ⟨depth, h⟩ := exists_unifyWithin l r
  exact ⟨depth, fun d hd => unifyWithin_of_le hd h⟩

theorem unify_of_unifyWithin {o : Except Clash Substitution}
    (h : unifyWithin n l r = .ofExcept o) : l.unify r = o := by
  obtain ⟨depth, hd⟩ := unifyWithin_eventually l r
  refine Outcome.ofExcept_injective ?_
  rw [← hd _ (le_max_right n depth), unifyWithin_of_le (le_max_left n depth) h]

/-! ### The calls and their effort -/

/-- The pairs of types for which unification, called with two types, calls
itself. The second sides of arrows are reached once a call for the first sides
has found a substitution, at whatever depth. -/
inductive Calls : Ty × Ty → Ty × Ty → Prop
  | dom {a b c d : Ty} : arrow a b ≠ arrow c d → Calls (a, c) (arrow a b, arrow c d)
  | cod {a b c d : Ty} {depth : Nat} {σ : Substitution} : arrow a b ≠ arrow c d →
      unifyWithin depth a c = .value σ →
      Calls (σ.apply b, σ.apply d) (arrow a b, arrow c d)
  | elem {a b : Ty} : list a ≠ list b → Calls (a, b) (list a, list b)

theorem Calls.less {p q : Ty × Ty} (h : Calls p q) :
    Less (effort p.1 p.2) (effort q.1 q.2) := by
  cases h with
  | dom => exact effort_dom_lt ..
  | cod _ hσ =>
      obtain ⟨hsolved, hwithin⟩ := solved_of_unify (unify_of_unifyWithin (o := .ok _) hσ)
      exact effort_apply_lt hsolved hwithin
  | elem => exact effort_elem_lt ..

theorem wellFounded_calls : WellFounded Calls := by
  have falls : Subrelation Calls (InvImage Less fun p : Ty × Ty => effort p.1 p.2) :=
    fun h => h.less
  exact falls.wf (InvImage.wf _ (wellFounded_lt.prod_lex wellFounded_lt))

/-! ### Sizes -/

def spread (t : Ty) : Nat → Ty
  | 0 => t
  | n + 1 => arrow (spread t n) (spread t n)

theorem size_spread (t : Ty) (n : Nat) : (spread t n).size + 1 = 2 ^ n * (t.size + 1) := by
  induction n with
  | zero => simp [spread]
  | succ n ih =>
      calc
        (spread t (n + 1)).size + 1 = 2 * ((spread t n).size + 1) := by
          rw [spread, size]
          omega
        _ = 2 ^ (n + 1) * (t.size + 1) := by
          rw [ih]
          ring

theorem replace_spread (t : Ty) (x : Name) (r : Ty) (n : Nat) :
    (spread t n).replace x r = spread (t.replace x r) n := by
  induction n with
  | zero => rfl
  | succ n ih => rw [spread, replace, ih, spread]

theorem vars_spread (h : r.vars = []) (n : Nat) : (spread r n).vars = [] := by
  induction n with
  | zero => exact h
  | succ n ih => rw [spread, vars, ih, List.append_nil]

theorem unifyWithin_var {x : Name} {t : Ty} (hx : x ∉ t.vars) :
    unifyWithin 1 (.var x) t = .value (.single x t) := by
  have hne : var x ≠ t := fun heq => hx (heq ▸ List.mem_singleton.2 rfl)
  have hoccurs : ¬ t.occurs x = true := fun h => hx (occurs_iff.1 h)
  rw [unifyWithin, unifyStep, if_neg hne]
  exact if_neg hoccurs

/-- No factor bounds how much larger the second sides of two arrows become
under the unifier of the first sides than the arrows are. -/
theorem size_outgrown (k : Nat) : ∃ a b c d σ,
    Calls (Substitution.apply σ b, σ.apply d) (arrow a b, arrow c d) ∧
      k * ((arrow a b).size + (arrow c d).size) < (σ.apply b).size + (σ.apply d).size := by
  let n := k + 2
  let c := spread bool n
  have hσ : unifyWithin 1 (var "a") c = .value (.single "a" c) :=
    unifyWithin_var (by rw [vars_spread rfl]; exact List.not_mem_nil)
  refine ⟨var "a", spread (var "a") n, c, bool, _, .cod (by simp [c, n, spread]) hσ, ?_⟩
  have hb := size_spread (var "a") n
  have hc : c.size + 1 = 2 ^ n * 2 := size_spread bool n
  have hbefore : (arrow (var "a") (spread (var "a") n)).size + (arrow c bool).size =
      4 * 2 ^ n + 2 := by
    simp only [size] at hb ⊢
    omega
  have hafter : ((spread (var "a") n).replace "a" c).size + (bool.replace "a" c).size =
      2 * (2 ^ n * 2 ^ n) := by
    rw [replace_spread]
    calc
      (spread c n).size + 1 = 2 ^ n * (c.size + 1) := size_spread c n
      _ = 2 * (2 ^ n * 2 ^ n) := by
        rw [hc]
        ring
  have hk : 4 * k < 2 ^ n := by
    have := Nat.lt_two_pow_self (n := k)
    simp only [n, pow_add]
    omega
  rw [Substitution.apply_single, Substitution.apply_single, hbefore, hafter]
  calc
    k * (4 * 2 ^ n + 2) = 4 * k * 2 ^ n + 2 * k := by ring
    _ < 2 ^ n * 2 ^ n + 2 ^ n * 2 ^ n := by
      have := Nat.mul_lt_mul_of_pos_right hk (Nat.two_pow_pos n)
      have := Nat.le_mul_of_pos_left (2 ^ n) (Nat.two_pow_pos n)
      omega
    _ = 2 * (2 ^ n * 2 ^ n) := by ring

/-! ### Termination -/

/-- Every call that unification makes takes less effort than the call that
makes it: there are fewer different variables, or as many and the types are
smaller. So calls are nested to a finite depth only, and for all types the
depth that they need is there and `unify` is what is found. This is so
although the types that a call is made for can be larger by any factor. -/
theorem unify_terminates :
    (∀ l r l' r', Calls (l', r') (l, r) → Less (effort l' r') (effort l r)) ∧
      WellFounded Calls ∧
      (∀ l r, ∃ depth, ∀ d ≥ depth, unifyWithin d l r = .ofExcept (l.unify r)) ∧
      ∀ k, ∃ a b c d σ, Calls (Substitution.apply σ b, σ.apply d) (arrow a b, arrow c d) ∧
        k * ((arrow a b).size + (arrow c d).size) < (σ.apply b).size + (σ.apply d).size :=
  ⟨fun _ _ _ _ h => h.less, wellFounded_calls, unifyWithin_eventually, size_outgrown⟩

/-- The second sides have four constructors more than the arrows, and one
variable less. -/
theorem unify_terminates_grown :
    let elem : Ty := list (list (list (list int)))
    let l : Ty := arrow (var "a") (arrow (var "a") (arrow (var "a") (var "a")))
    let r : Ty := arrow elem bool
    let l' : Ty := arrow elem (arrow elem elem)
    Calls (l', bool) (l, r) ∧ l.size + r.size + 4 = l'.size + bool.size ∧
      Less (effort l' bool) (effort l r) := by
  intro elem l r l'
  have found : unifyWithin 1 (var "a") elem = .value (.single "a" elem) :=
    unifyWithin_var (by decide)
  have calls : Calls (l', bool) (l, r) :=
    .cod (b := arrow (var "a") (arrow (var "a") (var "a"))) (d := bool) (by decide) found
  exact ⟨calls, rfl, unify_terminates.1 _ _ _ _ calls⟩

end TypedLambda.Ty
