import TypedLambda.Ty.Substitution

/-!
Unification of types.

`unify l r` finds a substitution that makes `l` and `r` equal, or names the two types, somewhere
inside, that clash. Arrows are unified from left to right: the second sides are compared after the
substitution of the first sides has been applied to both, which can make them larger than the
arrows themselves. The recursion ends nevertheless. A substitution in solved form that binds
something removes a variable from both second sides (`effort_apply_lt`), so the number of
different variables falls, and where nothing is bound the second sides are parts of the arrows.

For this the recursion has to know that its own results are in solved form. `solve` therefore
returns its substitution with that fact; `unify` forgets it, and `unify_eq` is the equation by
which `unify` is reasoned about.
-/

namespace TypedLambda

structure Clash where
  left : Ty
  right : Ty
  deriving DecidableEq

namespace Ty

def variety (l r : Ty) : Nat := (Name.sorted (l.vars ++ r.vars)).length

/-- What unifying two types can take: first the number of different variables counts, then the
size of the types. -/
def effort (l r : Ty) : Nat × Nat := (variety l r, l.size + r.size)

abbrev Less : Nat × Nat → Nat × Nat → Prop := Prod.Lex (· < ·) (· < ·)

theorem effort_lt_of_subset {l r l' r' : Ty}
    (hv : ∀ x ∈ l'.vars ++ r'.vars, x ∈ l.vars ++ r.vars)
    (hs : l'.size + r'.size < l.size + r.size) : Less (effort l' r') (effort l r) := by
  rcases Nat.lt_or_eq_of_le (Name.length_sorted_le hv) with h | h
  · exact Prod.Lex.left _ _ h
  · rw [effort, effort, variety, variety, h]
    exact Prod.Lex.right _ hs

theorem effort_dom_lt (a b c d : Ty) : Less (effort a c) (effort (arrow a b) (arrow c d)) := by
  refine effort_lt_of_subset (fun x hx => ?_) (by simp only [size]; omega)
  simp only [vars, List.mem_append] at hx ⊢
  exact hx.elim (fun h => .inl (.inl h)) fun h => .inr (.inl h)

theorem effort_elem_lt (a b : Ty) : Less (effort a b) (effort (list a) (list b)) :=
  effort_lt_of_subset (fun _ hx => hx) (by simp only [size]; omega)

theorem mem_vars_arrows {a b c d : Ty} {x : Name} (h : x ∈ a.vars ++ c.vars) :
    x ∈ (arrow a b).vars ++ (arrow c d).vars := by
  simp only [vars, List.mem_append] at h ⊢
  exact h.elim (fun h => .inl (.inl h)) fun h => .inr (.inl h)

/-- The second sides of two arrows, under a unifier of the first sides, have variables of the
arrows only, and none that the unifier binds. -/
theorem mem_vars_second {a b c d : Ty} {σ : Substitution} (hσ : σ.Solved)
    (hw : σ.Within (a.vars ++ c.vars)) {x : Name}
    (h : x ∈ (σ.apply b).vars ++ (σ.apply d).vars) :
    x ∉ σ.keys ∧ x ∈ (arrow a b).vars ++ (arrow c d).vars := by
  rcases List.mem_append.1 h with h | h <;>
    obtain ⟨hk, h | h⟩ := Substitution.mem_vars_apply hσ h
  · exact ⟨hk, by simp [vars, h]⟩
  · exact ⟨hk, mem_vars_arrows (hw.range_mem x h)⟩
  · exact ⟨hk, by simp [vars, h]⟩
  · exact ⟨hk, mem_vars_arrows (hw.range_mem x h)⟩

/-- A unifier of the first sides of two arrows leaves less effort for the second sides. -/
theorem effort_apply_lt {a b c d : Ty} {σ : Substitution} (hσ : σ.Solved)
    (hw : σ.Within (a.vars ++ c.vars)) :
    Less (effort (σ.apply b) (σ.apply d)) (effort (arrow a b) (arrow c d)) := by
  by_cases hk : σ.keys = []
  · have same (t : Ty) : σ.apply t = t := Substitution.apply_of_disjoint (by simp [hk])
    refine effort_lt_of_subset (fun x hx => (mem_vars_second hσ hw hx).2) ?_
    simp only [same, size]
    omega
  · obtain ⟨k, hk⟩ := List.exists_mem_of_ne_nil _ hk
    exact Prod.Lex.left _ _ <|
      Name.length_sorted_lt (fun x hx => (mem_vars_second hσ hw hx).2)
        (mem_vars_arrows (hw.keys_mem k hk)) fun h => (mem_vars_second hσ hw h).1 hk

theorem solved_compose_arrow {a b c d : Ty} {σ τ : Substitution}
    (hσ : σ.Solved ∧ σ.Within (a.vars ++ c.vars))
    (hτ : τ.Solved ∧ τ.Within ((σ.apply b).vars ++ (σ.apply d).vars)) :
    (σ.compose τ).Solved ∧
      (σ.compose τ).Within ((arrow a b).vars ++ (arrow c d).vars) :=
  ⟨Substitution.solved_compose hσ.1 hτ.1
      fun k hk hr => (mem_vars_second hσ.1 hσ.2 (hτ.2.range_mem k hr)).1 hk,
    (hσ.2.mono fun _ h => mem_vars_arrows h).compose
      (hτ.2.mono fun _ h => (mem_vars_second hσ.1 hσ.2 h).2)⟩

/-! ### The algorithm -/

/-- A substitution in solved form that mentions variables of `l` and `r` only. -/
abbrev Solution (l r : Ty) : Type :=
  { σ : Substitution // σ.Solved ∧ σ.Within (l.vars ++ r.vars) }

namespace Solution

def none (l r : Ty) : Solution l r :=
  ⟨.empty, Substitution.solved_empty, Substitution.within_empty _⟩

def bindLeft {x : Name} {r : Ty} (h : ¬r.occurs x) : Solution (.var x) r :=
  ⟨.single x r, Substitution.solved_single fun hx => h (occurs_iff.2 hx),
    Substitution.within_single (by simp [vars]) fun y hy => by simp [hy]⟩

def bindRight {x : Name} {l : Ty} (h : ¬l.occurs x) : Solution l (.var x) :=
  ⟨.single x l, Substitution.solved_single fun hx => h (occurs_iff.2 hx),
    Substitution.within_single (by simp [vars]) fun y hy => by simp [hy]⟩

end Solution

/-- Unifies two types, and says with the unifier that it is in solved form. -/
def solve (l r : Ty) : Except Clash (Solution l r) :=
  if l = r then .ok (.none l r)
  else
    match l, r with
    | .var x, t => if h : t.occurs x then .error ⟨.var x, t⟩ else .ok (.bindLeft h)
    | t, .var x => if h : t.occurs x then .error ⟨t, .var x⟩ else .ok (.bindRight h)
    | .arrow a b, .arrow c d =>
      match solve a c with
      | .error clash => .error clash
      | .ok σ =>
        match solve (σ.1.apply b) (σ.1.apply d) with
        | .error clash => .error clash
        | .ok τ => .ok ⟨σ.1.compose τ.1, solved_compose_arrow σ.2 τ.2⟩
    | .list a, .list b =>
      match solve a b with
      | .error clash => .error clash
      | .ok σ => .ok ⟨σ.1, σ.2⟩
    | l, r => .error ⟨l, r⟩
termination_by effort l r
decreasing_by
  · exact effort_dom_lt a b c d
  · exact effort_apply_lt σ.2.1 σ.2.2
  · exact effort_elem_lt a b

def unify (l r : Ty) : Except Clash Substitution := (solve l r).map Subtype.val

/-- How `unify` proceeds: equal types need nothing, a variable is bound to a type in which it does
not occur, arrows are unified side by side, lists by their elements, and all else clashes. -/
theorem unify_eq (l r : Ty) : unify l r =
    if l = r then .ok .empty
    else
      match l, r with
      | .var x, t => if t.occurs x then .error ⟨.var x, t⟩ else .ok (.single x t)
      | t, .var x => if t.occurs x then .error ⟨t, .var x⟩ else .ok (.single x t)
      | .arrow a b, .arrow c d => do
        let σ ← unify a c
        let τ ← unify (σ.apply b) (σ.apply d)
        return σ.compose τ
      | .list a, .list b => unify a b
      | l, r => .error ⟨l, r⟩ := by
  unfold unify
  rw [solve.eq_def]
  split
  · rfl
  · split
    · split <;> rfl
    · split <;> rfl
    · next a b c d _ =>
      cases hσ : solve a c with
      | error clash => rfl
      | ok σ =>
        cases hτ : solve (σ.1.apply b) (σ.1.apply d) with
        | error clash => simp [Except.map, bind, Except.bind, hτ]
        | ok τ => simp [Except.map, bind, Except.bind, pure, Except.pure, hτ]
    · next a b _ => cases solve a b <;> rfl
    · rfl

/-- A unifier is in solved form, and its variables are variables of the two types. -/
theorem solved_of_unify {l r : Ty} {σ : Substitution} (h : unify l r = .ok σ) :
    σ.Solved ∧ σ.Within (l.vars ++ r.vars) := by
  unfold unify at h
  cases hs : solve l r with
  | error clash => simp [hs, Except.map] at h
  | ok s =>
    simp only [hs, Except.map, Except.ok.injEq] at h
    exact h ▸ s.2

end Ty

end TypedLambda
