import TypedLambda.OrderedMap
import TypedLambda.Ty.Basic

/-!
Substitutions, the ordered maps from type variables to types, and contexts.

`apply` works through the entries one at a time, the last one first, so an entry may put variables
in that an earlier entry replaces again. In a substitution in solved form no bound variable stands
in a bound type; there the order makes no difference, and `mem_vars_apply` says that applying it
leaves none of its bound variables. `compose` keeps solved forms where the second substitution
does not speak of what the first one has replaced.

A context has the types of the variables that a term may use, in the order in which they were
bound; a substitution is applied to all of them.
-/

namespace TypedLambda

abbrev Substitution := OrderedMap Ty

namespace Substitution

/-- Replaces the bound variables one at a time, the variable bound last first. -/
def apply (σ : Substitution) (t : Ty) : Ty :=
  σ.entries.foldr (fun e acc => acc.replace e.1 e.2) t

/-- What is known after `τ` has been learned on top of `σ`: `τ` is applied to the types of `σ`,
and where both bind a variable `τ` decides. -/
def compose (σ τ : Substitution) : Substitution :=
  (σ.map τ.apply).union τ

def rangeVars (σ : Substitution) : List Name := σ.values.flatMap Ty.vars

def render (σ : Substitution) : String := OrderedMap.render Ty.render σ

/-! ### Applying a substitution -/

@[simp] theorem apply_single (x : Name) (r t : Ty) : apply (.single x r) t = t.replace x r := rfl

theorem mem_rangeVars {σ : Substitution} {y : Name} :
    y ∈ σ.rangeVars ↔ ∃ e ∈ σ.entries, y ∈ e.2.vars := by
  simp only [rangeVars, OrderedMap.values, List.mem_flatMap, List.mem_map]
  constructor
  · rintro ⟨_, ⟨e, he, rfl⟩, hy⟩
    exact ⟨e, he, hy⟩
  · rintro ⟨e, he, hy⟩
    exact ⟨_, ⟨e, he, rfl⟩, hy⟩

def Solved (σ : Substitution) : Prop := ∀ k ∈ σ.keys, k ∉ σ.rangeVars

/-- All variables of a substitution, bound ones and those of the bound types, are among `xs`. -/
structure Within (xs : List Name) (σ : Substitution) : Prop where
  keys_mem : ∀ k ∈ σ.keys, k ∈ xs
  range_mem : ∀ y ∈ σ.rangeVars, y ∈ xs

theorem Within.mono {xs ys : List Name} {σ : Substitution} (h : Within xs σ)
    (hs : ∀ x ∈ xs, x ∈ ys) : Within ys σ :=
  ⟨fun k hk => hs k (h.keys_mem k hk), fun y hy => hs y (h.range_mem y hy)⟩

theorem mem_vars_or_rangeVars {σ : Substitution} {t : Ty} {y : Name} (hy : y ∈ (σ.apply t).vars) :
    y ∈ t.vars ∨ y ∈ σ.rangeVars := by
  suffices key : ∀ es : List (Name × Ty), (∀ e ∈ es, e ∈ σ.entries) →
      y ∈ (es.foldr (fun e acc => acc.replace e.1 e.2) t).vars → y ∈ t.vars ∨ y ∈ σ.rangeVars from
    key σ.entries (fun _ h => h) hy
  intro es
  induction es with
  | nil => intro _ h; exact .inl h
  | cons e rest ih =>
    intro hsub h
    rcases Ty.mem_vars_replace.1 h with ⟨hacc, -⟩ | ⟨-, hr⟩
    · exact ih (fun d hd => hsub d (List.mem_cons_of_mem _ hd)) hacc
    · exact .inr (mem_rangeVars.2 ⟨e, hsub e List.mem_cons_self, hr⟩)

/-- After a substitution in solved form is applied, no bound variable is left, and every variable
comes from the type or from a bound type. -/
theorem mem_vars_apply {σ : Substitution} (hσ : σ.Solved) {t : Ty} {y : Name}
    (hy : y ∈ (σ.apply t).vars) : y ∉ σ.keys ∧ (y ∈ t.vars ∨ y ∈ σ.rangeVars) := by
  refine ⟨?_, mem_vars_or_rangeVars hy⟩
  suffices key : ∀ es : List (Name × Ty), (∀ e ∈ es, e ∈ σ.entries) →
      y ∈ (es.foldr (fun e acc => acc.replace e.1 e.2) t).vars → y ∉ es.map Prod.fst from
    key σ.entries (fun _ h => h) hy
  intro es
  induction es with
  | nil => intro _ _; simp
  | cons e rest ih =>
    intro hsub h
    rcases Ty.mem_vars_replace.1 h with ⟨hacc, hne⟩ | ⟨-, hr⟩
    · have hk := ih (fun d hd => hsub d (List.mem_cons_of_mem _ hd)) hacc
      exact fun hmem => (List.mem_cons.1 hmem).elim hne hk
    · have hrange : y ∈ σ.rangeVars := mem_rangeVars.2 ⟨e, hsub e List.mem_cons_self, hr⟩
      intro hk
      obtain ⟨d, hd, rfl⟩ := List.mem_map.1 hk
      exact hσ d.1 (List.mem_map.2 ⟨d, hsub d hd, rfl⟩) hrange

theorem apply_of_disjoint {σ : Substitution} {t : Ty} (h : ∀ k ∈ σ.keys, k ∉ t.vars) :
    σ.apply t = t := by
  suffices key : ∀ es : List (Name × Ty), (∀ e ∈ es, e ∈ σ.entries) →
      es.foldr (fun e acc => acc.replace e.1 e.2) t = t from key σ.entries fun _ h => h
  intro es
  induction es with
  | nil => intro _; rfl
  | cons e rest ih =>
    intro hsub
    rw [List.foldr_cons, ih fun d hd => hsub d (List.mem_cons_of_mem _ hd)]
    exact Ty.replace_of_not_mem
      (h e.1 (List.mem_map.2 ⟨e, hsub e List.mem_cons_self, rfl⟩))

/-! ### Solved forms -/

theorem solved_empty : Solved .empty := fun _ h => absurd h (by simp)

theorem within_empty (xs : List Name) : Within xs .empty :=
  ⟨fun _ h => absurd h (by simp), fun _ h => absurd h (by simp [rangeVars, OrderedMap.values])⟩

theorem solved_single {x : Name} {r : Ty} (h : x ∉ r.vars) : Solved (.single x r) := by
  intro k hk
  simp only [OrderedMap.keys_single, List.mem_singleton] at hk
  simpa [hk, rangeVars] using h

theorem within_single {xs : List Name} {x : Name} {r : Ty} (hx : x ∈ xs)
    (hr : ∀ y ∈ r.vars, y ∈ xs) : Within xs (.single x r) := by
  constructor
  · intro k hk
    simp only [OrderedMap.keys_single, List.mem_singleton] at hk
    exact hk ▸ hx
  · intro y hy
    exact hr y (by simpa [rangeVars] using hy)

@[simp] theorem mem_keys_compose {σ τ : Substitution} {k : Name} :
    k ∈ (σ.compose τ).keys ↔ k ∈ σ.keys ∨ k ∈ τ.keys := by
  simp [compose]

theorem get?_compose (σ τ : Substitution) (k : Name) :
    (σ.compose τ).get? k = (τ.get? k).or ((σ.get? k).map τ.apply) := by
  simp [compose, OrderedMap.get?_union]

theorem mem_rangeVars_of_get? {σ : Substitution} {k y : Name} {t : Ty} (h : σ.get? k = some t)
    (hy : y ∈ t.vars) : y ∈ σ.rangeVars :=
  mem_rangeVars.2 ⟨_, OrderedMap.get?_eq_some_iff.1 h, hy⟩

theorem exists_get?_of_mem_rangeVars {σ : Substitution} {y : Name} (h : y ∈ σ.rangeVars) :
    ∃ k t, σ.get? k = some t ∧ y ∈ t.vars := by
  obtain ⟨e, he, hy⟩ := mem_rangeVars.1 h
  exact ⟨e.1, e.2, OrderedMap.get?_eq_some_iff.2 he, hy⟩

theorem mem_rangeVars_compose {σ τ : Substitution} (hτ : τ.Solved) {y : Name}
    (h : y ∈ (σ.compose τ).rangeVars) : y ∈ τ.rangeVars ∨ (y ∈ σ.rangeVars ∧ y ∉ τ.keys) := by
  obtain ⟨k, t, hk, hy⟩ := exists_get?_of_mem_rangeVars h
  rw [get?_compose] at hk
  cases hτk : τ.get? k with
  | some u =>
    simp only [hτk, Option.some_or, Option.some.injEq] at hk
    exact .inl (mem_rangeVars_of_get? hτk (hk ▸ hy))
  | none =>
    cases hσk : σ.get? k with
    | none => simp [hτk, hσk] at hk
    | some u =>
      simp only [hτk, hσk, Option.none_or, Option.map_some, Option.some.injEq] at hk
      subst hk
      obtain ⟨hn, ho⟩ := mem_vars_apply hτ hy
      exact ho.elim (fun hu => .inr ⟨mem_rangeVars_of_get? hσk hu, hn⟩) .inl

/-- A composition is in solved form if both parts are and the second one does not mention what
the first one binds. -/
theorem solved_compose {σ τ : Substitution} (hσ : σ.Solved) (hτ : τ.Solved)
    (h : ∀ k ∈ σ.keys, k ∉ τ.rangeVars) : (σ.compose τ).Solved := by
  intro k hk hr
  rcases mem_rangeVars_compose hτ hr with ht | ⟨hs, hn⟩
  · exact (mem_keys_compose.1 hk).elim (fun hks => h k hks ht) (fun hkt => hτ k hkt ht)
  · exact (mem_keys_compose.1 hk).elim (fun hks => hσ k hks hs) hn

theorem Within.compose {xs : List Name} {σ τ : Substitution} (hσ : Within xs σ)
    (hτ : Within xs τ) : Within xs (σ.compose τ) := by
  constructor
  · intro k hk
    exact (mem_keys_compose.1 hk).elim (hσ.keys_mem k) (hτ.keys_mem k)
  · intro y hy
    obtain ⟨k, t, hk, hy⟩ := exists_get?_of_mem_rangeVars hy
    rw [get?_compose, Option.or_eq_some_iff] at hk
    rcases hk with hk | ⟨-, hk⟩
    · exact hτ.range_mem y (mem_rangeVars_of_get? hk hy)
    · obtain ⟨u, hu, rfl⟩ := Option.map_eq_some_iff.1 hk
      exact (mem_vars_or_rangeVars hy).elim
        (fun h => hσ.range_mem y (mem_rangeVars_of_get? hu h)) (hτ.range_mem y)

theorem Within.apply {xs : List Name} {σ : Substitution} {t : Ty} (hσ : Within xs σ)
    (ht : ∀ y ∈ t.vars, y ∈ xs) : ∀ y ∈ (σ.apply t).vars, y ∈ xs :=
  fun y hy => (mem_vars_or_rangeVars hy).elim (ht y) (hσ.range_mem y)

end Substitution

/-! ### Contexts -/

abbrev Context := OrderedMap Ty

namespace Context

def replace (Γ : Context) (a : Name) (r : Ty) : Context := Γ.map fun t => t.replace a r

def tyVars (Γ : Context) : List Name := Γ.values.flatMap Ty.vars

def render (Γ : Context) : String := OrderedMap.render Ty.render Γ

end Context

def Substitution.applyContext (σ : Substitution) (Γ : Context) : Context := Γ.map σ.apply

@[simp] theorem get?_applyContext (σ : Substitution) (Γ : Context) (x : Name) :
    (σ.applyContext Γ).get? x = (Γ.get? x).map σ.apply :=
  OrderedMap.get?_map σ.apply Γ x

end TypedLambda
